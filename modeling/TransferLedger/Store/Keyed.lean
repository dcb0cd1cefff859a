/-!
# Values by key

What is stored under names is a function from names to values, with a value for every name: a stream
that nobody has written to is empty.  One name at a time gets a new value.
-/

set_option autoImplicit false

namespace TransferLedger.Keyed

variable {κ α : Type} [DecidableEq κ]

/-- The function with a new value for one key. -/
def set (f : κ → α) (key : κ) (v : α) : κ → α :=
  fun k => if k = key then v else f k

@[simp] theorem set_same (f : κ → α) (key : κ) (v : α) : set f key v key = v := by
  simp [set]

theorem set_other (f : κ → α) {key k : κ} (v : α) (h : k ≠ key) : set f key v k = f k := by
  simp [set, h]

@[simp] theorem set_eq_self (f : κ → α) (key : κ) : set f key (f key) = f := by
  funext k
  by_cases h : k = key <;> simp [set, h]

@[simp] theorem set_set (f : κ → α) (key : κ) (v w : α) :
    set (set f key v) key w = set f key w := by
  funext k
  by_cases h : k = key <;> simp [set, h]

theorem set_comm (f : κ → α) {key key' : κ} (v w : α) (h : key ≠ key') :
    set (set f key v) key' w = set (set f key' w) key v := by
  funext k
  by_cases hk : k = key
  · subst hk; simp [set, h]
  · simp [set, hk]

end TransferLedger.Keyed

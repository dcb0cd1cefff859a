import Mathlib.Tactic.Tauto
import TransferLedger.Store.Memory

/-!
# Records that continue a stream

`Continues stream h rs` says that the records `rs` stand in order behind the head `h`: each has
the next position and follows the hash before it.  It is what a medium can check of records that
it is given (`link_eq_ok_iff`), and it says nothing about how the hashes came about.  That each
hash is that of the record's own fields is a property of the single record, `Sealer.Sealed`, and
the two together are `Sealer.Linked`.

Of all that, paging through a stream needs no more than that the positions count up (`Numbered`).
-/

set_option autoImplicit false

namespace TransferLedger

/-- The records stand in order behind a head of the stream. -/
def Continues (stream : String) : Head → List Record → Prop
  | _, [] => True
  | h, r :: rest =>
    r.stream = stream ∧ r.sequence = h.version + 1 ∧ r.previous = h.hash ∧
      Continues stream r.head rest

/-- The positions of the records count up from the given one. -/
def Numbered (first : Nat) (rs : List Record) : Prop :=
  rs.map Record.sequence = List.range' first rs.length

theorem drop_eq_cons {α : Type} {l : List α} {i : Nat} {a : α} (h : l[i]? = some a) :
    l.drop i = a :: l.drop (i + 1) := by
  rw [List.drop_eq_getElem?_toList_append, h]
  rfl

/-! ## The head behind records -/

@[simp] theorem Head.after_nil (h : Head) : h.after [] = h := rfl

@[simp] theorem Head.after_cons (h : Head) (r : Record) (rest : List Record) :
    h.after (r :: rest) = r.head.after rest := rfl

theorem Head.after_append (h : Head) (rs ss : List Record) :
    h.after (rs ++ ss) = (h.after rs).after ss := by
  induction rs generalizing h with
  | nil => rfl
  | cons r rest ih => exact ih r.head

theorem Head.after_of_getLast? {h : Head} {rs : List Record} {r : Record}
    (hl : rs.getLast? = some r) : h.after rs = r.head := by
  obtain ⟨init, rfl⟩ := List.getLast?_eq_some_iff.1 hl
  rw [Head.after_append]
  rfl

/-! ## Positions that count up -/

namespace Numbered

variable {first : Nat} {rs ss : List Record} {x : Record}

theorem cons_iff : Numbered first (x :: rs) ↔ x.sequence = first ∧ Numbered (first + 1) rs := by
  simp [Numbered, List.range'_succ]

theorem append_iff :
    Numbered first (rs ++ ss) ↔ Numbered first rs ∧ Numbered (first + rs.length) ss := by
  induction rs generalizing first with
  | nil => simp [Numbered]
  | cons x rest ih =>
    rw [List.cons_append, cons_iff, cons_iff, ih, List.length_cons, and_assoc,
      show first + 1 + rest.length = first + (rest.length + 1) by omega]

/-- The records from a position on are the last ones. -/
theorem filter_eq_drop (h : Numbered first rs) (start : Nat) :
    rs.filter (fun x => start ≤ x.sequence) = rs.drop (start - first) := by
  induction rs generalizing first with
  | nil => simp
  | cons x rest ih =>
    obtain ⟨hx, hrest⟩ := cons_iff.1 h
    have hlater := ih hrest
    by_cases hs : start ≤ x.sequence
    · rw [List.filter_cons_of_pos (by simpa using hs), hlater,
        show start - first = 0 by omega, show start - (first + 1) = 0 by omega]
      rfl
    · rw [List.filter_cons_of_neg (by simpa using hs), hlater,
        show start - first = start - (first + 1) + 1 by omega]
      rfl

end Numbered

namespace Continues

variable {stream : String} {h : Head} {rs ss : List Record}

theorem append_iff : Continues stream h (rs ++ ss) ↔
    Continues stream h rs ∧ Continues stream (h.after rs) ss := by
  induction rs generalizing h with
  | nil => simp [Continues]
  | cons r rest ih => simp only [List.cons_append, Continues, ih, Head.after_cons, and_assoc]

theorem take (hc : Continues stream h rs) (k : Nat) : Continues stream h (rs.take k) := by
  rw [← List.take_append_drop k rs, append_iff] at hc
  exact hc.1

theorem drop (hc : Continues stream h rs) (k : Nat) :
    Continues stream (h.after (rs.take k)) (rs.drop k) := by
  rw [← List.take_append_drop k rs, append_iff] at hc
  exact hc.2

theorem numbered (hc : Continues stream h rs) : Numbered (h.version + 1) rs := by
  induction rs generalizing h with
  | nil => rfl
  | cons r rest ih =>
    obtain ⟨-, hs, -, hr⟩ := hc
    have hrest : Numbered (r.sequence + 1) rest := ih hr
    rw [hs] at hrest
    exact Numbered.cons_iff.2 ⟨hs, hrest⟩

theorem version_after (hc : Continues stream h rs) :
    (h.after rs).version = h.version + rs.length := by
  induction rs generalizing h with
  | nil => rfl
  | cons r rest ih =>
    obtain ⟨-, hs, -, hr⟩ := hc
    rw [Head.after_cons, ih hr, List.length_cons]
    show r.sequence + rest.length = _
    omega

theorem getElem? (hc : Continues stream h rs) {i : Nat} {r : Record} (hi : rs[i]? = some r) :
    r.stream = stream ∧ r.sequence = h.version + 1 + i ∧
      r.previous = (h.after (rs.take i)).hash := by
  induction rs generalizing h i with
  | nil => simp at hi
  | cons x rest ih =>
    obtain ⟨hx, hs, hp, hr⟩ := hc
    cases i with
    | zero =>
      obtain rfl : x = r := by simpa using hi
      exact ⟨hx, hs, hp⟩
    | succ i =>
      obtain ⟨h1, h2, h3⟩ := ih hr (by simpa using hi)
      refine ⟨h1, ?_, h3⟩
      rw [h2]
      show x.sequence + 1 + i = _
      omega

/-- From the start of a stream on, the position of a record is its place in the list. -/
theorem sequence_eq (hc : Continues stream .empty rs) {i : Nat} {r : Record}
    (hi : rs[i]? = some r) : r.sequence = i + 1 := by
  obtain ⟨-, hseq, -⟩ := hc.getElem? hi
  rw [hseq]
  show 0 + 1 + i = i + 1
  omega

theorem of_mem (hc : Continues stream h rs) {r : Record} (hm : r ∈ rs) :
    r.stream = stream ∧ h.version < r.sequence ∧ r.sequence ≤ h.version + rs.length ∧
      rs[r.sequence - h.version - 1]? = some r := by
  obtain ⟨i, hi⟩ := List.mem_iff_getElem?.1 hm
  obtain ⟨h1, h2, -⟩ := hc.getElem? hi
  have hlt : i < rs.length := (List.getElem?_eq_some_iff.1 hi).1
  refine ⟨h1, by omega, by omega, ?_⟩
  rw [h2, show h.version + 1 + i - h.version - 1 = i by omega]
  exact hi

end Continues

/-- A medium takes records exactly if they continue the stream, and knows its new head then. -/
theorem Append.link_eq_ok_iff {stream : String} {h h' : Head} {rs : List Record} :
    Append.link stream h rs = .ok h' ↔ Continues stream h rs ∧ h' = h.after rs := by
  induction rs generalizing h with
  | nil => simp [Append.link, Continues, eq_comm]
  | cons r rest ih =>
    simp only [Append.link, Continues, Head.after_cons]
    by_cases h1 : r.stream ≠ stream ∨ r.sequence ≠ h.version + 1
    · rw [if_pos h1]
      simp only [reduceCtorEq, false_iff]
      rintro ⟨⟨hs, hv, -⟩, -⟩
      exact h1.elim (absurd hs) (absurd hv)
    · rw [if_neg h1]
      have hs : r.stream = stream := by simpa using fun e => h1 (.inl e)
      have hv : r.sequence = h.version + 1 := by simpa using fun e => h1 (.inr e)
      by_cases h2 : r.previous ≠ h.hash
      · rw [if_pos h2]
        simp only [reduceCtorEq, false_iff]
        rintro ⟨⟨-, -, hp, -⟩, -⟩
        exact h2 hp
      · rw [if_neg h2, ih]
        have hp : r.previous = h.hash := by simpa using h2
        simp only [hs, hv, hp, true_and]

/-! ## Sealed records -/

/-- The hash of the record is that of its own fields. -/
def Sealer.Sealed (s : Sealer) (r : Record) : Prop :=
  r.hash = s.hash r.previous r.stream r.sequence r.entry

theorem Sealer.sealed_record (s : Sealer) (stream : String) (h : Head) (e : Entry) :
    s.Sealed (s.record stream h e) := rfl

theorem Sealer.linked_iff {s : Sealer} {stream : String} {h : Head} {rs : List Record} :
    s.Linked stream h rs ↔ Continues stream h rs ∧ ∀ r ∈ rs, s.Sealed r := by
  induction rs generalizing h with
  | nil => simp [Sealer.Linked, Continues]
  | cons r rest ih =>
    simp only [Sealer.Linked, Continues, ih, List.forall_mem_cons, Sealer.Sealed]
    tauto

/-- What entries become behind a head continues the stream from there. -/
theorem Sealer.continues_chain (s : Sealer) (stream : String) (h : Head) (es : List Entry) :
    Continues stream h (s.chain stream h es) := by
  induction es generalizing h with
  | nil => trivial
  | cons e rest ih => exact ⟨rfl, rfl, rfl, ih _⟩

theorem Sealer.linked_chain (s : Sealer) (stream : String) (h : Head) (es : List Entry) :
    s.Linked stream h (s.chain stream h es) := by
  induction es generalizing h with
  | nil => trivial
  | cons e rest ih => exact ⟨rfl, rfl, rfl, rfl, ih _⟩

/-- A cursor follows records that continue the stream and are sealed. -/
theorem Cursor.advance_of_linked {s : Sealer} {stream : String} {h : Head} {r : Record}
    {rest : List Record} (hc : s.Linked stream h (r :: rest)) :
    (⟨stream, h⟩ : Cursor).advance s r = .ok ⟨stream, r.head⟩ := by
  obtain ⟨hs, hv, hp, hh, -⟩ := hc
  have ha : s.accepts r h.hash = true := by
    rw [hp] at hh
    simp [Sealer.accepts, hp, hh]
  simp [Cursor.advance, Cursor.version, Cursor.head, hs, hv, hp, ha]

end TransferLedger

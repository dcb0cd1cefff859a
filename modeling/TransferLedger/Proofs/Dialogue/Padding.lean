import TransferLedger.Proofs.Dialogue.Asking

/-!
# Padded dialogues

One dialogue is another one padded, if it asks for the same things in the same order and in between
for others that come to nothing: it writes down the time and has a snapshot saved, and goes on in
the same way whatever it is told (`Dialogue.Pads`).

Where the snapshots are kept by a store of their own the rest of the surroundings does not notice
the padding.  Whatever the store is and whatever it answers, the padded dialogue comes to the same
result and leaves the rest as the other one does (`Dialogue.Pads.run`).
-/

set_option autoImplicit false

namespace TransferLedger

/-! ## A store of its own -/

/-- Stores for snapshots with states of type `σ`, whatever they answer. -/
class SnapshotStore (σ : Type) where
  save : Snapshot → σ → Except SnapshotError Unit × σ
  load : String → σ → Except SnapshotError (Option Snapshot) × σ

/-- Surroundings in which a store of its own keeps the snapshots. -/
structure Stocked (ω σ : Type) where
  rest : ω
  store : σ

namespace Stocked

variable {ω σ : Type} [Surroundings ω] [SnapshotStore σ]

def answer : (q : Request) → Stocked ω σ → q.Answer × Stocked ω σ
  | .save x, w =>
    let (r, store) := SnapshotStore.save x w.store
    (r, { w with store := store })
  | .load stream, w =>
    let (r, store) := SnapshotStore.load stream w.store
    (r, { w with store := store })
  | q, w =>
    let (r, rest) := Surroundings.answer q w.rest
    (r, { w with rest := rest })

instance : Surroundings (Stocked ω σ) where
  answer := answer

end Stocked

/-- The request is for the store of the snapshots. -/
def Request.ofStore : Request → Bool
  | .save _ => true
  | .load _ => true
  | _ => false

namespace Stocked

variable {ω σ α : Type} [Surroundings ω] [SnapshotStore σ]

theorem answer_of_plain {q : Request} (plain : q.ofStore = false) (w : Stocked ω σ) :
    (Surroundings.answer q w).1 = (Surroundings.answer q w.rest).1 ∧
      (Surroundings.answer q w).2 = { w with rest := (Surroundings.answer q w.rest).2 } := by
  cases q with
  | save | load => cases plain
  | head | page | commit | time | look | confirm | place | perform => exact ⟨rfl, rfl⟩

/-- Who does not turn to the store gets along without it. -/
theorem run_of_plain {t : Dialogue α} (plain : t.Asks fun q => q.ofStore = false)
    (w : Stocked ω σ) :
    t.run w = ((t.run w.rest).1, { w with rest := (t.run w.rest).2 }) := by
  induction t generalizing w with
  | done a => rfl
  | ask q next ih =>
    obtain ⟨hanswer, hleft⟩ := answer_of_plain plain.1 w
    simp only [Dialogue.run, hanswer, hleft]
    exact ih _ (plain.2 _) _

end Stocked

/-- What is asked for the sake of a snapshot. -/
inductive Request.Idle : Request → Prop
  | time : Request.Idle .time
  | save (x : Snapshot) : Request.Idle (.save x)

namespace Dialogue

variable {α α' β β' : Type} {R : α → α' → Prop} {S : β → β' → Prop}

/-- The first dialogue is the second one with idle requests in between.  Their results
correspond. -/
inductive Pads (R : α → α' → Prop) : Dialogue α → Dialogue α' → Prop
  | done {a : α} {a' : α'} (h : R a a') : Pads R (.done a) (.done a')
  | ask {q : Request} {next : q.Answer → Dialogue α} {next' : q.Answer → Dialogue α'}
      (plain : q.ofStore = false) (h : ∀ r, Pads R (next r) (next' r)) :
      Pads R (.ask q next) (.ask q next')
  | idle {q : Request} {next : q.Answer → Dialogue α} {u : Dialogue α'} (idle : q.Idle)
      (h : ∀ r, Pads R (next r) u) : Pads R (.ask q next) u

namespace Pads

theorem bind {t : Dialogue α} {u : Dialogue α'} {f : α → Dialogue β} {g : α' → Dialogue β'}
    (ht : Pads R t u) (hf : ∀ a a', R a a' → Pads S (f a) (g a')) :
    Pads S (t >>= f) (u >>= g) := by
  induction ht with
  | done h => exact hf _ _ h
  | ask plain h ih => exact .ask plain ih
  | idle idle h ih => exact .idle idle ih

/-- A dialogue that asks nothing of the store is itself without any padding. -/
theorem of_asks {t : Dialogue α} (ht : t.Asks fun q => q.ofStore = false) : Pads Eq t t := by
  induction t with
  | done a => exact .done rfl
  | ask q next ih => exact .ask ht.1 fun r => ih r (ht.2 r)

variable {ω σ : Type} [Surroundings ω] [SnapshotStore σ]

theorem rest_of_idle (still : ∀ w : ω, (Surroundings.answer .time w).2 = w) {q : Request}
    (idle : q.Idle) (w : Stocked ω σ) : (Surroundings.answer q w).2.rest = w.rest := by
  cases idle with
  | time => exact still w.rest
  | save x => rfl

/-- Whatever the store answers, the padding makes no difference to the result and to the rest. -/
theorem run (still : ∀ w : ω, (Surroundings.answer .time w).2 = w) {t : Dialogue α}
    {u : Dialogue α'} (h : Pads R t u) (w : Stocked ω σ) :
    R (t.run w).1 (u.run w.rest).1 ∧ (t.run w).2.rest = (u.run w.rest).2 := by
  induction h generalizing w with
  | done h => exact ⟨h, rfl⟩
  | @ask q next next' plain h ih =>
    obtain ⟨hanswer, hleft⟩ := Stocked.answer_of_plain plain w
    simp only [Dialogue.run, hanswer, hleft]
    exact ih _ _
  | @idle q next u idle h ih =>
    have hrun := ih (Surroundings.answer q w).1 (Surroundings.answer q w).2
    rw [rest_of_idle still idle] at hrun
    exact hrun

end Pads

end Dialogue

end TransferLedger

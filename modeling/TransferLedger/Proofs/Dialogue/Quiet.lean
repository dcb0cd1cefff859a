import TransferLedger.Proofs.Dialogue.Views

/-!
# Nobody else is there

Where nobody else is there a dialogue is run, one part after the other (`Dialogue.run_bind`), and a
request that only looks leaves everything as it is (`InMemory.answer_of_looks`).  A medium that can
be reached answers with what it holds (`Dialogue.run_head`, `Dialogue.run_page`).
-/

set_option autoImplicit false

namespace TransferLedger

section run

variable {ω α β : Type} [Surroundings ω]

/-- A dialogue after another one is run from where that one ends. -/
theorem Dialogue.run_bind (t : Dialogue α) (f : α → Dialogue β) (w : ω) :
    (t >>= f).run w = (f (t.run w).1).run (t.run w).2 := by
  induction t generalizing w with
  | done a => rfl
  | ask q next ih => exact ih (Surroundings.answer q w).1 (Surroundings.answer q w).2

theorem Dialogue.run_bind_of {t : Dialogue α} {f : α → Dialogue β} {w w' : ω} {a : α}
    (h : t.run w = (a, w')) : (t >>= f).run w = (f a).run w' := by
  rw [run_bind, h]

end run

theorem InMemory.answer_of_looks {q : Request} (hq : q.looks = true) (w : InMemory) :
    (w.answer q).2 = w := by
  cases q with
  | head | page | load | time | look => rfl
  | commit | save | confirm | place | perform => exact absurd hq (by simp [Request.looks])

section reached

variable {w : InMemory} (available : w.medium.available = true) (stream : String)

include available

theorem Dialogue.run_head :
    (Dialogue.head stream).run w = (.ok (w.medium.head stream), w) :=
  congrArg (·, w) (if_pos available)

/-- A page begins at the position that it is asked for by. -/
theorem Dialogue.run_page (start limit : Nat) :
    (Dialogue.page stream start limit).run w =
      (.ok (((w.medium.records stream).drop (start - 1)).take limit), w) := by
  rw [← Memory.slice_eq]
  exact congrArg (·, w) (if_pos available)

end reached

end TransferLedger

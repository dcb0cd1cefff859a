import TransferLedger.Dialogue.InMemory
import TransferLedger.Proofs.Dialogue.Keeps

/-!
# Rules over surroundings in memory

Five of the requests only look: at the end of a stream, a page, a snapshot, a copy, the clock.
Where the states that the rules speak of have surroundings in memory behind them, these five are
answered from there and change nothing, whatever else the rules are about.  `Rules.Shows` says so,
and `Keeps.look` is what a dialogue that reads gets from it.
-/

set_option autoImplicit false

namespace TransferLedger

def Request.looks : Request → Bool
  | .head _ => true
  | .page .. => true
  | .load _ => true
  | .time => true
  | .look _ => true
  | _ => false

/-- Whoever plays by the rules may look, sees what is there in memory, and changes nothing. -/
structure Rules.Shows {σ : Type} (R : Rules σ) (view : σ → InMemory) : Prop where
  proper {q : Request} (s : σ) : q.looks = true → R.proper q s
  answered {q : Request} {s s' : σ} {a : q.Answer} : q.looks = true → R.answers q s a s' →
    s' = s ∧ a = ((view s).answer q).1

namespace Dialogue.Keeps

variable {σ α : Type} {R : Rules σ} {view : σ → InMemory}

theorem look (shows : R.Shows view) {P : σ → Prop} {Q : α → σ → Prop} {q : Request}
    (looks : q.looks = true) {next : q.Answer → Dialogue α} {s : σ} (stable : R.Stable P) (hs : P s)
    (h : ∀ s', R.holds s' → P s' → (next ((view s').answer q).1).Keeps R Q s') :
    (Dialogue.ask q next).Keeps R Q s := by
  refine .ask stable hs fun s' hi hp => ⟨shows.proper s' looks, fun a s'' _ ha => ?_⟩
  obtain ⟨rfl, rfl⟩ := shows.answered looks ha
  exact h s'' hi hp

theorem look_bind (shows : R.Shows view) {P : σ → Prop} {Q : α → σ → Prop} {q : Request}
    (looks : q.looks = true) {f : q.Answer → Dialogue α} {s : σ} (stable : R.Stable P) (hs : P s)
    (h : ∀ s', R.holds s' → P s' → (f ((view s').answer q).1).Keeps R Q s') :
    (Dialogue.ask q .done >>= f).Keeps R Q s :=
  .look shows looks stable hs h

end Dialogue.Keeps

end TransferLedger

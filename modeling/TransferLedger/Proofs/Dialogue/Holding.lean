import TransferLedger.Proofs.Dialogue.Keeps

/-!
# Holding a copy of one's own

A dialogue of somebody who holds a working copy goes on with that copy: sequencing carries it along
(`holding_bind`), and a part that asks nothing about copies hands it through untouched
(`holding_eq_bind`).
-/

set_option autoImplicit false

namespace TransferLedger.Dialogue

variable {σ α β : Type} {R : Rules σ}

theorem holding_bind (t : Dialogue α) (f : α → Dialogue β) (c : WorkingCopy) :
    (t >>= f).holding c = t.holding c >>= fun x => (f x.1).holding x.2 := by
  induction t generalizing c with
  | done a => rfl
  | ask q next ih =>
    -- Two requests are answered by the copy that is held, all others go out as they are.
    cases q with
    | look h => exact ih (some c) c
    | confirm h v => exact ih (some (c.markCommitted v)) (c.markCommitted v)
    | head | page | commit | save | load | time | place | perform =>
      exact congrArg (Dialogue.ask _) (funext fun a => ih a c)

/-- Nothing is asked about copies that are held. -/
def Impersonal : Dialogue α → Prop
  | .done _ => True
  | .ask (.look _) _ => False
  | .ask (.confirm ..) _ => False
  | .ask _ next => ∀ a, (next a).Impersonal

theorem Impersonal.bind {t : Dialogue α} {f : α → Dialogue β} (ht : t.Impersonal)
    (hf : ∀ a, (f a).Impersonal) : (t >>= f).Impersonal := by
  induction t with
  | done a => exact hf a
  | ask q next ih =>
    cases q with
    | look | confirm => exact ht.elim
    | head | page | commit | save | load | time | place | perform =>
      exact fun a => ih a (ht a)

theorem holding_eq_bind {t : Dialogue α} (ht : t.Impersonal) (c : WorkingCopy) :
    t.holding c = t >>= fun a => Dialogue.done (a, c) := by
  induction t with
  | done a => rfl
  | ask q next ih =>
    cases q with
    | look | confirm => exact ht.elim
    | head | page | commit | save | load | time | place | perform =>
      exact congrArg (Dialogue.ask _) (funext fun a => ih a (ht a))

theorem Keeps.holding {Q : α × WorkingCopy → σ → Prop} {t : Dialogue α} (ht : t.Impersonal)
    {c : WorkingCopy} {s : σ} (h : t.Keeps R (fun a s' => ∀ s'', R.rely s' s'' → R.holds s'' →
      Q (a, c) s'') s) : (t.holding c).Keeps R Q s := by
  rw [holding_eq_bind ht]
  exact .bind (h.mono fun a s' _ hq => hq)

theorem Keeps.holding_bind {Q : β × WorkingCopy → σ → Prop} {t : Dialogue α} {f : α → Dialogue β}
    {c : WorkingCopy} {s : σ}
    (h : (t.holding c).Keeps R (fun x s' => ((f x.1).holding x.2).Keeps R Q s') s) :
    ((t >>= f).holding c).Keeps R Q s := by
  rw [Dialogue.holding_bind]
  exact .bind h

end TransferLedger.Dialogue

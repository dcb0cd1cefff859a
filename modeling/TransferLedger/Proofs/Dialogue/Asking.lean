import TransferLedger.Proofs.Dialogue.Led
import TransferLedger.Proofs.Dialogue.Quiet
import TransferLedger.Proofs.Office.Basic

/-!
# What a dialogue asks for

Some dialogues never ask for more than a few kinds of requests, whatever they are answered.  That
is read off the dialogue alone (`Dialogue.Asks`), and it bounds what any call of it can have done:
a call that only looks has left every state as it found it (`Led.untouched`), so from where it was
begun to where it ended only the others have done anything (`Led.reaches_of_looks`).

What a dialogue can come to is read off it in the same way (`Dialogue.Ends`).
-/

set_option autoImplicit false

namespace TransferLedger

namespace Dialogue

variable {σ α β : Type} {ok ok' : Request → Prop}

/-- Whatever the answers are, all that is asked is of a given kind. -/
def Asks (ok : Request → Prop) : Dialogue α → Prop
  | .done _ => True
  | .ask q next => ok q ∧ ∀ r, (next r).Asks ok

theorem Asks.pure (a : α) : (pure a : Dialogue α).Asks ok :=
  trivial

theorem Asks.bind {t : Dialogue α} {f : α → Dialogue β} (ht : t.Asks ok) (hf : ∀ a, (f a).Asks ok) :
    (t >>= f).Asks ok := by
  induction t with
  | done a => exact hf a
  | ask q next ih => exact ⟨ht.1, fun r => ih r (ht.2 r)⟩

theorem Asks.anything (t : Dialogue α) : t.Asks fun _ => True := by
  induction t with
  | done a => exact trivial
  | ask q next ih => exact ⟨trivial, ih⟩

theorem Asks.mono {t : Dialogue α} (ht : t.Asks ok) (h : ∀ q, ok q → ok' q) : t.Asks ok' := by
  induction t with
  | done a => exact trivial
  | ask q next ih => exact ⟨h q ht.1, fun r => ih r (ht.2 r)⟩

/-- Every exchange of a call is a request of that kind and an answer to it. -/
theorem Asks.exchanged {others : σ → σ → Prop}
    {answers : (q : Request) → σ → q.Answer → σ → Prop} {t : Dialogue α} {s s' : σ} {a : α}
    {xs : List (Exchange σ)} (ht : t.Asks ok) (led : t.Led others answers s xs a s') :
    ∀ x ∈ xs, ok x.request ∧ ∃ r, answers x.request x.found r x.left := by
  induction led with
  | done a s => simp
  | meanwhile step rest ih => exact ih ht
  | asks answered rest ih => exact List.forall_mem_cons.2 ⟨⟨ht.1, _, answered⟩, ih (ht.2 _)⟩

abbrev OnlyLooks (t : Dialogue α) : Prop :=
  t.Asks fun q => q.looks = true

/-! ## What it can come to -/

/-- Whatever the answers are, all that it can come to has a property. -/
def Ends (P : α → Prop) : Dialogue α → Prop
  | .done a => P a
  | .ask _ next => ∀ r, (next r).Ends P

theorem Ends.pure {P : α → Prop} {a : α} (h : P a) : (pure a : Dialogue α).Ends P :=
  h

theorem Ends.anything (t : Dialogue α) : t.Ends fun _ => True := by
  induction t with
  | done a => exact trivial
  | ask q next ih => exact ih

theorem Ends.mono {P P' : α → Prop} {t : Dialogue α} (ht : t.Ends P) (h : ∀ a, P a → P' a) :
    t.Ends P' := by
  induction t with
  | done a => exact h a ht
  | ask q next ih => exact fun r => ih r (ht r)

theorem Ends.bind {P : α → Prop} {P' : β → Prop} {t : Dialogue α} {f : α → Dialogue β}
    (ht : t.Ends P) (hf : ∀ a, P a → (f a).Ends P') : (t >>= f).Ends P' := by
  induction t with
  | done a => exact hf a ht
  | ask q next ih => exact fun r => ih r (ht r)

theorem Ends.of_led {P : α → Prop} {others : σ → σ → Prop}
    {answers : (q : Request) → σ → q.Answer → σ → Prop} {t : Dialogue α} {s s' : σ} {a : α}
    {xs : List (Exchange σ)} (ht : t.Ends P) (led : t.Led others answers s xs a s') : P a := by
  induction led with
  | done a s => exact ht
  | meanwhile step rest ih => exact ih ht
  | asks answered rest ih => exact ih (ht _)

end Dialogue

namespace InMemory

/-- A look changes nothing, however it is answered. -/
theorem Answers.of_looks {q : Request} {w w' : InMemory} {a : q.Answer} (h : Answers q w a w')
    (hq : q.looks = true) : a = (w.answer q).1 ∧ w' = w := by
  cases h with
  | done q w => exact ⟨rfl, answer_of_looks hq w⟩
  | late => exact absurd hq (by simp [Request.looks])

end InMemory

/-- No answer to the request changes this part of the surroundings. -/
def Request.Spares {β : Type} (part : InMemory → β) (q : Request) : Prop :=
  ∀ {w w' : InMemory} {a : q.Answer}, InMemory.Answers q w a w' → part w' = part w

theorem Request.spares_of_looks {β : Type} {part : InMemory → β} {q : Request}
    (hq : q.looks = true) : q.Spares part :=
  fun ha => congrArg part (ha.of_looks hq).2

namespace Dialogue.Led

variable {α : Type} {others : InMemory → InMemory → Prop} {t : Dialogue α} {w w' : InMemory}
  {xs : List (Exchange InMemory)} {a : α}

theorem spared {β : Type} {part : InMemory → β} (ht : t.Asks (Request.Spares part))
    (led : t.Led others InMemory.Answers w xs a w') :
    ∀ x ∈ xs, part x.left = part x.found := by
  intro x hx
  obtain ⟨hq, r, ha⟩ := ht.exchanged led x hx
  exact hq ha

/-- Whoever only looks leaves everything as he finds it. -/
theorem untouched (looks : t.OnlyLooks) (led : t.Led others InMemory.Answers w xs a w') :
    ∀ x ∈ xs, x.left = x.found :=
  have spares : t.Asks (Request.Spares (id : InMemory → InMemory)) :=
    looks.mono fun _ hq => Request.spares_of_looks hq
  spared spares led

theorem reaches_of_looks (looks : t.OnlyLooks) (led : t.Led others InMemory.Answers w xs a w') :
    Relation.ReflTransGen others w w' := by
  induction led with
  | done a w => exact .refl
  | meanwhile step rest ih => exact .head step (ih looks)
  | asks answered rest ih =>
    obtain ⟨-, rfl⟩ := answered.of_looks looks.1
    exact ih (looks.2 _)

end Dialogue.Led

/-! ## A call with nobody else there -/

/-- The exchanges of a dialogue that is run. -/
def Dialogue.exchanges {α : Type} : Dialogue α → InMemory → List (Exchange InMemory)
  | .done _, _ => []
  | .ask q next, w => ⟨q, w, (w.answer q).2⟩ :: (next (w.answer q).1).exchanges (w.answer q).2

/-- Whoever only looks leaves everything as he finds it. -/
theorem Dialogue.run_of_looks {α : Type} {t : Dialogue α} (looks : t.OnlyLooks) (w : InMemory) :
    (t.run w).2 = w := by
  induction t generalizing w with
  | done a => rfl
  | ask q next ih =>
    obtain ⟨hq, hnext⟩ := looks
    show ((next (w.answer q).1).run (w.answer q).2).2 = w
    rw [InMemory.answer_of_looks hq]
    exact ih _ (hnext _) w

end TransferLedger

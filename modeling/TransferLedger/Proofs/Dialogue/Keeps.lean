import TransferLedger.Dialogue.Basic

/-!
# What a dialogue keeps

A dialogue that is led in shared surroundings meets, before each of its requests, a state that it
has not left: others have been there.  What can be said of it is said under rules.  The rules name
what always holds, what the others may do, what may be asked, and what a request is answered with;
`t.Keeps R Q s` then says that the dialogue `t`, begun in the state `s` among others who stick to
the rules, sticks to them too and ends with a result and a state for which `Q` holds.

It is a weakest precondition by recursion on the dialogue.  The others come first in each clause, so
`Keeps` never depends on what they have just done (`Keeps.later`), and sequencing is one lemma
(`Keeps.bind`).
-/

set_option autoImplicit false

namespace TransferLedger

/-- Rules for somebody who works with others on states of type `σ`. -/
structure Rules (σ : Type) where
  /-- What always holds. -/
  holds : σ → Prop
  /-- What the others may do between two requests. -/
  rely : σ → σ → Prop
  /-- What may be asked. -/
  proper : Request → σ → Prop
  /-- What a request can be answered with, and the state afterwards. -/
  answers : (q : Request) → σ → q.Answer → σ → Prop
  rely_refl (s : σ) : rely s s
  rely_trans {s t u : σ} : rely s t → rely t u → rely s u
  holds_answered {q : Request} {s s' : σ} {a : q.Answer} :
    holds s → proper q s → answers q s a s' → holds s'

namespace Rules

variable {σ : Type}

/-- Once it holds, the others cannot undo it. -/
def Stable (R : Rules σ) (P : σ → Prop) : Prop :=
  ∀ ⦃s s' : σ⦄, P s → R.rely s s' → R.holds s' → P s'

theorem Stable.and {R : Rules σ} {P P' : σ → Prop} (h : R.Stable P) (h' : R.Stable P') :
    R.Stable fun s => P s ∧ P' s :=
  fun _ _ hp hr hs => ⟨h hp.1 hr hs, h' hp.2 hr hs⟩

theorem Stable.const {R : Rules σ} {p : Prop} : R.Stable fun _ => p :=
  fun _ _ hp _ _ => hp

end Rules

namespace Dialogue

variable {σ α β : Type} {R : Rules σ}

/-- Begun in a state, among others who stick to the rules, the dialogue sticks to them and ends with
a result and a state for which `Q` holds. -/
def Keeps (R : Rules σ) (Q : α → σ → Prop) : Dialogue α → σ → Prop
  | .done a, s => ∀ s', R.rely s s' → R.holds s' → Q a s'
  | .ask q next, s => ∀ s', R.rely s s' → R.holds s' →
      R.proper q s' ∧ ∀ a s'', R.answers q s' a s'' → (next a).Keeps R Q s''

namespace Keeps

/-- Whatever the others do first makes no difference. -/
theorem later {Q : α → σ → Prop} {t : Dialogue α} {s s' : σ} (h : t.Keeps R Q s)
    (hr : R.rely s s') : t.Keeps R Q s' := by
  cases t with
  | done a => exact fun s'' hr' => h s'' (R.rely_trans hr hr')
  | ask q next => exact fun s'' hr' => h s'' (R.rely_trans hr hr')

/-- It is enough to look at the states in which the others leave it. -/
theorem settled {Q : α → σ → Prop} {t : Dialogue α} {s : σ}
    (h : ∀ s', R.rely s s' → R.holds s' → t.Keeps R Q s') : t.Keeps R Q s := by
  cases t with
  | done a => exact fun s' hr hs => h s' hr hs s' (R.rely_refl s') hs
  | ask q next => exact fun s' hr hs => h s' hr hs s' (R.rely_refl s') hs

theorem mono {Q Q' : α → σ → Prop} {t : Dialogue α} {s : σ} (h : t.Keeps R Q s)
    (hQ : ∀ a s', R.holds s' → Q a s' → Q' a s') : t.Keeps R Q' s := by
  induction t generalizing s with
  | done a => exact fun s' hr hs => hQ a s' hs (h s' hr hs)
  | ask q next ih =>
    intro s' hr hs
    obtain ⟨hp, hn⟩ := h s' hr hs
    exact ⟨hp, fun a s'' ha => ih a (hn a s'' ha)⟩

/-- A dialogue after another one starts where that one ends. -/
theorem bind {Q : β → σ → Prop} {t : Dialogue α} {f : α → Dialogue β} {s : σ}
    (h : t.Keeps R (fun a s' => (f a).Keeps R Q s') s) : (t >>= f).Keeps R Q s := by
  induction t generalizing s with
  | done a =>
    -- The others come between the two parts; to `Keeps` that makes no difference.
    exact settled h
  | ask q next ih =>
    intro s' hr hs
    obtain ⟨hp, hn⟩ := h s' hr hs
    exact ⟨hp, fun a s'' ha => ih a (hn a s'' ha)⟩

/-! ## Under a stable assumption -/

theorem done {P : σ → Prop} {Q : α → σ → Prop} {a : α} {s : σ} (stable : R.Stable P) (hs : P s)
    (h : ∀ s', R.holds s' → P s' → Q a s') : (Dialogue.done a).Keeps R Q s :=
  fun s' hr hi => h s' hi (stable hs hr hi)

theorem pure {P : σ → Prop} {Q : α → σ → Prop} {a : α} {s : σ} (stable : R.Stable P) (hs : P s)
    (h : ∀ s', R.holds s' → P s' → Q a s') : (Pure.pure a : Dialogue α).Keeps R Q s :=
  done stable hs h

/-- One request: what is known before it is known when it comes to be answered. -/
theorem ask {P : σ → Prop} {Q : α → σ → Prop} {q : Request} {next : q.Answer → Dialogue α} {s : σ}
    (stable : R.Stable P) (hs : P s)
    (h : ∀ s', R.holds s' → P s' →
      R.proper q s' ∧ ∀ a s'', R.holds s'' → R.answers q s' a s'' → (next a).Keeps R Q s'') :
    (Dialogue.ask q next).Keeps R Q s := by
  intro s' hr hi
  obtain ⟨hp, hn⟩ := h s' hi (stable hs hr hi)
  exact ⟨hp, fun a s'' ha => hn a s'' (R.holds_answered hi hp ha) ha⟩

theorem ask_bind {P : σ → Prop} {Q : α → σ → Prop} {q : Request} {f : q.Answer → Dialogue α} {s : σ}
    (stable : R.Stable P) (hs : P s)
    (h : ∀ s', R.holds s' → P s' →
      R.proper q s' ∧ ∀ a s'', R.holds s'' → R.answers q s' a s'' → (f a).Keeps R Q s'') :
    (Dialogue.ask q .done >>= f).Keeps R Q s :=
  ask stable hs h

end Keeps

end Dialogue

end TransferLedger

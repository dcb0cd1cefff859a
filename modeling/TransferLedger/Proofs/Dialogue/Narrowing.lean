import TransferLedger.Proofs.Dialogue.Asking
import TransferLedger.Proofs.Dialogue.Views

/-!
# Among others who do less

What a dialogue keeps among others who may do much it also keeps among others who may do less, and
only the kinds of requests that it asks for matter then (`Keeps.within`).  So what has been shown
for one set of rules once is there for every stricter one, and the stricter rules are free to speak
of things that the others leave alone (`Rules.narrow`).

What a dialogue comes to and that it may ask what it asks are shown apart.  Under `Rules.lax`
anything may be asked, but answers are only looked at where it was right to ask, and both halves
together are what is wanted (`Keeps.and_lax`).
-/

set_option autoImplicit false

namespace TransferLedger

namespace Rules

variable {σ : Type}

/-- As far as requests of a kind go, whoever sticks to these rules sticks to the others as well. -/
structure Within (ok : Request → Prop) (R R₀ : Rules σ) : Prop where
  holds {s : σ} : R.holds s → R₀.holds s
  rely {s s' : σ} : R.rely s s' → R₀.rely s s'
  proper {q : Request} {s : σ} : ok q → R₀.proper q s → R.proper q s
  answers {q : Request} {s s' : σ} {a : q.Answer} : ok q → R.answers q s a s' → R₀.answers q s a s'

theorem Within.refl (ok : Request → Prop) (R : Rules σ) : R.Within ok R :=
  ⟨id, id, fun _ => id, fun _ => id⟩

theorem Within.stable {ok : Request → Prop} {R R₀ : Rules σ} (within : R.Within ok R₀)
    {P : σ → Prop} (h : R₀.Stable P) : R.Stable P :=
  fun _ _ hp hr hs => h hp (within.rely hr) (within.holds hs)

/-- The same rules, among others who leave something alone. -/
def narrow (R : Rules σ) (spares : σ → σ → Prop) (refl : ∀ s, spares s s)
    (trans : ∀ {s t u}, spares s t → spares t u → spares s u) : Rules σ where
  holds := R.holds
  rely := fun s s' => R.rely s s' ∧ spares s s'
  proper := R.proper
  answers := R.answers
  rely_refl := fun s => ⟨R.rely_refl s, refl s⟩
  rely_trans := fun h h' => ⟨R.rely_trans h.1 h'.1, trans h.2 h'.2⟩
  holds_answered := R.holds_answered

/-- Anything may be asked, but nothing is said of the answer where the rules forbid to ask. -/
def lax (R : Rules σ) : Rules σ where
  holds := R.holds
  rely := R.rely
  proper := fun _ _ => True
  answers := fun q s a s' => R.proper q s ∧ R.answers q s a s'
  rely_refl := R.rely_refl
  rely_trans := R.rely_trans
  holds_answered := fun hs _ ha => R.holds_answered hs ha.1 ha.2

theorem Stable.lax {R : Rules σ} {P : σ → Prop} (h : R.Stable P) : R.lax.Stable P :=
  h

theorem Shows.lax {R : Rules σ} {view : σ → InMemory} (shows : R.Shows view) :
    R.lax.Shows view where
  proper := fun _ _ => trivial
  answered := fun looks ha => shows.answered looks ha.2

end Rules

namespace Dialogue.Keeps

variable {σ α : Type} {R R₀ : Rules σ} {Q Q' : α → σ → Prop} {t : Dialogue α} {s : σ}
  {ok : Request → Prop}

theorem within (h : t.Keeps R₀ Q s) (asks : t.Asks ok) (within : R.Within ok R₀) :
    t.Keeps R Q s := by
  induction t generalizing s with
  | done a => exact fun s' hr hs => h s' (within.rely hr) (within.holds hs)
  | ask q next ih =>
    intro s' hr hs
    obtain ⟨hp, hn⟩ := h s' (within.rely hr) (within.holds hs)
    exact ⟨within.proper asks.1 hp,
      fun a s'' ha => ih a (hn a s'' (within.answers asks.1 ha)) (asks.2 a)⟩

theorem and_lax (h : t.Keeps R Q s) (h' : t.Keeps R.lax Q' s) :
    t.Keeps R (fun a s' => Q a s' ∧ Q' a s') s := by
  induction t generalizing s with
  | done a => exact fun s' hr hs => ⟨h s' hr hs, h' s' hr hs⟩
  | ask q next ih =>
    intro s' hr hs
    obtain ⟨hp, hn⟩ := h s' hr hs
    obtain ⟨-, hn'⟩ := h' s' hr hs
    exact ⟨hp, fun a s'' ha => ih a (hn a s'' ha) (hn' a s'' ⟨hp, ha⟩)⟩

theorem lax (h : t.Keeps R Q s) : t.Keeps R.lax Q s := by
  induction t generalizing s with
  | done a => exact h
  | ask q next ih =>
    intro s' hr hs
    obtain ⟨-, hn⟩ := h s' hr hs
    exact ⟨trivial, fun a s'' ha => ih a (hn a s'' ha.2)⟩

theorem lax_anything (t : Dialogue α) (s : σ) : t.Keeps R.lax (fun _ _ => True) s := by
  induction t generalizing s with
  | done a => exact fun _ _ _ => trivial
  | ask q next ih => exact fun _ _ _ => ⟨trivial, fun a s'' _ => ih a s''⟩

/-- What the others leave alone and no request of the dialogue undoes is there at the end. -/
theorem carry {P : σ → Prop} (h : t.Keeps R Q s) (asks : t.Asks ok) (stable : R.Stable P)
    (kept : ∀ {q s a s'}, ok q → R.holds s → P s → R.proper q s → R.answers q s a s' → P s')
    (hs : P s) : t.Keeps R (fun a s' => Q a s' ∧ P s') s := by
  induction t generalizing s with
  | done a => exact fun s' hr hi => ⟨h s' hr hi, stable hs hr hi⟩
  | ask q next ih =>
    intro s' hr hi
    obtain ⟨hp, hn⟩ := h s' hr hi
    exact ⟨hp, fun a s'' ha =>
      ih a (hn a s'' ha) (asks.2 a) (kept asks.1 hi (stable hs hr hi) hp ha)⟩

/-- What it can come to at all it comes to. -/
theorem and_ends {P : α → Prop} (h : t.Keeps R Q s) (ends : t.Ends P) :
    t.Keeps R (fun a s' => Q a s' ∧ P a) s := by
  induction t generalizing s with
  | done a => exact fun s' hr hi => ⟨h s' hr hi, ends⟩
  | ask q next ih =>
    intro s' hr hi
    obtain ⟨hp, hn⟩ := h s' hr hi
    exact ⟨hp, fun a s'' ha => ih a (hn a s'' ha) (ends a)⟩

end Dialogue.Keeps

end TransferLedger

import Mathlib.Logic.Relation
import TransferLedger.Proofs.Dialogue.Keeps
import TransferLedger.Store.Memory

/-!
# A dialogue led to its end

Rules say what somebody sticks to who may be anywhere in a dialogue.  What one call has done, from
its first request to its last answer, is said of the call as it was led: what the others did in
between, and its own requests one by one, each with the states before and after its answer.

A call is taken apart the way it was put together: `Led.of_bind` cuts it where one part of the
dialogue ends and the next begins, `Led.of_ask` behind the first request.
-/

set_option autoImplicit false

namespace TransferLedger

/-- A request, and the states before and after its answer. -/
structure Exchange (σ : Type) where
  request : Request
  found : σ
  left : σ

namespace Exchange

variable {σ : Type}

/-- The records that the answer has put behind what a stream held. -/
def added (medium : σ → Memory) (x : Exchange σ) (stream : String) : List Record :=
  ((medium x.left).records stream).drop ((medium x.found).records stream).length

/-- The records that exchanges have added to a stream, one exchange after the other. -/
def allAdded (medium : σ → Memory) (xs : List (Exchange σ)) (stream : String) : List Record :=
  xs.flatMap fun x => x.added medium stream

theorem allAdded_cons (medium : σ → Memory) (x : Exchange σ) (xs : List (Exchange σ))
    (stream : String) :
    allAdded medium (x :: xs) stream = x.added medium stream ++ allAdded medium xs stream :=
  List.flatMap_cons

theorem allAdded_append (medium : σ → Memory) (xs ys : List (Exchange σ)) (stream : String) :
    allAdded medium (xs ++ ys) stream = allAdded medium xs stream ++ allAdded medium ys stream :=
  List.flatMap_append

theorem allAdded_eq_nil {medium : σ → Memory} {xs : List (Exchange σ)}
    (h : ∀ x ∈ xs, medium x.left = medium x.found) (stream : String) :
    allAdded medium xs stream = [] := by
  refine List.flatMap_eq_nil_iff.2 fun x hx => ?_
  rw [added, h x hx, List.drop_length]

/-- The same request, of a part of the states. -/
def map {τ : Type} (part : σ → τ) (x : Exchange σ) : Exchange τ :=
  ⟨x.request, part x.found, part x.left⟩

theorem allAdded_map {τ : Type} (part : σ → τ) (medium : τ → Memory) (xs : List (Exchange σ))
    (stream : String) :
    allAdded medium (xs.map (map part)) stream = allAdded (fun s => medium (part s)) xs stream :=
  List.flatMap_map ..

end Exchange

/-- A dialogue is led to its end: the state in which it is begun, the exchanges of its own, the
result, and the state in which it ends.  What the others may do between two requests and what a
request may be answered with are given. -/
inductive Dialogue.Led {σ α : Type} (others : σ → σ → Prop)
    (answers : (q : Request) → σ → q.Answer → σ → Prop) :
    Dialogue α → σ → List (Exchange σ) → α → σ → Prop
  | done (a : α) (s : σ) : Led others answers (.done a) s [] a s
  | meanwhile {t : Dialogue α} {s s' s'' : σ} {xs : List (Exchange σ)} {a : α}
      (step : others s s') (rest : Led others answers t s' xs a s'') :
      Led others answers t s xs a s''
  | asks {q : Request} {next : q.Answer → Dialogue α} {s s' s'' : σ} {r : q.Answer}
      {xs : List (Exchange σ)} {a : α} (answered : answers q s r s')
      (rest : Led others answers (next r) s' xs a s'') :
      Led others answers (.ask q next) s (⟨q, s, s'⟩ :: xs) a s''

namespace Dialogue.Led

variable {σ α β : Type} {others : σ → σ → Prop}
  {answers : (q : Request) → σ → q.Answer → σ → Prop} {s s' s'' : σ} {xs : List (Exchange σ)}

theorem later {t : Dialogue α} {a : α} (h : Relation.ReflTransGen others s s')
    (led : t.Led others answers s' xs a s'') : t.Led others answers s xs a s'' := by
  induction h using Relation.ReflTransGen.head_induction_on with
  | refl => exact led
  | head step _ ih => exact .meanwhile step ih

/-- Where more answers are possible this is one of the ways to lead it. -/
theorem mono {answers' : (q : Request) → σ → q.Answer → σ → Prop} {t : Dialogue α} {a : α}
    (more : ∀ {q s a s'}, answers q s a s' → answers' q s a s')
    (led : t.Led others answers s xs a s') : t.Led others answers' s xs a s' := by
  induction led with
  | done a s => exact .done a s
  | meanwhile step rest ih => exact .meanwhile step ih
  | asks answered rest ih => exact .asks (more answered) ih

/-- As far as a part of the states goes it is led among others who do as much there. -/
theorem map {τ : Type} {others' : τ → τ → Prop}
    {answers' : (q : Request) → τ → q.Answer → τ → Prop} (part : σ → τ)
    (step : ∀ {s s'}, others s s' → others' (part s) (part s'))
    (answered : ∀ {q s a s'}, answers q s a s' → answers' q (part s) a (part s'))
    {t : Dialogue α} {a : α} (led : t.Led others answers s xs a s') :
    t.Led others' answers' (part s) (xs.map (Exchange.map part)) a (part s') := by
  induction led with
  | done a s => exact .done a _
  | meanwhile h rest ih => exact .meanwhile (step h) ih
  | asks h rest ih => exact .asks (answered h) ih

/-- What neither the others nor an answer undo is there at the end. -/
theorem preserves {P : σ → Prop} {t : Dialogue α} {a : α}
    (kept : ∀ {s s'}, P s → others s s' → P s')
    (kept' : ∀ {q s a s'}, P s → answers q s a s' → P s') (hs : P s)
    (led : t.Led others answers s xs a s') : P s' := by
  induction led with
  | done a s => exact hs
  | meanwhile step rest ih => exact ih (kept hs step)
  | asks answered rest ih => exact ih (kept' hs answered)

/-- Where nothing is asked, it is the others alone who do anything. -/
theorem of_done {a b : α} (led : (Dialogue.done a).Led others answers s xs b s') :
    b = a ∧ xs = [] ∧ Relation.ReflTransGen others s s' := by
  -- The dialogue is an index of `Led`, so the induction needs it as an equation.
  generalize ht : Dialogue.done a = t at led
  induction led with
  | done b s =>
    obtain rfl := Dialogue.done.inj ht
    exact ⟨rfl, rfl, .refl⟩
  | meanwhile step rest ih =>
    obtain ⟨hb, hx, hr⟩ := ih ht
    exact ⟨hb, hx, .head step hr⟩
  | asks answered rest ih => simp at ht

theorem of_pure {a b : α} (led : (pure a : Dialogue α).Led others answers s xs b s') :
    b = a ∧ xs = [] ∧ Relation.ReflTransGen others s s' :=
  led.of_done

/-- The first request, and what the others do before it is answered. -/
theorem of_ask {q : Request} {next : q.Answer → Dialogue α} {a : α}
    (led : (Dialogue.ask q next).Led others answers s xs a s') :
    ∃ s₁ r s₂ ys, Relation.ReflTransGen others s s₁ ∧ answers q s₁ r s₂ ∧
      (next r).Led others answers s₂ ys a s' ∧ xs = ⟨q, s₁, s₂⟩ :: ys := by
  generalize ht : Dialogue.ask q next = t at led
  induction led with
  | done b s => simp at ht
  | meanwhile step rest ih =>
    obtain ⟨s₁, r, s₂, ys, hr, h⟩ := ih ht
    exact ⟨s₁, r, s₂, ys, .head step hr, h⟩
  | @asks q next s s₂ s' r ys a answered rest ih =>
    cases ht
    exact ⟨s, r, s₂, ys, .refl, answered, rest, rfl⟩

/-- One part of a dialogue is led to its end, and then the next. -/
theorem of_bind {t : Dialogue α} {f : α → Dialogue β} {b : β}
    (led : (t >>= f).Led others answers s xs b s') :
    ∃ ys a s₁ zs, t.Led others answers s ys a s₁ ∧ (f a).Led others answers s₁ zs b s' ∧
      xs = ys ++ zs := by
  induction t generalizing s xs with
  | done a => exact ⟨[], a, s, xs, .done a s, led, rfl⟩
  | ask q next ih =>
    obtain ⟨s₁, r, s₂, ys, hr, ha, hled, rfl⟩ := of_ask led
    obtain ⟨ys, a, s₃, zs, h1, h2, rfl⟩ := ih r hled
    -- What the others do before the first request belongs to the first part.
    exact ⟨⟨q, s₁, s₂⟩ :: ys, a, s₃, zs, .later hr (.asks ha h1), h2, rfl⟩

theorem of_ask_bind {q : Request} {f : q.Answer → Dialogue β} {b : β}
    (led : (Dialogue.ask q .done >>= f).Led others answers s xs b s') :
    ∃ s₁ r s₂ ys, Relation.ReflTransGen others s s₁ ∧ answers q s₁ r s₂ ∧
      (f r).Led others answers s₂ ys b s' ∧ xs = ⟨q, s₁, s₂⟩ :: ys :=
  of_ask led

end Dialogue.Led

end TransferLedger

import TransferLedger.Proofs.Dialogue.Asking
import TransferLedger.Proofs.Log.Staging
import TransferLedger.Proofs.Office.Story

/-!
# Meanwhile

What may happen to streams and working copies in memory while nobody is looking: any request of
anybody is answered, the medium goes out of reach and comes back, the clock moves.  Only one thing
is asked of the others, that they confirm to a copy no more than its stream holds
(`InMemory.Allows`).

What comes of it is that no stream gets shorter, and that a copy keeps what it has buffered until
some of it is confirmed; from then on its stream has grown past the place where it was
(`InMemory.Later`).

Somebody may also need the others to leave certain copies alone for a while: `InMemory.Aside`.
-/

set_option autoImplicit false

namespace TransferLedger

namespace InMemory

/-- What may be asked.  A confirmation must not go back, nor beyond what is stored. -/
def Allows (w : InMemory) : Request → Prop
  | .confirm h version => ∀ x, w.copies[h]? = some x →
      x.durable ≤ version ∧
        (x.durable < version → version ≤ (w.medium.head x.stream).version)
  | _ => True

inductive Step : InMemory → InMemory → Prop
  | asks {q : Request} {w w' : InMemory} {a : q.Answer} (allowed : w.Allows q)
      (answered : Answers q w a w') : Step w w'
  | medium (w : InMemory) (available : Bool) : Step w { w with medium.available := available }
  | clock (w : InMemory) (now : Instant) : Step w { w with clock := now }

/-- What has become of a copy: it has buffered more, or some of it has been confirmed. -/
structure Advances (w' : InMemory) (x x' : WorkingCopy) : Prop where
  stream_eq : x'.stream = x.stream
  durable_le : x.durable ≤ x'.durable
  pending : x.durable = x'.durable → x.pending <+: x'.pending
  stored : x.durable < x'.durable → x'.durable ≤ (w'.medium.head x.stream).version

/-- What has become of everything. -/
structure Later (w w' : InMemory) : Prop where
  head_le : ∀ stream, (w.medium.head stream).version ≤ (w'.medium.head stream).version
  copies : ∀ (h : HandleId) x, w.copies[h]? = some x →
    ∃ x', w'.copies[h]? = some x' ∧ Advances w' x x'

theorem Advances.refl (w : InMemory) (x : WorkingCopy) : Advances w x x where
  stream_eq := rfl
  durable_le := Nat.le_refl _
  pending := fun _ => List.prefix_rfl
  stored := fun h => absurd h (Nat.lt_irrefl _)

namespace Later

variable {w w' w'' : InMemory}

theorem refl (w : InMemory) : Later w w :=
  ⟨fun _ => Nat.le_refl _, fun _ x hx => ⟨x, hx, .refl w x⟩⟩

theorem trans (h : Later w w') (h' : Later w' w'') : Later w w'' := by
  refine ⟨fun stream => Nat.le_trans (h.head_le stream) (h'.head_le stream), fun i x hx => ?_⟩
  obtain ⟨x', hx', ha⟩ := h.copies i x hx
  obtain ⟨x'', hx'', ha'⟩ := h'.copies i x' hx'
  have hle := ha.durable_le
  have hle' := ha'.durable_le
  refine ⟨x'', hx'', ha'.stream_eq.trans ha.stream_eq, Nat.le_trans hle hle', fun heq => ?_,
    fun hlt => ?_⟩
  · exact (ha.pending (by omega)).trans (ha'.pending (by omega))
  · -- If nothing is confirmed the second time, the stream is still as long as the first time.
    by_cases heq : x'.durable = x''.durable
    · have := ha.stored (by omega)
      have := h'.head_le x.stream
      omega
    · rw [← ha.stream_eq]
      exact ha'.stored (by omega)

/-- Streams have got longer, and the copies are what they were. -/
theorem of_medium {m : Memory}
    (hm : ∀ stream, (w.medium.head stream).version ≤ (m.head stream).version) :
    Later w { w with medium := m } :=
  ⟨hm, fun _ x hx => ⟨x, hx, .refl _ x⟩⟩

/-- The streams are what they were, and so are all copies but one, which has advanced. -/
theorem of_changed {h : HandleId} {f : WorkingCopy → WorkingCopy}
    (ok : ∀ x, w.copies[h]? = some x → Advances w x (f x)) :
    Later w { w with copies := w.copies.modify h f } := by
  refine ⟨fun _ => Nat.le_refl _, fun i x hx => ?_⟩
  have hi : (w.copies.modify h f)[i]? = some (if h = i then f x else x) := by
    rw [List.getElem?_modify, hx]
    by_cases hi : h = i <;> simp [hi]
  refine ⟨_, hi, ?_⟩
  by_cases he : h = i
  · subst he
    rw [if_pos rfl]
    obtain ⟨h1, h2, h3, h4⟩ := ok x hx
    exact ⟨h1, h2, h3, h4⟩
  · rw [if_neg he]
    exact .refl ..

end Later

/-! ## The answers -/

section answers

variable {w w' : InMemory}

/-- What lands leaves every stream at least as long. -/
theorem head_le_of_commit {m m' : Memory} {appends : List Append} (h : m.commit appends = .ok m')
    (stream : String) : (m.head stream).version ≤ (m'.head stream).version := by
  have hc := Memory.continues_of_commit h stream
  unfold Memory.head at hc ⊢
  rw [Memory.records_commit h stream, Head.after_append, hc.version_after]
  exact Nat.le_add_right ..

theorem Answers.later {q : Request} {a : q.Answer} (allowed : w.Allows q) (ha : Answers q w a w') :
    Later w w' := by
  cases q with
  | head | page | load | time | look =>
    obtain ⟨-, rfl⟩ := ha.of_looks rfl
    exact .refl _
  | commit ms appends =>
    rcases ha.of_commit with ⟨-, m, hm, rfl⟩ | ⟨-, rfl⟩
    · exact .of_medium (head_le_of_commit hm)
    · exact .refl _
  | save x =>
    cases ha
    exact ⟨fun _ => Nat.le_refl _, fun _ x hx => ⟨x, hx, .refl _ x⟩⟩
  | place c =>
    cases ha
    refine ⟨fun _ => Nat.le_refl _, fun i x hx => ⟨x, ?_, .refl _ x⟩⟩
    show (w.copies ++ [c])[i]? = some x
    rw [List.getElem?_append_left (List.getElem?_eq_some_iff.1 hx).1]
    exact hx
  | confirm h v =>
    obtain ⟨-, rfl⟩ := ha.of_confirm
    refine .of_changed fun x hx => ?_
    obtain ⟨hle, hstored⟩ := allowed x hx
    refine ⟨rfl, hle, fun heq => ?_, hstored⟩
    have heq' : x.durable = v := heq
    show x.pending <+: x.pending.drop (v - x.durable)
    rw [heq', Nat.sub_self]
    exact List.prefix_rfl
  | perform h o =>
    rcases ha.of_perform with rfl | ⟨c, c', hc, hp, rfl⟩
    · exact .refl _
    · obtain ⟨e, t, -, ht, rfl⟩ := WorkingCopy.decide_of_perform hp
      refine ⟨fun _ => Nat.le_refl _, fun i x hx => ?_⟩
      by_cases hi : h = i
      · subst hi
        obtain rfl : c = x := Option.some.inj (hc ▸ hx)
        have hlt := (List.getElem?_eq_some_iff.1 hx).1
        exact ⟨_, List.getElem?_set_self hlt, Transfer.id_of_apply ht, Nat.le_refl _,
          fun _ => List.prefix_append .., fun h => absurd h (Nat.lt_irrefl _)⟩
      · exact ⟨x, (List.getElem?_set_ne hi).trans hx, .refl _ x⟩

end answers

theorem Step.later {w w' : InMemory} (h : Step w w') : Later w w' := by
  cases h with
  | asks allowed answered => exact answered.later allowed
  | medium available => exact .of_medium fun _ => Nat.le_refl _
  | clock now => exact ⟨fun _ => Nat.le_refl _, fun _ x hx => ⟨x, hx, .refl _ x⟩⟩

/-! ## Leaving copies alone -/

theorem later_of_reaches {others : InMemory → InMemory → Prop} {w w' : InMemory}
    (steps : ∀ {w w'}, others w w' → Step w w') (h : Relation.ReflTransGen others w w') :
    Later w w' := by
  induction h with
  | refl => exact .refl w
  | tail _ step ih => exact ih.trans (steps step).later

end InMemory

end TransferLedger

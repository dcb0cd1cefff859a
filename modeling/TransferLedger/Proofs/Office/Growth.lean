import TransferLedger.Proofs.Chain.Medium
import TransferLedger.Proofs.Office.Basic
import TransferLedger.Proofs.Snapshot.Saving

/-!
# What only grows

Some things in the office only ever go on, whoever does what, and never go back.  A stream loses
nothing (`Office.Step.within`), the snapshot of a stream on the shelf is never replaced by an older
one, and a copy that has emitted facts has emitted them for good (`Scene.Onward`).  All this is read
off the answers to single requests, so it holds of any run and needs no rules.
-/

set_option autoImplicit false

namespace TransferLedger

/-! ## Snapshots -/

namespace Shelf

variable {s : Shelf} {x : Snapshot} {stream : String}

/-- The version up to which a rebuild need not read the stream. -/
def reach (s : Shelf) (stream : String) : Nat :=
  ((s.latest stream).map Snapshot.version).getD 0

/-- Every snapshot stands under the name of its own stream. -/
def InPlace (s : Shelf) : Prop :=
  ∀ stream x, s.latest stream = some x → x.stream = stream

theorem reach_of_latest (h : s.latest stream = some x) : s.reach stream = x.version := by
  rw [reach, h]
  rfl

theorem inPlace_empty : empty.InPlace :=
  fun _ _ h => absurd h (by simp [empty])

/-- Either there is one that is as new, or it is put on the shelf. -/
theorem save_cases (s : Shelf) (x : Snapshot) :
    (x.version ≤ s.reach x.stream ∧ s.save x = s) ∨
      (s.reach x.stream ≤ x.version ∧ s.save x = s.overwrite x) := by
  unfold save
  cases h : s.latest x.stream with
  | none => exact .inr ⟨by rw [reach, h]; exact Nat.zero_le _, rfl⟩
  | some old =>
    rw [reach_of_latest h]
    by_cases hv : x.version ≤ old.version
    · exact .inl ⟨hv, if_pos hv⟩
    · exact .inr ⟨Nat.le_of_not_le hv, if_neg hv⟩

theorem le_reach_save (s : Shelf) (x : Snapshot) : x.version ≤ (s.save x).reach x.stream := by
  rcases s.save_cases x with ⟨hle, he⟩ | ⟨-, he⟩
  · rwa [he]
  · exact Nat.le_of_eq (by rw [he, reach_of_latest (s.latest_overwrite_same x)])

theorem reach_le_save (s : Shelf) (x : Snapshot) (stream : String) :
    s.reach stream ≤ (s.save x).reach stream := by
  rcases s.save_cases x with ⟨-, he⟩ | ⟨hle, he⟩
  · exact Nat.le_of_eq (by rw [he])
  · rw [he]
    by_cases hs : stream = x.stream
    · subst hs
      rwa [reach_of_latest (s.latest_overwrite_same x)]
    · exact Nat.le_of_eq (by rw [reach, reach, s.latest_overwrite_other x hs])

theorem InPlace.save (h : s.InPlace) (x : Snapshot) : (s.save x).InPlace := by
  rcases s.save_cases x with ⟨-, he⟩ | ⟨-, he⟩
  · rwa [he]
  · rw [he]
    intro stream x' hx'
    by_cases hs : stream = x.stream
    · subst hs
      rw [s.latest_overwrite_same x] at hx'
      rw [← Option.some.inj hx']
    · rw [s.latest_overwrite_other x hs] at hx'
      exact h stream x' hx'

end Shelf

/-- A request is answered, and a snapshot has been saved by it, or none has. -/
theorem InMemory.Answers.shelf {q : Request} {w w' : InMemory} {a : q.Answer}
    (h : InMemory.Answers q w a w') : w'.shelf = w.shelf ∨ ∃ x, w'.shelf = w.shelf.save x := by
  cases q with
  | save x =>
    cases h
    exact .inr ⟨x, rfl⟩
  | perform h' o =>
    rcases h.of_perform with rfl | ⟨c, c', -, -, rfl⟩
    · exact .inl rfl
    · exact .inl rfl
  | head | page | commit | load | time | look | confirm | place =>
    cases h <;> exact .inl rfl

/-- A request is answered, and no stream has lost anything. -/
theorem InMemory.Answers.within {q : Request} {w w' : InMemory} {a : q.Answer}
    (h : InMemory.Answers q w a w') : w.medium.Within w'.medium := by
  cases q with
  | commit allowed appends =>
    rcases h.of_commit with ⟨-, m, hm, rfl⟩ | ⟨-, rfl⟩
    · exact Memory.within_commit hm
    · exact .refl _
  | perform i o =>
    rcases h.of_perform with rfl | ⟨c, c', -, -, rfl⟩
    · exact .refl _
    · exact .refl _
  | head | page | save | load | time | look | confirm | place =>
    cases h
    exact .refl _

/-! ## Stories -/

/-- The copy has emitted more facts since, or none. -/
structure Story.GoesOn (y y' : Story) : Prop where
  start_eq : y'.start = y.start
  emitted : y.emitted <+: y'.emitted

namespace Story.GoesOn

variable {y y' y'' : Story}

theorem refl (y : Story) : y.GoesOn y :=
  ⟨rfl, List.prefix_rfl⟩

theorem trans (h : y.GoesOn y') (h' : y'.GoesOn y'') : y.GoesOn y'' :=
  ⟨h'.start_eq.trans h.start_eq, h.emitted.trans h'.emitted⟩

theorem emit (y : Story) (e : Event) : y.GoesOn (y.emit e) :=
  ⟨rfl, List.prefix_append ..⟩

end Story.GoesOn

namespace Scene

variable {s s' s'' : Scene}

/-- Nothing has gone back. -/
structure Onward (s s' : Scene) : Prop where
  reach_le : ∀ stream, s.world.shelf.reach stream ≤ s'.world.shelf.reach stream
  inPlace : s.world.shelf.InPlace → s'.world.shelf.InPlace
  stories : ∀ (h : HandleId) y, s.stories[h]? = some y →
    ∃ y', s'.stories[h]? = some y' ∧ y.GoesOn y'

theorem Onward.refl (s : Scene) : s.Onward s :=
  ⟨fun _ => Nat.le_refl _, id, fun _ y hy => ⟨y, hy, .refl y⟩⟩

theorem Onward.trans (h : s.Onward s') (h' : s'.Onward s'') : s.Onward s'' where
  reach_le := fun stream => Nat.le_trans (h.reach_le stream) (h'.reach_le stream)
  inPlace := fun hp => h'.inPlace (h.inPlace hp)
  stories := by
    intro i y hy
    obtain ⟨y', hy', hg⟩ := h.stories i y hy
    obtain ⟨y'', hy'', hg'⟩ := h'.stories i y' hy'
    exact ⟨y'', hy'', hg.trans hg'⟩

/-- A request puts down a story, goes on with one, or leaves all of them alone. -/
theorem stories_told (s : Scene) (q : Request) {h : HandleId} {y : Story}
    (hy : s.stories[h]? = some y) : ∃ y', (s.told q)[h]? = some y' ∧ y.GoesOn y' := by
  have same : ∃ y', s.stories[h]? = some y' ∧ y.GoesOn y' := ⟨y, hy, .refl y⟩
  cases q with
  | place c =>
    refine ⟨y, ?_, .refl y⟩
    show (s.stories ++ [_])[h]? = some y
    rw [List.getElem?_append_left (List.getElem?_eq_some_iff.1 hy).1]
    exact hy
  | perform i o =>
    dsimp only [told]
    cases s.world.copies[i]? with
    | none => exact same
    | some c =>
      dsimp only
      cases c.transfer.decide s.world.clock o with
      | error x => exact same
      | ok e =>
        dsimp only
        rw [List.getElem?_modify, hy]
        by_cases hi : i = h
        · exact ⟨y.emit e, by simp [hi], .emit y e⟩
        · exact ⟨y, by simp [hi], .refl y⟩
  | head | page | commit | save | load | time | look | confirm => exact same

theorem Answers.onward {q : Request} {a : q.Answer} (h : s.Answers q a s') : s.Onward s' := by
  obtain ⟨answered⟩ := h
  have shelf := answered.shelf
  refine ⟨fun stream => ?_, fun hp => ?_, fun i y hy => s.stories_told q hy⟩
  · rcases shelf with he | ⟨x, he⟩
    · exact Nat.le_of_eq (by rw [he])
    · rw [he]
      exact s.world.shelf.reach_le_save x stream
  · rcases shelf with he | ⟨x, he⟩
    · rwa [he]
    · rw [he]
      exact hp.save x

end Scene

theorem Office.Step.onward {allowed : Errand → Prop} {o o' : Office}
    (h : Office.Step allowed o o') :
    o.scene.Onward o'.scene := by
  cases h with
  | begins e idle may => exact .refl _
  | asks busy answered => exact answered.onward
  | medium available => exact ⟨fun _ => Nat.le_refl _, id, fun _ y hy => ⟨y, hy, .refl y⟩⟩
  | clock now => exact ⟨fun _ => Nat.le_refl _, id, fun _ y hy => ⟨y, hy, .refl y⟩⟩

theorem Office.Step.within {allowed : Errand → Prop} {o o' : Office}
    (h : Office.Step allowed o o') : o.scene.world.medium.Within o'.scene.world.medium := by
  cases h with
  | asks busy answered =>
    obtain ⟨answered⟩ := answered
    exact answered.within
  | begins e idle may => exact .refl _
  | medium available => exact .refl _
  | clock now => exact .refl _

end TransferLedger

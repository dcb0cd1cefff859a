import TransferLedger.Proofs.Office.Faithful
import TransferLedger.Proofs.Office.Untold
import TransferLedger.Proofs.Office.Visits

/-!
# Retries

Somebody has a coordinator in an office whose storage may apply a batch and not say so.  He calls it
as often as he likes, whatever the calls have come to, opens transactions and gives them up, and has
it track what he wants, while the clerks put down copies and operate on them.  Still nothing that a
copy has emitted is stored twice (`Office.at_most_once`): each record that the coordinator has
stored comes from a fact, and no two come from the same.

It is the version at which a copy stands that prevents it.  A copy that has not been told of a
batch is behind its stream from then on: its next place has been filled by the coordinator, and
nobody else may tell it so.  A call that would store what such a copy has in its buffer comes to a
conflict before anything is stored (`Office.conflict_of_stuck`).
-/

set_option autoImplicit false

namespace TransferLedger

open Chronicle

namespace Office

/-! ## A coordinator and what becomes of it -/

/-- A request is answered to somebody who may not hear of it: a batch has landed, or it has not, and
there is an error or no answer in time. -/
inductive Unsure : (q : Request) → Office → q.Answer → Office → Prop
  | served {q : Request} {o o' : Office} {a : q.Answer} (served : Serves q o a o') : Unsure q o a o'
  | unheard {n : Nat} {appends : List Append} {o : Office} {m : Memory} {a : Reply}
      (landed : o.medium.commit appends = .ok m) (failed : a ≠ .applied) :
      Unsure (.commit n appends) o a { o with scene.world.medium := m }
  | failed {n : Nat} {appends : List Append} {o : Office} {a : Reply} (failed : a ≠ .applied) :
      Unsure (.commit n appends) o a o

/-- What may become of a coordinator in an office whose storage may apply a batch and not say so,
and the exchanges that it has had. -/
inductive Employs (allowed : Errand → Prop) (clock : Instant) (shelf : Shelf) :
    Office → Coordinator → List (Exchange Office) → Prop
  | hired (log : Log) (snapshots : Bool) (policy : SnapshotPolicy) :
      Employs allowed clock shelf (opening clock shelf)
        { Coordinator.idle log snapshots with policy := policy } []
  /-- The clerks put down copies, operate on them, and do what else they have to do. -/
  | step {o o' : Office} {c : Coordinator} {xs : List (Exchange Office)}
      (before : Employs allowed clock shelf o c xs) (step : Step allowed o o') :
      Employs allowed clock shelf o' c xs
  | track {o : Office} {c : Coordinator} {xs : List (Exchange Office)}
      (before : Employs allowed clock shelf o c xs) (h : HandleId) :
      Employs allowed clock shelf o (c.track h) xs
  | begin {o : Office} {c c' : Coordinator} {xs : List (Exchange Office)}
      (before : Employs allowed clock shelf o c xs) (begins : c.begin = .ok c') :
      Employs allowed clock shelf o c' xs
  | rollback {o : Office} {c c' : Coordinator} {xs : List (Exchange Office)} {n : Nat}
      (before : Employs allowed clock shelf o c xs) (rolls : c.rollback = .ok (n, c')) :
      Employs allowed clock shelf o c' xs
  /-- A call, whatever it comes to. -/
  | call {o o' : Office} {c c' : Coordinator} {xs ys : List (Exchange Office)}
      {work : Dialogue (Except CommitError Nat × Coordinator)} {res : Except CommitError Nat}
      (before : Employs allowed clock shelf o c xs) (call : work = c.push ∨ work = c.commit)
      (led : work.Led (Step allowed) Unsure o ys (res, c') o') :
      Employs allowed clock shelf o' c' (xs ++ ys)

/-- A position of a stream has been filled in one of these exchanges. -/
def Filled (xs : List (Exchange Office)) (stream : String) (i : Nat) : Prop :=
  ∃ x ∈ xs, (x.found.scene.records stream).length ≤ i ∧ i < (x.left.scene.records stream).length

/-- There is a note on every record, and a visitor's are those that his exchanges have filled. -/
structure Marked (xs : List (Exchange Office)) (s : Chronicle) : Prop where
  noted : ∀ stream, (s.authors stream).length = (s.medium.records stream).length
  filled : ∀ stream i, (s.authors stream)[i]? = some none ↔ Filled xs stream i

theorem known_marked (L : Law) : Known L Marked where
  rely := fun hm hr hi => ⟨hi.noted, fun stream i =>
    ⟨fun hp => (hm.filled stream i).1 (Decidable.byContradiction fun hne => hr.other_author hne hp),
      fun hf => hr.author ((hm.filled stream i).2 hf)⟩⟩
  after := fun {xs o authors q scene} hm within => by
    have grows (stream : String) :
        (o.scene.records stream).length ≤ (scene.records stream).length :=
      within.length_le stream
    have noted (stream : String) : (authors stream).length = (o.scene.records stream).length :=
      hm.noted stream
    refine ⟨fun stream => ?_, fun stream i => ?_⟩
    · have := grows stream
      show (authors stream ++ List.replicate _ none).length = (scene.records stream).length
      rw [List.length_append, List.length_replicate, noted]
      show _ + ((scene.records stream).length - (o.scene.records stream).length) = _
      omega
    · have old := hm.filled stream i
      have split : Filled (xs ++ [⟨q, o, { o with scene := scene }⟩]) stream i ↔
          Filled xs stream i ∨
            (o.scene.records stream).length ≤ i ∧ i < (scene.records stream).length := by
        simp [Filled, or_and_right, exists_or]
      rw [split]
      show (authors stream ++ List.replicate
        ((scene.records stream).length - (o.scene.records stream).length) none)[i]? = _ ↔ _
      have := noted stream
      by_cases hi : i < (authors stream).length
      · rw [List.getElem?_append_left hi, ← old]
        exact ⟨.inl, fun h => h.resolve_right fun h => by omega⟩
      · have hnone : ¬ Filled xs stream i := fun hf =>
          hi (List.getElem?_eq_some_iff.1 (old.2 hf)).1
        rw [List.getElem?_append_right (Nat.le_of_not_lt hi), List.getElem?_replicate]
        have hiff : i - (authors stream).length <
            (scene.records stream).length - (o.scene.records stream).length ↔
            (o.scene.records stream).length ≤ i ∧ i < (scene.records stream).length := by omega
        simp [hnone, hiff]

section run

variable {allowed : Errand → Prop} {clock : Instant} {shelf : Shelf} {o o' : Office}
  {c : Coordinator} {xs ys : List (Exchange Office)}

theorem admits_unsure (allowed : Errand → Prop) :
    Admits .free (unsureRules .free none) (Step allowed) Unsure where
  holds := id
  others := fun h step => by
    obtain ⟨authors', h', hr⟩ := h.step (fun _ _ _ _ _ _ _ => trivial) step
    exact ⟨authors', h', hr, hr, step.onward⟩
  answers := fun {o o' authors q a} h hp ha => by
    cases ha with
    | served served =>
      obtain @⟨scene, answered⟩ := served
      exact ⟨scene, rfl, .served ⟨answered⟩, h.answered hp answered⟩
    | @unheard n appends _ m _ landed failed =>
      exact ⟨{ o.scene with world.medium := m }, rfl, .unheard landed failed,
        .landed (n := n) h.holds hp landed⟩
    | failed failed =>
      refine ⟨o.scene, rfl, ?_, .quiet h.holds⟩
      rw [after_scene]
      exact .failed failed

theorem admits_inReach (allowed : Errand → Prop) :
    Admits .free (reachableRules .free none) (InReach allowed) Unsure where
  holds := id
  others := fun h reach => by
    obtain ⟨authors', h', hr, hr'⟩ := (admits_unsure allowed).others h reach.step
    exact ⟨authors', h', hr, hr', fun _ => reach.available⟩
  answers := (admits_unsure allowed).answers

theorem Unsure.of_looks {q : Request} (hq : q.looks = true) {a : q.Answer}
    (h : Unsure q o a o') : o' = o := by
  cases h with
  | served served =>
    obtain ⟨⟨answered⟩⟩ := served
    obtain ⟨-, rfl⟩ := answered.of_looks hq
    cases q with
    | head | page | load | time | look => rfl
    | commit | save | confirm | place | perform => simp [Request.looks] at hq
  | unheard _ _ => simp [Request.looks] at hq
  | failed _ => rfl

/-- What holds of the office and of the coordinator at any time. -/
structure Accounted (o : Office) (c : Coordinator) (xs : List (Exchange Office))
    (authors : String → List Party) : Prop where
  sound : Sound .free o authors
  fit : c.Fit .free ⟨o.scene, authors⟩
  attributed : Attributed none ⟨o.scene, authors⟩
  marked : Marked xs ⟨o.scene, authors⟩

theorem Accounted.call {authors : String → List Party} (h : Accounted o c xs authors)
    {work : Dialogue (Except CommitError Nat × Coordinator)}
    (call : work = c.push ∨ work = c.commit) {res : Except CommitError Nat} {c' : Coordinator}
    (led : work.Led (Step allowed) Unsure o ys (res, c') o') :
    ∃ authors', Accounted o' c' (xs ++ ys) authors' := by
  have keeps : work.Keeps (unsureRules .free none)
      (fun r s' => r.2.Fit .free s' ∧ Attributed none s') ⟨o.scene, authors⟩ := by
    rcases call with rfl | rfl
    · exact Coordinator.keeps_push_attributed h.fit h.attributed
    · exact Coordinator.keeps_commit_attributed h.fit h.attributed
  obtain ⟨authors', sound, ⟨fit, attributed⟩, marked⟩ := h.sound.received (admits_unsure allowed)
    (known_marked .free) xs h.marked keeps led
  exact ⟨authors', sound, fit, attributed, marked⟩

theorem Employs.accounted (run : Employs allowed clock shelf o c xs) :
    ∃ authors, Accounted o c xs authors := by
  induction run with
  | hired log snapshots policy =>
    refine ⟨fun _ => [], .opening fun _ _ _ => trivial, .closed (fun _ _ _ => trivial) rfl,
      fun stream i hi => ?_, fun _ => rfl, fun stream i => ?_⟩
    · simp at hi
    · simp [Filled]
  | step before step ih =>
    obtain ⟨authors, h⟩ := ih
    obtain ⟨authors', sound, hr⟩ := h.sound.step (fun _ _ _ _ _ _ _ => trivial) step
    exact ⟨authors', sound, Coordinator.Fit.stable _ h.fit hr sound.holds,
      Attributed.stable .free none h.attributed ⟨hr, step.onward⟩ sound.holds,
      (known_marked .free).rely h.marked hr sound.holds⟩
  | track before i ih =>
    obtain ⟨authors, h⟩ := ih
    exact ⟨authors, h.sound, h.fit.track i, h.attributed, h.marked⟩
  | begin before begins ih =>
    obtain ⟨authors, h⟩ := ih
    exact ⟨authors, h.sound, h.fit.begin begins, h.attributed, h.marked⟩
  | rollback before rolls ih =>
    obtain ⟨authors, h⟩ := ih
    exact ⟨authors, h.sound, h.fit.rollback rolls, h.attributed, h.marked⟩
  | call before call led ih =>
    obtain ⟨authors, h⟩ := ih
    exact h.call call led

theorem Employs.reaches (run : Employs allowed clock shelf o c xs)
    (reached : Reaches allowed o o') : Employs allowed clock shelf o' c xs := by
  induction reached with
  | refl => exact run
  | tail _ step ih => exact ih.step step

/-- A copy that has not been told of one of its records has a fact in its buffer, and the place of
the first one has been filled. -/
theorem Accounted.untold {authors : String → List Party} (h : Accounted o c xs authors)
    {stream : String} {i k : Nat} {j : HandleId} {x : WorkingCopy}
    (comes : ComesFrom none ⟨o.scene, authors⟩ stream i (j, k))
    (hx : o.scene.world.copies[j]? = some x) (untold : x.durable ≤ i) :
    x.stream = stream ∧ x.pending ≠ [] ∧ Filled xs stream x.durable := by
  obtain ⟨y, e, r, hy, -, hi, he, -⟩ := comes.attributes
  obtain ⟨x', hx', hs, hown⟩ := comes.unbroken
  obtain rfl : x = x' := Option.some.inj (hx.symm.trans hx')
  obtain ⟨-, -, n, ht⟩ := h.sound.holds.told j x y hx hy
  have hlt : k < y.emitted.length := (List.getElem?_eq_some_iff.1 he).1
  refine ⟨hs, List.ne_nil_of_length_pos ?_,
    (h.marked.filled _ _).1 (hown _ (Nat.le_refl _) untold)⟩
  -- The fact of the record is behind those that the copy has been told of.
  have := ht.durable_eq
  rw [ht.pending_eq, List.length_drop]
  omega

/-- A copy with facts in its buffer is stuck where the place of the first one has been filled. -/
theorem Accounted.stuck {authors : String → List Party} (h : Accounted o c xs authors)
    {j : HandleId} {x : WorkingCopy} (hx : o.scene.world.copies[j]? = some x)
    (buffered : x.pending ≠ []) (filled : Filled xs x.stream x.durable)
    (available : o.medium.available = true) :
    Stuck none j x.stream x.durable ⟨o.scene, authors⟩ :=
  ⟨⟨x, hx, rfl, rfl, List.length_pos_of_ne_nil buffered⟩, (h.marked.filled _ _).2 filled, available⟩

/-- A call that would stage a stuck copy is a conflict, and does nothing but look. -/
theorem conflict_of_stuck {authors : String → List Party} (sound : Sound .free o authors)
    {h : HandleId} {stream : String} {d : Nat} (stuck : Stuck none h stream d ⟨o.scene, authors⟩)
    (closed : c.transaction = none) (tracked : h ∈ c.tracked)
    {r : Except CommitError Nat × Coordinator}
    (led : c.push.Led (InReach allowed) Unsure o ys r o') :
    (∃ stream expected current, r = (.error (.store (.conflict stream expected current)), c)) ∧
      ∀ y ∈ ys, y.left = y.found := by
  unfold Coordinator.push at led
  rw [closed] at led
  obtain ⟨ys₁, r₁, o₁, ys₂, staging, rest, rfl⟩ := led.of_bind
  have beyond : OpenBatch.empty.Beyond stream d := fun g hg => by
    simp [OpenBatch.empty, Batch.empty, Batch.head?, Batch.records] at hg
  obtain ⟨authors', -, ⟨e, rfl, he⟩, -⟩ := sound.received (admits_inReach allowed)
    (known_nothing .free) [] trivial (c.log.keeps_stageAll_stuck tracked stuck beyond rfl) staging
  obtain ⟨rfl, rfl, -⟩ := rest.of_pure
  refine ⟨?_, fun y hy => ?_⟩
  · cases e with
    | conflict stream expected current => exact ⟨stream, expected, current, rfl⟩
    | _ => simp [StoreError.isConflict] at he
  · rw [List.append_nil] at hy
    obtain ⟨looks, a, answered⟩ := (c.log.onlyLooks_stageAll ..).exchanged staging y hy
    exact answered.of_looks looks

/-- Whatever has become of the coordinator, each record that it has stored is a fact that some copy
has emitted, in its place, and no two are the same fact.  If that copy has not been told of it, the
copy has facts in its buffer, and the place of the first of them has been filled.  And whenever that
is so of any copy that is tracked, a call outside a transaction comes to a conflict and changes
nothing, while the medium is in reach. -/
theorem at_most_once (run : Employs allowed clock shelf o c xs) :
    (∃ origin : String → Nat → HandleId × Nat,
      (∀ stream i, Filled xs stream i → o.scene.Attributes stream i (origin stream i)) ∧
      (∀ stream i stream' i', Filled xs stream i → Filled xs stream' i' →
        origin stream i = origin stream' i' → stream = stream' ∧ i = i') ∧
      ∀ stream i x, Filled xs stream i →
        o.scene.world.copies[(origin stream i).1]? = some x → x.durable ≤ i →
        x.stream = stream ∧ x.pending ≠ [] ∧ Filled xs stream x.durable) ∧
    ∀ h ∈ c.tracked, ∀ x, o.scene.world.copies[h]? = some x → x.pending ≠ [] →
      Filled xs x.stream x.durable → c.transaction = none → o.medium.available = true →
      ∀ ys r o', c.push.Led (InReach allowed) Unsure o ys r o' →
        (∃ stream expected current,
          r = (.error (.store (.conflict stream expected current)), c)) ∧
        ∀ y ∈ ys, y.left = y.found := by
  obtain ⟨authors, accounted⟩ := run.accounted
  refine ⟨?_, fun h tracked x hx buffered filled closed available ys r o' led =>
    conflict_of_stuck accounted.sound (accounted.stuck hx buffered filled available) closed tracked
      led⟩
  have comes : ∀ stream i, ∃ x, Filled xs stream i →
      ComesFrom none ⟨o.scene, authors⟩ stream i x := by
    intro stream i
    by_cases hf : Filled xs stream i
    · obtain ⟨x, hx⟩ := accounted.attributed stream i ((accounted.marked.filled stream i).2 hf)
      exact ⟨x, fun _ => hx⟩
    · exact ⟨(0, 0), fun hf' => absurd hf' hf⟩
  choose origin horigin using comes
  refine ⟨origin, fun stream i hf => (horigin stream i hf).attributes,
    fun stream i stream' i' hf hf' he => ?_,
    fun stream i x hf hx untold => accounted.untold (horigin stream i hf) hx untold⟩
  have first := (horigin stream i hf).attributes
  rw [he] at first
  exact first.unique (horigin stream' i' hf').attributes

end run

/-! ## A reply that is lost -/

end Office

/-- What is made of an answer by somebody who does not hear what becomes of a batch. -/
def Request.unheard : (q : Request) → q.Answer → q.Answer
  | .commit _ _, _ => Reply.late
  | _, a => a

namespace Office

/-- A visit while nobody else does anything, by somebody who does not hear what becomes of a
batch. -/
def playUnheard {α : Type} : Dialogue α → Office → List (Exchange Office) × α × Office
  | .done a, o => ([], a, o)
  | .ask q next, o =>
    let left := { o with scene := ⟨(o.scene.world.answer q).2, o.scene.told q⟩ }
    let (xs, rest) := playUnheard (next (q.unheard (o.scene.world.answer q).1)) left
    (⟨q, o, left⟩ :: xs, rest)

theorem unsure_unheard (q : Request) (o : Office) :
    Unsure q o (q.unheard (o.scene.world.answer q).1)
      { o with scene := ⟨(o.scene.world.answer q).2, o.scene.told q⟩ } := by
  cases q with
  | commit n appends =>
    show Unsure (.commit n appends) o Reply.late _
    cases hm : o.medium.commit appends with
    | ok m =>
      have := Unsure.unheard (n := n) (a := Reply.late) hm nofun
      simpa [InMemory.answer, Memory.reply, hm, Scene.told] using this
    | error e =>
      have : Unsure (.commit n appends) o Reply.late o := .failed nofun
      simpa [InMemory.answer, Memory.reply, hm, Scene.told] using this
  | head | page | load | time | look | save | confirm | place | perform =>
    exact .served ⟨⟨.done _ o.scene.world⟩⟩

theorem led_unheard {α : Type} {others : Office → Office → Prop} (t : Dialogue α) (o : Office) :
    t.Led others Unsure o (playUnheard t o).1 (playUnheard t o).2.1 (playUnheard t o).2.2 := by
  induction t generalizing o with
  | done a => exact .done a o
  | ask q next ih => exact .asks (unsure_unheard q o) (ih _ _)

/-- A transfer is to be opened. -/
def drafted : Office :=
  (opening .startOf2025 .empty).play
    [.begins 0 (.start "t"), .serve 0 1,
      .begins 0 (.perform 0 (.initiate ⟨100, "EUR", "a", "b"⟩)), .serve 0 1]

def keeper : Coordinator :=
  (Coordinator.idle .quick false).track 0

/-- The batch lands, but nobody has heard of it, and the transfer goes on. -/
def inDoubt : Office :=
  (playUnheard keeper.push drafted).2.2.play
    [.begins 0 (.perform 0 (.authorize (.approved "x"))), .serve 0 1]

/-- The first fact is stored, and the second waits behind it in the buffer.  To try again is a
conflict. -/
theorem at_most_once_of_inDoubt :
    (playUnheard keeper.push drafted).2.1 =
        (.error (.store (Log.tooLate Log.quick.config.timeout)), keeper) ∧
    (inDoubt.scene.records "t").length = 1 ∧
    inDoubt.scene.Attributes "t" 0 (0, 0) ∧
    (playVisit keeper.push [] inDoubt).2.1 = (.error (.store (.conflict "t" 0 1)), keeper) ∧
    ∀ y ∈ (playVisit keeper.push [] inDoubt).1, y.left = y.found := by
  have hired : Employs (fun _ => True) .startOf2025 .empty (opening .startOf2025 .empty)
      (Coordinator.idle .quick false) [] :=
    .hired .quick false (Coordinator.idle .quick false).policy
  have begun : Employs (fun _ => True) .startOf2025 .empty drafted keeper [] :=
    .track (hired.reaches (reaches_play _ fun _ _ _ _ => trivial)) 0
  have lost : (playUnheard keeper.push drafted).2.1 =
      (.error (.store (Log.tooLate Log.quick.config.timeout)), keeper) := rfl
  have led : keeper.push.Led (Step fun _ => True) Unsure drafted _ _ _ := led_unheard _ drafted
  rw [lost] at led
  have run : Employs (fun _ => True) .startOf2025 .empty inDoubt keeper
      (playUnheard keeper.push drafted).1 :=
    (begun.call (.inl rfl) led).reaches (reaches_play _ fun _ _ _ _ => trivial)
  obtain ⟨⟨origin, attributes, -, resting⟩, retry⟩ := at_most_once run
  have filled : Filled (playUnheard keeper.push drafted).1 "t" 0 :=
    ⟨(playUnheard keeper.push drafted).1.get ⟨3, by decide⟩, List.get_mem .., by decide, by decide⟩
  obtain ⟨x, hx, hs, hd⟩ : ∃ x, inDoubt.scene.world.copies[0]? = some x ∧ x.stream = "t" ∧
      x.durable = 0 := ⟨_, rfl, rfl, rfl⟩
  have start : inDoubt.scene.stories[0]?.map (·.start.durable) = some 0 := rfl
  have attributed := attributes "t" 0 filled
  have rests := resting "t" 0 x filled
  rcases place : origin "t" 0 with ⟨j, k⟩
  rw [place] at attributed rests
  have ⟨y, _, _, hy, _, hi, _⟩ := attributed
  -- There is one copy, and it was put down without facts.
  obtain rfl : j = 0 := Nat.lt_one_iff.1 (List.getElem?_eq_some_iff.1 hy).1
  rw [hy] at start
  obtain rfl : k = 0 := by
    have : y.start.durable = 0 := Option.some.inj start
    omega
  obtain ⟨-, buffered, next⟩ := rests hx (Nat.le_of_eq hd)
  have again : keeper.push.Led (InReach fun _ => True) Unsure inDoubt _ _ _ :=
    (led_alone keeper.push inDoubt).mono .served
  exact ⟨lost, rfl, attributed, rfl,
    (retry 0 (List.mem_singleton_self 0) x hx buffered (hs ▸ next) rfl rfl _ _ _ again).2⟩

end Office

end TransferLedger

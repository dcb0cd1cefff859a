import TransferLedger.Proofs.Batch.Transaction

/-!
# The order in which copies are named

A coordinator stages the copies in the order in which they have been named, the medium checks them
in that order, and in that order they are confirmed and their snapshots are written.  If no two of
them have the same stream the order makes no difference, nor does it that some are named twice: a
commit that succeeds for one order succeeds for every other, with the same number of facts, and
leaves the same surroundings (`Coordinator.run_push_trackAll`).

Staging a copy depends on what the batch has of the copy and of its stream (`OpenBatch.AlikeFor`),
and copies of other streams change neither.  So all of them can be staged if and only if each of
them could be staged first (`Log.run_stageAll_iff`), in which nothing is left of the order.  That is
so for any batch, whatever others have done to the medium since it was begun.  A batch that is
stored at once has been gathered from nothing, and how that was done is known to make no difference.
-/

set_option autoImplicit false

namespace TransferLedger

variable {log : Log} {b b' b₁ b₂ : OpenBatch} {w w' : InMemory} {h i : HandleId} {n : Nat}
  {x : WorkingCopy} {is is' : List HandleId}

/-! ## Staging copies apart -/

/-- Two batches have the same number of facts of a copy, and the same end for its stream. -/
structure OpenBatch.AlikeFor (w : InMemory) (h : HandleId) (b b' : OpenBatch) : Prop where
  staged : b'.stagedFor h = b.stagedFor h
  ends : ∀ x, w.copies[h]? = some x → b'.batch.head? x.stream = b.batch.head? x.stream

namespace OpenBatch.AlikeFor

theorem refl (w : InMemory) (h : HandleId) (b : OpenBatch) : b.AlikeFor w h b :=
  ⟨rfl, fun _ _ => rfl⟩

theorem symm (alike : AlikeFor w h b b') : AlikeFor w h b' b :=
  ⟨alike.staged.symm, fun x hx => (alike.ends x hx).symm⟩

theorem waiting (alike : AlikeFor w h b b') : b'.waiting w h = b.waiting w h := by
  rw [OpenBatch.waiting, OpenBatch.waiting, alike.staged]

end OpenBatch.AlikeFor

namespace Log

/-- A copy can be staged on a batch. -/
def Stageable (log : Log) (w : InMemory) (b : OpenBatch) (h : HandleId) : Prop :=
  ∃ n b', (log.stageCopy h b).run w = (.ok (n, b'), w)

theorem run_stage_of_ok {batch batch' : Batch} {stream : String} {entries : List Entry}
    {expected v : Nat}
    (done : (log.stage batch stream entries expected).run w = (.ok (v, batch'), w')) :
    ∃ head, (headBehind batch stream).run w = (.ok head, w') ∧
      log.stageBehind batch stream entries expected head = .ok (v, batch') := by
  rw [stage, Dialogue.run_bind] at done
  rcases hh : (headBehind batch stream).run w with ⟨e | head, w₁⟩
  · rw [hh] at done
    exact absurd (Prod.mk.inj done).1 (by simp)
  · rw [hh] at done
    obtain ⟨hb, rfl⟩ := Prod.mk.inj
      (show (log.stageBehind batch stream entries expected head, w₁) = _ from done)
    exact ⟨head, rfl, hb⟩

/-- Whether something can be staged behind an end does not depend on the rest of the batch. -/
theorem stageBehind_congr {batch batch' : Batch} {stream : String} {entries : List Entry}
    {expected v : Nat} {head : Head} (other : Batch)
    (done : log.stageBehind batch stream entries expected head = .ok (v, batch')) :
    ∃ other', log.stageBehind other stream entries expected head = .ok (v, other') := by
  unfold stageBehind at done ⊢
  split at done
  · simp at done
  · next hv =>
    rw [if_neg hv]
    split at done
    · next he =>
      rw [if_pos he]
      exact ⟨other, by rw [(Prod.mk.inj (Except.ok.inj done)).1]⟩
    · next he =>
      rw [if_neg he]
      exact ⟨_, by rw [← (Prod.mk.inj (Except.ok.inj done)).1]⟩

/-- What staging a copy has done. -/
theorem of_run_stageCopy (done : (log.stageCopy h b).run w = (.ok (n, b'), w')) :
    w' = w ∧ n = b.waiting w h ∧ ∀ i, i ≠ h →
      (∀ x y, w.copies[h]? = some x → w.copies[i]? = some y → y.stream ≠ x.stream) →
      b.AlikeFor w i b' := by
  have looks := Dialogue.run_of_looks (log.onlyLooks_stageCopy h b) w
  rw [done] at looks
  obtain rfl : w' = w := looks
  cases hx : w'.copies[h]? with
  | none =>
    rw [run_stageCopy_of_none hx] at done
    obtain ⟨rfl, rfl⟩ := Prod.mk.inj (Except.ok.inj (Prod.mk.inj done).1)
    exact ⟨rfl, by rw [OpenBatch.waiting, hx], fun i _ _ => .refl w' i b⟩
  | some x =>
    by_cases all : x.pending.length ≤ b.stagedFor h
    · rw [run_stageCopy_of_le hx all] at done
      obtain ⟨rfl, rfl⟩ := Prod.mk.inj (Except.ok.inj (Prod.mk.inj done).1)
      refine ⟨rfl, ?_, fun i _ _ => .refl w' i b⟩
      rw [OpenBatch.waiting_of_copy hx]
      omega
    · rw [run_stageCopy_of_lt hx (Nat.lt_of_not_le all)] at done
      rcases hstage : (log.stage b.batch x.stream (x.unstaged w'.clock (b.stagedFor h))
        (x.durable + b.stagedFor h)).run w' with ⟨e | ⟨v, batch⟩, w₁⟩
      · rw [hstage] at done
        exact absurd (Prod.mk.inj done).1 (by simp)
      · rw [hstage] at done
        obtain ⟨rfl, rfl⟩ := Prod.mk.inj (Except.ok.inj (Prod.mk.inj done).1)
        obtain ⟨head, -, hb⟩ := run_stage_of_ok hstage
        obtain ⟨-, -, hrecords⟩ := records_of_stageBehind hb
        refine ⟨rfl, (OpenBatch.waiting_of_copy hx).symm, fun i hne apart => ?_⟩
        refine ⟨OpenBatch.stagedFor_note_other hne, fun y hy => ?_⟩
        exact Batch.head?_extended_other hrecords (Sealer.continues_chain ..) (apart x y rfl hy)

theorem Stageable.congr (alike : b.AlikeFor w h b') (can : log.Stageable w b h) :
    log.Stageable w b' h := by
  obtain ⟨n, b₁, done⟩ := can
  cases hx : w.copies[h]? with
  | none => exact ⟨0, b', run_stageCopy_of_none hx⟩
  | some x =>
    by_cases all : x.pending.length ≤ b'.stagedFor h
    · exact ⟨0, b', run_stageCopy_of_le hx all⟩
    have more := Nat.lt_of_not_le all
    have hrun : (log.stageCopy h b').run w = _ := run_stageCopy_of_lt hx more
    rw [alike.staged] at more hrun
    rw [run_stageCopy_of_lt hx more] at done
    rcases hstage : (log.stage b.batch x.stream (x.unstaged w.clock (b.stagedFor h))
      (x.durable + b.stagedFor h)).run w with ⟨e | ⟨v, batch⟩, w₁⟩
    · rw [hstage] at done
      exact absurd (Prod.mk.inj done).1 (by simp)
    · rw [hstage] at done
      obtain rfl : w₁ = w := (Prod.mk.inj done).2
      obtain ⟨head, hhead, hb⟩ := run_stage_of_ok hstage
      obtain ⟨batch', hb'⟩ := stageBehind_congr b'.batch hb
      -- The log looks for the end of the stream where it did before.
      have hhead' : (headBehind b'.batch x.stream).run w₁ = (.ok head, w₁) := by
        rwa [headBehind, alike.ends x hx]
      have hstage' : (log.stage b'.batch x.stream (x.unstaged w₁.clock (b.stagedFor h))
          (x.durable + b.stagedFor h)).run w₁ = (.ok (v, batch'), w₁) := by
        rw [stage, Dialogue.run_bind_of hhead']
        exact congrArg (·, w₁) hb'
      rw [hstage'] at hrun
      exact ⟨_, _, hrun⟩

/-- Where no two copies have the same stream, they can all be staged if each of them can be staged
first, and only then. -/
theorem run_stageAll_iff (nodup : is.Nodup) (apart : InMemory.Apart is w) :
    (∃ b', (log.stageAll is b).run w = (.ok (n, b'), w)) ↔
      (∀ i ∈ is, log.Stageable w b i) ∧ n = (is.map (b.waiting w)).sum := by
  induction is generalizing b n with
  | nil =>
    have hrun : (log.stageAll [] b).run w = (.ok (0, b), w) := rfl
    rw [hrun]
    simp [eq_comm]
  | cons h rest ih =>
    obtain ⟨fresh, nodup⟩ := List.nodup_cons.1 nodup
    have ih' (b : OpenBatch) (n : Nat) := ih (b := b) (n := n) nodup
      (apart.subset fun i hi => List.mem_cons_of_mem h hi)
    -- Staging the first copy makes no difference to the others.
    have others {k : Nat} {b₁ : OpenBatch} (first : (log.stageCopy h b).run w = (.ok (k, b₁), w)) :
        k = b.waiting w h ∧ ∀ i ∈ rest, b.AlikeFor w i b₁ := by
      obtain ⟨-, hk, alike⟩ := of_run_stageCopy first
      refine ⟨hk, fun i hi => alike i (fun he => fresh (he ▸ hi)) fun x y hx hy he => fresh ?_⟩
      rw [apart h List.mem_cons_self i (List.mem_cons_of_mem h hi) x y hx hy he.symm]
      exact hi
    have sums {b₁ : OpenBatch} (alike : ∀ i ∈ rest, b.AlikeFor w i b₁) :
        (rest.map (b₁.waiting w)).sum = (rest.map (b.waiting w)).sum :=
      congrArg List.sum (List.map_congr_left fun i hi => (alike i hi).waiting)
    rw [List.map_cons, List.sum_cons]
    constructor
    · rintro ⟨b', done⟩
      rw [stageAll, Dialogue.run_bind] at done
      rcases hfirst : (log.stageCopy h b).run w with ⟨e | ⟨k, b₁⟩, w₁⟩
      · rw [hfirst] at done
        exact absurd (Prod.mk.inj done).1 (by simp)
      obtain ⟨rfl, -, -⟩ := of_run_stageCopy hfirst
      obtain ⟨hk, alike⟩ := others hfirst
      rw [hfirst] at done
      simp only [Dialogue.run_bind] at done
      rcases hrest : (log.stageAll rest b₁).run w₁ with ⟨e | ⟨more, b₂⟩, w₂⟩
      · rw [hrest] at done
        exact absurd (Prod.mk.inj done).1 (by simp)
      rw [hrest] at done
      obtain ⟨hn, rfl⟩ := Prod.mk.inj done
      obtain ⟨can, hmore⟩ := (ih' b₁ more).1 ⟨b₂, hrest⟩
      refine ⟨List.forall_mem_cons.2 ⟨⟨k, b₁, hfirst⟩, fun i hi => ?_⟩, ?_⟩
      · exact (can i hi).congr (alike i hi).symm
      · rw [← (Prod.mk.inj (Except.ok.inj hn)).1, hk, hmore, sums alike]
    · rintro ⟨can, rfl⟩
      obtain ⟨⟨k, b₁, hfirst⟩, can⟩ := List.forall_mem_cons.1 can
      obtain ⟨rfl, alike⟩ := others hfirst
      obtain ⟨b₂, hrest⟩ := (ih' b₁ _).2 ⟨fun i hi => (can i hi).congr (alike i hi), rfl⟩
      refine ⟨b₂, ?_⟩
      rw [stageAll, Dialogue.run_bind_of hfirst]
      show (log.stageAll rest b₁ >>= _).run w = _
      rw [Dialogue.run_bind_of hrest, sums alike]
      rfl

/-- So the order in which they are staged makes no difference to what can be staged. -/
theorem run_stageAll_perm (perm : is.Perm is') (nodup : is.Nodup) (apart : InMemory.Apart is w)
    (done : (log.stageAll is b).run w = (.ok (n, b₁), w)) :
    ∃ b₂, (log.stageAll is' b).run w = (.ok (n, b₂), w) := by
  obtain ⟨can, rfl⟩ := (run_stageAll_iff nodup apart).1 ⟨b₁, done⟩
  refine (run_stageAll_iff (perm.nodup_iff.1 nodup) ?_).2 ⟨fun i hi => ?_, ?_⟩
  · exact apart.subset fun i hi => perm.mem_iff.2 hi
  · exact can i (perm.mem_iff.2 hi)
  · exact (perm.map (b.waiting w)).sum_nat

end Log

/-! ## Committing copies apart -/

namespace Coordinator

variable {c c₁ : Coordinator} {hs hs' : List HandleId}

/-- Only which copies are tracked makes a difference to whom a batch is confirmed. -/
theorem run_confirmAll_perm (c : Coordinator) (perm : is.Perm is') (ms : List Movement)
    (w : InMemory) : ({ c with tracked := is }.confirmAll ms).run w =
      ({ c with tracked := is' }.confirmAll ms).run w := by
  have htold (m : Movement) (w : InMemory) :
      { c with tracked := is }.told m w = { c with tracked := is' }.told m w := rfl
  simp only [run_confirmAll, perm.mem_iff, htold]

theorem run_settle_perm (perm : is.Perm is') (nodup : is.Nodup) (apart : InMemory.Apart is w)
    (done : ({ c with tracked := is }.settle .empty).run w = ((.ok n, c₁), w')) :
    ({ c with tracked := is' }.settle .empty).run w = ((.ok n, c₁), w') := by
  obtain ⟨k, b₁, w₁, hstage, hfinish⟩ := of_run_settle done
  have hempty (hs : List HandleId) := OpenBatch.Gathers.empty c.log hs w
  obtain ⟨rfl, stages⟩ := (hempty is).of_run_stageAll nodup (fun _ => id) hstage
  obtain ⟨b₂, hstage'⟩ := Log.run_stageAll_perm perm nodup apart hstage
  obtain ⟨-, stages'⟩ :=
    (hempty is).of_run_stageAll (perm.nodup_iff.1 nodup) (fun i hi => perm.mem_iff.2 hi) hstage'
  have reached := reached_of_finish hfinish
  have size := (stages.gathers.agree stages.all (fun i hi => stages'.all i (perm.mem_iff.1 hi))
    stages'.gathers).2.2
  have hfinish' := finish_congr (c := { c with tracked := is }) stages.gathers stages'.gathers
    stages.all (fun i hi => stages'.all i (perm.mem_iff.1 hi)) reached
  rw [run_settle (c := { c with tracked := is' }) hstage', ← hfinish, hfinish',
    run_finish _ stages'.gathers.fits (size ▸ reached),
    run_finish _ stages'.gathers.fits (size ▸ reached), run_confirmAll_perm c perm]

/-- Whether the coordinator is in a transaction or not, the order in which copies of different
streams are tracked makes no difference. -/
theorem run_push_perm (perm : is.Perm is') (nodup : is.Nodup) (apart : InMemory.Apart is w)
    (done : { c with tracked := is }.push.run w = ((.ok n, c₁), w')) :
    ∃ c₂, { c with tracked := is' }.push.run w = ((.ok n, c₂), w') := by
  obtain ⟨log, snapshots, policy, tracked, transaction⟩ := c
  cases transaction with
  | none =>
    exact ⟨c₁, run_settle_perm (c := ⟨log, snapshots, policy, tracked, none⟩) perm nodup apart done⟩
  | some b =>
    have hpush (is : List HandleId) : (push ⟨log, snapshots, policy, is, some b⟩).run w =
        match (log.stageAll is b).run w with
        | (.error e, w) => ((.error (.store e), ⟨log, snapshots, policy, is, none⟩), w)
        | (.ok (n, b), w) => ((.ok n, ⟨log, snapshots, policy, is, some b⟩), w) := by
      simp only [push, Dialogue.run_bind]
      rcases (log.stageAll is b).run w with ⟨e | ⟨n, b⟩, w⟩ <;> rfl
    rw [hpush] at done ⊢
    have looks := Dialogue.run_of_looks (log.onlyLooks_stageAll is b) w
    rcases hstage : (log.stageAll is b).run w with ⟨e | ⟨k, b₁⟩, w₁⟩
    · rw [hstage] at done
      exact not_failed done
    · rw [hstage] at done looks
      obtain rfl : w₁ = w := looks
      obtain ⟨hn, rfl⟩ := Prod.mk.inj done
      obtain rfl := Except.ok.inj (Prod.mk.inj hn).1
      obtain ⟨b₂, hstage'⟩ := Log.run_stageAll_perm perm nodup apart hstage
      rw [hstage']
      exact ⟨_, rfl⟩

/-! ## Naming copies -/

/-- Name copies one after the other. -/
def trackAll (c : Coordinator) (hs : List HandleId) : Coordinator :=
  hs.foldl track c

theorem mem_tracked_trackAll : i ∈ (c.trackAll hs).tracked ↔ i ∈ c.tracked ∨ i ∈ hs := by
  induction hs generalizing c with
  | nil => simp [trackAll]
  | cons h rest ih =>
    have hfirst : i ∈ (c.track h).tracked ↔ i ∈ c.tracked ∨ i = h := by
      unfold track
      split
      · next hm => exact ⟨.inl, fun hi => hi.elim id fun he => he ▸ hm⟩
      · simp
    rw [show c.trackAll (h :: rest) = (c.track h).trackAll rest from rfl, ih, hfirst,
      List.mem_cons, or_assoc]

theorem nodup_trackAll (nodup : c.tracked.Nodup) (hs : List HandleId) :
    (c.trackAll hs).tracked.Nodup := by
  induction hs generalizing c with
  | nil => exact nodup
  | cons h rest ih => exact ih (nodup_track nodup h)

/-- Naming copies changes nothing else about a coordinator. -/
theorem trackAll_eq (c : Coordinator) (hs : List HandleId) :
    c.trackAll hs = { c with tracked := (c.trackAll hs).tracked } := by
  induction hs generalizing c with
  | nil => rfl
  | cons h rest ih =>
    have hfirst : c.track h = { c with tracked := (c.track h).tracked } := by
      unfold track
      split <;> rfl
    rw [show c.trackAll (h :: rest) = (c.track h).trackAll rest from rfl, ih, hfirst]

/-- The same copies are named in two orders, some of them perhaps more than once, and no two of them
have the same stream.  Then a commit comes to a number of facts and leaves the surroundings in a
state after the one order if and only if it does so after the other: the same records with the same
hashes, the same copies and the same snapshots.  In a transaction the commit stages, outside of one
it stores. -/
theorem run_push_trackAll (nodup : c.tracked.Nodup) (same : ∀ i, i ∈ hs ↔ i ∈ hs')
    (apart : InMemory.Apart (c.trackAll hs).tracked w) :
    (∃ c₁, (c.trackAll hs).push.run w = ((.ok n, c₁), w')) ↔
      ∃ c₂, (c.trackAll hs').push.run w = ((.ok n, c₂), w') := by
  have members (i : HandleId) : i ∈ (c.trackAll hs).tracked ↔ i ∈ (c.trackAll hs').tracked := by
    rw [mem_tracked_trackAll, mem_tracked_trackAll, same]
  have perm : (c.trackAll hs).tracked.Perm (c.trackAll hs').tracked :=
    (List.perm_ext_iff_of_nodup (nodup_trackAll nodup hs) (nodup_trackAll nodup hs')).2 members
  rw [c.trackAll_eq hs, c.trackAll_eq hs']
  constructor
  · rintro ⟨c₁, done⟩
    exact run_push_perm perm (nodup_trackAll nodup hs) apart done
  · rintro ⟨c₂, done⟩
    exact run_push_perm perm.symm (nodup_trackAll nodup hs')
      (apart.subset fun i hi => (members i).2 hi) done

/-- Copies of three streams, the third without anything buffered. -/
def desk : InMemory :=
  ((eager.workAll [.start "t", .start "u", .start "v",
    .perform 0 (.initiate ⟨100, "EUR", "a", "b"⟩), .perform 1 (.initiate ⟨200, "EUR", "a", "c"⟩),
    .perform 0 (.authorize (.approved "A1"))]).run (.empty .startOf2025)).2

theorem run_push_trackAll_desk :
    ∃ c₁ c₂, (eager.trackAll [0, 1, 0, 2]).push.run desk =
        ((.ok 3, c₁), ((eager.trackAll [2, 1, 1, 0]).push.run desk).2) ∧
      (eager.trackAll [2, 1, 1, 0]).push.run desk =
        ((.ok 3, c₂), ((eager.trackAll [2, 1, 1, 0]).push.run desk).2) := by
  have three : ((eager.trackAll [2, 1, 1, 0]).push.run desk).1.1 = .ok 3 := rfl
  have done : (eager.trackAll [2, 1, 1, 0]).push.run desk = ((.ok 3, _), _) :=
    Prod.ext (Prod.ext three rfl) rfl
  have streams : ∀ i ∈ [0, 1, 2], ∀ j ∈ [0, 1, 2], desk.stream? i = desk.stream? j → i = j := by
    decide
  have apart : InMemory.Apart (eager.trackAll [0, 1, 0, 2]).tracked desk := by
    intro i hi j hj x y hx hy he
    refine streams i hi j hj ?_
    rw [InMemory.stream?_of_copy hx, InMemory.stream?_of_copy hy, he]
  have same : ∀ i, i ∈ [0, 1, 0, 2] ↔ i ∈ [2, 1, 1, 0] := by grind
  obtain ⟨c₁, done'⟩ := (run_push_trackAll List.nodup_nil same apart).2 ⟨_, done⟩
  exact ⟨c₁, _, done', done⟩

end Coordinator

end TransferLedger

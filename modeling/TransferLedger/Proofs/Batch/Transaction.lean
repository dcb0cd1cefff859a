import TransferLedger.Proofs.Batch.AllOrNothing
import TransferLedger.Proofs.Batch.Confirming
import TransferLedger.Proofs.Office.Once
import TransferLedger.Proofs.Office.UpToDate

/-!
# A transaction is one commit

Between the beginning of a transaction and its commit somebody works on copies, names some to the
coordinator, and has it stage what is buffered as often as he likes.  If he is alone, it comes to
the same as the work without any staging, with one commit at the end that is outside a transaction:
the same records with the same hashes, the same snapshots and the same copies
(`Coordinator.transaction_as_one_commit`).

The two go side by side (`Coordinator.workAll_beside`).  Staging changes nothing but the batch, so
the surroundings are the same all along, and the batch gathers what the copies have buffered so far.
At the end both have gathered everything, and then how that was done makes no difference
(`Coordinator.settle_empty`).

One thing can go wrong with the single commit.  A copy that knows more to be stored than its stream
holds can be staged behind another copy and not before it, and the single commit stages the copies
in the order in which they were named.  Such a copy comes from a snapshot that nothing stands
behind; no commit writes one, and without them the single commit succeeds whenever the transaction
does (`Coordinator.isOk_settle_empty`).
-/

set_option autoImplicit false

namespace TransferLedger

open Chronicle

/-! ## What somebody does in between -/

/-- What somebody can do between the beginning of a transaction and its commit. -/
inductive Task where
  /-- Put down a working copy of a stream without facts. -/
  | start (stream : String)
  /-- Rebuild a transfer and put down the working copy. -/
  | rebuild (log : Log) (snapshots : Bool) (stream : String)
  | perform (h : HandleId) (o : Operation)
  /-- Name a working copy to the coordinator. -/
  | track (h : HandleId)
  /-- Have the coordinator commit. -/
  | push

namespace Task

def isPush : Task → Bool
  | push => true
  | _ => false

/-- What comes of a task, and the coordinator afterwards.  Only the coordinator's own work counts:
an operation that is rejected and a transfer that cannot be rebuilt are no failures of his. -/
def work (c : Coordinator) : Task → Dialogue (Except CommitError Nat × Coordinator)
  | start stream => do
    let _ ← Dialogue.place (.blank stream)
    return (.ok 0, c)
  | rebuild log snapshots stream => do
    match ← log.rebuild snapshots stream with
    | .ok b =>
      let _ ← Dialogue.place b.copy
      return (.ok 0, c)
    | .error _ => return (.ok 0, c)
  | perform h o => do
    let _ ← Dialogue.perform h o
    return (.ok 0, c)
  | track h => return (.ok 0, c.track h)
  | push => c.push

/-- The coordinator after a task that is not his. -/
def naming (c : Coordinator) : Task → Coordinator
  | track h => c.track h
  | _ => c

end Task

namespace Coordinator

/-- Do tasks one after the other, up to the first in which the coordinator fails.  The number of
facts that he has reported. -/
def workAll (c : Coordinator) : List Task → Dialogue (Except CommitError Nat × Coordinator)
  | [] => return (.ok 0, c)
  | t :: rest => do
    match ← t.work c with
    | (.error e, c) => return (.error e, c)
    | (.ok n, c) =>
      match ← c.workAll rest with
      | (.error e, c) => return (.error e, c)
      | (.ok more, c) => return (.ok (n + more), c)

/-- The number of facts that the tracked copies have buffered and that have not been staged. -/
def waiting (c : Coordinator) (w : InMemory) : Nat :=
  (c.tracked.map ((c.transaction.getD .empty).waiting w)).sum

variable {c c' d : Coordinator} {b b' : OpenBatch} {w w' : InMemory} {n k : Nat}

/-- What has been done has not failed. -/
theorem not_failed {e : CommitError} {P : Prop}
    (done : ((Except.error e, c), w) = (((.ok n : Except CommitError Nat), c'), w')) : P := by
  simp at done

/-! ## Committing what has been gathered -/

theorem run_finish (c : Coordinator) (fits : b.batch.Fits w.medium)
    (reached : w.medium.available = true ∨ b.batch.size = 0) :
    (c.finish b).run w = ((.ok b.batch.size, { c with tracked := [] }),
      ((c.confirmAll b.moved).run { w with medium := b.batch.landed w.medium }).2) := by
  rw [finish, Dialogue.run_bind_of (fits.run_commit reached c.log)]
  simp only [Dialogue.run_bind]
  rfl

theorem reached_of_finish (done : (c.finish b).run w = ((.ok n, c'), w')) :
    w.medium.available = true ∨ b.batch.size = 0 := by
  rw [finish, Dialogue.run_bind] at done
  rcases hcommit : (c.log.commit b.batch).run w with ⟨e | k, w₁⟩
  · rw [hcommit] at done
    exact not_failed done
  · exact Batch.reached_of_commit hcommit

/-- Two batches that have gathered everything are finished with the same end. -/
theorem finish_congr {hs : List HandleId} (hb : b.Gathers c.log hs w) (hb' : b'.Gathers c.log hs w)
    (all : ∀ i ∈ hs, b.waiting w i = 0) (all' : ∀ i ∈ hs, b'.waiting w i = 0)
    (reached : w.medium.available = true ∨ b.batch.size = 0) :
    (c.finish b).run w = (c.finish b').run w := by
  obtain ⟨same, landed, size⟩ := hb.agree all all' hb'
  have placed {b : OpenBatch} (hb : b.Gathers c.log hs w) :
      ∀ m ∈ b.moved, ∃ x, w.copies[m.handle]? = some x :=
    fun m hm => (hb.moved m hm).imp fun _ hx => hx.copy
  have hconfirm : (c.confirmAll b.moved).run { w with medium := b.batch.landed w.medium } =
      (c.confirmAll b'.moved).run { w with medium := b.batch.landed w.medium } :=
    run_confirmAll_congr (placed hb) (placed hb') same
  rw [run_finish c hb.fits reached, run_finish c hb'.fits (size ▸ reached), hconfirm, size, landed]

theorem run_settle (staged : (c.log.stageAll c.tracked b).run w = (.ok (k, b'), w)) :
    (c.settle b).run w = (c.finish b').run w := by
  rw [settle, Dialogue.run_bind_of staged]

theorem of_run_settle (done : (c.settle b).run w = ((.ok n, c'), w')) :
    ∃ k b₁ w₁, (c.log.stageAll c.tracked b).run w = (.ok (k, b₁), w₁) ∧
      (c.finish b₁).run w₁ = ((.ok n, c'), w') := by
  rw [settle, Dialogue.run_bind] at done
  rcases hstage : (c.log.stageAll c.tracked b).run w with ⟨e | ⟨k, b₁⟩, w₁⟩
  · rw [hstage] at done
    exact not_failed done
  · rw [hstage] at done
    exact ⟨k, b₁, w₁, rfl, done⟩

/-- A batch that is settled has gathered everything before it is finished. -/
theorem stages_of_settle (nodup : c.tracked.Nodup) (hb : b.Gathers c.log c.tracked w)
    (done : (c.settle b).run w = ((.ok n, c'), w')) :
    ∃ k b₁, OpenBatch.Stages c.log c.tracked w c.tracked k b b₁ ∧
      (w.medium.available = true ∨ b₁.batch.size = 0) ∧
      (c.finish b₁).run w = ((.ok n, c'), w') := by
  obtain ⟨k, b₁, w₁, hstage, hfinish⟩ := of_run_settle done
  obtain ⟨rfl, stages⟩ := hb.of_run_stageAll nodup (fun _ => id) hstage
  exact ⟨k, b₁, stages, reached_of_finish hfinish, hfinish⟩

theorem count_of_settle (nodup : c.tracked.Nodup) (hb : b.Gathers c.log c.tracked w)
    (done : (c.settle b).run w = ((.ok n, c'), w')) :
    n = b.batch.size + (c.tracked.map (b.waiting w)).sum := by
  obtain ⟨k, b₁, stages, reached, hfinish⟩ := stages_of_settle nodup hb done
  rw [run_finish c stages.gathers.fits reached] at hfinish
  have hn : b₁.batch.size = n := Except.ok.inj (congrArg (fun r => r.1.1) hfinish)
  rw [← hn, stages.size, stages.count]

/-- What has been staged before makes no difference to what is settled in the end. -/
theorem settle_empty (nodup : c.tracked.Nodup) (hb : b.Gathers c.log c.tracked w)
    (done : (c.settle b).run w = ((.ok n, c'), w'))
    (once : ((c.settle .empty).run w).1.1.isOk) :
    (c.settle .empty).run w = ((.ok n, c'), w') := by
  obtain ⟨k, b₁, stages, reached, hfinish⟩ := stages_of_settle nodup hb done
  rcases hempty : (c.settle .empty).run w with ⟨⟨e | n', c''⟩, w''⟩
  · rw [hempty] at once
    exact absurd once (by simp [Except.isOk, Except.toBool])
  · obtain ⟨k', b₂, stages', -, hfinish'⟩ := stages_of_settle nodup (.empty _ _ _) hempty
    rw [← hfinish', ← hfinish]
    exact (finish_congr stages.gathers stages'.gathers stages.all stages'.all reached).symm

/-- Where no copy knows more to be stored than its stream holds, what can be settled after staging
can be settled without. -/
theorem isOk_settle_empty (nodup : c.tracked.Nodup) (hb : b.Gathers c.log c.tracked w)
    (grounded : ∀ i ∈ c.tracked, ∀ x, w.copies[i]? = some x →
      x.durable ≤ (w.medium.head x.stream).version)
    (done : (c.settle b).run w = ((.ok n, c'), w')) : ((c.settle .empty).run w).1.1.isOk := by
  obtain ⟨k, b₁, stages, reached, -⟩ := stages_of_settle nodup hb done
  have storable := stages.gathers.storable stages.all (stages.gathers.apart_of_grounded grounded)
    reached
  have hempty := OpenBatch.Gathers.empty c.log c.tracked w
  obtain ⟨k', b₂, hstage⟩ := hempty.run_stageAll storable fun _ => id
  obtain ⟨-, stages'⟩ := hempty.of_run_stageAll nodup (fun _ => id) hstage
  obtain ⟨-, -, size⟩ := stages.gathers.agree stages.all stages'.all stages'.gathers
  rw [run_settle hstage, run_finish c stages'.gathers.fits (size ▸ reached)]
  rfl

/-! ## Side by side -/

/-- The coordinator in a transaction. -/
def within (d : Coordinator) (b : OpenBatch) : Coordinator :=
  { d with transaction := some b }

/-- A coordinator who is not in a transaction, and the batch of one who is. -/
structure Beside (d : Coordinator) (b : OpenBatch) (w : InMemory) : Prop where
  outside : d.transaction = none
  nodup : d.tracked.Nodup
  gathers : b.Gathers d.log d.tracked w

theorem nodup_track (nodup : c.tracked.Nodup) (h : HandleId) : (c.track h).tracked.Nodup := by
  unfold track
  split
  · exact nodup
  · next hh =>
    exact List.nodup_append.2 ⟨nodup, by simp, fun i hi j hj he =>
      hh (List.mem_singleton.1 hj ▸ he ▸ hi)⟩

theorem log_track (c : Coordinator) (h : HandleId) : (c.track h).log = c.log := by
  unfold track
  split <;> rfl

theorem track_within (d : Coordinator) (b : OpenBatch) (h : HandleId) :
    (d.within b).track h = (d.track h).within b := by
  unfold track within
  split <;> rfl

theorem Beside.track (h : d.Beside b w) (i : HandleId) : (d.track i).Beside b w where
  outside := (transaction_track d i).trans h.outside
  nodup := nodup_track h.nodup i
  gathers := by
    rw [log_track]
    exact h.gathers.subset fun j hj => mem_tracked_track hj

/-- A commit inside the transaction changes its batch alone. -/
theorem Beside.push (h : d.Beside b w) (done : (d.within b).push.run w = ((.ok n, c'), w')) :
    w' = w ∧ ∃ b', c' = d.within b' ∧ d.Beside b' w ∧ b'.batch.size = b.batch.size + n := by
  have hpush : (d.within b).push.run w = _ := Dialogue.run_bind (d.log.stageAll d.tracked b) _ w
  rw [hpush] at done
  rcases hstage : (d.log.stageAll d.tracked b).run w with ⟨e | ⟨k, b₁⟩, w₁⟩
  · rw [hstage] at done
    exact not_failed done
  · rw [hstage] at done
    obtain ⟨hc, rfl⟩ := Prod.mk.inj done
    obtain ⟨hk, rfl⟩ := Prod.mk.inj hc
    obtain rfl := Except.ok.inj hk
    obtain ⟨rfl, stages⟩ := h.gathers.of_run_stageAll h.nodup (fun _ => id) hstage
    exact ⟨rfl, b₁, rfl, { h with gathers := stages.gathers }, stages.size⟩

end Coordinator

/-! ## Work on copies -/

variable {c : Coordinator} {w w' : InMemory} {t : Task}

theorem InMemory.Buffers.refl (w : InMemory) : w.Buffers w :=
  ⟨rfl, rfl, fun _ x hx => ⟨x, hx, rfl, rfl, List.prefix_rfl⟩⟩

theorem InMemory.Buffers.placed (w : InMemory) (x : WorkingCopy) :
    w.Buffers { w with copies := w.copies ++ [x] } :=
  ⟨rfl, rfl, fun _ y hy =>
    ⟨y, List.getElem?_append_left (List.getElem?_eq_some_iff.1 hy).1 ▸ hy, rfl, rfl,
      List.prefix_rfl⟩⟩

theorem InMemory.Buffers.performed (w : InMemory) (h : HandleId) (o : Operation) :
    w.Buffers (w.answer (.perform h o)).2 := by
  rcases InMemory.Answers.of_perform (.done (.perform h o) w) with hw | ⟨x, x', hx, hp, hw⟩
  · rw [hw]
    exact .refl w
  · rw [hw]
    obtain ⟨e, t, -, happ, rfl⟩ := WorkingCopy.decide_of_perform hp
    refine ⟨rfl, rfl, fun i y hy => ?_⟩
    by_cases hi : i = h
    · subst hi
      obtain rfl := Option.some.inj (hx.symm.trans hy)
      exact ⟨_, List.getElem?_set_self (List.getElem?_eq_some_iff.1 hx).1,
        Transfer.id_of_apply happ, rfl, List.prefix_append ..⟩
    · exact ⟨y, (List.getElem?_set_ne (Ne.symm hi)).trans hy, rfl, rfl, List.prefix_rfl⟩

namespace Task

/-- A task that is not the coordinator's is done without him: it buffers facts and puts down copies
at most. -/
theorem run_work (ht : t.isPush = false) (w : InMemory) :
    ∃ w', w.Buffers w' ∧ ∀ c, (t.work c).run w = ((.ok 0, t.naming c), w') := by
  cases t with
  | start stream => exact ⟨_, .placed w (.blank stream), fun _ => rfl⟩
  | perform h o => exact ⟨_, .performed w h o, fun _ => rfl⟩
  | track h => exact ⟨w, .refl w, fun _ => rfl⟩
  | push => exact absurd ht (by simp [isPush])
  | rebuild log snapshots stream =>
    have hlooks := Dialogue.run_of_looks (log.onlyLooks_rebuild snapshots stream) w
    rcases hrun : (log.rebuild snapshots stream).run w with ⟨e | b, w₁⟩
    · rw [hrun] at hlooks
      obtain rfl : w₁ = w := hlooks
      refine ⟨w₁, .refl w₁, fun c => ?_⟩
      rw [work, Dialogue.run_bind_of hrun]
      rfl
    · rw [hrun] at hlooks
      obtain rfl : w₁ = w := hlooks
      refine ⟨_, .placed w₁ b.copy, fun c => ?_⟩
      rw [work, Dialogue.run_bind_of hrun]
      rfl

/-- Work on copies sticks to the rules of the office. -/
theorem keeps_work {s : Chronicle} (ht : t.isPush = false) (hs : Holds .faithful s)
    (c : Coordinator) :
    (t.work c).Keeps (officeRules .faithful none) (fun _ _ => True) s := by
  have ended {r : Except CommitError Nat × Coordinator} {s : Chronicle} :
      (pure r : Dialogue _).Keeps (officeRules .faithful none) (fun _ _ => True) s :=
    .pure (P := fun _ => True) Rules.Stable.const trivial fun _ _ h => h
  cases t with
  | start stream =>
    exact .bind ((keeps_place (.blank hs stream)).mono fun _ _ _ _ => ended)
  | perform h o => exact .bind ((keeps_perform h o).mono fun _ _ _ _ => ended)
  | track h => exact ended
  | push => exact absurd ht (by simp [isPush])
  | rebuild log snapshots stream =>
    refine .bind ((log.keeps_rebuild snapshots stream (P := fun _ => True) Rules.Stable.const
      trivial).mono fun res s₁ _ h => ?_)
    cases res with
    | error e => exact ended
    | ok b => exact .bind ((keeps_place (h.2 b rfl)).mono fun _ _ _ _ => ended)

end Task

namespace Coordinator

variable {c c' d : Coordinator} {b b' : OpenBatch} {w w' : InMemory} {n : Nat} {t : Task}
  {tasks : List Task}

theorem naming_within (d : Coordinator) (b : OpenBatch) (t : Task) :
    t.naming (d.within b) = (t.naming d).within b := by
  cases t with
  | track h => exact track_within d b h
  | start | rebuild | perform | push => rfl

theorem Beside.naming (h : d.Beside b w) (t : Task) : (t.naming d).Beside b w := by
  cases t with
  | track i => exact h.track i
  | start | rebuild | perform | push => exact h

theorem run_workAll_cons {w₁ : InMemory} {rest : List Task}
    (first : (t.work c).run w = ((.ok n, c'), w₁)) :
    (c.workAll (t :: rest)).run w =
      match (c'.workAll rest).run w₁ with
      | ((.error e, c), w) => ((.error e, c), w)
      | ((.ok more, c), w) => ((.ok (n + more), c), w) := by
  rw [workAll, Dialogue.run_bind_of first]
  simp only [Dialogue.run_bind]
  rcases (c'.workAll rest).run w₁ with ⟨⟨e | more, c⟩, w⟩ <;> rfl

/-- Tasks that are done have been done one after the other. -/
theorem of_run_workAll_cons {rest : List Task}
    (done : (c.workAll (t :: rest)).run w = ((.ok n, c'), w')) :
    ∃ k more c₁ w₁, (t.work c).run w = ((.ok k, c₁), w₁) ∧
      (c₁.workAll rest).run w₁ = ((.ok more, c'), w') ∧ n = k + more := by
  rcases hfirst : (t.work c).run w with ⟨⟨e | k, c₁⟩, w₁⟩
  · rw [workAll, Dialogue.run_bind_of hfirst] at done
    exact not_failed done
  · rw [run_workAll_cons hfirst] at done
    rcases hrest : (c₁.workAll rest).run w₁ with ⟨⟨e | more, c₂⟩, w₂⟩
    · rw [hrest] at done
      exact not_failed done
    · rw [hrest] at done
      obtain ⟨hc, rfl⟩ := Prod.mk.inj done
      obtain ⟨hn, rfl⟩ := Prod.mk.inj hc
      exact ⟨k, more, c₁, w₁, rfl, hrest, (Except.ok.inj hn).symm⟩

/-- Tasks inside a transaction and the same tasks without the coordinator's go side by side. -/
theorem workAll_beside (h : d.Beside b w)
    (done : ((d.within b).workAll tasks).run w = ((.ok n, c'), w')) :
    ∃ d' b', c' = d'.within b' ∧ d'.Beside b' w' ∧ b'.batch.size = b.batch.size + n ∧
      (d.workAll (tasks.filter fun t => !t.isPush)).run w = ((.ok 0, d'), w') := by
  induction tasks generalizing d b w n with
  | nil =>
    obtain ⟨hc, rfl⟩ := Prod.mk.inj (show ((Except.ok 0, d.within b), w) = _ from done)
    obtain ⟨hn, rfl⟩ := Prod.mk.inj hc
    obtain rfl := Except.ok.inj hn
    exact ⟨d, b, rfl, h, rfl, rfl⟩
  | cons t rest ih =>
    obtain ⟨k, more, c₁, w₁, first, others, rfl⟩ := of_run_workAll_cons done
    by_cases ht : t.isPush = true
    · -- The one stages, and the other waits.
      obtain rfl : t = .push := by cases t <;> simp_all [Task.isPush]
      obtain ⟨rfl, b₁, rfl, h₁, size₁⟩ := h.push first
      obtain ⟨d', b', hc, h', size, run⟩ := ih h₁ others
      exact ⟨d', b', hc, h', by rw [size, size₁, Nat.add_assoc], run⟩
    · have ht := eq_false_of_ne_true ht
      obtain ⟨w₂, buffers, hrun⟩ := t.run_work ht w
      rw [hrun, naming_within] at first
      obtain ⟨hc₁, rfl⟩ := Prod.mk.inj first
      obtain ⟨hk, rfl⟩ := Prod.mk.inj hc₁
      obtain rfl := Except.ok.inj hk
      have h₁ := h.naming t
      obtain ⟨d', b', hc, h', size, run⟩ :=
        ih { h₁ with gathers := h₁.gathers.later buffers } others
      refine ⟨d', b', hc, h', by rw [size, Nat.zero_add], ?_⟩
      rw [List.filter_cons_of_pos (by simp [ht]), run_workAll_cons (hrun d), run]

/-! ## Where the single commit succeeds -/

/-- Work on copies sticks to the rules of the office. -/
theorem exists_holds_of_workAll {s : Chronicle} (hs : Holds .faithful s)
    (own : ∀ t ∈ tasks, t.isPush = false)
    (done : (c.workAll tasks).run s.scene.world = ((.ok n, c'), w')) :
    ∃ s', Holds .faithful s' ∧ s'.scene.world = w' := by
  induction tasks generalizing c s n with
  | nil => exact ⟨s, hs, congrArg Prod.snd done⟩
  | cons t rest ih =>
    obtain ⟨k, more, c₁, w₁, first, others, -⟩ := of_run_workAll_cons done
    obtain ⟨s₁, hs₁, hw₁, -⟩ := (t.keeps_work (own t List.mem_cons_self) hs c).of_run hs
    rw [first] at hw₁
    obtain rfl : s₁.scene.world = w₁ := hw₁
    exact ih hs₁ (fun t ht => own t (List.mem_cons_of_mem _ ht)) others

end Coordinator

/-- What clerks can bring about who begin with nothing, not even snapshots. -/
def InMemory.Arises (w : InMemory) : Prop :=
  ∃ allowed clock o, Office.Reaches allowed (Office.opening clock .empty) o ∧ o.scene.world = w

namespace Coordinator

variable {c c₀ c₁ c₂ d : Coordinator} {b : OpenBatch} {tasks : List Task} {w w₁ w₂ : InMemory}
  {staged n : Nat}

theorem grounded_of_arises (arises : w.Arises) (own : ∀ t ∈ tasks, t.isPush = false)
    (done : (c.workAll tasks).run w = ((.ok n, d), w₁)) (i : HandleId) (x : WorkingCopy)
    (hx : w₁.copies[i]? = some x) : x.durable ≤ (w₁.medium.head x.stream).version := by
  obtain ⟨allowed, clock, o, reached, rfl⟩ := arises
  obtain ⟨authors, sound, -⟩ := Office.sound_of_reaches_faithful reached
  obtain ⟨s, hs, rfl⟩ := exists_holds_of_workAll sound.holds own done
  rw [hs.orderly.version_head]
  exact hs.durable_le Law.faithful_grounded hx

/-! ## The transaction -/

theorem Beside.push_eq (h : d.Beside b w) : d.push = d.settle .empty := by
  rw [Coordinator.push, h.outside]

theorem Beside.commit_eq (h : d.Beside b w) : (d.within b).commit = d.settle b := by
  have hd : { d.within b with transaction := none } = d := by rw [within, ← h.outside]
  show Coordinator.settle { d.within b with transaction := none } b = d.settle b
  rw [hd]

/-- Somebody begins a transaction, works, has the coordinator commit as often as he likes, and
commits the transaction; all of it succeeds, and nobody else writes.  Then the same work without any
commit in between leaves the same surroundings, and one commit at the end leaves the same
surroundings and the same coordinator and reports the same number of facts, provided that it
succeeds.  It does succeed where all snapshots have been written by commits.  The number of facts is
that of all commits in between, and of those not staged by then. -/
theorem transaction_as_one_commit (nodup : c.tracked.Nodup) (begun : c.begin = .ok c₀)
    (working : (c₀.workAll tasks).run w = ((.ok staged, c₁), w₁))
    (committed : c₁.commit.run w₁ = ((.ok n, c₂), w₂)) :
    ∃ d, (c.workAll (tasks.filter fun t => !t.isPush)).run w = ((.ok 0, d), w₁) ∧
      ((d.push.run w₁).1.1.isOk ∨ w.Arises → d.push.run w₁ = ((.ok n, c₂), w₂)) ∧
      n = staged + c₁.waiting w₁ := by
  obtain rfl : c₀ = c.within .empty := transaction_of_begin begun
  have outside : c.transaction = none := by
    cases hc : c.transaction with
    | none => rfl
    | some b => simp [Coordinator.begin, inTransaction, hc] at begun
  have beside : c.Beside .empty w := ⟨outside, nodup, .empty _ _ _⟩
  obtain ⟨d, b, rfl, h, size, run⟩ := workAll_beside beside working
  have settled : (d.settle b).run w₁ = ((.ok n, c₂), w₂) := h.commit_eq ▸ committed
  refine ⟨d, run, fun once => ?_, ?_⟩
  · rw [h.push_eq] at once ⊢
    refine settle_empty h.nodup h.gathers settled (once.elim id fun arises => ?_)
    have own : ∀ t ∈ tasks.filter (fun t => !t.isPush), t.isPush = false := by simp
    exact isOk_settle_empty h.nodup h.gathers
      (fun i _ x hx => grounded_of_arises arises own run i x hx) settled
  · rw [count_of_settle h.nodup h.gathers settled, size]
    exact congrArg (· + _) (Nat.zero_add staged)

/-- Work on two streams.  One is named late, and two facts are staged by nobody before the end. -/
def interleaved : List Task :=
  [.start "t", .start "u", .perform 0 (.initiate ⟨100, "EUR", "a", "b"⟩), .track 0, .push,
    .perform 0 (.authorize (.approved "A1")), .perform 1 (.initiate ⟨200, "EUR", "a", "c"⟩), .push,
    .track 1, .perform 0 (.settle (.settled "S1"))]

/-- A coordinator who writes a snapshot whenever he can. -/
def eager : Coordinator :=
  ⟨.quick, true, ⟨true, 1⟩, [], none⟩

/-- What the work comes to, done from nothing inside a transaction. -/
def halfway : (Except CommitError Nat × Coordinator) × InMemory :=
  ((eager.within .empty).workAll interleaved).run (.empty .startOf2025)

theorem transaction_as_one_commit_interleaved :
    ∃ d, halfway.1.1 = .ok 2 ∧ (halfway.1.2.commit.run halfway.2).1.1 = .ok 4 ∧
      (eager.workAll (interleaved.filter fun t => !t.isPush)).run (.empty .startOf2025) =
        ((.ok 0, d), halfway.2) ∧
      d.push.run halfway.2 = halfway.1.2.commit.run halfway.2 := by
  have begun : eager.begin = .ok (eager.within .empty) := rfl
  have two : halfway.1.1 = .ok 2 := rfl
  have four : (halfway.1.2.commit.run halfway.2).1.1 = .ok 4 := rfl
  have working : halfway = ((.ok 2, halfway.1.2), halfway.2) := Prod.ext (Prod.ext two rfl) rfl
  have committed : halfway.1.2.commit.run halfway.2 = ((.ok 4, _), _) :=
    Prod.ext (Prod.ext four rfl) rfl
  have arises : (InMemory.empty .startOf2025).Arises :=
    ⟨fun _ => True, .startOf2025, Office.opening .startOf2025 .empty, .refl, rfl⟩
  obtain ⟨d, run, same, -⟩ := transaction_as_one_commit List.nodup_nil begun working committed
  exact ⟨d, two, four, run, (same (.inr arises)).trans committed.symm⟩

end Coordinator

end TransferLedger

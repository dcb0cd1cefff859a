import TransferLedger.Proofs.Dialogue.Padding
import TransferLedger.Proofs.Log.Appending
import TransferLedger.Proofs.Log.Asking

/-!
# A store that misbehaves

Whatever a store for snapshots does, it makes a difference to nothing but how long things take
(`store_indifferent`).  A rebuild that is answered with something that it cannot use goes on as if
there were no store (`Log.run_rebuild_unusable`).  And a coordinator with a store does what it does
without one, with idle requests in between (`Coordinator.Call.pads`), so a whole session of calls
comes to the same (`Session.run_stocked`).
-/

set_option autoImplicit false

namespace TransferLedger

variable {ω σ : Type} [Surroundings ω] [SnapshotStore σ]

/-! ## Loading -/

/-- What a store may answer for a stream that no transfer can be taken from: an error, nothing, or a
snapshot of something else, or with a state that is not one of the transfer. -/
inductive Snapshot.Unusable (stream : String) : Except SnapshotError (Option Snapshot) → Prop
  | failed (e : SnapshotError) : Unusable stream (.error e)
  | nothing : Unusable stream (.ok none)
  | otherStream {x : Snapshot} (h : x.stream ≠ stream) : Unusable stream (.ok (some x))
  | otherType {x : Snapshot} (h : x.type ≠ Transfer.snapshotType) : Unusable stream (.ok (some x))
  | undecodable {x : Snapshot} (h : Transfer.ofJson? x.state = none) :
      Unusable stream (.ok (some x))
  | otherTransfer {x : Snapshot} {t : Transfer} (h : Transfer.ofJson? x.state = some t)
      (other : t.id ≠ stream) : Unusable stream (.ok (some x))

theorem Snapshot.restore_of_unusable {stream : String} {x : Snapshot}
    (h : Unusable stream (.ok (some x))) : (x.restore stream).toOption = none := by
  unfold restore
  dsimp only
  by_cases hx : x.stream ≠ stream ∨ x.type ≠ Transfer.snapshotType
  · rw [if_pos hx]
    rfl
  rw [if_neg hx]
  cases h with
  | otherStream h => exact absurd (.inl h) hx
  | otherType h => exact absurd (.inr h) hx
  | undecodable h =>
    rw [h]
    rfl
  | otherTransfer h other =>
    rw [h]
    dsimp only
    rw [if_pos other]
    rfl

namespace Log

/-- Nothing comes of asking for a snapshot that cannot be used. -/
theorem run_startingPoint_unusable (log : Log) {stream : String} {w : Stocked ω σ}
    (unusable : Snapshot.Unusable stream (SnapshotStore.load stream w.store).1) :
    ∃ store, (log.startingPoint true stream).run w = (none, { w with store := store }) := by
  have hload : (Dialogue.load stream).run w = ((SnapshotStore.load stream w.store).1,
      { w with store := (SnapshotStore.load stream w.store).2 }) := rfl
  unfold startingPoint
  split
  · refine ⟨(SnapshotStore.load stream w.store).2, ?_⟩
    rw [Dialogue.run_bind_of hload]
    generalize (SnapshotStore.load stream w.store).1 = found at unusable
    rcases found with e | x?
    · rfl
    cases x? with
    | none => rfl
    | some x =>
      show ((x.restore stream).toOption, _) = _
      rw [Snapshot.restore_of_unusable unusable]
  · exact ⟨w.store, rfl⟩

/-- Snapshots are not used, whether it is by configuration or for want of a store. -/
theorem run_startingPoint_disabled (log : Log) {snapshots : Bool}
    (off : (log.config.useSnapshots && snapshots) = false) (stream : String) (w : ω) :
    (log.startingPoint snapshots stream).run w = (none, w) := by
  unfold startingPoint
  rw [off]
  rfl

/-- The log with snapshots switched on or off. -/
def withSnapshots (log : Log) (on : Bool) : Log :=
  { log with config := { log.config with useSnapshots := on } }

/-- A rebuild that gets no use out of the store is one without snapshots: the same transfer in the
same number of facts, or the same error. -/
theorem run_rebuild_unusable (log : Log) {stream : String} {w : Stocked ω σ}
    (unusable : Snapshot.Unusable stream (SnapshotStore.load stream w.store).1)
    {on snapshots : Bool} (off : (on && snapshots) = false) :
    ((log.rebuild true stream).run w).1 =
        (((log.withSnapshots on).rebuild snapshots stream).run w.rest).1 ∧
      ((log.rebuild true stream).run w).2.rest =
        (((log.withSnapshots on).rebuild snapshots stream).run w.rest).2 := by
  obtain ⟨store, hstart⟩ := log.run_startingPoint_unusable unusable
  have hreplay : (log.replayFrom stream none).Asks fun q => q.ofStore = false := by
    refine log.asks_replayFrom ?_ ?_ stream none
    all_goals simp [Request.ofStore]
  unfold rebuild
  rw [Dialogue.run_bind_of hstart,
    Dialogue.run_bind_of ((log.withSnapshots on).run_startingPoint_disabled off stream w.rest),
    Stocked.run_of_plain hreplay]
  exact ⟨rfl, rfl⟩

end Log

/-! ## Saving -/

namespace Coordinator

/-- The coordinator without a store. -/
def storeless (c : Coordinator) : Coordinator :=
  { c with snapshots := false }

/-- The call came to the same, and left the same coordinator but for the store. -/
def Alike {α : Type} (x y : α × Coordinator) : Prop :=
  y = (x.1, x.2.storeless)

open Dialogue (Pads)

theorem pads_confirm (c : Coordinator) (m : Movement) :
    Pads Eq (c.confirm m) (c.storeless.confirm m) := by
  have hcaptures : c.storeless.captures m = false := rfl
  refine .ask rfl fun copy? => ?_
  cases copy? with
  | none => exact .done rfl
  | some copy =>
    simp only [Dialogue.bind, hcaptures, Bool.false_and, Bool.false_eq_true, if_false]
    by_cases due : (c.captures m && copy.version == m.staged) = true
    · rw [if_pos due]
      exact .idle .time fun now => .idle (.save _) fun saved => .done rfl
    · rw [if_neg due]
      exact .done rfl

theorem pads_confirmAll (c : Coordinator) (ms : List Movement) :
    Pads Eq (c.confirmAll ms) (c.storeless.confirmAll ms) := by
  induction ms with
  | nil => exact .done rfl
  | cons m rest ih =>
    unfold confirmAll
    have htracked : c.storeless.tracked = c.tracked := rfl
    rw [htracked]
    by_cases ht : m.handle ∈ c.tracked
    · rw [if_pos ht, if_pos ht]
      exact (c.pads_confirm m).bind fun _ _ _ => ih
    · rw [if_neg ht, if_neg ht]
      exact ih

theorem pads_finish (c : Coordinator) (b : OpenBatch) :
    Pads Alike (c.finish b) (c.storeless.finish b) := by
  have hcommit : (c.log.commit b.batch).Asks fun q => q.ofStore = false :=
    c.log.asks_commit (fun _ _ => rfl) b.batch
  refine (Pads.of_asks hcommit).bind fun r r' hr => ?_
  subst hr
  cases r with
  | error e => exact .done rfl
  | ok n => exact (c.pads_confirmAll b.moved).bind fun _ _ _ => .done rfl

theorem plain_stageAll (c : Coordinator) (b : OpenBatch) :
    (c.log.stageAll c.tracked b).Asks fun q => q.ofStore = false := by
  refine c.log.asks_stageAll ?_ ?_ ?_ c.tracked b
  all_goals simp [Request.ofStore]

theorem pads_settle (c : Coordinator) (b : OpenBatch) :
    Pads Alike (c.settle b) (c.storeless.settle b) := by
  refine (Pads.of_asks (c.plain_stageAll b)).bind fun r r' hr => ?_
  subst hr
  cases r with
  | error e => exact .done rfl
  | ok r => exact c.pads_finish r.2

theorem pads_push (c : Coordinator) : Pads Alike c.push c.storeless.push := by
  unfold push
  have htransaction : c.storeless.transaction = c.transaction := rfl
  rw [htransaction]
  cases c.transaction with
  | none => exact c.pads_settle .empty
  | some b =>
    refine (Pads.of_asks (c.plain_stageAll b)).bind fun r r' hr => ?_
    subst hr
    cases r with
    | error e => exact .done rfl
    | ok r => exact .done rfl

theorem pads_commit (c : Coordinator) : Pads Alike c.commit c.storeless.commit := by
  unfold commit
  have htransaction : c.storeless.transaction = c.transaction := rfl
  rw [htransaction]
  cases c.transaction with
  | none => exact .done rfl
  | some b => exact pads_settle { c with transaction := none } b

/-- What can be asked of a coordinator. -/
inductive Call where
  | track (h : HandleId)
  | begin
  /-- Store what is buffered, or stage it inside a transaction. -/
  | push
  | commit
  | rollback

/-- A call, what it returns, and the coordinator afterwards. -/
def Call.work (c : Coordinator) : Call → Dialogue (Except CommitError (Option Nat) × Coordinator)
  | .track h => return (.ok none, c.track h)
  | .begin =>
    match c.begin with
    | .ok c => return (.ok none, c)
    | .error e => return (.error e, c)
  | .push => do
    let (r, c) ← c.push
    return (r.map some, c)
  | .commit => do
    let (r, c) ← c.commit
    return (r.map some, c)
  | .rollback =>
    match c.rollback with
    | .ok (n, c) => return (.ok (some n), c)
    | .error e => return (.error e, c)

theorem Call.pads (c : Coordinator) (q : Call) : Pads Alike (q.work c) (q.work c.storeless) := by
  cases q with
  | track h =>
    refine .done ?_
    show (_, c.storeless.track h) = (_, (c.track h).storeless)
    unfold Coordinator.track
    have htracked : c.storeless.tracked = c.tracked := rfl
    rw [htracked]
    split <;> rfl
  | begin =>
    unfold work Coordinator.begin
    have hopen : c.storeless.inTransaction = c.inTransaction := rfl
    rw [hopen]
    cases c.inTransaction <;> exact .done rfl
  | push =>
    refine c.pads_push.bind fun x y hxy => ?_
    subst hxy
    exact .done rfl
  | commit =>
    refine c.pads_commit.bind fun x y hxy => ?_
    subst hxy
    exact .done rfl
  | rollback =>
    unfold work Coordinator.rollback
    have htransaction : c.storeless.transaction = c.transaction := rfl
    rw [htransaction]
    cases c.transaction <;> exact .done rfl

end Coordinator

/-! ## Sessions -/

/-- What happens in a session. -/
inductive Act (ω : Type) where
  /-- One of several coordinators is called. -/
  | call (k : Nat) (q : Coordinator.Call)
  /-- Anything else: an operation on a copy, an append of somebody else, an outage. -/
  | meanwhile (f : ω → ω)

/-- Coordinators at work, and what their calls have returned, the first one first. -/
structure Session (ω : Type) where
  coordinators : Nat → Coordinator
  world : ω
  returned : List (Except CommitError (Option Nat))

namespace Session

/-- The session when a call has come to its end. -/
def after {ω : Type} (s : Session ω) (k : Nat)
    (came : (Except CommitError (Option Nat) × Coordinator) × ω) : Session ω :=
  ⟨Keyed.set s.coordinators k came.1.2, came.2, s.returned ++ [came.1.1]⟩

def act {ω : Type} [Surroundings ω] (s : Session ω) : Act ω → Session ω
  | .call k q => s.after k ((q.work (s.coordinators k)).run s.world)
  | .meanwhile f => { s with world := f s.world }

def run {ω : Type} [Surroundings ω] (s : Session ω) (acts : List (Act ω)) : Session ω :=
  acts.foldl act s

/-- The session without the store: neither do the coordinators have one, nor is there one. -/
def storeless (s : Session (Stocked ω σ)) : Session ω :=
  ⟨fun k => (s.coordinators k).storeless, s.world.rest, s.returned⟩

end Session

/-- The same where there is a store as well. -/
def Act.stocked : Act ω → Act (Stocked ω σ)
  | .call k q => .call k q
  | .meanwhile f => .meanwhile fun w => { w with rest := f w.rest }

namespace Session

omit [Surroundings ω] [SnapshotStore σ] in
theorem storeless_after (s : Session (Stocked ω σ)) (k : Nat)
    {x : (Except CommitError (Option Nat) × Coordinator) × Stocked ω σ}
    {y : (Except CommitError (Option Nat) × Coordinator) × ω} (halike : Coordinator.Alike x.1 y.1)
    (hrest : x.2.rest = y.2) : (s.after k x).storeless = s.storeless.after k y := by
  obtain ⟨⟨r, c⟩, w⟩ := x
  obtain ⟨_, _⟩ := y
  subst halike hrest
  have hcoordinators : (fun j => (Keyed.set s.coordinators k c j).storeless) =
      Keyed.set (fun j => (s.coordinators j).storeless) k c.storeless := by
    funext j
    exact apply_ite Coordinator.storeless ..
  exact congrArg (Session.mk · w.rest (s.returned ++ [r])) hcoordinators

variable (still : ∀ w : ω, (Surroundings.answer .time w).2 = w)

include still

theorem act_stocked (s : Session (Stocked ω σ)) (a : Act ω) :
    (s.act a.stocked).storeless = s.storeless.act a := by
  cases a with
  | meanwhile f => rfl
  | call k q =>
    obtain ⟨halike, hrest⟩ := (q.pads (s.coordinators k)).run still s.world
    exact s.storeless_after k halike hrest

theorem run_stocked (s : Session (Stocked ω σ)) (acts : List (Act ω)) :
    (s.run (acts.map .stocked)).storeless = s.storeless.run acts := by
  induction acts generalizing s with
  | nil => rfl
  | cons a rest ih =>
    show ((s.act a.stocked).run (rest.map .stocked)).storeless = (s.storeless.act a).run rest
    rw [ih, act_stocked still]

end Session

/-- A store for snapshots changes nothing but the cost.

If it answers a rebuild with something that cannot be used, the rebuild comes to what it comes to
with snapshots disabled.  And whatever it answers when snapshots are saved, a session of calls comes
to what it comes to without it: the calls return the same, the coordinators track and stage the
same, and the medium and the copies, or whatever else the rest of the surroundings is, are left the
same.  All that is asked of the rest is that nothing changes there when somebody reads the clock. -/
theorem store_indifferent (still : ∀ w : ω, (Surroundings.answer .time w).2 = w) :
    (∀ (log : Log) (stream : String) (w : Stocked ω σ) (on snapshots : Bool),
      Snapshot.Unusable stream (SnapshotStore.load stream w.store).1 → (on && snapshots) = false →
      ((log.rebuild true stream).run w).1 =
          (((log.withSnapshots on).rebuild snapshots stream).run w.rest).1 ∧
        ((log.rebuild true stream).run w).2.rest =
          (((log.withSnapshots on).rebuild snapshots stream).run w.rest).2) ∧
    ∀ (s : Session (Stocked ω σ)) (acts : List (Act ω)),
      (s.run (acts.map .stocked)).storeless = s.storeless.run acts :=
  ⟨fun log _ _ _ _ unusable off => log.run_rebuild_unusable unusable off,
    Session.run_stocked still⟩

/-! ## A store that refuses everything -/

/-- A store that takes nothing and gives nothing, and counts how often it was asked. -/
structure Refusing where
  asked : Nat

instance : SnapshotStore Refusing where
  save _ s := (.error (.storage "bucket offline"), ⟨s.asked + 1⟩)
  load _ s := (.error (.storage "bucket offline"), ⟨s.asked + 1⟩)

/-- Somebody has put down a copy, and has coordinators that save a snapshot after each fact. -/
def openedWithStore : Session (Stocked InMemory Refusing) where
  coordinators _ := { Coordinator.idle .quick true with policy := ⟨true, 1⟩ }
  world := ⟨{ InMemory.empty .startOf2025 with copies := [.blank "t"] }, ⟨0⟩⟩
  returned := []

def performing (o : Operation) : Act InMemory :=
  .meanwhile fun w => (w.answer (.perform 0 o)).2

def twoCommits : List (Act InMemory) :=
  [performing (.initiate ⟨100, "EUR", "a", "b"⟩), .call 0 (.track 0), .call 0 .push,
    performing (.authorize (.approved "x")), .call 0 .begin, .call 0 (.track 0), .call 0 .commit]

/-- Both snapshots are offered to the store, and that both are refused makes no difference.  Nor
does it to a rebuild that the store gives nothing. -/
theorem store_indifferent_refusing :
    let s := openedWithStore.run (twoCommits.map .stocked)
    s.storeless = openedWithStore.storeless.run twoCommits ∧
      s.returned = [.ok none, .ok (some 1), .ok none, .ok none, .ok (some 1)] ∧
      s.world.store.asked = 2 ∧
      ((Log.quick.rebuild true "t").run s.world).1 =
        ((Log.quick.rebuild false "t").run s.world.rest).1 := by
  obtain ⟨hrebuild, hsession⟩ :=
    @store_indifferent InMemory Refusing _ _ fun _ => rfl
  refine ⟨hsession openedWithStore twoCommits, rfl, rfl, ?_⟩
  exact (hrebuild .quick "t" _ true false (.failed _) rfl).1

end TransferLedger

import TransferLedger.Proofs.Log.Appending
import TransferLedger.Proofs.Log.Yielding
import TransferLedger.Proofs.Rebuild.Taking
import TransferLedger.Proofs.Snapshot.Saving

/-!
# Rebuilding in peace

Where nobody else is there, a rebuild takes the facts that its reader yields behind its starting
point (`Log.run_replayFrom_of_yields`).  If the stream is linked these are all of them, in order
(`Log.run_replayFrom`).  So a snapshot of what the first facts make, and the facts behind it, come
to the same transfer as all facts together (`Log.rebuild_of_snapshot`): the snapshot is restored as
it was put aside, and what is taken behind it depends on the copy alone.
-/

set_option autoImplicit false

namespace TransferLedger

namespace Log

variable {log : Log} {stream : String} {w : InMemory}

/-- What a rebuild comes to once it has taken what there was: nothing at all is nothing found. -/
def concluded (stream : String) (b : Rebuilt) : Except ReplayError Rebuilt :=
  if b.snapshotVersion = none ∧ b.applied = 0 then .error (.notFound stream) else .ok b

theorem concluded_of_some {b : Rebuilt} {k : Nat} (h : b.snapshotVersion = some k) :
    concluded stream b = .ok b :=
  if_neg fun hn => by simp [h] at hn

theorem concluded_eq_ok {b b' : Rebuilt} (h : concluded stream b = .ok b') : b' = b := by
  unfold concluded at h
  split at h
  · simp at h
  · exact (Except.ok.inj h).symm

/-- What a replay comes to when its reader stops. -/
def outcome (stream : String) : Rebuilt × Reader.Stop ReplayError → Except ReplayError Rebuilt
  | (_, .failed e) => .error (.store e)
  | (_, .refused e) => .error e
  | (b, .ended) => concluded stream b

/-- In peace a replay takes the facts that its reader yields, and then it depends on what else the
reader yields. -/
theorem run_replayFrom_of_yields {from? : Option WorkingCopy} {rs : List Record}
    {more : List Item}
    (yields : (log.streamReader stream
      ((Rebuilt.startingFrom stream from?).copy.version + 1)).Yields w (rs.map .record ++ more))
    (enough : (rs.map Item.record ++ more).length ≤ Reader.positions) :
    (log.replayFrom stream from?).run w =
      (((Rebuilt.startingFrom stream from?).takeAll stream rs).bind fun b =>
        outcome stream (Reader.handOut (Rebuilt.take stream) b more), w) := by
  have hrun := yields.run (Rebuilt.take stream) enough (.startingFrom stream from?)
  unfold replayFrom
  dsimp only
  rw [Rebuilt.takeAll_eq_foldlM]
  cases ht : rs.foldlM (Rebuilt.take stream) (.startingFrom stream from?) with
  | error e =>
    rw [ht] at hrun
    obtain ⟨b, hb⟩ := hrun
    rw [Dialogue.run_bind_of hb]
    rfl
  | ok b =>
    rw [ht] at hrun
    rw [Dialogue.run_bind_of hrun]
    show _ = (outcome stream (Reader.handOut (Rebuilt.take stream) b more), w)
    generalize Reader.handOut (Rebuilt.take stream) b more = res
    obtain ⟨b', stop⟩ := res
    cases stop with
    | failed e => rfl
    | refused e => rfl
    | ended =>
      simp only [outcome, concluded]
      split <;> rfl

/-- In peace a linked stream is replayed to its end, from wherever the replay starts. -/
theorem run_replayFrom (available : w.medium.available = true)
    (linked : log.sealer.Linked stream .empty (w.medium.records stream))
    (short : (w.medium.records stream).length ≤ Reader.positions) (from? : Option WorkingCopy)
    {k : Nat} (hk : (Rebuilt.startingFrom stream from?).copy.version = k)
    (hle : k ≤ (w.medium.records stream).length) :
    (log.replayFrom stream from?).run w =
      (((Rebuilt.startingFrom stream from?).takeAll stream
        ((w.medium.records stream).drop k)).bind (concluded stream), w) := by
  subst hk
  have yields := yields_of_linked log.config.batchSize available linked hle
  rw [← List.append_nil (List.map Item.record _)] at yields
  refine run_replayFrom_of_yields yields ?_
  rw [List.append_nil, List.length_map, List.length_drop]
  exact Nat.le_trans (Nat.sub_le ..) short

/-- Whatever a replay starts from, finding it changes nothing. -/
theorem run_startingPoint_snd (log : Log) (snapshots : Bool) (stream : String) (w : InMemory) :
    ((log.startingPoint snapshots stream).run w).2 = w := by
  have hload : (Dialogue.load stream).run w = (w.shelf.load stream, w) := rfl
  unfold startingPoint
  split
  · rw [Dialogue.run_bind_of hload]
    cases w.shelf.load stream with
    | error e => rfl
    | ok x? => cases x? <;> rfl
  · rfl

/-- Without snapshots the replay starts from nothing. -/
theorem run_startingPoint_none {snapshots : Bool}
    (off : (log.config.useSnapshots && snapshots) = false) :
    (log.startingPoint snapshots stream).run w = (none, w) := by
  unfold startingPoint
  rw [off]
  rfl

theorem run_startingPoint_some (on : log.config.useSnapshots = true) {x : Snapshot}
    {c : WorkingCopy} (found : w.shelf.load stream = .ok (some x))
    (hc : x.restore stream = .ok c) : (log.startingPoint true stream).run w = (some c, w) := by
  have hload : (Dialogue.load stream).run w = (.ok (some x), w) := congrArg (·, w) found
  unfold startingPoint
  rw [on, Bool.and_true, if_pos rfl, Dialogue.run_bind_of hload]
  simp only [hc]
  rfl

/-- Where no snapshot is used, whatever the reason, a rebuild takes all facts. -/
theorem run_rebuild_unused {snapshots : Bool}
    (unused : ((log.startingPoint snapshots stream).run w).1 = none) :
    (log.rebuild snapshots stream).run w = (log.replayFrom stream none).run w := by
  unfold rebuild
  rw [Dialogue.run_bind_of (Prod.ext unused (run_startingPoint_snd ..))]

theorem run_rebuild_none {snapshots : Bool} (available : w.medium.available = true)
    (linked : log.sealer.Linked stream .empty (w.medium.records stream))
    (short : (w.medium.records stream).length ≤ Reader.positions)
    (unused : ((log.startingPoint snapshots stream).run w).1 = none) :
    (log.rebuild snapshots stream).run w =
      (((Rebuilt.blank stream).takeAll stream (w.medium.records stream)).bind
        (concluded stream), w) := by
  rw [run_rebuild_unused unused,
    run_replayFrom available linked short none rfl (Nat.zero_le _)]
  rfl

theorem takeAll_of_rebuild {snapshots : Bool} {b : Rebuilt}
    (available : w.medium.available = true)
    (linked : log.sealer.Linked stream .empty (w.medium.records stream))
    (short : (w.medium.records stream).length ≤ Reader.positions)
    (off : (log.config.useSnapshots && snapshots) = false)
    (succeeds : ((log.rebuild snapshots stream).run w).1 = .ok b) :
    (Rebuilt.blank stream).takeAll stream (w.medium.records stream) = .ok b := by
  have unused := congrArg Prod.fst (@run_startingPoint_none log stream w snapshots off)
  rw [run_rebuild_none available linked short unused] at succeeds
  cases ht : (Rebuilt.blank stream).takeAll stream (w.medium.records stream) with
  | error e => rw [ht] at succeeds; simp [Except.bind] at succeeds
  | ok b' =>
    rw [ht] at succeeds
    rw [concluded_eq_ok succeeds]

/-- A rebuild that finds the snapshot of a state takes the facts behind it. -/
theorem run_rebuild_some (available : w.medium.available = true)
    (linked : log.sealer.Linked stream .empty (w.medium.records stream))
    (short : (w.medium.records stream).length ≤ Reader.positions)
    (on : log.config.useSnapshots = true) {c : WorkingCopy} (hc : c.Settled)
    (hs : c.stream = stream) (hle : c.version ≤ (w.medium.records stream).length) {now : Instant}
    (found : w.shelf.load stream = .ok (some (c.snapshot now))) :
    (log.rebuild true stream).run w =
      (((Rebuilt.startingFrom stream (some c)).takeAll stream
        ((w.medium.records stream).drop c.version)).bind (concluded stream), w) := by
  have hrestore : (c.snapshot now).restore stream = .ok c := by
    have := c.restore_snapshot now
    rwa [hs, ← hc.eq_replayed] at this
  unfold rebuild
  rw [Dialogue.run_bind_of (run_startingPoint_some on found hrestore),
    run_replayFrom available linked short (some c) rfl hle]
  rfl

/-- A stream is rebuilt in full.  Then there is a state for each of its versions, and a rebuild that
finds a snapshot of it takes the facts behind it and comes to the same transfer. -/
theorem rebuild_of_snapshot {full : Log} {snapshots : Bool} {b : Rebuilt} {k : Nat}
    (available : w.medium.available = true)
    (intact : log.sealer.Linked stream .empty (w.medium.records stream))
    (short : (w.medium.records stream).length ≤ Reader.positions)
    (same : full.sealer = log.sealer)
    (off : (full.config.useSnapshots && snapshots) = false)
    (succeeds : ((full.rebuild snapshots stream).run w).1 = .ok b)
    (on : log.config.useSnapshots = true) (hk : k ≤ (w.medium.records stream).length) :
    (b.copy.version = (w.medium.records stream).length ∧ b.copy.durable = b.copy.version ∧
      b.copy.pending = [] ∧ b.snapshotVersion = none ∧ b.applied = b.copy.version) ∧
    ∃ a, (Rebuilt.blank stream).takeAll stream ((w.medium.records stream).take k) = .ok a ∧
      a.copy.version = k ∧
      ∀ (now : Instant) (shelf : Shelf), shelf.load stream =
          .ok (some (.capture now stream Transfer.snapshotType k a.copy.transfer.toJson)) →
        (log.rebuild true stream).run { w with shelf := shelf } =
          (.ok ⟨b.copy, some k, (w.medium.records stream).length - k⟩,
            { w with shelf := shelf }) := by
  obtain ⟨hcont, -⟩ := Sealer.linked_iff.1 intact
  have hfull := takeAll_of_rebuild available (same ▸ intact) short off succeeds
  constructor
  · obtain ⟨hb, -⟩ := Rebuilt.of_blank hcont hfull
    rw [hb]
    exact ⟨rfl, rfl, rfl, rfl, rfl⟩
  -- The full rebuild has taken all records, the first so many and then the others.
  rw [← List.take_append_drop k (w.medium.records stream), Rebuilt.takeAll_append] at hfull
  cases ha : (Rebuilt.blank stream).takeAll stream ((w.medium.records stream).take k) with
  | error e => rw [ha] at hfull; simp [Except.bind] at hfull
  | ok a =>
    rw [ha] at hfull
    obtain ⟨hcopy, hs⟩ := Rebuilt.of_blank (hcont.take k) ha
    have hset : a.copy.Settled := by
      rw [hcopy]
      exact WorkingCopy.settled_replayed ..
    have hv : a.copy.version = k := by
      rw [hcopy]
      exact List.length_take_of_le hk
    refine ⟨a, rfl, hv, fun now shelf found => ?_⟩
    have hx : a.copy.snapshot now =
        .capture now stream Transfer.snapshotType k a.copy.transfer.toJson := by
      rw [WorkingCopy.snapshot, hs, hv]
    rw [← hx] at found
    have hrun := @run_rebuild_some log stream { w with shelf := shelf } available intact short on
      a.copy hset hs (hv ▸ hk) now found
    -- What is taken behind the snapshot is what the full rebuild took behind the first records.
    have htail : (Rebuilt.startingFrom stream (some a.copy)).takeAll stream
        ((w.medium.records stream).drop k) =
        .ok ⟨b.copy, some k, (w.medium.records stream).length - k⟩ := by
      have := @Rebuilt.takeAll_of_copy stream a b (.startingFrom stream (some a.copy)) _ hfull rfl
      simpa [Rebuilt.startingFrom, hv] using this
    rw [hv, show ({ w with shelf := shelf } : InMemory).medium.records stream =
      w.medium.records stream from rfl, htail] at hrun
    exact hrun

/-- A transfer is initiated and authorized. -/
def twoFacts : List Event :=
  [.initiated "t" ⟨100, "EUR", "a", "b"⟩ .startOf2025, .authorized "x" .startOf2025]

def authorized : InMemory :=
  ((quick.append "t" (twoFacts.map (Event.entry .startOf2025)) 0).run
    (InMemory.empty .startOf2025)).2

/-- A snapshot of the first version saves taking one of the two facts. -/
theorem rebuild_of_snapshot_authorized :
    ∃ a b : Rebuilt,
      (Rebuilt.blank "t").takeAll "t" ((authorized.medium.records "t").take 1) = .ok a ∧
      a.copy.version = 1 ∧ b.copy.version = 2 ∧
      let shelf := Shelf.empty.save
        (.capture .startOf2025 "t" Transfer.snapshotType 1 a.copy.transfer.toJson)
      (quick.rebuild true "t").run { authorized with shelf := shelf } =
        (.ok ⟨b.copy, some 1, 1⟩, { authorized with shelf := shelf }) := by
  have two : (authorized.medium.records "t").length = 2 := by decide +kernel
  have available : authorized.medium.available = true := by decide +kernel
  have nothing : Honest quick.sealer "t" (InMemory.empty .startOf2025) := .empty rfl
  have honest : Honest quick.sealer "t" authorized :=
    nothing.appended rfl (by decide +kernel)
  have short : (authorized.medium.records "t").length ≤ Reader.positions := by
    rw [two]
    decide
  have held : (authorized.medium.records "t").map Record.event = twoFacts.map .ok :=
    Record.events_of_carried (by decide +kernel)
  obtain ⟨b, hb, -⟩ := Rebuilt.takeAll_of_facts (b := .blank "t") "t" held rfl
  have succeeds : ((quick.rebuild false "t").run authorized).1 = .ok b := by
    obtain ⟨-, happ⟩ := Rebuilt.counted_of_takeAll hb
    rw [run_rebuild_none available honest.linked short rfl, hb]
    refine if_neg fun hn => ?_
    rw [happ, two] at hn
    exact absurd hn.2 (by decide)
  obtain ⟨⟨hv, -⟩, a, ha, ha', hrun⟩ := @rebuild_of_snapshot quick "t" authorized quick false
    b 1 available honest.linked short rfl rfl succeeds rfl (by rw [two]; decide)
  refine ⟨a, b, ha, ha', hv.trans two, ?_⟩
  rw [two] at hrun
  exact hrun .startOf2025 _ (Shelf.load_saved rfl (Snapshot.isIntact_capture ..))

end Log

end TransferLedger

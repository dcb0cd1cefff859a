import TransferLedger.Proofs.Office.Once
import TransferLedger.Proofs.Rebuild.Resuming

/-!
# Replay accepts what operations write

Where streams are only written to by committing working copies, every stream can be rebuilt, and the
rebuild takes all of it (`Log.rebuild_accepts`).  That is a law about whole streams, and nobody
breaks it who sticks to the rules: when a batch lands, some copy knows of all that the stream holds
then, and its operations have been accepted one after the other.

Snapshots make no difference.  Whatever is on the shelf restores a faithful copy, and the facts
behind it take it where a full replay ends.
-/

set_option autoImplicit false

namespace TransferLedger

open Chronicle

/-- A stream of which a copy with a faithful start knows all that it holds can be replayed. -/
theorem Story.Tells.replays {y : Story} {m : Memory} {c : WorkingCopy} {n : Nat}
    (h : y.Tells m c n) (ho : m.Orderly) (hset : y.start.Settled) (hf : y.start.Faithful m)
    (hend : c.durable = (m.records c.stream).length) :
    ∃ b, (Rebuilt.blank c.stream).takeAll c.stream (m.records c.stream) = .ok b := by
  obtain ⟨t, hid, hft, -⟩ := h.faithful hset hf
  obtain ⟨b, hb, -⟩ := hft.replay ho (WorkingCopy.settled_replayed ..)
  have hst : (WorkingCopy.replayed t c.durable).stream = c.stream := hid
  have hall : (m.records c.stream).take c.durable = m.records c.stream := by
    rw [hend, List.take_length]
  rw [hst, show (WorkingCopy.replayed t c.durable).version = c.durable from rfl, hall] at hb
  exact ⟨b, hb⟩

/-- The law that every record is sealed with a given key, and that copies are put down faithful. -/
def Law.genuine (s : Sealer) : Law :=
  { Law.faithful with record := s.Sealed }

theorem Log.obeys_genuine {s : Sealer} {log : Log} (hl : log.sealer = s) :
    log.Obeys (.genuine s) := by
  subst hl
  exact fun stream head e => log.sealer.sealed_record stream head e

/-- The law that every record is sealed with a given key, that copies are put down faithful, and
that every stream can be replayed. -/
def Law.replayed (s : Sealer) : Law :=
  { Law.faithful with
    record := s.Sealed
    whole := fun stream rs => ∃ b, (Rebuilt.blank stream).takeAll stream rs = .ok b
    whole_nil := fun stream => ⟨.blank stream, rfl⟩
    whole_told := fun ho hset hf ht hend => ht.replays ho hset hf hend }

theorem Log.obeys_replayed {s : Sealer} {log : Log} (hl : log.sealer = s) :
    log.Obeys (.replayed s) := by
  subst hl
  exact fun stream head e => log.sealer.sealed_record stream head e

/-! ## Rebuilding with what is on the shelf -/

namespace Log

variable {log : Log} {stream : String} {w : InMemory}

/-- If there is a starting point it is what a snapshot of the shelf restores. -/
theorem run_startingPoint (log : Log) (snapshots : Bool) (stream : String) (w : InMemory) :
    ∃ from?, (log.startingPoint snapshots stream).run w = (from?, w) ∧
      ∀ c, from? = some c → ∃ x, w.shelf.latest stream = some x ∧ x.restore stream = .ok c := by
  cases hon : log.config.useSnapshots && snapshots with
  | false => exact ⟨none, run_startingPoint_none hon, fun c hc => absurd hc (by simp)⟩
  | true =>
    have hload : (Dialogue.load stream).run w = (w.shelf.load stream, w) := rfl
    unfold startingPoint
    rw [hon, if_pos rfl, Dialogue.run_bind_of hload]
    cases hx : w.shelf.load stream with
    | error e => exact ⟨none, rfl, fun c hc => absurd hc (by simp)⟩
    | ok x? =>
      cases x? with
      | none => exact ⟨none, rfl, fun c hc => absurd hc (by simp)⟩
      | some x =>
        refine ⟨(x.restore stream).toOption, rfl, fun c hc => ?_⟩
        cases hr : x.restore stream with
        | error e => rw [hr] at hc; simp [Except.toOption] at hc
        | ok c' =>
          rw [hr] at hc
          obtain rfl := Option.some.inj hc
          exact ⟨x, Shelf.latest_of_load hx, hr⟩

/-- A stream that can be replayed is rebuilt in peace from whatever is on the shelf, if that is
faithful, and comes to what a full replay makes of it.  It takes the facts behind its starting
point, all of them. -/
theorem rebuild_accepts (snapshots : Bool) (available : w.medium.available = true)
    (linked : log.sealer.Linked stream .empty (w.medium.records stream))
    (short : (w.medium.records stream).length ≤ Reader.positions)
    (filled : w.medium.records stream ≠ []) (ho : w.medium.Orderly)
    (shelved : ∀ x, w.shelf.latest stream = some x → x.Faithful w.medium) {full : Rebuilt}
    (accepts : (Rebuilt.blank stream).takeAll stream (w.medium.records stream) = .ok full) :
    ∃ b, (log.rebuild snapshots stream).run w = (.ok b, w) ∧ b.copy = full.copy ∧
      b.snapshotVersion =
        ((log.startingPoint snapshots stream).run w).1.map WorkingCopy.version ∧
      b.applied + b.snapshotVersion.getD 0 = (w.medium.records stream).length := by
  obtain ⟨from?, hrun, hfrom⟩ := run_startingPoint log snapshots stream w
  unfold rebuild
  rw [Dialogue.run_bind_of hrun, hrun]
  cases from? with
  | none =>
    -- There is something to take, so it is not that nothing is found.
    obtain ⟨hsnap, happ⟩ := Rebuilt.counted_of_takeAll accepts
    have hpos : 0 < full.applied := by
      rw [happ]
      exact Nat.lt_of_lt_of_le (List.length_pos_iff.2 filled) (Nat.le_add_left ..)
    have hfull : (Rebuilt.startingFrom stream none).takeAll stream
        ((w.medium.records stream).drop 0) = .ok full := accepts
    have hc : concluded stream full = .ok full := if_neg fun hn => by omega
    rw [run_replayFrom (k := 0) available linked short none rfl (Nat.zero_le _), hfull]
    refine ⟨full, congrArg (·, w) hc, rfl, hsnap, ?_⟩
    rw [happ, hsnap]
    exact Nat.zero_add _
  | some c =>
    obtain ⟨x, hx, hc⟩ := hfrom c rfl
    have hf := (shelved x hx).restored hc
    obtain ⟨t, -, hid, hct⟩ := Snapshot.of_restore hc
    have hset : c.Settled := hct ▸ WorkingCopy.settled_replayed ..
    have hst : c.stream = stream := hct ▸ hid
    have hle := hf.version_le
    obtain ⟨a, ha, hac⟩ := hf.replay ho hset
    rw [hst] at hle ha
    -- A full replay comes by the restored copy on its way.
    rw [← List.take_append_drop c.version (w.medium.records stream), Rebuilt.takeAll_append, ha]
      at accepts
    have htail := @Rebuilt.takeAll_of_copy stream a full (.startingFrom stream (some c)) _ accepts
      hac.symm
    rw [run_replayFrom (k := c.version) available linked short (some c) rfl hle, htail]
    refine ⟨_, congrArg (·, w) (concluded_of_some rfl), rfl, rfl, ?_⟩
    show 0 + (List.drop _ _).length + c.version = _
    rw [List.length_drop]
    omega

end Log

end TransferLedger

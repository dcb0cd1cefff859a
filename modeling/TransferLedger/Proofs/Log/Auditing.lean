import TransferLedger.Log.Audit
import TransferLedger.Proofs.Log.Appending
import TransferLedger.Proofs.Log.Yielding

/-!
# Checking a stream in peace

There are three ways to check a stream.  The check of a chain takes all records at once, a reader
checks what it hands out, and an audit reads without checking and follows the chain with a cursor of
its own.  Where nobody else is there they agree, whatever is stored (`Log.checks_agree`): either all
of them find every record right, or the reader hands out the records before the first one that the
check of the chain refuses, and all of them report the error that it is refused with.

The audit has two checks of positions, that of its reader and that of its cursor.  They cannot come
to different errors, because the reader and the cursor stand at the same place
(`Log.refused_of_check`).
-/

set_option autoImplicit false

namespace TransferLedger

namespace Log

variable {log : Log} {stream : String} {w : InMemory}

/-- The version of a stream in peace is the number of its records. -/
theorem run_version (orderly : w.medium.Orderly) (available : w.medium.available = true) :
    (version stream).run w = (.ok (w.medium.records stream).length, w) := by
  rw [version, Dialogue.run_bind_of (Dialogue.run_head available stream),
    ← orderly.version_head stream]
  rfl

/-- What an audit says when its reader stops. -/
def verdict (stream : String) : Cursor × Reader.Stop ChainError → Except StoreError Audit
  | (c, .ended) => .ok ⟨stream, c.version, c.head⟩
  | (_, .failed e) => .error e
  | (_, .refused e) => .error (.integrity e)

/-- In peace an audit follows the linked records that its reader yields, and then it depends on what
else the reader yields. -/
theorem run_audit_of_yields {rs : List Record} {more : List Item}
    (yields : (log.unverified.streamReader stream 1).Yields w (rs.map .record ++ more))
    (enough : (rs.map Item.record ++ more).length ≤ Reader.positions)
    (linked : log.sealer.Linked stream .empty rs) :
    (log.audit stream).run w = (verdict stream
      (Reader.handOut (Cursor.advance log.sealer) ⟨stream, Head.empty.after rs⟩ more), w) := by
  have hrun := yields.run (Cursor.advance log.sealer) enough (.start stream)
  rw [← Cursor.follow_eq_foldlM, Cursor.start, Cursor.follow_eq_ok_iff.2 ⟨linked, rfl⟩] at hrun
  unfold audit
  rw [Cursor.start, Dialogue.run_bind_of hrun]
  generalize Reader.handOut (Cursor.advance log.sealer) _ more = res
  obtain ⟨c, stop⟩ := res
  cases stop <;> rfl

/-- An audit in peace of a stream that is linked and sealed.  Positions are words, so no stream is
longer than there are positions. -/
theorem run_audit (available : w.medium.available = true)
    (linked : log.sealer.Linked stream .empty (w.medium.records stream))
    (short : (w.medium.records stream).length ≤ Reader.positions) :
    (log.audit stream).run w =
      (.ok ⟨stream, (w.medium.records stream).length, lastHash (w.medium.records stream)⟩, w) := by
  have yields : (log.unverified.streamReader stream 1).Yields w _ :=
    @yields_of_linked log.unverified stream w log.config.batchSize available linked 0
      (Nat.zero_le _)
  rw [List.drop_zero, ← List.append_nil (List.map Item.record _)] at yields
  rw [run_audit_of_yields yields (by simpa using short) linked, ← hash_after_empty]
  show (verdict stream (⟨stream, Head.empty.after _⟩, .ended), w) = _
  rw [verdict, Cursor.version, (Sealer.linked_iff.1 linked).1.version_after,
    show Head.empty.version = 0 from rfl, Nat.zero_add]
  rfl

/-- What a reader refuses, a cursor at its place refuses for the same reason. -/
theorem refused_of_check {h : Head} {batch : Nat} {x : Record} {e : ChainError}
    (refused : (log.readerBehind stream h batch).check x = .error e) :
    (⟨stream, h⟩ : Cursor).advance log.sealer x = .error e := by
  unfold Reader.check readerBehind reader at refused
  cases hv : log.config.verifyOnRead with
  | true =>
    simp only [hv, if_pos] at refused
    cases ha : (⟨stream, h⟩ : Cursor).advance log.sealer x with
    | ok c => simp [ha, Except.map] at refused
    | error e' => simpa [ha, Except.map] using refused
  | false =>
    simp only [hv, Bool.false_eq_true, if_false] at refused
    have hnext : max (h.version + 1) 1 = h.version + 1 := Nat.max_eq_left (Nat.succ_pos _)
    rw [hnext] at refused
    split at refused
    · simp at refused
    · next hx =>
      obtain rfl := Except.error.inj refused
      exact if_pos hx

/-- An audit in peace of a stream whose chain is broken. -/
theorem run_audit_of_breaksAt (available : w.medium.available = true)
    (short : (w.medium.records stream).length ≤ Reader.positions) {i : Nat} {e : ChainError}
    (broken : log.sealer.BreaksAt stream (w.medium.records stream) i e) :
    (log.audit stream).run w = (.error (.integrity e), w) := by
  obtain ⟨x, hx, hl, ha⟩ := Sealer.breaksAt_iff.1 broken
  have yields := yields_from_start log.unverified stream log.config.batchSize available
  have enough := Nat.le_trans (Reader.length_offers_le
    (log.unverified.readerBehind stream .empty log.config.batchSize)
    (w.medium.records stream)) short
  have hoffers := @offers_of_linked_take log.unverified stream .empty log.config.batchSize _ i hl
  rw [hoffers, drop_eq_cons hx] at yields enough
  rw [run_audit_of_yields yields enough hl, Reader.offers]
  cases hc : (log.unverified.readerBehind stream (Head.empty.after
      ((w.medium.records stream).take i)) log.config.batchSize).check x with
  | error e' =>
    -- The reader refuses the record before the cursor gets it.
    obtain rfl : e' = e := Except.error.inj ((refused_of_check hc).symm.trans ha)
    rfl
  | ok c =>
    dsimp only
    rw [Reader.handOut, ha]
    rfl

/-- Nobody else is there, and the stream holds any records at all.  Where the check of a chain finds
them right, a reader that checks yields all of them, and an audit reports their number and the same
hash.  Where it refuses one, such a reader yields the records before that one and then the error,
and an audit reports the error.  Every reader comes to its end, after no more items than there are
records.  The size of pages makes no difference to any of this.  Positions are words, so no stream
is longer than there are positions. -/
theorem checks_agree (s : Sealer) (stream : String) (available : w.medium.available = true)
    (short : (w.medium.records stream).length ≤ Reader.positions) :
    (∀ g, verifyChain s stream (w.medium.records stream) = .ok g →
      ∀ log : Log, log.sealer = s →
        (log.config.verifyOnRead = true → ∀ batch items,
          (log.reader stream 1 batch).Yields w items ↔
            items = (w.medium.records stream).map .record) ∧
        (log.audit stream).run w = (.ok ⟨stream, (w.medium.records stream).length, g⟩, w)) ∧
    (∀ e, verifyChain s stream (w.medium.records stream) = .error e →
      ∃ i, s.BreaksAt stream (w.medium.records stream) i e ∧ ∀ log : Log, log.sealer = s →
        (log.config.verifyOnRead = true → ∀ batch items,
          (log.reader stream 1 batch).Yields w items ↔
            items = ((w.medium.records stream).take i).map .record ++ [.failed (.integrity e)]) ∧
        (log.audit stream).run w = (.error (.integrity e), w)) ∧
    ∀ (log : Log) start, ∃ items, items.length ≤ (w.medium.records stream).length ∧
      ∀ batch items', (log.reader stream start batch).Yields w items' ↔ items' = items := by
  refine ⟨fun g right => ?_, fun e wrong => ?_, fun log start => ?_⟩
  · obtain ⟨linked, rfl⟩ := verifyChain_eq_ok_iff.1 right
    rintro log rfl
    exact ⟨fun _ batch => (yields_of_linked batch available linked (Nat.zero_le _)).iff,
      run_audit available linked short⟩
  · obtain ⟨i, broken⟩ := verifyChain_eq_error_iff.1 wrong
    refine ⟨i, broken, ?_⟩
    rintro log rfl
    exact ⟨fun checks batch => (yields_of_breaksAt batch available checks broken).iff,
      run_audit_of_breaksAt available short broken⟩
  · obtain ⟨items, few, yields⟩ := exists_yields log stream available start
    exact ⟨items, few, fun batch => (yields batch).iff⟩

/-- The second of two records has been given another position. -/
def misplaced : InMemory :=
  let records := Sealer.quick.chain "S" .empty
    [⟨"Noted", "a", .startOf2025⟩, ⟨"Noted", "b", .startOf2025⟩]
  { InMemory.empty .startOf2025 with
    medium := Memory.empty.store ⟨"S", 0, records.modify 1 fun r => { r with sequence := 7 }⟩ }

/-- A reader comes to it one page after the other, and an audit does not miss it either. -/
theorem checks_agree_misplaced :
    let gap : StoreError := .integrity (.sequenceGap "S" 2 7)
    (∃ r, (quick.reader "S" 1 1).Yields misplaced [.record r, .failed gap]) ∧
      (quick.audit "S").run misplaced = (.error gap, misplaced) := by
  have here : Sealer.quick.BreaksAt "S" (misplaced.medium.records "S") 1
      (.sequenceGap "S" 2 7) :=
    Sealer.breaksAt_iff.2 ⟨_, rfl, ⟨rfl, rfl, rfl, rfl, trivial⟩, rfl⟩
  obtain ⟨-, broken, -⟩ := @checks_agree misplaced .quick "S" rfl (by decide)
  obtain ⟨i, hi, agree⟩ := broken _ (verifyChain_eq_error_iff.2 ⟨1, here⟩)
  obtain rfl : i = 1 := hi.unique here
  obtain ⟨reads, audited⟩ := agree quick rfl
  exact ⟨⟨_, (reads rfl 1 _).2 rfl⟩, audited⟩

end Log

end TransferLedger

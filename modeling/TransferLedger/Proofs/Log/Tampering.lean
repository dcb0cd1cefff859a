import TransferLedger.Proofs.Chain.Tampering
import TransferLedger.Proofs.Log.Appending
import TransferLedger.Proofs.Log.Yielding

/-!
# A reader meets a changed record

Somebody has changed one field of one record of a stream that was appended honestly.  A reader that
checks the chain hands out the records before it and then an error, and nothing else
(`Log.tamper_evident`), unless the change is a collision of the hash.  A reader that starts right
behind the changed record takes up the chain from it, so it has the error first.  One that starts
further on never sees the record.
-/

set_option autoImplicit false

namespace TransferLedger

/-- In a stream that stands in order the record at a position is the one that is changed. -/
theorem Memory.alterFirst_of_continues {stream : String} {h : Head} {rs : List Record}
    (hc : Continues stream h rs) {i : Nat} {r : Record} (hr : rs[i]? = some r)
    (change : Record → Record) :
    Memory.alterFirst (h.version + 1 + i) change rs = some (rs.set i (change r)) := by
  induction rs generalizing h i with
  | nil => simp at hr
  | cons x rest ih =>
    obtain ⟨-, hseq, -, hrest⟩ := hc
    rw [Memory.alterFirst]
    cases i with
    | zero =>
      obtain rfl : x = r := by simpa using hr
      rw [if_pos hseq]
      rfl
    | succ i =>
      have hi := ih hrest (by simpa using hr)
      rw [show x.head.version + 1 + i = h.version + 1 + (i + 1) by
        rw [show x.head.version = x.sequence from rfl, hseq]
        omega] at hi
      rw [if_neg (by omega), hi]
      rfl

/-- Only the record that the chain is taken up from matters. -/
theorem Sealer.Anchored.of_same {s : Sealer} {stream : String} {rs rs' : List Record} {h : Head}
    (ha : s.Anchored stream rs h) (same : rs'[h.version - 1]? = rs[h.version - 1]?) :
    s.Anchored stream rs' h := by
  rcases ha with h | ⟨p, hpos, hp, hrest⟩
  · exact .inl h
  · exact .inr ⟨p, hpos, same.trans hp, hrest⟩

namespace Log

variable {log : Log} {stream : String} {w : InMemory} {r r' : Record} {i k : Nat}

section changed

variable {rs : List Record} (available : w.medium.available = true)
  (linked : log.sealer.Linked stream .empty rs) (changed : w.medium.records stream = rs.set i r')

include available linked changed

/-- From further on: the records from the start on, which are untouched. -/
theorem yields_beyond_changed (batch : Nat) (hk : i + 1 < k) (hk' : k ≤ rs.length) :
    (log.reader stream (k + 1) batch).Yields w ((rs.drop k).map .record) := by
  obtain ⟨hv, hanchored⟩ := anchored_of_linked linked hk'
  have hanchored' : log.sealer.Anchored stream (w.medium.records stream)
      (Head.empty.after (rs.take k)) := by
    refine hanchored.of_same ?_
    rw [hv, changed, List.getElem?_set_ne (by omega)]
  have hy := yields_reader batch available fun _ => hanchored'
  rw [hv, changed, List.drop_set, if_pos (by omega), ← List.append_nil (rs.drop k),
    offers_of_linked (linked.drop k)] at hy
  simpa [Reader.offers] using hy

variable (checks : log.config.verifyOnRead = true) (hr : rs[i]? = some r) (once : r.DiffersOnce r')

include checks hr once

/-- From a start up to the changed record: what comes before it, and an error. -/
theorem yields_before_changed (batch : Nat) (hk : k ≤ i) :
    log.sealer.Collide r r' ∨ ∃ e, (log.reader stream (k + 1) batch).Yields w
      (((rs.drop k).take (i - k)).map .record ++ [.failed (.integrity e)]) := by
  have hi : i < rs.length := (List.getElem?_eq_some_iff.1 hr).1
  obtain ⟨hv, hanchored⟩ := anchored_of_linked linked (Nat.le_trans hk (Nat.le_of_lt hi))
  -- The record before the start is not the changed one.
  have hanchored' : log.sealer.Anchored stream (w.medium.records stream)
      (Head.empty.after (rs.take k)) := by
    cases k with
    | zero => exact .inl rfl
    | succ k =>
      refine hanchored.of_same ?_
      rw [hv, changed, List.getElem?_set_ne (by omega)]
  have hold : rs.drop k = (rs.drop k).take (i - k) ++ r :: (rs.drop k).drop (i - k + 1) := by
    rw [← drop_eq_cons (i := i - k), List.take_append_drop]
    rw [List.getElem?_drop, show k + (i - k) = i by omega, hr]
  have hnew : (w.medium.records stream).drop k =
      (rs.drop k).take (i - k) ++ r' :: (rs.drop k).drop (i - k + 1) := by
    rw [changed, List.drop_set, if_neg (by omega), List.set_eq_take_append_cons_drop,
      if_pos (by rw [List.length_drop]; omega)]
  have htail := linked.drop k
  rw [hold, Sealer.Linked.append_iff] at htail
  obtain ⟨hbefore, hat⟩ := htail
  obtain ⟨hs, hseq, -, hsealed, -⟩ := hat
  have hy := yields_reader batch available fun _ => hanchored'
  rw [hv, hnew, offers_of_linked hbefore] at hy
  rcases once.advance hs hseq hsealed with collide | ⟨e, he⟩
  · exact .inl collide
  · rw [offers_of_refused checks he] at hy
    exact .inr ⟨e, hy⟩

/-- From right behind the changed record: an error and nothing else. -/
theorem yields_behind_changed (batch : Nat) : log.sealer.Collide r r' ∨
    ∃ e, (log.reader stream (i + 2) batch).Yields w [.failed (.integrity e)] := by
  have hi : i < rs.length := (List.getElem?_eq_some_iff.1 hr).1
  obtain ⟨hc, hsealed⟩ := Sealer.linked_iff.1 linked
  obtain ⟨hs, -⟩ := hc.getElem? hr
  have hat : (w.medium.records stream)[i + 1 - 1]? = some r' := by
    rw [changed, Nat.add_sub_cancel, List.getElem?_set_self hi]
  have hprime := Reader.run_prime_resume (r := log.reader stream (i + 2) batch) available
    (if_pos checks) rfl (Nat.max_eq_left (Nat.succ_pos _)) (Nat.succ_pos i) hat
  rcases once.anchor (hsealed r (List.mem_of_getElem? hr)) with collide | ⟨e, he⟩
  · exact .inl collide
  · rw [hs, hc.sequence_eq hr] at he
    rw [show (log.reader stream (i + 2) batch).stream = stream from rfl, he] at hprime
    exact .inr ⟨e, Reader.yields_of_prime_error rfl hprime⟩

end changed

/-- One field of the record at position `j` of a stream has been changed.  Wherever a reader that
checks the chain starts, it yields the records before that one and then an error; an error alone if
it starts right behind it; and the records from its start on, all untouched, if it starts further
on.  Otherwise the two records are a collision of the hash. -/
theorem tamper_evident {m : Memory} {change : Record → Record} {j : Nat} (start batch : Nat)
    (honest : Honest log.sealer stream w) (checks : log.config.verifyOnRead = true)
    (available : w.medium.available = true) (hj : 1 ≤ j)
    (hr : (w.medium.records stream)[j - 1]? = some r) (once : r.DiffersOnce (change r))
    (tampered : w.medium.tamper stream j change = some m) (hs : 1 ≤ start)
    (hs' : start ≤ (w.medium.records stream).length + 1) :
    log.sealer.Collide r (change r) ∨
      (start ≤ j → ∃ e, (log.reader stream start batch).Yields { w with medium := m }
        ((((w.medium.records stream).drop (start - 1)).take (j - start)).map .record ++
          [.failed (.integrity e)])) ∧
      (start = j + 1 → ∃ e, (log.reader stream start batch).Yields { w with medium := m }
        [.failed (.integrity e)]) ∧
      (j + 1 < start → (log.reader stream start batch).Yields { w with medium := m }
        (((w.medium.records stream).drop (start - 1)).map .record)) := by
  have linked := honest.linked
  obtain ⟨i, rfl⟩ := Nat.exists_eq_add_of_le' hj
  obtain ⟨k, rfl⟩ := Nat.exists_eq_add_of_le' hs
  rw [Nat.add_sub_cancel] at hr ⊢
  -- What has been changed is the record in its place, and that alone.
  have halter : Memory.alterFirst (i + 1) change (w.medium.records stream) =
      some ((w.medium.records stream).set i (change r)) := by
    have := Memory.alterFirst_of_continues (Sealer.linked_iff.1 linked).1 hr change
    rwa [show Head.empty.version + 1 + i = i + 1 by rw [Nat.add_comm i]; rfl] at this
  have hm : m = { w.medium with
      records := Keyed.set w.medium.records stream
        ((w.medium.records stream).set i (change r)) } := by
    rw [Memory.tamper, halter] at tampered
    exact (Option.some.inj tampered).symm
  have hav : { w with medium := m }.medium.available = true := by
    rw [hm]
    exact available
  have hset : { w with medium := m }.medium.records stream =
      (w.medium.records stream).set i (change r) := by
    rw [hm]
    exact Keyed.set_same ..
  rw [or_iff_not_imp_left]
  intro hn
  refine ⟨fun hle => ?_, fun heq => ?_, fun hlt => ?_⟩
  · have := (yields_before_changed hav linked hset checks hr once batch
      (Nat.le_of_succ_le_succ hle)).resolve_left hn
    rwa [Nat.add_sub_add_right]
  · obtain rfl : k = i + 1 := Nat.succ.inj heq
    exact (yields_behind_changed hav linked hset checks hr once batch).resolve_left hn
  · exact yields_beyond_changed hav linked hset batch (by omega) (by omega)

/-- A log whose sealer adds up the bytes. -/
def summing : Log :=
  ⟨⟨fun bytes => ⟨Vector.replicate 32 (bytes.foldl (· + ·) 0)⟩⟩, .default⟩

/-- Two facts have been appended. -/
def twoNoted : InMemory :=
  ((summing.append "S" [⟨"Noted", "a", .startOf2025⟩, ⟨"Noted", "b", .startOf2025⟩] 0).run
    (InMemory.empty .startOf2025)).2

theorem honest_twoNoted : Honest summing.sealer "S" twoNoted :=
  have nothing : Honest summing.sealer "S" (InMemory.empty .startOf2025) := .empty rfl
  nothing.appended rfl (by decide +kernel)

/-- The second one is changed, and a reader comes to it one page after the other. -/
theorem tamper_evident_of_twoNoted :
    let spoil (r : Record) : Record := { r with payload := "c" }
    ∃ m r e, twoNoted.medium.tamper "S" 2 spoil = some m ∧
      (twoNoted.medium.records "S")[0]? = some r ∧
      (summing.reader "S" 1 1).Yields { twoNoted with medium := m }
        [.record r, .failed (.integrity e)] := by
  intro spoil
  obtain ⟨m, hm⟩ : ∃ m, twoNoted.medium.tamper "S" 2 spoil = some m :=
    Option.isSome_iff_exists.1 (by decide +kernel)
  obtain ⟨r₁, hr₁⟩ : ∃ r, (twoNoted.medium.records "S")[0]? = some r :=
    Option.isSome_iff_exists.1 (by decide +kernel)
  obtain ⟨r, hr⟩ : ∃ r, (twoNoted.medium.records "S")[2 - 1]? = some r :=
    Option.isSome_iff_exists.1 (by decide +kernel)
  have apart : ∀ r ∈ (twoNoted.medium.records "S")[2 - 1]?, "c" ≠ r.payload ∧
      summing.sealer.tag r.sealedBytes ≠ summing.sealer.tag (spoil r).sealedBytes := by
    decide +kernel
  obtain ⟨differs, nocollision⟩ := apart r hr
  obtain ⟨hbefore, -, -⟩ := (tamper_evident 1 1 honest_twoNoted rfl (by decide +kernel)
    (by decide) hr (.payload differs) hm (by decide)
    (by decide +kernel)).resolve_left fun hc => nocollision hc.2
  obtain ⟨e, he⟩ := hbefore (by decide)
  have hfirst : ((twoNoted.medium.records "S").drop (1 - 1)).take (2 - 1) = [r₁] := by
    rw [drop_eq_cons hr₁]
    rfl
  rw [hfirst] at he
  exact ⟨m, r₁, e, hm, hr₁, he⟩

end Log

end TransferLedger

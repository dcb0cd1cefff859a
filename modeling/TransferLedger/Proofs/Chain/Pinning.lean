import Mathlib.Data.List.Induction
import TransferLedger.Proofs.Chain.Following
import TransferLedger.Proofs.Chain.SealedBytes

/-!
# A head pins its history

Two streams that are found right and end in the same hash are the same stream, record for record
(`history_of_head`), unless two of their records are a collision of the hash.  So a head hash that
somebody has kept rules out at once that records were changed, left out, put in, cut off at the
front, or moved to another stream.

It does not rule out that a time was changed to one with the same text.  Of the times that a text
denotes no two are like that, but a second may be held so long that it has the text of the next one
(`heads_agree_of_overlong`).

The last records are the same because their hashes are, and so are the hashes before them; the
argument goes back from there.  That both streams come to their first record together is due to the
positions, which are hashed like everything else.
-/

set_option autoImplicit false

namespace TransferLedger

namespace Sealer

variable {s : Sealer} {stream stream' : String} {rs rs' : List Record}

theorem Linked.concat_iff {h : Head} {r : Record} : s.Linked stream h (rs ++ [r]) ↔
    s.Linked stream h rs ∧ r.stream = stream ∧ r.sequence = (h.after rs).version + 1 ∧
      r.previous = (h.after rs).hash ∧ s.Sealed r := by
  rw [Linked.append_iff]
  simp only [Linked, and_true]
  rfl

theorem Linked.eq_nil_of_after (hl : s.Linked stream .empty rs)
    (he : Head.empty.after rs = .empty) : rs = [] := by
  have hv := (linked_iff.1 hl).1.version_after
  rw [he] at hv
  exact List.eq_nil_of_length_eq_zero (by omega)

/-- Two streams with the same head are the same, from the last record back to the first. -/
theorem Linked.eq_or_collide (hl : s.Linked stream .empty rs) (hl' : s.Linked stream' .empty rs')
    (fits : ∀ r ∈ rs, r.Fits) (fits' : ∀ r ∈ rs', r.Fits)
    (dated : ∀ r ∈ rs, r.recordedAt.Denotable) (dated' : ∀ r ∈ rs', r.recordedAt.Denotable)
    (same : Head.empty.after rs = Head.empty.after rs') :
    rs = rs' ∨ ∃ r ∈ rs, ∃ r' ∈ rs', s.Collide r r' := by
  induction rs using List.reverseRecOn generalizing rs' with
  | nil => exact .inl (hl'.eq_nil_of_after same.symm).symm
  | append_singleton init r ih =>
    rcases List.eq_nil_or_concat rs' with rfl | ⟨init', r', rfl⟩
    · exact .inl (hl.eq_nil_of_after same)
    rw [List.concat_eq_append] at hl' fits' dated' same ⊢
    rw [Head.after_append, Head.after_append] at same
    have hhead : r.head = r'.head := same
    obtain ⟨hinit, -, hseq, hprev, hr⟩ := concat_iff.1 hl
    obtain ⟨hinit', -, hseq', hprev', hr'⟩ := concat_iff.1 hl'
    have hlast := Record.eq_or_collide (fits r (by simp)) (fits' r' (by simp)) (dated r (by simp))
      (dated' r' (by simp)) hr hr' (congrArg Head.hash hhead)
    rcases hlast with rfl | hc
    · -- The record says where it stands and what it follows, so the heads before it are the same.
      have hbefore : Head.empty.after init = Head.empty.after init' := by
        rw [Head.mk.injEq]
        exact ⟨Nat.succ.inj (hseq.symm.trans hseq'), hprev.symm.trans hprev'⟩
      have hrest := ih hinit hinit' (fun x hx => fits x (by simp [hx]))
        (fun x hx => fits' x (by simp [hx])) (fun x hx => dated x (by simp [hx]))
        (fun x hx => dated' x (by simp [hx])) hbefore
      rcases hrest with rfl | ⟨x, hx, x', hx', hc⟩
      · exact .inl rfl
      · exact .inr ⟨x, by simp [hx], x', by simp [hx'], hc⟩
    · exact .inr ⟨r, by simp, r', by simp, hc⟩

end Sealer

/-- Two streams that are not empty, whose times are such as a text denotes, and that are found right
with the same key and have the same head hash, are one stream, record for record.  Otherwise there
are two records among them for which different bytes have the same hash. -/
theorem history_of_head {s : Sealer} {stream stream' : String} {rs rs' : List Record}
    {g : ChainHash} (nonempty : rs ≠ []) (nonempty' : rs' ≠ []) (fits : ∀ r ∈ rs, r.Fits)
    (fits' : ∀ r ∈ rs', r.Fits) (dated : ∀ r ∈ rs, r.recordedAt.Denotable)
    (dated' : ∀ r ∈ rs', r.recordedAt.Denotable) (right : verifyChain s stream rs = .ok g)
    (right' : verifyChain s stream' rs' = .ok g) :
    (stream = stream' ∧ rs = rs') ∨ ∃ r ∈ rs, ∃ r' ∈ rs', s.Collide r r' := by
  obtain ⟨hl, hg⟩ := verifyChain_eq_ok_iff.1 right
  obtain ⟨hl', hg'⟩ := verifyChain_eq_ok_iff.1 right'
  obtain ⟨init, r, rfl⟩ : ∃ init r, rs = init ++ [r] :=
    ⟨_, _, (List.dropLast_concat_getLast nonempty).symm⟩
  obtain ⟨init', r', rfl⟩ : ∃ init r, rs' = init ++ [r] :=
    ⟨_, _, (List.dropLast_concat_getLast nonempty').symm⟩
  have hhash : r.hash = r'.hash := by
    simpa [lastHash] using hg.symm.trans hg'
  obtain ⟨-, hs, -, -, hr⟩ := Sealer.Linked.concat_iff.1 hl
  obtain ⟨-, hs', -, -, hr'⟩ := Sealer.Linked.concat_iff.1 hl'
  have hlast := Record.eq_or_collide (fits r (by simp)) (fits' r' (by simp)) (dated r (by simp))
    (dated' r' (by simp)) hr hr' hhash
  rcases hlast with rfl | hc
  · have same : Head.empty.after (init ++ [r]) = Head.empty.after (init' ++ [r]) := by
      rw [Head.after_append, Head.after_append]
      rfl
    exact (hl.eq_or_collide hl' fits fits' dated dated' same).imp_left fun heq =>
      ⟨hs.symm.trans hs', heq⟩
  · exact .inr ⟨r, by simp, r', by simp, hc⟩

/-- A sealer that tells nothing apart. -/
def Sealer.blunt : Sealer :=
  ⟨fun _ => .root⟩

/-- To it, two different streams have the same head hash, so there are records that it confuses. -/
theorem history_of_head_blunt :
    let rs := Sealer.blunt.chain "a" .empty
      [⟨"Noted", "x", .startOf2025⟩, ⟨"Noted", "y", .startOf2025⟩]
    let rs' := Sealer.blunt.chain "b" .empty [⟨"Noted", "z", .startOf2025⟩]
    verifyChain .blunt "a" rs = .ok .root ∧ verifyChain .blunt "b" rs' = .ok .root ∧
      ∃ r ∈ rs, ∃ r' ∈ rs', Sealer.blunt.Collide r r' := by
  intro rs rs'
  have right : verifyChain .blunt "a" rs = .ok .root :=
    verifyChain_eq_ok_iff.2 ⟨Sealer.linked_chain .., rfl⟩
  have right' : verifyChain .blunt "b" rs' = .ok .root :=
    verifyChain_eq_ok_iff.2 ⟨Sealer.linked_chain .., rfl⟩
  have collision := history_of_head (by simp [rs, Sealer.chain]) (by simp [rs', Sealer.chain])
    (by decide +kernel) (by decide +kernel) (by decide +kernel) (by decide +kernel) right right'
  exact ⟨right, right', collision.resolve_left fun heq => absurd heq.1 (by decide)⟩

/-- The first second after a noon, held as the noon with a second's worth of nanoseconds. -/
def Stamp.overlong : Stamp :=
  ⟨⟨2025, 1, 1⟩, ⟨12, 0, 0, 1000000000⟩, Instant.startOf2025.date_valid, by decide⟩

/-- Two streams of one record each, which differ in how long a second has been held: with a key that
is in use both are found right, they have the same head hash, and nothing has collided. -/
theorem heads_agree_of_overlong :
    let s : Sealer := ⟨fun bytes => ⟨Digest.hmac [107] bytes⟩⟩
    let r := s.record "a" .empty ⟨"Noted", "{}", .overlong⟩
    let r' := s.record "a" .empty
      ⟨"Noted", "{}", ⟨⟨2025, 1, 1⟩, ⟨12, 0, 1, 0⟩, by decide, by decide⟩⟩
    Sealer.ofKey [107] = .ok s ∧ r.Fits ∧ r'.Fits ∧ verifyChain s "a" [r] = .ok r.hash ∧
      verifyChain s "a" [r'] = .ok r.hash ∧ [r] ≠ [r'] ∧
      ∀ x ∈ [r, r'], ∀ y ∈ [r, r'], ¬ s.Collide x y := by
  intro s r r'
  -- The second record holds the reading of the first one's time, so their bytes are the same.
  have read : r'.entry = { r.entry with recordedAt := r.recordedAt.reading } := by decide
  have bytes : r'.sealedBytes = r.sealedBytes := by
    rw [Record.sealedBytes, read]
    exact sealInput_reading ..
  have hash : r'.hash = r.hash := congrArg s.tag bytes
  refine ⟨rfl, by decide +kernel, by decide +kernel, ?_, ?_, fun he => ?_, ?_⟩
  · exact verifyChain_eq_ok_iff.2 ⟨s.linked_chain "a" .empty [r.entry], rfl⟩
  · exact verifyChain_eq_ok_iff.2 ⟨s.linked_chain "a" .empty [r'.entry], hash.symm⟩
  · exact absurd (congrArg (List.map Record.recordedAt) he) (by decide)
  · rintro x hx y hy ⟨differ, -⟩
    have same (z : Record) (hz : z ∈ [r, r']) : z.sealedBytes = r.sealedBytes := by
      rcases List.mem_cons.1 hz with rfl | hz
      · rfl
      · obtain rfl := List.mem_singleton.1 hz
        exact bytes
    exact differ ((same x hx).trans (same y hy).symm)

end TransferLedger

import TransferLedger.Log.Reader
import TransferLedger.Proofs.Chain.SealedBytes

/-!
# One field changed

What becomes of a sealed record when one of its fields is changed behind the back of the log.  No
check takes the record after that, neither when it comes in its turn (`DiffersOnce.advance`) nor
when a reader takes up the chain from it (`DiffersOnce.anchor`).  The one way out is a collision:
the bytes that are hashed for the two records are different (`DiffersOnce.sealed_ne`), and still
they have the same hash (`Sealer.Collide`).

Where the change moves the record, to another stream or another position, that is seen without a
look at the hash.
-/

set_option autoImplicit false

namespace TransferLedger

open TransferLedger.Text

/-- The other record is the same but for one field, which has another value.  A time and the one that
it is changed to are such as a text denotes. -/
inductive Record.DiffersOnce (r : Record) : Record → Prop
  | stream {v : String} (h : v ≠ r.stream) : DiffersOnce r { r with stream := v }
  | sequence {v : Nat} (h : v ≠ r.sequence) : DiffersOnce r { r with sequence := v }
  | kind {v : String} (h : v ≠ r.kind) : DiffersOnce r { r with kind := v }
  | payload {v : String} (h : v ≠ r.payload) : DiffersOnce r { r with payload := v }
  | recordedAt {v : Stamp} (h : v ≠ r.recordedAt) (old : r.recordedAt.Denotable)
      (new : v.Denotable) : DiffersOnce r { r with recordedAt := v }
  | previous {v : ChainHash} (h : v ≠ r.previous) : DiffersOnce r { r with previous := v }
  | hash {v : ChainHash} (h : v ≠ r.hash) : DiffersOnce r { r with hash := v }

namespace Record.DiffersOnce

variable {s : Sealer} {r r' : Record}

/-- A change to what is hashed, and not to the record's place, changes the bytes that are hashed. -/
theorem sealed_ne (h : r.DiffersOnce r') (stream : r'.stream = r.stream)
    (sequence : r'.sequence = r.sequence) (hash : r'.hash = r.hash) :
    r.sealedBytes ≠ r'.sealedBytes := by
  intro he
  simp only [sealedBytes, sealInput, entry, List.append_assoc] at he
  cases h with
  | stream h => exact h stream
  | sequence h => exact h sequence
  | hash h => exact h hash
  | kind h =>
    simp only [List.append_cancel_left_eq, List.append_cancel_right_eq] at he
    exact h (measured_inj he).symm
  | payload h =>
    simp only [List.append_cancel_left_eq, List.append_cancel_right_eq] at he
    exact h (measured_inj he).symm
  | recordedAt h old new =>
    simp only [List.append_cancel_left_eq, List.append_cancel_right_eq] at he
    exact h (old.fullText_inj new (measured_inj he)).symm
  | previous h =>
    simp only [List.append_cancel_left_eq] at he
    exact h (congrArg ChainHash.mk (Vector.toList_inj.1 he)).symm

/-- A changed record in its old place is sealed only by a collision. -/
theorem collide (h : r.DiffersOnce r') (hr : s.Sealed r) (stream : r'.stream = r.stream)
    (sequence : r'.sequence = r.sequence) (hr' : s.Sealed r') : s.Collide r r' := by
  have hash : r'.hash = r.hash := by
    cases h with
    | hash h => exact absurd (hr'.trans hr.symm) h
    | stream | sequence | kind | payload | recordedAt | previous => rfl
  exact ⟨h.sealed_ne stream sequence hash, hr.symm.trans (hash.symm.trans hr')⟩

/-- A record is taken in its turn; with one field changed it is refused there. -/
theorem advance {stream : String} {g : Head} (h : r.DiffersOnce r') (hs : r.stream = stream)
    (hseq : r.sequence = g.version + 1) (hr : s.Sealed r) :
    s.Collide r r' ∨ ∃ e, (⟨stream, g⟩ : Cursor).advance s r' = .error e := by
  unfold Cursor.advance
  by_cases h1 : r'.sequence ≠ g.version + 1
  · exact .inr ⟨_, if_pos h1⟩
  rw [show Cursor.version ⟨stream, g⟩ = g.version from rfl, if_neg h1]
  by_cases h2 : r'.previous ≠ Cursor.head ⟨stream, g⟩
  · exact .inr ⟨_, if_pos h2⟩
  rw [if_neg h2]
  by_cases h3 : r'.stream ≠ stream ∨ s.accepts r' (Cursor.head ⟨stream, g⟩) = false
  · exact .inr ⟨_, if_pos h3⟩
  · obtain ⟨h4, h5⟩ := not_or.1 h3
    simp only [ne_eq, not_not] at h1 h2 h4
    rw [← h2] at h5
    simp only [Sealer.accepts, beq_self_eq_true, Bool.true_and, Bool.not_eq_false,
      beq_iff_eq] at h5
    exact .inl (h.collide hr (h4.trans hs.symm) (h1.trans hseq.symm) h5.symm)

/-- The chain is taken up from a record; with one field changed it is not. -/
theorem anchor (h : r.DiffersOnce r') (hr : s.Sealed r) :
    s.Collide r r' ∨ ∃ e, Reader.anchor s r.stream r.sequence r' = .error e := by
  unfold Reader.anchor
  by_cases h1 : r'.sequence ≠ r.sequence
  · exact .inr ⟨_, if_pos h1⟩
  rw [if_neg h1]
  by_cases h2 : r'.stream ≠ r.stream ∨ s.accepts r' r'.previous = false
  · exact .inr ⟨_, if_pos h2⟩
  · obtain ⟨h3, h4⟩ := not_or.1 h2
    simp only [ne_eq, not_not] at h1 h3
    simp only [Sealer.accepts, beq_self_eq_true, Bool.true_and, Bool.not_eq_false,
      beq_iff_eq] at h4
    exact .inl (h.collide hr h3 h1 h4.symm)

end Record.DiffersOnce

end TransferLedger

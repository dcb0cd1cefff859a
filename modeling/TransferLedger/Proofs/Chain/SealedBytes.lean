import TransferLedger.Proofs.Chain.Continues
import TransferLedger.Proofs.Time.Stamp

/-!
# The bytes that are hashed

What is hashed of a record determines its fields, its own hash aside: `sealInput_eq_iff`.  The
fields stand one after the other, and each of them tells where it ends: a text comes with its length
in front, a position takes eight bytes, and the hash before the record is as long as any hash.  So
it makes no difference what a text contains, and the fields are found even where more follows
(`sealInput_append_inj`).  The time is a text too, and of the times that a text denotes it names one
only (`Stamp.Denotable.fullText_inj`): a leap second is not the second after it, and a year with a
sign is no year without one.

The lengths and the position are written in eight bytes each, so this is true of records in which
they fit (`Record.Fits`).  No record is larger, but nothing in its type says so.

So two sealed records with the same hash are the same, or a collision (`Record.eq_or_collide`).
-/

set_option autoImplicit false

namespace TransferLedger

open TransferLedger.Text

/-! ## Numbers and texts -/

theorem length_littleEndian (size n : Nat) : (littleEndian size n).length = size := by
  induction size generalizing n with
  | zero => rfl
  | succ size ih => exact congrArg Nat.succ (ih (n / 256))

/-- A number is found in its bytes, if it fits in so many of them. -/
theorem littleEndian_inj {size m n : Nat} (hm : m < Nat.pow 256 size) (hn : n < Nat.pow 256 size)
    (h : littleEndian size m = littleEndian size n) : m = n := by
  induction size generalizing m n with
  | zero =>
    have hone : Nat.pow 256 0 = 1 := rfl
    omega
  | succ size ih =>
    obtain ⟨hlow, hhigh⟩ := List.cons.inj h
    have hpow : Nat.pow 256 (size + 1) = Nat.pow 256 size * 256 := rfl
    have hdiv : m / 256 = n / 256 := ih (by omega) (by omega) hhigh
    have hmod : m % 256 = n % 256 := by
      have := congrArg UInt8.toNat hlow
      simpa [UInt8.toNat_ofNat'] using this
    omega

/-- A text is found in its bytes with the length in front. -/
theorem measured_inj {s t : String} (h : measured s = measured t) : s = t := by
  refine utf8_inj (List.append_inj_right h ?_)
  rw [length_littleEndian, length_littleEndian]

/-- A position or a length is found where more follows. -/
theorem littleEndian_append_inj {m n : Nat} (hm : m < UInt64.size) (hn : n < UInt64.size)
    {xs ys : List UInt8} (h : littleEndian 8 m ++ xs = littleEndian 8 n ++ ys) :
    m = n ∧ xs = ys := by
  obtain ⟨hbytes, hrest⟩ := List.append_inj h (by rw [length_littleEndian, length_littleEndian])
  exact ⟨@littleEndian_inj 8 _ _ hm hn hbytes, hrest⟩

/-- The length of a text takes no more than eight bytes. -/
def Text.LengthFits (s : String) : Prop :=
  (utf8 s).length < UInt64.size

instance (s : String) : Decidable (LengthFits s) := by
  unfold LengthFits; infer_instance

/-- A character takes four bytes at most. -/
theorem Text.length_utf8_ofList_le (cs : List Char) :
    (utf8 (String.ofList cs)).length ≤ 4 * cs.length := by
  have size (ds : List Char) : (utf8 (String.ofList ds)).length = ds.utf8Encode.size := by
    rw [utf8, String.toByteArray_ofList]
    rfl
  rw [size]
  induction cs with
  | nil => simp
  | cons c cs ih =>
    have hc := c.utf8Size_le_four
    rw [List.utf8Encode_cons, ByteArray.size_append, List.utf8Encode_singleton,
      List.size_toByteArray, String.length_utf8EncodeChar, List.length_cons]
    omega

theorem Instant.lengthFits_fullText (i : Instant) : LengthFits i.fullText := by
  have hbytes : (utf8 i.fullText).length ≤ 4 * (i.timestamp fullFraction).length :=
    length_utf8_ofList_le _
  have hlength := Nat.mul_le_mul_left 4 i.length_timestamp_le
  exact Nat.lt_of_le_of_lt (Nat.le_trans hbytes hlength) (by decide)

theorem Stamp.lengthFits_fullText (s : Stamp) : LengthFits s.fullText :=
  s.reading.lengthFits_fullText

/-- A text with its length in front is found where more follows. -/
theorem measured_append_inj {s t : String} (hs : LengthFits s) (ht : LengthFits t)
    {xs ys : List UInt8} (h : measured s ++ xs = measured t ++ ys) : s = t ∧ xs = ys := by
  simp only [measured, List.append_assoc] at h
  obtain ⟨hlength, hbytes⟩ := littleEndian_append_inj hs ht h
  obtain ⟨htext, hrest⟩ := List.append_inj hbytes hlength
  exact ⟨utf8_inj htext, hrest⟩

theorem ChainHash.append_inj {g g' : ChainHash} {xs ys : List UInt8}
    (h : g.bytes.toList ++ xs = g'.bytes.toList ++ ys) : g = g' ∧ xs = ys := by
  obtain ⟨hbytes, hrest⟩ := List.append_inj h (by simp)
  exact ⟨congrArg ChainHash.mk (Vector.toList_inj.1 hbytes), hrest⟩

/-! ## One field after the other -/

section fields

variable {previous previous' : ChainHash} {stream stream' : String} {sequence sequence' : Nat}

/-- The fields are found in their bytes, even where more follows. -/
theorem sealInput_append_inj {e e' : Entry} (hstream : LengthFits stream)
    (hstream' : LengthFits stream') (hsequence : sequence < UInt64.size)
    (hsequence' : sequence' < UInt64.size) (hkind : LengthFits e.kind) (hkind' : LengthFits e'.kind)
    (hpayload : LengthFits e.payload) (hpayload' : LengthFits e'.payload)
    (hat : e.recordedAt.Denotable) (hat' : e'.recordedAt.Denotable) {xs ys : List UInt8}
    (h : sealInput previous stream sequence e ++ xs =
      sealInput previous' stream' sequence' e' ++ ys) :
    (previous = previous' ∧ stream = stream' ∧ sequence = sequence' ∧ e = e') ∧ xs = ys := by
  simp only [sealInput, List.append_assoc] at h
  obtain ⟨sameStream, h⟩ := measured_append_inj hstream hstream' h
  obtain ⟨sameSequence, h⟩ := littleEndian_append_inj hsequence hsequence' h
  obtain ⟨sameKind, h⟩ := measured_append_inj hkind hkind' h
  obtain ⟨sameTime, h⟩ := measured_append_inj e.recordedAt.lengthFits_fullText
    e'.recordedAt.lengthFits_fullText h
  obtain ⟨samePayload, h⟩ := measured_append_inj hpayload hpayload' h
  obtain ⟨samePrevious, h⟩ := ChainHash.append_inj h
  have sameEntry : e = e' := by
    rw [Entry.mk.injEq]
    exact ⟨sameKind, samePayload, hat.fullText_inj hat' sameTime⟩
  exact ⟨⟨samePrevious, sameStream, sameSequence, sameEntry⟩, h⟩

/-- Of the time nothing enters but its text. -/
theorem sealInput_reading (previous : ChainHash) (stream : String) (sequence : Nat) (e : Entry) :
    sealInput previous stream sequence { e with recordedAt := e.recordedAt.reading } =
      sealInput previous stream sequence e := by
  simp only [sealInput, Stamp.fullText, Stamp.reading_stamp]

/-- What is hashed is the same only if all six fields are, of times that a text denotes. -/
theorem sealInput_eq_iff {kind kind' payload payload' : String} {recordedAt recordedAt' : Stamp}
    (hstream : LengthFits stream) (hstream' : LengthFits stream')
    (hsequence : sequence < UInt64.size) (hsequence' : sequence' < UInt64.size)
    (hkind : LengthFits kind) (hkind' : LengthFits kind') (hpayload : LengthFits payload)
    (hpayload' : LengthFits payload') (hat : recordedAt.Denotable)
    (hat' : recordedAt'.Denotable) :
    sealInput previous stream sequence ⟨kind, payload, recordedAt⟩ =
        sealInput previous' stream' sequence' ⟨kind', payload', recordedAt'⟩ ↔
      previous = previous' ∧ stream = stream' ∧ sequence = sequence' ∧ kind = kind' ∧
        recordedAt = recordedAt' ∧ payload = payload' := by
  constructor
  · intro h
    have h' := congrArg (· ++ []) h
    obtain ⟨⟨samePrevious, sameStream, sameSequence, sameEntry⟩, -⟩ :=
      sealInput_append_inj hstream hstream' hsequence hsequence' hkind hkind' hpayload hpayload' hat
        hat' h'
    obtain ⟨sameKind, samePayload, sameTime⟩ := (Entry.mk.injEq ..).mp sameEntry
    exact ⟨samePrevious, sameStream, sameSequence, sameKind, sameTime, samePayload⟩
  · rintro ⟨rfl, rfl, rfl, rfl, rfl, rfl⟩
    rfl

/-- A letter that goes over from one field to the next is noticed, and so is a leap second at the
end of the last year of four digits that is taken for the next second. -/
theorem sealInput_eq_iff_shifted :
    let leap : Instant := ⟨⟨9999, 12, 31⟩, ⟨23, 59, 60, 0⟩, by decide, by decide⟩
    let next : Instant := ⟨⟨10000, 1, 1⟩, ⟨0, 0, 0, 0⟩, by decide, by decide⟩
    sealInput .root "ab" 1 ⟨"c", "{}", leap⟩ ≠ sealInput .root "a" 1 ⟨"bc", "{}", leap⟩ ∧
      sealInput .root "ab" 1 ⟨"c", "{}", leap⟩ ≠
        sealInput .root "ab" 1 ⟨"c", "{}", next⟩ := by
  intro leap next
  have word : 1 < UInt64.size := by decide
  have fits : LengthFits "ab" ∧ LengthFits "a" ∧ LengthFits "c" ∧ LengthFits "bc" ∧
      LengthFits "{}" := by decide +kernel
  obtain ⟨ab, a, c, bc, payload⟩ := fits
  constructor
  · intro h
    obtain ⟨-, same, -⟩ := (sealInput_eq_iff ab a word word c bc payload payload
      leap.denotable_stamp leap.denotable_stamp).1 h
    exact absurd same (by decide)
  · intro h
    obtain ⟨-, -, -, -, same, -⟩ := (sealInput_eq_iff ab ab word word c c payload payload
      leap.denotable_stamp next.denotable_stamp).1 h
    exact absurd same (by decide)

end fields

/-! ## Records -/

/-- The bytes that are hashed for a record. -/
def Record.sealedBytes (r : Record) : List UInt8 :=
  sealInput r.previous r.stream r.sequence r.entry

/-- Two records that do not have the same bytes, and the same hash all the same. -/
def Sealer.Collide (s : Sealer) (r r' : Record) : Prop :=
  r.sealedBytes ≠ r'.sealedBytes ∧ s.tag r.sealedBytes = s.tag r'.sealedBytes

namespace Record

/-- The position and the lengths of the texts are words. -/
structure Fits (r : Record) : Prop where
  stream : LengthFits r.stream
  sequence : r.sequence < UInt64.size
  kind : LengthFits r.kind
  payload : LengthFits r.payload

instance (r : Record) : Decidable r.Fits :=
  decidable_of_iff
    (LengthFits r.stream ∧ r.sequence < UInt64.size ∧ LengthFits r.kind ∧ LengthFits r.payload)
    ⟨fun ⟨h1, h2, h3, h4⟩ => ⟨h1, h2, h3, h4⟩, fun h => ⟨h.stream, h.sequence, h.kind, h.payload⟩⟩

variable {r r' : Record}

/-- What is hashed determines a record but for its own hash. -/
theorem sealedBytes_inj (h : r.Fits) (h' : r'.Fits) (hd : r.recordedAt.Denotable)
    (hd' : r'.recordedAt.Denotable) (he : r.sealedBytes = r'.sealedBytes) :
    r' = { r with hash := r'.hash } := by
  obtain ⟨⟨hprevious, hstream, hsequence, hentry⟩, -⟩ :=
    sealInput_append_inj h.stream h'.stream h.sequence h'.sequence h.kind h'.kind h.payload
      h'.payload hd hd' (congrArg (· ++ []) he)
  obtain ⟨hkind, hpayload, hat⟩ := (Entry.mk.injEq ..).mp hentry
  cases r'
  exact (Record.mk.injEq ..).mpr ⟨hstream.symm, hsequence.symm, hkind.symm, hpayload.symm,
    hat.symm, hprevious.symm, rfl⟩

/-- Sealed records with the same hash are the same record, or a collision. -/
theorem eq_or_collide {s : Sealer} (h : r.Fits) (h' : r'.Fits) (hd : r.recordedAt.Denotable)
    (hd' : r'.recordedAt.Denotable) (hr : s.Sealed r) (hr' : s.Sealed r')
    (same : r.hash = r'.hash) : r = r' ∨ s.Collide r r' := by
  by_cases he : r.sealedBytes = r'.sealedBytes
  · have heq := sealedBytes_inj h h' hd hd' he
    rw [← same] at heq
    exact .inl heq.symm
  · exact .inr ⟨he, hr.symm.trans (same.trans hr')⟩

end Record

end TransferLedger

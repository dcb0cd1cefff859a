import TransferLedger.Proofs.Time.Rfc3339
import TransferLedger.Time.Stamp

/-!
# Times that have a text of their own

A time that some text denotes is the one that is read from its text (`Stamp.denotable_iff`), so no
two of them have the same text (`Stamp.Denotable.fullText_inj`).  Any other time has the text of a
time that is denotable, and is not the one that is read.
-/

set_option autoImplicit false

namespace TransferLedger

open Calendar

namespace Calendar.TimeOfDay

variable {t : TimeOfDay}

theorem held_reading (h : t.Held) (hd : t.nanos < 1000000000 ∨ t.second = 59) :
    t.reading.held = t := by
  obtain ⟨hour, minute, second, nanos⟩ := t
  obtain ⟨-, -, hs, -⟩ := h
  simp only at hs hd
  unfold reading
  split
  · exact if_neg (by show second ≠ 60; omega)
  · next hn =>
    simp only at hn
    obtain rfl : second = 59 := hd.resolve_left hn
    rw [held, if_pos rfl, Nat.sub_add_cancel (Nat.le_of_not_lt hn)]

theorem Valid.nanos_held (h : t.Valid) : t.held.nanos < 1000000000 ∨ t.held.second = 59 := by
  unfold held
  split
  · exact .inr rfl
  · exact .inl h.2.2.2

end Calendar.TimeOfDay

theorem Instant.denotable_stamp (i : Instant) : i.stamp.Denotable :=
  i.time_valid.nanos_held

namespace Stamp

variable {s t : Stamp}

theorem Denotable.stamp_reading (h : s.Denotable) : s.reading.stamp = s := by
  obtain ⟨date, time, hd, ht⟩ := s
  have hheld : time.reading.held = time := TimeOfDay.held_reading ht h
  simp only [reading, Instant.stamp, hheld]

/-- The denotable times are those that are read from a text. -/
theorem denotable_iff :
    s.Denotable ↔ ∃ text, (Instant.ofText? text).map Instant.stamp = some s := by
  constructor
  · intro h
    refine ⟨s.text, ?_⟩
    rw [text, Instant.ofText?_text, Option.map_some, h.stamp_reading]
  · rintro ⟨text, h⟩
    obtain ⟨i, -, rfl⟩ := Option.map_eq_some_iff.1 h
    exact i.denotable_stamp

/-- Different denotable times enter a hash with different texts. -/
theorem Denotable.fullText_inj (hs : s.Denotable) (ht : t.Denotable)
    (h : s.fullText = t.fullText) : s = t := by
  rw [← hs.stamp_reading, ← ht.stamp_reading, Instant.fullText_inj h]

end Stamp

end TransferLedger

import TransferLedger.Time.Rfc3339

/-!
# Times as records hold them

A record does not hold the reading of a clock.  It holds the second that has begun and the
nanoseconds since, and these may go on for two seconds: a leap second is held as the fifty-ninth
with a whole second among its nanoseconds.

Nothing keeps any other second from being held like that.  Its text is then the text of the second
after it, so there are times that share their text with another one.  Those that a text denotes
(`Stamp.Denotable`) do not: such a time is what its own reading is held as.
-/

set_option autoImplicit false

namespace TransferLedger

namespace Calendar.TimeOfDay

/-- The fields of a time of day as it is held: no second is the sixtieth, and the nanoseconds may go
on past its end. -/
def Held (t : TimeOfDay) : Prop :=
  t.hour ≤ 23 ∧ t.minute ≤ 59 ∧ t.second ≤ 59 ∧ t.nanos < 2000000000

instance (t : TimeOfDay) : Decidable t.Held := by
  unfold Held; infer_instance

/-- What a time of day reads as: a whole second among the nanoseconds is one second more. -/
def reading (t : TimeOfDay) : TimeOfDay :=
  if t.nanos < 1000000000 then t
  else { t with second := t.second + 1, nanos := t.nanos - 1000000000 }

/-- How a reading is held. -/
def held (t : TimeOfDay) : TimeOfDay :=
  if t.second = 60 then { t with second := 59, nanos := t.nanos + 1000000000 } else t

variable {t : TimeOfDay}

theorem Held.valid_reading (h : t.Held) : t.reading.Valid := by
  obtain ⟨hh, hm, hs, hn⟩ := h
  unfold reading
  split
  · exact ⟨hh, hm, by omega, by omega⟩
  · exact ⟨hh, hm, by show t.second + 1 ≤ 60; omega, by show t.nanos - 1000000000 < _; omega⟩

theorem Valid.held_held (h : t.Valid) : t.held.Held := by
  obtain ⟨hh, hm, hs, hn⟩ := h
  unfold held
  split
  · exact ⟨hh, hm, Nat.le_refl 59, by show t.nanos + 1000000000 < _; omega⟩
  · exact ⟨hh, hm, by omega, by omega⟩

theorem Valid.reading_held (h : t.Valid) : t.held.reading = t := by
  obtain ⟨hour, minute, second, nanos⟩ := t
  obtain ⟨-, -, -, hn⟩ := h
  unfold held
  split
  · next hs =>
    obtain rfl : second = 60 := hs
    rw [reading, if_neg (Nat.not_lt.2 (Nat.le_add_left ..)), Nat.add_sub_cancel]
  · exact if_pos hn

end Calendar.TimeOfDay

/-- A time as a record holds it. -/
@[ext]
structure Stamp where
  date : Calendar.Date
  time : Calendar.TimeOfDay
  date_valid : date.Valid
  time_held : time.Held

instance : DecidableEq Stamp :=
  fun _ _ => decidable_of_iff _ Stamp.ext_iff.symm

/-- How a record holds an instant. -/
def Instant.stamp (i : Instant) : Stamp :=
  ⟨i.date, i.time.held, i.date_valid, i.time_valid.held_held⟩

instance : Coe Instant Stamp :=
  ⟨Instant.stamp⟩

namespace Stamp

def startOf2025 : Stamp :=
  Instant.startOf2025

/-- The instant that the text of a time names. -/
def reading (s : Stamp) : Instant :=
  ⟨s.date, s.time.reading, s.date_valid, s.time_held.valid_reading⟩

def text (s : Stamp) : String :=
  s.reading.text

/-- The text as it enters a hash. -/
def fullText (s : Stamp) : String :=
  s.reading.fullText

/-- Some text denotes the time: its nanoseconds stay within the second, or are those of a leap
second. -/
def Denotable (s : Stamp) : Prop :=
  s.time.nanos < 1000000000 ∨ s.time.second = 59

instance (s : Stamp) : Decidable s.Denotable := by
  unfold Denotable; infer_instance

@[simp]
theorem reading_stamp (i : Instant) : i.stamp.reading = i := by
  obtain ⟨date, time, hd, ht⟩ := i
  simp only [Instant.stamp, reading, ht.reading_held]

end Stamp

end TransferLedger

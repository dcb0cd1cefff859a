/-!
# Instants

A moment in time as its reading in coordinated universal time: a date of the Gregorian calendar,
extended in both directions, and a time of day to the nanosecond.  The sixtieth second of a minute
is a reading of its own, so a leap second is kept and not folded into the next minute.

The fields themselves are the representation.  Two instants are equal exactly if their readings
are, and writing an instant needs no calendar arithmetic; only a reading with an offset from
universal time does, and an offset is less than a day, so at most one step to a neighbouring day.
-/

set_option autoImplicit false

namespace TransferLedger

namespace Calendar

def isLeap (year : Int) : Bool :=
  year % 4 == 0 && (year % 100 != 0 || year % 400 == 0)

/-- The number of days of a month, zero for a number that names no month. -/
def daysIn (year : Int) (month : Nat) : Nat :=
  match month with
  | 1 | 3 | 5 | 7 | 8 | 10 | 12 => 31
  | 4 | 6 | 9 | 11 => 30
  | 2 => if isLeap year then 29 else 28
  | _ => 0

/-- The first year that can be named. -/
def firstYear : Int := -262143

/-- The last year that can be named. -/
def lastYear : Int := 262142

structure Date where
  year : Int
  month : Nat
  day : Nat
  deriving DecidableEq, Repr

/-- The date exists and lies in the range of years. -/
def Date.Valid (d : Date) : Prop :=
  firstYear ≤ d.year ∧ d.year ≤ lastYear ∧ 1 ≤ d.month ∧ d.month ≤ 12 ∧
    1 ≤ d.day ∧ d.day ≤ daysIn d.year d.month

instance (d : Date) : Decidable d.Valid := by
  unfold Date.Valid; infer_instance

def Date.next (d : Date) : Date :=
  if d.day < daysIn d.year d.month then { d with day := d.day + 1 }
  else if d.month < 12 then ⟨d.year, d.month + 1, 1⟩
  else ⟨d.year + 1, 1, 1⟩

def Date.previous (d : Date) : Date :=
  if 1 < d.day then { d with day := d.day - 1 }
  else if 1 < d.month then ⟨d.year, d.month - 1, daysIn d.year (d.month - 1)⟩
  else ⟨d.year - 1, 12, 31⟩

/-- A time of day.  The second may be 60. -/
structure TimeOfDay where
  hour : Nat
  minute : Nat
  second : Nat
  nanos : Nat
  deriving DecidableEq, Repr

def TimeOfDay.Valid (t : TimeOfDay) : Prop :=
  t.hour ≤ 23 ∧ t.minute ≤ 59 ∧ t.second ≤ 60 ∧ t.nanos < 1000000000

instance (t : TimeOfDay) : Decidable t.Valid := by
  unfold TimeOfDay.Valid; infer_instance

end Calendar

/-- A moment in time, by its reading in universal time. -/
structure Instant where
  date : Calendar.Date
  time : Calendar.TimeOfDay
  date_valid : date.Valid
  time_valid : time.Valid
  deriving DecidableEq

namespace Instant

open Calendar

/-- The instant with a given reading in universal time, if there is one. -/
def ofUniversal? (date : Date) (time : TimeOfDay) : Option Instant :=
  if hd : date.Valid then
    if ht : time.Valid then some ⟨date, time, hd, ht⟩ else none
  else none

/-- The instant with a given reading on a clock that is ahead of universal time by so many
minutes, less than a day. -/
def ofLocal? (date : Date) (time : TimeOfDay) (ahead : Int) : Option Instant :=
  if date.Valid ∧ time.Valid then
    let minutes := (time.hour * 60 + time.minute : Nat) - ahead
    let day := if minutes < 0 then date.previous else if 1440 ≤ minutes then date.next else date
    let rest := (minutes % 1440).toNat
    ofUniversal? day { time with hour := rest / 60, minute := rest % 60 }
  else none

/-- The start of the year 2025, at which a clock stands until it is set. -/
def startOf2025 : Instant :=
  ⟨⟨2025, 1, 1⟩, ⟨0, 0, 0, 0⟩, by decide, by decide⟩

/-- A reading in universal time is its own universal reading. -/
theorem ofLocal?_zero (i : Instant) : ofLocal? i.date i.time 0 = some i := by
  obtain ⟨date, ⟨hour, minute, second, nanos⟩, hd, ht⟩ := i
  have ht' := ht
  obtain ⟨hh, hm, -, -⟩ := ht'
  simp only at hh hm
  have h1 : ¬ ((hour * 60 + minute : Nat) : Int) - 0 < 0 := by omega
  have h2 : ¬ (1440 : Int) ≤ ((hour * 60 + minute : Nat) : Int) - 0 := by omega
  have h3 : ((((hour * 60 + minute : Nat) : Int) - 0) % 1440).toNat = hour * 60 + minute := by omega
  have h4 : (hour * 60 + minute) / 60 = hour := by omega
  have h5 : (hour * 60 + minute) % 60 = minute := by omega
  simp only [ofLocal?, hd, ht, and_self, if_true, if_neg h1, if_neg h2, h3, h4, h5, ofUniversal?,
    dite_true]

end Instant

end TransferLedger

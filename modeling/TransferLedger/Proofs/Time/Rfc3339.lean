import TransferLedger.Proofs.Text.Numeral
import TransferLedger.Time.Rfc3339

/-!
# Timestamps are read back

An instant written as a timestamp is the instant that is read (`Instant.ofText?_text`), whatever its
year and however much of a fraction it has.  Each part is written so that its reader knows where it
ends: a number of two digits is as long as it may be, and a year is followed by a hyphen.  So no two
instants have the same timestamp, neither in the short form nor in the full one that enters a hash
(`Instant.fullText_inj`).
-/

set_option autoImplicit false

namespace TransferLedger.Instant

open TransferLedger.Text Calendar

/-! ## Blanks -/

theorem isBlank_of_isDigit {c : Char} (h : c.isDigit = true) : isBlank c = false := by
  simp only [Char.isDigit, Bool.and_eq_true, decide_eq_true_eq, UInt32.le_iff_toNat_le] at h
  have hc : 48 ≤ c.toNat ∧ c.toNat ≤ 57 := h
  simp only [isBlank, Bool.or_eq_false_iff, Bool.and_eq_false_iff, decide_eq_false_iff_not,
    beq_eq_false_iff_ne]
  omega

theorem skipBlanks_cons {c : Char} (h : isBlank c = false) (rest : List Char) :
    skipBlanks (c :: rest) = c :: rest := by
  rw [skipBlanks, List.dropWhile_cons, h]
  rfl

theorem skipBlanks_padded (width n : Nat) (rest : List Char) :
    skipBlanks (padded width n ++ rest) = padded width n ++ rest := by
  obtain ⟨c, cs, hp, hc⟩ := padded_eq_cons width n
  rw [hp]
  exact skipBlanks_cons (isBlank_of_isDigit hc) (cs ++ rest)

/-! ## Numbers -/

theorem readNumber?_padded {most width n : Nat} {rest : List Char}
    (hl : (padded width n).length ≤ most)
    (stop : (padded width n).length = most ∨ ∀ c ∈ rest.head?, c.isDigit = false) :
    readNumber? most (padded width n ++ rest) = some (n, rest) := by
  have ht := takeDigits_of_digits (fun c hc => isDigit_of_mem_padded hc) hl stop
  have hv := numeralValue_padded width n
  obtain ⟨c, cs, hp, -⟩ := padded_eq_cons width n
  rw [hp] at ht hv
  rw [readNumber?, hp, ht]
  show some (numeralValue (c :: cs), rest) = _
  rw [hv]

theorem readNumber?_two {n : Nat} (h : n < 100) (rest : List Char) :
    readNumber? 2 (skipBlanks (padded 2 n ++ rest)) = some (n, rest) := by
  have hl : (padded 2 n).length = 2 := length_padded (by decide) h
  rw [skipBlanks_padded]
  exact readNumber?_padded (Nat.le_of_eq hl) (.inl hl)

theorem expect?_cons {c : Char} (h : isBlank c = false) (rest : List Char) :
    expect? c (c :: rest) = some rest := by
  rw [expect?, skipBlanks_cons h]
  exact if_pos rfl

/-! ## Dates -/

theorem readYear?_of_isDigit {c : Char} (h : c.isDigit = true) (cs : List Char) :
    readYear? (c :: cs) = (readNumber? 4 (c :: cs)).map fun (n, r) => ((n : Int), r) := by
  unfold readYear?
  split
  · next he =>
    rw [(List.cons.inj he).1] at h
    exact absurd h (by decide)
  · next he =>
    rw [(List.cons.inj he).1] at h
    exact absurd h (by decide)
  · rfl

theorem readYear?_yearText (year : Int) (rest : List Char) :
    readYear? (skipBlanks (yearText year ++ '-' :: rest)) = some (year, '-' :: rest) := by
  -- With a sign in front the digits go on up to the hyphen.
  have long (n : Nat) : readNumber? (padded 4 n ++ '-' :: rest).length (padded 4 n ++ '-' :: rest) =
      some (n, '-' :: rest) := by
    refine readNumber?_padded (by rw [List.length_append]; omega) (.inr fun c hc => ?_)
    obtain rfl := Option.some.inj hc
    rfl
  unfold yearText
  by_cases hy : 0 ≤ year ∧ year ≤ 9999
  · have hlt : year.toNat < 10000 := by omega
    have hl : (padded 4 year.toNat).length = 4 := length_padded (by decide) hlt
    have hn : readNumber? 4 (padded 4 year.toNat ++ '-' :: rest) =
        some (year.toNat, '-' :: rest) := readNumber?_padded (Nat.le_of_eq hl) (.inl hl)
    rw [if_pos hy, skipBlanks_padded]
    obtain ⟨c, cs, hp, hc⟩ := padded_eq_cons 4 year.toNat
    rw [hp] at hn ⊢
    rw [List.cons_append, readYear?_of_isDigit hc, ← List.cons_append, hn]
    show some ((year.toNat : Int), _) = _
    rw [Int.toNat_of_nonneg hy.1]
  · rw [if_neg hy]
    by_cases hneg : year < 0
    · rw [if_pos hneg, List.cons_append, skipBlanks_cons (by decide)]
      show (readNumber? _ _).map _ = _
      rw [long]
      show some (-(year.natAbs : Int), _) = _
      rw [show -(year.natAbs : Int) = year by omega]
    · rw [if_neg hneg, List.cons_append, skipBlanks_cons (by decide)]
      show (readNumber? _ _).map _ = _
      rw [long]
      show some ((year.natAbs : Int), _) = _
      rw [show (year.natAbs : Int) = year by omega]

/-- A date, and the letter behind it. -/
theorem readDate?_text {d : Date} (h : d.Valid) (rest : List Char) :
    readDate? (yearText d.year ++ '-' :: (padded 2 d.month ++ '-' :: (padded 2 d.day ++ rest))) =
      some (d, rest) := by
  obtain ⟨-, -, -, hm, -, hd⟩ := h
  have hday : d.day < 100 := by
    have : daysIn d.year d.month ≤ 31 := by unfold daysIn; split <;> (try split) <;> omega
    omega
  rw [readDate?, readYear?_yearText]
  simp only [Option.bind_eq_bind, Option.bind_some, expect?_cons (c := '-') (by decide),
    readNumber?_two (show d.month < 100 by omega), readNumber?_two hday]
  rfl

/-! ## Times of day -/

/-- A fraction of so many digits counts units of a size that goes with their number. -/
theorem readFraction?_padded {width n bound size : Nat} (hw : 0 < width) (hw' : width ≤ 9)
    (hbound : Nat.pow 10 width = bound) (hsize : Nat.pow 10 (9 - width) = size) (hn : n < bound)
    (rest : List Char) :
    readFraction? ('.' :: (padded width n ++ 'Z' :: rest)) = some (n * size, 'Z' :: rest) := by
  subst hbound hsize
  have hl : (padded width n).length = width := length_padded hw hn
  have ht : takeDigits 9 (padded width n ++ 'Z' :: rest) = (padded width n, 'Z' :: rest) := by
    refine takeDigits_of_digits (fun c hc => isDigit_of_mem_padded hc) (by omega)
      (.inr fun c hc => ?_)
    obtain rfl := Option.some.inj hc
    rfl
  have hv := numeralValue_padded width n
  obtain ⟨c, cs, hp, -⟩ := padded_eq_cons width n
  rw [hp] at ht hv hl
  rw [readFraction?, hp]
  simp only [ht, hv, hl]
  rfl

theorem readFraction?_short {n : Nat} (h : n < 1000000000) (rest : List Char) :
    readFraction? (shortFraction n ++ 'Z' :: rest) = some (n, 'Z' :: rest) := by
  unfold shortFraction
  by_cases h0 : n = 0
  · subst h0
    rfl
  rw [if_neg h0]
  by_cases h3 : n % 1000000 = 0
  · rw [if_pos h3, List.cons_append, readFraction?_padded (by decide) (by decide)
      (show Nat.pow 10 3 = 1000 from rfl) (show Nat.pow 10 6 = 1000000 from rfl) (by omega)]
    congr 2
    omega
  rw [if_neg h3]
  by_cases h6 : n % 1000 = 0
  · rw [if_pos h6, List.cons_append, readFraction?_padded (by decide) (by decide)
      (show Nat.pow 10 6 = 1000000 from rfl) (show Nat.pow 10 3 = 1000 from rfl) (by omega)]
    congr 2
    omega
  · rw [if_neg h6, List.cons_append, readFraction?_padded (by decide) (by decide)
      (show Nat.pow 10 9 = 1000000000 from rfl) (show Nat.pow 10 0 = 1 from rfl) h, Nat.mul_one]

theorem readFraction?_full {n : Nat} (h : n < 1000000000) (rest : List Char) :
    readFraction? (fullFraction n ++ 'Z' :: rest) = some (n, 'Z' :: rest) := by
  rw [fullFraction, List.cons_append, readFraction?_padded (by decide) (by decide)
    (show Nat.pow 10 9 = 1000000000 from rfl) (show Nat.pow 10 0 = 1 from rfl) h, Nat.mul_one]

/-- A way of writing fractions of a second that loses nothing. -/
def Lossless (fraction : Nat → List Char) : Prop :=
  ∀ {n : Nat}, n < 1000000000 → ∀ rest : List Char,
    readFraction? (fraction n ++ 'Z' :: rest) = some (n, 'Z' :: rest)

theorem readTime?_text {fraction : Nat → List Char} (hf : Lossless fraction) {t : TimeOfDay}
    (h : t.Valid) (rest : List Char) :
    readTime? (padded 2 t.hour ++ ':' :: (padded 2 t.minute ++ ':' :: (padded 2 t.second ++
      (fraction t.nanos ++ 'Z' :: rest)))) = some (t, 'Z' :: rest) := by
  obtain ⟨hh, hm, hs, hn⟩ := h
  rw [readTime?, readNumber?_two (show t.hour < 100 by omega)]
  simp only [Option.bind_eq_bind, Option.bind_some, expect?_cons (c := ':') (by decide),
    readNumber?_two (show t.minute < 100 by omega), readNumber?_two (show t.second < 100 by omega),
    hf hn]
  rfl

/-! ## Timestamps -/

theorem ofTimestamp?_timestamp {fraction : Nat → List Char} (hf : Lossless fraction)
    (i : Instant) : ofTimestamp? (i.timestamp fraction) = some i := by
  simp only [timestamp, List.append_assoc, List.cons_append]
  rw [ofTimestamp?, readDate?_text i.date_valid]
  simp only [Option.bind_eq_bind, Option.bind_some]
  rw [readTime?_text hf i.time_valid]
  exact ofLocal?_zero i

/-- An instant that is written is read back. -/
theorem ofText?_text (i : Instant) : ofText? i.text = some i := by
  rw [ofText?, text, String.toList_ofList]
  exact ofTimestamp?_timestamp readFraction?_short i

/-- Different instants enter a hash with different texts. -/
theorem fullText_inj {i j : Instant} (h : i.fullText = j.fullText) : i = j := by
  have hi := ofTimestamp?_timestamp readFraction?_full i
  rw [String.ofList_injective h, ofTimestamp?_timestamp readFraction?_full j] at hi
  exact (Option.some.inj hi).symm

/-! ## Their length -/

theorem length_yearText_le {d : Date} (h : d.Valid) : (yearText d.year).length ≤ 7 := by
  obtain ⟨hfirst, hlast, -⟩ := h
  unfold firstYear at hfirst
  unfold lastYear at hlast
  have natAbs_lt : d.year.natAbs < Nat.pow 10 6 := by
    show _ < 1000000
    omega
  have toNat_lt : d.year.toNat < Nat.pow 10 6 := by
    show _ < 1000000
    omega
  unfold yearText
  split
  · exact Nat.le_succ_of_le (length_padded_le (by decide) (by decide) toNat_lt)
  · exact Nat.succ_le_succ (length_padded_le (by decide) (by decide) natAbs_lt)

/-- The timestamp that enters a hash is short. -/
theorem length_timestamp_le (i : Instant) : (i.timestamp fullFraction).length ≤ 34 := by
  have two {n : Nat} (hn : n < 100) : (padded 2 n).length = 2 := length_padded (by decide) hn
  have hyear := length_yearText_le i.date_valid
  obtain ⟨-, -, -, hmonth, -, hday⟩ := i.date_valid
  have hdays : daysIn i.date.year i.date.month ≤ 31 := by
    unfold daysIn
    split <;> (try split) <;> omega
  obtain ⟨hhour, hminute, hsecond, hnanos⟩ := i.time_valid
  have hfraction : (padded 9 i.time.nanos).length = 9 := length_padded (by decide) hnanos
  simp only [timestamp, fullFraction, List.length_append, List.length_cons, List.length_nil,
    two (show i.date.month < 100 by omega), two (show i.date.day < 100 by omega),
    two (show i.time.hour < 100 by omega), two (show i.time.minute < 100 by omega),
    two (show i.time.second < 100 by omega), hfraction]
  omega

end TransferLedger.Instant

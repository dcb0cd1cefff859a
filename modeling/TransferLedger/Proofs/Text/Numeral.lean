import TransferLedger.Text.Numeral

/-!
# Numerals are read back

The digits of a number are digits, as many as the number needs, and have its value.  A reader that
takes digits for as long as there are any takes exactly those that were written, if what follows
does not start with another (`Text.takeDigits_of_digits`).

A reader that has a limit takes exactly the numerals up to it (`Text.readNumeral_eq_ok_iff`).  It
looks at one digit after the other, so of a text that is no numeral it may still say that the number
is too large (`Text.readNumeral_eq_tooLarge_iff`).
-/

set_option autoImplicit false

namespace TransferLedger.Text

theorem isDigit_of_mem_digits {n : Nat} {c : Char} (h : c ∈ digits n) : c.isDigit = true :=
  Nat.isDigit_of_mem_toDigits (by decide) (by decide) h

theorem digits_ne_nil (n : Nat) : digits n ≠ [] :=
  Nat.toDigits_ne_nil

theorem numeralValue_digits (n : Nat) : numeralValue (digits n) = n :=
  Nat.ofDigitChars_ten_toDigits

theorem le_ofDigitChars (ds : List Char) (v : Nat) : v ≤ Nat.ofDigitChars 10 ds v := by
  induction ds generalizing v with
  | nil => simp
  | cons d ds ih =>
    rw [Nat.ofDigitChars_cons]
    have := ih (10 * v + (d.toNat - '0'.toNat))
    omega

/-- Only zero starts with a zero. -/
theorem digits_eq_zero_cons {n : Nat} {rest : List Char} (h : digits n = '0' :: rest) :
    rest = [] := by
  induction n using Nat.strongRecOn generalizing rest with
  | _ n ih =>
    rw [digits, Nat.toDigits_eq_if (by decide)] at h
    by_cases hn : n < 10
    · rw [if_pos hn] at h
      exact (List.cons.inj h).2.symm
    · rw [if_neg hn] at h
      cases hd : Nat.toDigits 10 (n / 10) with
      | nil => exact absurd hd Nat.toDigits_ne_nil
      | cons c cs =>
        rw [hd] at h
        obtain ⟨rfl, -⟩ := List.cons.inj h
        -- The leading digit of `n` is that of `n / 10`, which would be zero.
        obtain rfl := ih (n / 10) (by omega) hd
        have hv := numeralValue_digits (n / 10)
        rw [digits, hd] at hv
        have : n / 10 = 0 := hv.symm
        omega

theorem length_digits_le {n k : Nat} (hk : 0 < k) (h : n < Nat.pow 10 k) : (digits n).length ≤ k :=
  (Nat.length_toDigits_le_iff (by decide) hk).2 h

/-! ## Numbers of a given width -/

theorem isDigit_of_mem_padded {width n : Nat} {c : Char} (h : c ∈ padded width n) :
    c.isDigit = true := by
  rcases List.mem_append.1 h with h | h
  · rw [List.eq_of_mem_replicate h]
    rfl
  · exact isDigit_of_mem_digits h

theorem padded_eq_cons (width n : Nat) : ∃ c cs, padded width n = c :: cs ∧ c.isDigit = true := by
  cases hp : padded width n with
  | nil => exact absurd (List.append_eq_nil_iff.1 hp).2 (digits_ne_nil n)
  | cons c cs => exact ⟨c, cs, rfl, isDigit_of_mem_padded (hp ▸ List.mem_cons_self)⟩

theorem numeralValue_padded (width n : Nat) : numeralValue (padded width n) = n := by
  unfold numeralValue padded
  rw [Nat.ofDigitChars_append, Nat.ofDigitChars_replicate_zero, Nat.mul_zero]
  exact numeralValue_digits n

/-- A number that fits the width takes all of it. -/
theorem length_padded {width n : Nat} (hw : 0 < width) (h : n < Nat.pow 10 width) :
    (padded width n).length = width := by
  have := length_digits_le hw h
  rw [padded, List.length_append, List.length_replicate]
  omega

/-- A number that may not fit the width takes no more than its digits. -/
theorem length_padded_le {width most n : Nat} (hm : 0 < most) (hw : width ≤ most)
    (h : n < Nat.pow 10 most) : (padded width n).length ≤ most := by
  have := length_digits_le hm h
  rw [padded, List.length_append, List.length_replicate]
  omega

/-! ## Taking digits -/

/-- Digits are taken up to the end of the run, or up to as many as may be taken. -/
theorem takeDigits_of_digits {most : Nat} {ds rest : List Char} (hd : ∀ c ∈ ds, c.isDigit = true)
    (hl : ds.length ≤ most)
    (stop : ds.length = most ∨ ∀ c ∈ rest.head?, c.isDigit = false) :
    takeDigits most (ds ++ rest) = (ds, rest) := by
  induction ds generalizing most with
  | nil =>
    rw [List.nil_append]
    match most, rest with
    | 0, _ => rfl
    | most + 1, [] => rfl
    | most + 1, c :: cs =>
      rcases stop with stop | stop
      · exact absurd stop (by simp)
      · rw [takeDigits, stop c rfl]
        rfl
  | cons d ds ih =>
    match most with
    | 0 => exact absurd hl (by simp)
    | most + 1 =>
      have ht := ih (fun c hc => hd c (List.mem_cons_of_mem d hc)) (Nat.le_of_succ_le_succ hl)
        (stop.imp Nat.succ.inj id)
      rw [List.cons_append, takeDigits, hd d List.mem_cons_self, ht]
      rfl

/-! ## Numerals up to a limit -/

/-- The text is a numeral: digits, at least one, and in front of them a plus sign or nothing. -/
def IsNumeral (cs : List Char) (n : Nat) : Prop :=
  ∃ ds, (cs = ds ∨ cs = '+' :: ds) ∧ ds ≠ [] ∧ (∀ c ∈ ds, c.isDigit = true) ∧ numeralValue ds = n

/-- The digits that the text starts with, its sign aside, have a value above the limit. -/
def Overruns (limit : Nat) (cs : List Char) : Prop :=
  ∃ ds rest, (cs = ds ++ rest ∨ cs = '+' :: (ds ++ rest)) ∧ (∀ c ∈ ds, c.isDigit = true) ∧
    limit < numeralValue ds

section

variable {limit v n : Nat} {c : Char} {cs ds rest : List Char}

theorem readDigits_cons_of_isDigit (hc : c.isDigit = true) :
    readDigits limit v (c :: rest) =
      if 10 * v + (c.toNat - '0'.toNat) ≤ limit
      then readDigits limit (10 * v + (c.toNat - '0'.toNat)) rest else .error .tooLarge := by
  rw [readDigits, digitValue?, if_pos hc, Nat.mul_comm v 10]

theorem readDigits_cons_of_not_isDigit (hc : c.isDigit = false) :
    readDigits limit v (c :: rest) = .error .invalidDigit := by
  rw [readDigits, digitValue?, if_neg (by simp [hc])]

theorem readDigits_eq_ok_iff (hv : v ≤ limit) : readDigits limit v ds = .ok n ↔
    (∀ c ∈ ds, c.isDigit = true) ∧ Nat.ofDigitChars 10 ds v = n ∧ n ≤ limit := by
  induction ds generalizing v with
  | nil =>
    simp only [readDigits, Except.ok.injEq, List.not_mem_nil, false_imp_iff, implies_true,
      Nat.ofDigitChars_nil, true_and]
    constructor
    · rintro rfl
      exact ⟨rfl, hv⟩
    · exact And.left
  | cons c rest ih =>
    rw [Nat.ofDigitChars_cons, List.forall_mem_cons]
    by_cases hc : c.isDigit = true
    · rw [readDigits_cons_of_isDigit hc]
      split
      · next hle => simp only [ih hle, hc, true_and]
      · next hgt =>
        simp only [reduceCtorEq, hc, true_and, false_iff]
        rintro ⟨-, rfl, hle⟩
        exact hgt (Nat.le_trans (le_ofDigitChars rest _) hle)
    · rw [readDigits_cons_of_not_isDigit (by simpa using hc)]
      simp [hc]

theorem readDigits_eq_tooLarge_iff (hv : v ≤ limit) : readDigits limit v cs = .error .tooLarge ↔
    ∃ ds rest, cs = ds ++ rest ∧ (∀ c ∈ ds, c.isDigit = true) ∧
      limit < Nat.ofDigitChars 10 ds v := by
  induction cs generalizing v with
  | nil =>
    simp only [readDigits, reduceCtorEq, false_iff]
    rintro ⟨ds, rest, he, -, hlt⟩
    obtain ⟨rfl, -⟩ := List.append_eq_nil_iff.1 he.symm
    exact absurd hlt (by simpa using hv)
  | cons c cs ih =>
    constructor
    · intro h
      by_cases hc : c.isDigit = true
      · rw [readDigits_cons_of_isDigit hc] at h
        split at h
        · next hle =>
          obtain ⟨ds, rest, rfl, hds, hlt⟩ := (ih hle).1 h
          refine ⟨c :: ds, rest, rfl, List.forall_mem_cons.2 ⟨hc, hds⟩, ?_⟩
          rwa [Nat.ofDigitChars_cons]
        · next hgt =>
          refine ⟨[c], cs, rfl, by simpa using hc, ?_⟩
          rw [Nat.ofDigitChars_cons, Nat.ofDigitChars_nil]
          exact Nat.lt_of_not_le hgt
      · rw [readDigits_cons_of_not_isDigit (by simpa using hc)] at h
        simp at h
    · rintro ⟨ds, rest, he, hds, hlt⟩
      cases ds with
      | nil => exact absurd hlt (by simpa using hv)
      | cons d ds =>
        obtain ⟨rfl, rfl⟩ := List.cons.inj he
        rw [List.forall_mem_cons] at hds
        rw [Nat.ofDigitChars_cons] at hlt
        rw [readDigits_cons_of_isDigit hds.1]
        split
        · next hle => exact (ih hle).2 ⟨ds, rest, rfl, hds.2, hlt⟩
        · rfl

theorem readDigits_ne_empty : readDigits limit v cs ≠ .error .empty := by
  induction cs generalizing v with
  | nil => simp [readDigits]
  | cons c rest ih =>
    by_cases hc : c.isDigit = true
    · rw [readDigits_cons_of_isDigit hc]
      split
      · exact ih
      · simp
    · rw [readDigits_cons_of_not_isDigit (by simpa using hc)]
      simp

/-- A text without a plus sign in front of it. -/
def unsigned : List Char → List Char
  | '+' :: rest => rest
  | cs => cs

theorem unsigned_of_ne (h : c ≠ '+') : unsigned (c :: rest) = c :: rest := by
  unfold unsigned
  split <;> simp_all

theorem eq_of_unsigned (cs : List Char) : cs = unsigned cs ∨ cs = '+' :: unsigned cs := by
  unfold unsigned
  split
  · exact .inr rfl
  · exact .inl rfl

/-- No sign is mistaken for a digit. -/
theorem unsigned_of_isDigit (hc : c.isDigit = true) (h : cs = c :: rest ∨ cs = '+' :: c :: rest) :
    unsigned cs = c :: rest := by
  rcases h with rfl | rfl
  · apply unsigned_of_ne
    rintro rfl
    exact absurd hc (by decide)
  · rfl

theorem isNumeral_iff_unsigned : IsNumeral cs n ↔
    unsigned cs ≠ [] ∧ (∀ c ∈ unsigned cs, c.isDigit = true) ∧ numeralValue (unsigned cs) = n := by
  constructor
  · rintro ⟨ds, hcs, hne, hds, hv⟩
    obtain ⟨d, ds, rfl⟩ := List.exists_cons_of_ne_nil hne
    rw [unsigned_of_isDigit (hds d List.mem_cons_self) hcs]
    exact ⟨hne, hds, hv⟩
  · rintro ⟨hne, hds, hv⟩
    exact ⟨unsigned cs, eq_of_unsigned cs, hne, hds, hv⟩

theorem overruns_iff_unsigned : Overruns limit cs ↔
    ∃ ds rest, unsigned cs = ds ++ rest ∧ (∀ c ∈ ds, c.isDigit = true) ∧
      limit < numeralValue ds := by
  constructor
  · rintro ⟨ds, rest, hcs, hds, hlt⟩
    cases ds with
    | nil => exact absurd hlt (by simp [numeralValue])
    | cons d ds =>
      have hd := hds d List.mem_cons_self
      exact ⟨d :: ds, rest, unsigned_of_isDigit hd hcs, hds, hlt⟩
  · rintro ⟨ds, rest, he, hds, hlt⟩
    refine ⟨ds, rest, ?_, hds, hlt⟩
    rw [← he]
    exact eq_of_unsigned cs

theorem readNumeral_of_unsigned (h : unsigned cs ≠ []) :
    readNumeral limit cs = readDigits limit 0 (unsigned cs) := by
  unfold readNumeral unsigned at *
  split <;> simp_all

/-- There is nothing but perhaps a sign. -/
theorem readNumeral_of_unsigned_nil (h : unsigned cs = []) :
    readNumeral limit cs = .error (if cs = [] then .empty else .invalidDigit) := by
  rcases eq_of_unsigned cs with hcs | hcs
  · rw [hcs, h]
    rfl
  · rw [hcs, h]
    rfl

theorem readNumeral_eq_ok_iff : readNumeral limit cs = .ok n ↔ IsNumeral cs n ∧ n ≤ limit := by
  rw [isNumeral_iff_unsigned]
  by_cases h : unsigned cs = []
  · simp [readNumeral_of_unsigned_nil h, h]
  · rw [readNumeral_of_unsigned h, readDigits_eq_ok_iff (Nat.zero_le limit)]
    simp only [h, numeralValue, ne_eq, not_false_eq_true, true_and, and_assoc]

theorem readNumeral_eq_tooLarge_iff :
    readNumeral limit cs = .error .tooLarge ↔ Overruns limit cs := by
  rw [overruns_iff_unsigned]
  by_cases h : unsigned cs = []
  · rw [readNumeral_of_unsigned_nil h, h]
    constructor
    · intro he
      split at he <;> simp at he
    · rintro ⟨ds, rest, he, -, hlt⟩
      obtain ⟨rfl, -⟩ := List.append_eq_nil_iff.1 he.symm
      exact absurd hlt (by simp [numeralValue])
  · rw [readNumeral_of_unsigned h, readDigits_eq_tooLarge_iff (Nat.zero_le limit)]
    rfl

theorem readNumeral_ne_empty (h : cs ≠ []) : readNumeral limit cs ≠ .error .empty := by
  by_cases hu : unsigned cs = []
  · simp [readNumeral_of_unsigned_nil hu, h]
  · rw [readNumeral_of_unsigned hu]
    exact readDigits_ne_empty

end

/-- The digits of a number are read as that number. -/
theorem isNumeral_digits (n : Nat) : IsNumeral (digits n) n :=
  ⟨digits n, .inl rfl, digits_ne_nil n, fun _ => isDigit_of_mem_digits, numeralValue_digits n⟩

end TransferLedger.Text

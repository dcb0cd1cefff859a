import TransferLedger.Json.Token
import TransferLedger.Json.Writer
import TransferLedger.Proofs.Text.Numeral

/-!
# Tokens are read back

Texts and integers that are written are cut into the tokens that they are.  A text may hold any
characters.  A number has to be followed by something that cannot belong to it, which in a written
value it always is.

Floating-point numbers are left out: that the fewest digits are read back is a property of their
own.
-/

set_option autoImplicit false

namespace TransferLedger.Json

open TransferLedger.Text

/-! ## Texts -/

/-- How a character of a text is read: a control character without a letter of its own by its
number. -/
def piece (c : Char) : Piece :=
  if c.toNat < 0x20 ∧ c.toNat ∉ [8, 9, 10, 12, 13] then .unit c.toNat else .char c

theorem codeUnit?_control : ∀ n < 32,
    codeUnit? '0' '0' (Nat.digitChar (n / 16)) (Nat.digitChar (n % 16)) = some n := by
  decide

/-- Most characters stand for themselves. -/
theorem scanPieces_plain {c : Char} (hq : c ≠ '"') (hb : c ≠ '\\') (hs : 0x20 ≤ c.toNat)
    (rest : List Char) :
    scanPieces (c :: rest) = (scanPieces rest).map fun p => (.char c :: p.1, p.2) := by
  rw [scanPieces.eq_def]
  split
  · next he => exact absurd he (by simp)
  · next he => exact absurd (List.cons.inj he).1 hq
  · next he => exact absurd (List.cons.inj he).1 hb
  · next he => exact absurd (List.cons.inj he).1 hb
  · next he =>
    obtain ⟨rfl, rfl⟩ := List.cons.inj he
    have hn : (c == '\\' || decide (c.toNat < 0x20)) = false := by
      rw [beq_false_of_ne hb, decide_eq_false (Nat.not_lt.2 hs)]
      rfl
    rw [hn]
    rfl

/-- A character is one piece, however it is written. -/
theorem scanPieces_writeChar (c : Char) (rest : List Char) :
    scanPieces (writeChar c ++ rest) = (scanPieces rest).map fun p => (piece c :: p.1, p.2) := by
  have known {d : Char} (h : c.toNat = d.toNat) : c = d := Char.toNat_inj.1 h
  unfold writeChar
  by_cases hq : (c == '"') = true
  · obtain rfl := eq_of_beq hq
    rfl
  by_cases hb : (c == '\\') = true
  · obtain rfl := eq_of_beq hb
    rfl
  rw [if_neg hq, if_neg hb]
  by_cases hs : 0x20 ≤ c.toNat
  · have hp : piece c = .char c := if_neg fun h => absurd h.1 (Nat.not_lt.2 hs)
    rw [if_pos hs, List.singleton_append, hp]
    exact scanPieces_plain (by simpa using hq) (by simpa using hb) hs rest
  rw [if_neg hs]
  -- Five of the control characters have letters of their own.
  by_cases h8 : c.toNat = 8
  · obtain rfl := known (d := '\x08') h8
    rfl
  by_cases h9 : c.toNat = 9
  · obtain rfl := known (d := '\t') h9
    rfl
  by_cases h10 : c.toNat = 10
  · obtain rfl := known (d := '\n') h10
    rfl
  by_cases h12 : c.toNat = 12
  · obtain rfl := known (d := '\x0c') h12
    rfl
  by_cases h13 : c.toNat = 13
  · obtain rfl := known (d := '\r') h13
    rfl
  have hp : piece c = .unit c.toNat := if_pos ⟨by omega, by simp [h8, h9, h10, h12, h13]⟩
  rw [if_neg h8, if_neg h9, if_neg h10, if_neg h12, if_neg h13, hp]
  simp only [List.cons_append, List.nil_append, scanPieces, codeUnit?_control c.toNat (by omega)]

theorem scanPieces_write (cs rest : List Char) :
    scanPieces (cs.flatMap writeChar ++ '"' :: rest) = some (cs.map piece, rest) := by
  induction cs with
  | nil => rfl
  | cons c cs ih =>
    rw [List.flatMap_cons, List.append_assoc, scanPieces_writeChar, ih]
    rfl

/-- A code unit below the surrogates is a character by itself, whatever follows. -/
theorem assemble?_unit {n : Nat} (h : n < 0xD800) (ps : List Piece) :
    assemble? (.unit n :: ps) = (assemble? ps).map (Char.ofNat n :: ·) := by
  have hh : isHighSurrogate n = false := by simp only [isHighSurrogate]; grind
  have hl : isLowSurrogate n = false := by simp only [isLowSurrogate]; grind
  cases ps with
  | nil => simp [assemble?, hh, hl]
  | cons p ps =>
    cases p with
    | char c => simp [assemble?, hh, hl]
    | unit m => simp [assemble?, hh, hl]

theorem assemble?_pieces (cs : List Char) : assemble? (cs.map piece) = some cs := by
  induction cs with
  | nil => rfl
  | cons c cs ih =>
    by_cases hc : c.toNat < 0x20 ∧ c.toNat ∉ [8, 9, 10, 12, 13]
    · rw [List.map_cons, show piece c = .unit c.toNat from if_pos hc, assemble?_unit (by omega), ih,
        Char.ofNat_toNat]
      rfl
    · rw [List.map_cons, show piece c = .char c from if_neg hc, assemble?, ih]
      rfl

/-! ## Numbers -/

/-- The integers that documents hold exactly. -/
def Number.Whole : Number → Prop
  | .nat n => n ≤ greatestWord
  | .neg n => 0 < n ∧ n ≤ Nat.pow 2 63
  | .float _ => False

/-- A text goes on with something that belongs to no number. -/
def Delimited (rest : List Char) : Prop :=
  ∀ c ∈ rest.head?, c = ',' ∨ c = ']' ∨ c = '\x7d'

theorem Delimited.cons {c : Char} (h : c = ',' ∨ c = ']' ∨ c = '\x7d') (rest : List Char) :
    Delimited (c :: rest) := by
  intro d hd
  obtain rfl := Option.some.inj hd
  exact h

theorem Delimited.not_isDigit {rest : List Char} (h : Delimited rest) :
    ∀ c ∈ rest.head?, c.isDigit = false := by
  intro c hc
  rcases h c hc with rfl | rfl | rfl
  · rfl
  · rfl
  · rfl

theorem scanWhole_digits (n : Nat) {rest : List Char} (h : Delimited rest) :
    scanWhole (digits n ++ rest) = some (digits n, rest) := by
  have ht : takeDigits (digits n ++ rest).length (digits n ++ rest) = (digits n, rest) :=
    takeDigits_of_digits (fun c hc => isDigit_of_mem_digits hc) (by rw [List.length_append]; omega)
      (.inr h.not_isDigit)
  cases hd : digits n with
  | nil => exact absurd hd (digits_ne_nil n)
  | cons c cs =>
    rw [hd] at ht
    by_cases hc : c = '0'
    · subst hc
      rw [digits_eq_zero_cons hd]
      rfl
    · rw [List.cons_append, scanWhole.eq_def]
      split
      · next he => exact absurd (List.cons.inj he).1 hc
      · rw [← List.cons_append, ht]

/-- There is no fraction and no power of ten behind the digits. -/
theorem scanRest {rest : List Char} (h : Delimited rest) :
    scanFraction rest = some ([], rest) ∧ scanPower rest = some (none, rest) := by
  cases rest with
  | nil => exact ⟨rfl, rfl⟩
  | cons c cs =>
    rcases h c rfl with rfl | rfl | rfl
    · exact ⟨rfl, rfl⟩
    · exact ⟨rfl, rfl⟩
    · exact ⟨rfl, rfl⟩

/-- All digits are taken of a number that fits. -/
theorem takeFitting_eq {ds : List Char} {v : Nat} (h : Nat.ofDigitChars 10 ds v ≤ greatestWord) :
    takeFitting v ds = (Nat.ofDigitChars 10 ds v, ds.length) := by
  induction ds generalizing v with
  | nil => simp [takeFitting]
  | cons d ds ih =>
    rw [Nat.ofDigitChars_cons] at h ⊢
    have hv : v * 10 + (d.toNat - '0'.toNat) = 10 * v + (d.toNat - '0'.toNat) := by omega
    have hle := Nat.le_trans (le_ofDigitChars ds _) h
    rw [takeFitting, hv]
    simp only [if_pos hle, ih h, List.length_cons]

theorem takeFitting_digits {n : Nat} (h : n ≤ greatestWord) :
    takeFitting 0 (digits n) = (n, (digits n).length) := by
  have hv : Nat.ofDigitChars 10 (digits n) 0 = n := numeralValue_digits n
  rw [takeFitting_eq (by rw [hv]; exact h), hv]

theorem ne_of_isDigit {c d : Char} (h : c.isDigit = true) (hd : d.isDigit = false) : c ≠ d := by
  rintro rfl
  rw [h] at hd
  exact absurd hd (by decide)

theorem scanNumber_digits (n : Nat) {rest : List Char} (h : Delimited rest) :
    scanNumber (digits n ++ rest) = some (⟨false, digits n, [], none⟩, rest) := by
  obtain ⟨hf, hp⟩ := scanRest h
  have hw := scanWhole_digits n h
  unfold scanNumber
  split
  next negative cs hs =>
  have hcs : negative = false ∧ cs = digits n ++ rest := by
    split at hs
    · next tail he =>
      cases hd : digits n with
      | nil => exact absurd hd (digits_ne_nil n)
      | cons c ds =>
        have hc : c.isDigit = true := isDigit_of_mem_digits (hd ▸ List.mem_cons_self)
        rw [hd] at he
        exact absurd (List.cons.inj he).1 (ne_of_isDigit hc (by decide))
    · obtain ⟨rfl, rfl⟩ := Prod.mk.inj hs
      exact ⟨rfl, rfl⟩
  obtain ⟨rfl, rfl⟩ := hcs
  rw [hw]
  simp only [Option.bind_eq_bind, Option.bind_some, hf, hp]
  rfl

theorem scanNumber_minus (n : Nat) {rest : List Char} (h : Delimited rest) :
    scanNumber ('-' :: (digits n ++ rest)) = some (⟨true, digits n, [], none⟩, rest) := by
  obtain ⟨hf, hp⟩ := scanRest h
  have hw := scanWhole_digits n h
  simp only [scanNumber, Option.bind_eq_bind, hw, Option.bind_some, hf, hp]
  rfl

theorem number?_digits {n : Nat} (h : n ≤ greatestWord) :
    (⟨false, digits n, [], none⟩ : Lexeme).number? = some (.nat n) := by
  simp [Lexeme.number?, takeFitting_digits h]

theorem number?_minus {n : Nat} (hn : 0 < n) (h : n ≤ Nat.pow 2 63) :
    (⟨true, digits n, [], none⟩ : Lexeme).number? = some (.neg n) := by
  have hw : n ≤ greatestWord := Nat.le_trans h (by decide)
  have hs : n ≤ 9223372036854775808 := h
  simp [Lexeme.number?, takeFitting_digits hw, hn, hs]

/-! ## Tokens -/

theorem tokens?_cons {c : Char} {rest rest' : List Char} {t : Token} (hs : isSpace c = false)
    (h : nextToken? c rest = some (t, rest')) :
    tokens? (c :: rest) = (tokens? rest').map (t :: ·) := by
  rw [tokens?, if_neg (by simp [hs])]
  split
  · next hn => exact absurd (h.symm.trans hn) (by simp)
  · next t' r' hn =>
    obtain ⟨rfl, rfl⟩ := Prod.mk.inj (Option.some.inj (h.symm.trans hn))
    rfl

theorem tokens?_mark {c : Char} {t : Token} (hs : isSpace c = false) (h : punctuation? c = some t)
    (rest : List Char) : tokens? (c :: rest) = (tokens? rest).map (t :: ·) :=
  tokens?_cons hs (by rw [nextToken?, h])

theorem tokens?_writeString (s : String) (rest : List Char) :
    tokens? (writeString s ++ rest) = (tokens? rest).map (.string (some s) :: ·) := by
  have hn : nextToken? '"' (s.toList.flatMap writeChar ++ '"' :: rest) =
      some (.string (some s), rest) := by
    show (scanPieces _).map _ = _
    rw [scanPieces_write]
    show some (Token.string ((assemble? (s.toList.map piece)).map String.ofList), rest) = _
    rw [assemble?_pieces, Option.map_some, String.ofList_toList]
  rw [writeString, List.append_assoc, List.cons_append, List.singleton_append]
  exact tokens?_cons (by decide) hn

theorem tokens?_digits {n : Nat} {rest : List Char} (hr : Delimited rest) (hn : n ≤ greatestWord) :
    tokens? (digits n ++ rest) = (tokens? rest).map (.number (some (.nat n)) :: ·) := by
  have hscan := scanNumber_digits n hr
  cases hd : digits n with
  | nil => exact absurd hd (digits_ne_nil n)
  | cons c cs =>
    have hc : c.isDigit = true := isDigit_of_mem_digits (hd ▸ List.mem_cons_self)
    have hne {d : Char} (h : d.isDigit = false) : c ≠ d := ne_of_isDigit hc h
    have hs : isSpace c = false := by simp [isSpace, hne]
    have hp : punctuation? c = none := by simp [punctuation?, hne]
    have hq : (c == '"') = false := by simp [hne]
    rw [hd] at hscan
    refine tokens?_cons hs ?_
    rw [nextToken?, hp]
    simp only [hq, hc, Bool.or_true, if_true, Bool.false_eq_true, if_false]
    show (scanNumber (c :: cs ++ rest)).map _ = _
    rw [hscan, Option.map_some, ← hd, number?_digits hn]

theorem tokens?_number {n : Number} (h : n.Whole) {rest : List Char} (hr : Delimited rest) :
    tokens? (n.write ++ rest) = (tokens? rest).map (.number (some n) :: ·) := by
  cases n with
  | float x => exact absurd h id
  | nat n => exact tokens?_digits hr h
  | neg n =>
    have hn : nextToken? '-' (digits n ++ rest) = some (.number (some (.neg n)), rest) := by
      show (scanNumber _).map _ = _
      rw [scanNumber_minus n hr, Option.map_some, number?_minus h.1 h.2]
    exact tokens?_cons (by decide) hn

end TransferLedger.Json

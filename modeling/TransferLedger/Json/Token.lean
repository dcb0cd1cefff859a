import TransferLedger.Json.Value
import TransferLedger.Text.Hex
import TransferLedger.Text.Numeral

/-!
# Tokens of JSON texts

The first stage of reading: a text is cut into tokens, and blanks between them go.

A token can be well-formed and still denote nothing: a number that no floating-point number comes
near, or a text whose escapes name half of a surrogate pair.  Such a token is kept, without a value,
because a document may hold it in a place that nobody looks at.
-/

set_option autoImplicit false

namespace TransferLedger.Json

open TransferLedger.Text

/-- A token.  A number or a text without a value denotes nothing. -/
inductive Token where
  | openBrace
  | closeBrace
  | openBracket
  | closeBracket
  | comma
  | colon
  | null
  | bool (b : Bool)
  | number (n : Option Number)
  | string (s : Option String)
  deriving DecidableEq

/-! ## Texts -/

/-- A part of a text: a character, or a code unit that an escape names. -/
inductive Piece where
  | char (c : Char)
  | unit (n : Nat)
  deriving DecidableEq

def hexValue? (c : Char) : Option Nat :=
  if c.toNat < 128 then Hex.digitValue? (UInt8.ofNat c.toNat) else none

/-- The code unit that four digits name. -/
def codeUnit? (a b c d : Char) : Option Nat := do
  let a ← hexValue? a
  let b ← hexValue? b
  let c ← hexValue? c
  let d ← hexValue? d
  return ((a * 16 + b) * 16 + c) * 16 + d

/-- The character that a letter behind a backslash stands for. -/
def shortEscape? (c : Char) : Option Char :=
  if c == '"' || c == '\\' || c == '/' then some c
  else if c == 'b' then some '\x08'
  else if c == 'f' then some '\x0c'
  else if c == 'n' then some '\n'
  else if c == 'r' then some '\r'
  else if c == 't' then some '\t'
  else none

/-- The pieces of a text up to its closing quote, and what follows it. -/
def scanPieces : List Char → Option (List Piece × List Char)
  | [] => none
  | '"' :: rest => some ([], rest)
  | '\\' :: 'u' :: a :: b :: c :: d :: rest =>
    match codeUnit? a b c d with
    | none => none
    | some n => (scanPieces rest).map fun p => (.unit n :: p.1, p.2)
  | '\\' :: c :: rest =>
    match shortEscape? c with
    | none => none
    | some c => (scanPieces rest).map fun p => (.char c :: p.1, p.2)
  | c :: rest =>
    if c == '\\' || c.toNat < 0x20 then none
    else (scanPieces rest).map fun p => (.char c :: p.1, p.2)

/-- The code unit is the first half of a pair. -/
def isHighSurrogate (n : Nat) : Bool :=
  0xD800 ≤ n && n ≤ 0xDBFF

/-- The code unit is the second half of a pair. -/
def isLowSurrogate (n : Nat) : Bool :=
  0xDC00 ≤ n && n ≤ 0xDFFF

/-- The characters of a text, unless half of a surrogate pair stands alone. -/
def assemble? : List Piece → Option (List Char)
  | [] => some []
  | .char c :: rest => (assemble? rest).map (c :: ·)
  | .unit n :: .unit m :: rest =>
    if isHighSurrogate n then
      if isLowSurrogate m then
        (assemble? rest).map (Char.ofNat (0x10000 + (n - 0xD800) * 0x400 + (m - 0xDC00)) :: ·)
      else none
    else if isLowSurrogate n then none
    else (assemble? (.unit m :: rest)).map (Char.ofNat n :: ·)
  | .unit n :: rest =>
    if isHighSurrogate n || isLowSurrogate n then none
    else (assemble? rest).map (Char.ofNat n :: ·)

/-! ## Numbers -/

/-- The parts of a written number. -/
structure Lexeme where
  negative : Bool
  whole : List Char
  fraction : List Char
  power : Option Int

/-- The digits behind a given character, none if it does not stand there. -/
def scanFraction : List Char → Option (List Char × List Char)
  | '.' :: rest =>
    match takeDigits rest.length rest with
    | ([], _) => none
    | (ds, rest) => some (ds, rest)
  | cs => some ([], cs)

/-- The power of ten behind a number, if one is written. -/
def scanPower : List Char → Option (Option Int × List Char)
  | e :: rest =>
    if e == 'e' || e == 'E' then
      let (negative, rest) :=
        match rest with
        | '-' :: rest => (true, rest)
        | '+' :: rest => (false, rest)
        | rest => (false, rest)
      match takeDigits rest.length rest with
      | ([], _) => none
      | (ds, rest) =>
        let n : Int := numeralValue ds
        some (some (if negative then -n else n), rest)
    else some (none, e :: rest)
  | [] => some (none, [])

/-- The digits before the point: a single zero, or digits that do not start with one. -/
def scanWhole (cs : List Char) : Option (List Char × List Char) :=
  match cs with
  | '0' :: rest => some (['0'], rest)
  | _ =>
    match takeDigits cs.length cs with
    | ([], _) => none
    | (ds, rest) => some (ds, rest)

/-- A written number at the start of a text. -/
def scanNumber (cs : List Char) : Option (Lexeme × List Char) := do
  let (negative, cs) :=
    match cs with
    | '-' :: rest => (true, rest)
    | _ => (false, cs)
  let (whole, cs) ← scanWhole cs
  let (fraction, cs) ← scanFraction cs
  let (power, cs) ← scanPower cs
  return (⟨negative, whole, fraction, power⟩, cs)

/-- Take further digits into a number for as long as it fits sixty-four bits.  The number, and how
many digits were taken. -/
def takeFitting : Nat → List Char → Nat × Nat
  | value, [] => (value, 0)
  | value, c :: rest =>
    let next := value * 10 + (c.toNat - '0'.toNat)
    if next ≤ greatestWord then ((takeFitting next rest).1, (takeFitting next rest).2 + 1)
    else (value, 0)

/-- The number that is written, if there is one near enough. -/
def Lexeme.number? (l : Lexeme) : Option Number :=
  let (value, taken) := takeFitting 0 l.whole
  if taken = l.whole.length ∧ l.fraction = [] ∧ l.power = none ∧
      (l.negative = false ∨ 0 < value ∧ value ≤ Nat.pow 2 63) then
    some (if l.negative then .neg value else .nat value)
  else
    let (significand, places) := takeFitting value l.fraction
    let exponent := ((l.whole.length - taken : Nat) : Int) - places + l.power.getD 0
    (Binary64.ofDecimal? (UInt64.ofNat significand) exponent).map fun x =>
      .float (if l.negative then x.neg else x)

/-! ## Cutting a text into tokens -/

/-- The characters that may stand between tokens. -/
def isSpace (c : Char) : Bool :=
  c == ' ' || c == '\n' || c == '\r' || c == '\t'

/-- The token that a single character is. -/
def punctuation? (c : Char) : Option Token :=
  if c == '\x7b' then some .openBrace
  else if c == '\x7d' then some .closeBrace
  else if c == '[' then some .openBracket
  else if c == ']' then some .closeBracket
  else if c == ',' then some .comma
  else if c == ':' then some .colon
  else none

/-- The token that is a word. -/
def scanWord : List Char → Option (Token × List Char)
  | 'n' :: 'u' :: 'l' :: 'l' :: rest => some (.null, rest)
  | 't' :: 'r' :: 'u' :: 'e' :: rest => some (.bool true, rest)
  | 'f' :: 'a' :: 'l' :: 's' :: 'e' :: rest => some (.bool false, rest)
  | _ => none

/-- The token that starts with a given character, and what follows it. -/
def nextToken? (c : Char) (rest : List Char) : Option (Token × List Char) :=
  match punctuation? c with
  | some t => some (t, rest)
  | none =>
    if c == '"' then
      (scanPieces rest).map fun p => (.string ((assemble? p.1).map String.ofList), p.2)
    else if c == '-' || c.isDigit then
      (scanNumber (c :: rest)).map fun p => (.number p.1.number?, p.2)
    else scanWord (c :: rest)

theorem length_takeDigits_le (most : Nat) (cs : List Char) :
    (takeDigits most cs).2.length ≤ cs.length := by
  have h := congrArg List.length (takeDigits_append most cs)
  simp only [List.length_append] at h
  omega

theorem length_of_scanPieces {cs rest : List Char} {ps : List Piece}
    (h : scanPieces cs = some (ps, rest)) : rest.length ≤ cs.length := by
  fun_induction scanPieces cs generalizing ps rest with
  | case1 => simp at h
  | case2 => simp only [Option.some.injEq, Prod.mk.injEq] at h; simp [← h.2]
  | case3 => simp at h
  | case4 a b c d tail n _ ih =>
    obtain ⟨p, hp, hq⟩ := Option.map_eq_some_iff.1 h
    have := ih hp
    simp only [Prod.mk.injEq] at hq
    simp only [List.length_cons, ← hq.2]
    omega
  | case5 => simp at h
  | case6 c tail _ d _ ih =>
    obtain ⟨p, hp, hq⟩ := Option.map_eq_some_iff.1 h
    have := ih hp
    simp only [Prod.mk.injEq] at hq
    simp only [List.length_cons, ← hq.2]
    omega
  | case7 => simp at h
  | case8 c tail _ _ _ _ ih =>
    obtain ⟨p, hp, hq⟩ := Option.map_eq_some_iff.1 h
    have := ih hp
    simp only [Prod.mk.injEq] at hq
    simp only [List.length_cons, ← hq.2]
    omega

theorem length_of_scanFraction {cs rest ds : List Char}
    (h : scanFraction cs = some (ds, rest)) : rest.length ≤ cs.length := by
  unfold scanFraction at h
  split at h
  · next tail =>
    have hl := length_takeDigits_le tail.length tail
    split at h
    · simp at h
    · next ds' r _ ht =>
      simp only [Option.some.injEq, Prod.mk.injEq] at h
      rw [ht] at hl
      simp only [← h.2, List.length_cons]
      simp only at hl
      omega
  · simp only [Option.some.injEq, Prod.mk.injEq] at h
    exact Nat.le_of_eq (congrArg List.length h.2.symm)

theorem length_of_scanPower {cs rest : List Char} {n : Option Int}
    (h : scanPower cs = some (n, rest)) : rest.length ≤ cs.length := by
  unfold scanPower at h
  split at h
  · next e tail =>
    split at h
    · have key : ∀ (b : Bool) (r : List Char), r.length ≤ tail.length →
          (match takeDigits r.length r with
            | ([], _) => none
            | (ds, r') =>
              let n : Int := numeralValue ds
              some (some (if b then -n else n), r')) = some (n, rest) →
          rest.length ≤ (e :: tail).length := by
        intro b r hr hm
        have hl := length_takeDigits_le r.length r
        split at hm
        · simp at hm
        · next ds' r' _ ht =>
          simp only [Option.some.injEq, Prod.mk.injEq] at hm
          rw [ht] at hl
          simp only [← hm.2, List.length_cons]
          simp only at hl
          omega
      split at h
      next hs =>
      split at hs
      · simp only [Prod.mk.injEq] at hs
        exact key _ _ (by simp [← hs.2]) h
      · simp only [Prod.mk.injEq] at hs
        exact key _ _ (by simp [← hs.2]) h
      · simp only [Prod.mk.injEq] at hs
        exact key _ _ (by simp [← hs.2]) h
    · simp only [Option.some.injEq, Prod.mk.injEq] at h
      simp [← h.2]
  · simp only [Option.some.injEq, Prod.mk.injEq] at h
    simp [← h.2]

theorem length_of_scanWhole {cs rest ds : List Char}
    (h : scanWhole cs = some (ds, rest)) : rest.length < cs.length := by
  unfold scanWhole at h
  split at h
  · simp only [Option.some.injEq, Prod.mk.injEq] at h
    simp [← h.2]
  · have hl := congrArg List.length (takeDigits_append cs.length cs)
    split at h
    · simp at h
    · next ds' r hne ht =>
      simp only [Option.some.injEq, Prod.mk.injEq] at h
      rw [ht] at hl
      simp only [List.length_append] at hl
      have : ds ≠ [] := fun hd => hne (h.1.trans hd)
      have := List.length_pos_iff.2 this
      rw [h.1, h.2] at hl
      omega

theorem length_of_scanNumber {cs rest : List Char} {l : Lexeme}
    (h : scanNumber cs = some (l, rest)) : rest.length < cs.length := by
  unfold scanNumber at h
  split at h
  next b tail hb =>
  have ht : tail.length ≤ cs.length := by
    split at hb
    · simp only [Prod.mk.injEq] at hb; simp [← hb.2]
    · simp only [Prod.mk.injEq] at hb; simp [← hb.2]
  cases h1 : scanWhole tail with
  | none => rw [h1] at h; simp at h
  | some p1 =>
    cases h2 : scanFraction p1.2 with
    | none => rw [h1] at h; simp [h2] at h
    | some p2 =>
      cases h3 : scanPower p2.2 with
      | none => rw [h1] at h; simp [h2, h3] at h
      | some p3 =>
        rw [h1] at h
        simp only [Option.bind_eq_bind, Option.bind_some, h2, h3, Option.pure_def,
          Option.some.injEq, Prod.mk.injEq] at h
        have l1 := length_of_scanWhole h1
        have l2 := length_of_scanFraction h2
        have l3 := length_of_scanPower h3
        rw [← h.2]
        omega

theorem length_of_scanWord {cs rest : List Char} {t : Token}
    (h : scanWord cs = some (t, rest)) : rest.length < cs.length := by
  unfold scanWord at h
  split at h
  · simp only [Option.some.injEq, Prod.mk.injEq] at h
    simp only [← h.2, List.length_cons]
    omega
  · simp only [Option.some.injEq, Prod.mk.injEq] at h
    simp only [← h.2, List.length_cons]
    omega
  · simp only [Option.some.injEq, Prod.mk.injEq] at h
    simp only [← h.2, List.length_cons]
    omega
  · simp at h

theorem length_of_nextToken {c : Char} {rest rest' : List Char} {t : Token}
    (h : nextToken? c rest = some (t, rest')) : rest'.length ≤ rest.length := by
  unfold nextToken? at h
  split at h
  · simp only [Option.some.injEq, Prod.mk.injEq] at h
    simp [← h.2]
  · split at h
    · obtain ⟨p, hp, hq⟩ := Option.map_eq_some_iff.1 h
      simp only [Prod.mk.injEq] at hq
      rw [← hq.2]
      exact length_of_scanPieces hp
    · split at h
      · obtain ⟨p, hp, hq⟩ := Option.map_eq_some_iff.1 h
        simp only [Prod.mk.injEq] at hq
        have := length_of_scanNumber hp
        rw [← hq.2]
        simp only [List.length_cons] at this
        omega
      · have := length_of_scanWord h
        simp only [List.length_cons] at this
        omega

/-- The tokens of a text, if it consists of tokens. -/
def tokens? : List Char → Option (List Token)
  | [] => some []
  | c :: rest =>
    if isSpace c then tokens? rest
    else match _taken : nextToken? c rest with
    | none => none
    | some (t, rest') => (tokens? rest').map (t :: ·)
termination_by cs => cs.length
decreasing_by
  · simp
  · have := length_of_nextToken _taken
    simp only [List.length_cons]
    omega

end TransferLedger.Json

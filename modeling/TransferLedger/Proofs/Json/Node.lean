import TransferLedger.Json.Node
import TransferLedger.Proofs.Json.Token

/-!
# Values are read back

The text of a value is read as the value (`Json.read?_text`).  The way there has the two stages of
the parser: the text is cut into the tokens that the value is made of, and the tokens lead the stack
from where a value is expected to where it is complete.

A value is readable if its numbers are integers of sixty-four bits and its containers are not too
deep for where it stands.
-/

set_option autoImplicit false

namespace TransferLedger.Json

open TransferLedger.Text

mutual

/-- The value is read back as it is, in a place with so many containers around it. -/
def Readable : Nat → Json → Prop
  | level, .array items => level < greatestDepth ∧ ReadableItems (level + 1) items
  | level, .object fields => level < greatestDepth ∧ ReadableFields (level + 1) fields
  | _, .number n => n.Whole
  | _, .null => True
  | _, .bool _ => True
  | _, .string _ => True

def ReadableItems : Nat → List Json → Prop
  | _, [] => True
  | level, v :: rest => Readable level v ∧ ReadableItems level rest

def ReadableFields : Nat → List (String × Json) → Prop
  | _, [] => True
  | level, (_, v) :: rest => Readable level v ∧ ReadableFields level rest

end

/-! ## The tokens of a value -/

mutual

/-- The tokens that a value is made of. -/
def tokens : Json → List Token
  | .null => [.null]
  | .bool b => [.bool b]
  | .number n => [.number (some n)]
  | .string s => [.string (some s)]
  | .array items => .openBracket :: itemTokens items
  | .object fields => .openBrace :: fieldTokens fields

/-- The tokens of the items of an array, and of its end. -/
def itemTokens : List Json → List Token
  | [] => [.closeBracket]
  | v :: rest => tokens v ++ moreItemTokens rest

def moreItemTokens : List Json → List Token
  | [] => [.closeBracket]
  | v :: rest => .comma :: (tokens v ++ moreItemTokens rest)

/-- The tokens of the fields of an object, and of its end. -/
def fieldTokens : List (String × Json) → List Token
  | [] => [.closeBrace]
  | (k, v) :: rest => .string (some k) :: .colon :: (tokens v ++ moreFieldTokens rest)

def moreFieldTokens : List (String × Json) → List Token
  | [] => [.closeBrace]
  | (k, v) :: rest => .comma :: .string (some k) :: .colon :: (tokens v ++ moreFieldTokens rest)

end

/-- What follows a value inside an array belongs to no number. -/
theorem delimited_moreItems (items : List Json) (rest : List Char) :
    Delimited (writeMoreItems items ++ rest) := by
  cases items with
  | nil => exact .cons (.inr (.inl rfl)) rest
  | cons v items => exact .cons (.inl rfl) _

theorem delimited_moreFields (fields : List (String × Json)) (rest : List Char) :
    Delimited (writeMoreFields fields ++ rest) := by
  cases fields with
  | nil => exact .cons (.inr (.inr rfl)) rest
  | cons f fields => exact .cons (.inl rfl) _

/-- One part of a text after another. -/
theorem map_append_tokens (us ts : List Token) (o : Option (List Token)) :
    (o.map (us ++ ·)).map (ts ++ ·) = o.map ((ts ++ us) ++ ·) := by
  cases o with
  | none => rfl
  | some vs => exact congrArg some (List.append_assoc ts us vs).symm

theorem tokens?_key (k : String) (cs : List Char) :
    tokens? (writeString k ++ ':' :: cs) =
      (tokens? cs).map ([.string (some k), .colon] ++ ·) := by
  rw [tokens?_writeString, tokens?_mark (t := .colon) (by decide) rfl]
  exact map_append_tokens [.colon] [.string (some k)] _

mutual

/-- The text of a value is cut into its tokens. -/
theorem tokens?_write {level : Nat} : ∀ (v : Json), Readable level v → ∀ (rest : List Char),
    Delimited rest → tokens? (write v ++ rest) = (tokens? rest).map (tokens v ++ ·)
  | .null, _, rest, _ => tokens?_cons (by decide) rfl
  | .bool true, _, rest, _ => tokens?_cons (by decide) rfl
  | .bool false, _, rest, _ => tokens?_cons (by decide) rfl
  | .number n, h, rest, hr => tokens?_number h hr
  | .string s, _, rest, _ => tokens?_writeString s rest
  | .array items, h, rest, _ => by
    have hi := tokens?_writeItems items h.2 rest
    rw [write, List.cons_append, tokens?_mark (by decide) rfl, hi]
    exact map_append_tokens (itemTokens items) [.openBracket] _
  | .object fields, h, rest, _ => by
    have hf := tokens?_writeFields fields h.2 rest
    rw [write, List.cons_append, tokens?_mark (by decide) rfl, hf]
    exact map_append_tokens (fieldTokens fields) [.openBrace] _

theorem tokens?_writeItems {level : Nat} : ∀ (items : List Json), ReadableItems level items →
    ∀ (rest : List Char), tokens? (writeItems items ++ rest) =
      (tokens? rest).map (itemTokens items ++ ·)
  | [], _, rest => tokens?_mark (by decide) rfl rest
  | v :: items, h, rest => by
    have hv := tokens?_write v h.1 (writeMoreItems items ++ rest) (delimited_moreItems items rest)
    have hi := tokens?_writeMoreItems items h.2 rest
    rw [writeItems, List.append_assoc, hv, hi]
    exact map_append_tokens _ _ _

theorem tokens?_writeMoreItems {level : Nat} : ∀ (items : List Json), ReadableItems level items →
    ∀ (rest : List Char), tokens? (writeMoreItems items ++ rest) =
      (tokens? rest).map (moreItemTokens items ++ ·)
  | [], _, rest => tokens?_mark (by decide) rfl rest
  | v :: items, h, rest => by
    have hv := tokens?_write v h.1 (writeMoreItems items ++ rest) (delimited_moreItems items rest)
    have hi := tokens?_writeMoreItems items h.2 rest
    rw [writeMoreItems, List.cons_append, List.append_assoc, tokens?_mark (by decide) rfl, hv, hi,
      map_append_tokens]
    exact map_append_tokens (tokens v ++ moreItemTokens items) [.comma] _

theorem tokens?_writeFields {level : Nat} : ∀ (fields : List (String × Json)),
    ReadableFields level fields → ∀ (rest : List Char), tokens? (writeFields fields ++ rest) =
      (tokens? rest).map (fieldTokens fields ++ ·)
  | [], _, rest => tokens?_mark (by decide) rfl rest
  | (k, v) :: fields, h, rest => by
    have hv := tokens?_write v h.1 (writeMoreFields fields ++ rest)
      (delimited_moreFields fields rest)
    have hf := tokens?_writeMoreFields fields h.2 rest
    rw [writeFields, List.append_assoc, List.cons_append, List.append_assoc, tokens?_key, hv, hf,
      map_append_tokens]
    exact map_append_tokens _ _ _

theorem tokens?_writeMoreFields {level : Nat} : ∀ (fields : List (String × Json)),
    ReadableFields level fields → ∀ (rest : List Char), tokens? (writeMoreFields fields ++ rest) =
      (tokens? rest).map (moreFieldTokens fields ++ ·)
  | [], _, rest => tokens?_mark (by decide) rfl rest
  | (k, v) :: fields, h, rest => by
    have hv := tokens?_write v h.1 (writeMoreFields fields ++ rest)
      (delimited_moreFields fields rest)
    have hf := tokens?_writeMoreFields fields h.2 rest
    rw [writeMoreFields, List.cons_append, List.append_assoc, List.cons_append, List.append_assoc,
      tokens?_mark (by decide) rfl, tokens?_key, hv, hf, map_append_tokens, map_append_tokens]
    exact map_append_tokens _ [.comma] _

end

/-! ## The stack -/

theorem run?_cons {p q : Parsing} {t : Token} {ts : List Token} (h : p.step? t = some q) :
    p.run? (t :: ts) = q.run? ts := by
  rw [Parsing.run?, h]

/-- A value as the first item of an array is read like a value anywhere else. -/
theorem run?_firstItem (opened : List Open) (v : Json) (ts : List Token) :
    (⟨opened, .firstItem, .null⟩ : Parsing).run? (tokens v ++ ts) =
      (⟨opened, .value, .null⟩ : Parsing).run? (tokens v ++ ts) := by
  cases v with
  | null | bool | number | string | array | object => rfl

/-- An array that is not too deep ends with the items that it holds. -/
theorem close?_array {opened : List Open} (hl : opened.length < greatestDepth) (done : List Node) :
    Parsing.close? (.array done :: opened) .closeBracket =
      some (.put (.array done.reverse) opened) := by
  have hc : Open.close (opened.length + 1) (.array done) = .array done.reverse := if_pos hl
  rw [Parsing.close?, hc]

theorem close?_object {opened : List Open} (hl : opened.length < greatestDepth)
    (done : List (String × Node)) :
    Parsing.close? (.object done "" false :: opened) .closeBrace =
      some (.put (.object done.reverse) opened) := by
  have hc : Open.close (opened.length + 1) (.object done "" false) = .object done.reverse :=
    if_pos ⟨hl, rfl⟩
  rw [Parsing.close?, hc]

theorem run?_key (opened : List Open) (done : List (String × Node)) (k : String)
    (ts : List Token) :
    (⟨.object done "" false :: opened, .key, .null⟩ : Parsing).run?
        (.string (some k) :: .colon :: ts) =
      (⟨.object done k false :: opened, .value, .null⟩ : Parsing).run? ts := by
  rw [run?_cons rfl]
  exact run?_cons rfl

mutual

/-- The tokens of a value lead from where a value is expected to where it is complete. -/
theorem run?_tokens : ∀ (v : Json) (opened : List Open), Readable opened.length v →
    ∀ (ts : List Token), (⟨opened, .value, .null⟩ : Parsing).run? (tokens v ++ ts) =
      (Parsing.put (toNode v) opened).run? ts
  | .null, _, _, _ => run?_cons rfl
  | .bool _, _, _, _ => run?_cons rfl
  | .number _, _, _, _ => run?_cons rfl
  | .string _, _, _, _ => run?_cons rfl
  | .array [], opened, h, ts => by
    rw [tokens, List.cons_append, run?_cons rfl]
    exact run?_cons (close?_array h.1 [])
  | .array (v :: items), opened, h, ts => by
    have hv := run?_tokens v (.array [] :: opened) h.2.1 (moreItemTokens items ++ ts)
    have hi := run?_moreItemTokens items opened [toNode v] h.1 h.2.2 ts
    rw [tokens, itemTokens, List.cons_append, List.append_assoc, run?_cons rfl, run?_firstItem, hv]
    exact hi
  | .object [], opened, h, ts => by
    rw [tokens, List.cons_append, run?_cons rfl]
    exact run?_cons (close?_object h.1 [])
  | .object ((k, v) :: fields), opened, h, ts => by
    have hv := run?_tokens v (.object [] k false :: opened) h.2.1 (moreFieldTokens fields ++ ts)
    have hf := run?_moreFieldTokens fields opened [(k, toNode v)] h.1 h.2.2 ts
    have hk := run?_key opened [] k (tokens v ++ (moreFieldTokens fields ++ ts))
    rw [hv] at hk
    simp only [tokens, fieldTokens, List.cons_append, List.append_assoc]
    rw [run?_cons rfl]
    exact hk.trans hf

theorem run?_moreItemTokens : ∀ (items : List Json) (opened : List Open) (done : List Node),
    opened.length < greatestDepth → ReadableItems (opened.length + 1) items →
    ∀ (ts : List Token),
      (⟨.array done :: opened, .next, .null⟩ : Parsing).run? (moreItemTokens items ++ ts) =
        (Parsing.put (.array (done.reverse ++ toNodes items)) opened).run? ts
  | [], opened, done, hl, _, ts => by
    rw [toNodes, List.append_nil]
    exact run?_cons (close?_array hl done)
  | v :: items, opened, done, hl, h, ts => by
    have hv := run?_tokens v (.array done :: opened) h.1 (moreItemTokens items ++ ts)
    have hi := run?_moreItemTokens items opened (toNode v :: done) hl h.2 ts
    rw [List.reverse_cons, List.append_assoc] at hi
    rw [moreItemTokens, List.cons_append, List.append_assoc, run?_cons rfl]
    exact hv.trans hi

theorem run?_moreFieldTokens : ∀ (fields : List (String × Json)) (opened : List Open)
    (done : List (String × Node)), opened.length < greatestDepth →
    ReadableFields (opened.length + 1) fields → ∀ (ts : List Token),
      (⟨.object done "" false :: opened, .next, .null⟩ : Parsing).run?
          (moreFieldTokens fields ++ ts) =
        (Parsing.put (.object (done.reverse ++ toFields fields)) opened).run? ts
  | [], opened, done, hl, _, ts => by
    rw [toFields, List.append_nil]
    exact run?_cons (close?_object hl done)
  | (k, v) :: fields, opened, done, hl, h, ts => by
    have hv := run?_tokens v (.object done k false :: opened) h.1 (moreFieldTokens fields ++ ts)
    have hf := run?_moreFieldTokens fields opened ((k, toNode v) :: done) hl h.2 ts
    have hk := run?_key opened done k (tokens v ++ (moreFieldTokens fields ++ ts))
    rw [hv] at hk
    rw [List.reverse_cons, List.append_assoc] at hf
    simp only [moreFieldTokens, List.cons_append, List.append_assoc]
    rw [run?_cons rfl]
    exact hk.trans hf

end

/-! ## Documents -/

/-- A value that is written is read back. -/
theorem read?_text {v : Json} (h : Readable 0 v) : read? v.text = some (toNode v) := by
  have ht := tokens?_write v h [] fun c hc => absurd hc (by simp)
  have hr := run?_tokens v [] h []
  rw [List.append_nil] at ht hr
  have hp : Parsing.start.run? (tokens v) = some (Parsing.put (toNode v) []) := hr
  have htok : tokens? (write v) = some (tokens v) := by
    rw [ht, tokens?]
    simp
  rw [read?, text, String.toList_ofList, parse?, htok]
  simp only [hp]
  rfl

end TransferLedger.Json

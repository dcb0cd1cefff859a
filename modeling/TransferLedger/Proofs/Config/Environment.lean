import TransferLedger.Config
import TransferLedger.Proofs.Text.Lenient
import TransferLedger.Proofs.Text.Numeral

/-!
# What an environment may say

A configuration is read from six variables.  The rules for that are put down here once more without
the reader: what the text of a variable is (`Environment.Given`), which texts are truth values and
which are numbers (`Text.IsFlag`, `Text.IsNumber`), and what becomes of an option then
(`Environment.Asks`).  The reader follows them exactly (`Environment.config_exact`).

The variables are read one after the other, and the numbers are checked behind all of them.  So a
number that is zero is not reported if there is a variable that cannot be read, be it a later one.
For the proof the two loops are taken apart: what is wrong with a variable, if anything, does not
depend on the others (`Environment.fault?`), and what is reported is the first fault in a list
(`Environment.config_eq`).
-/

set_option autoImplicit false

namespace TransferLedger

open TransferLedger.Text

/-! ## What a text may be -/

namespace Text

/-- The words for a truth value. -/
def flagWords : Bool → List String
  | true => ["true", "1", "yes", "y"]
  | false => ["false", "0", "no", "n"]

/-- The text is a truth value: one of its words, in letters of either case. -/
def IsFlag (text : String) (b : Bool) : Prop :=
  ∃ word ∈ flagWords b, Spells text word

/-- The text is a number up to a limit. -/
def IsNumber (limit : Nat) (text : String) (n : Nat) : Prop :=
  IsNumeral text.toList n ∧ n ≤ limit

theorem toLower_flagWords (b : Bool) : ∀ word ∈ flagWords b, ∀ d ∈ word.toList, d.toLower = d := by
  cases b <;> simp [flagWords]

theorem mem_flagWords_iff {text : String} {b : Bool} :
    text.map Char.toLower ∈ flagWords b ↔ IsFlag text b := by
  constructor
  · intro h
    exact ⟨_, h, (map_toLower_eq_iff (toLower_flagWords b _ h)).1 rfl⟩
  · rintro ⟨word, hword, hspells⟩
    rwa [(map_toLower_eq_iff (toLower_flagWords b word hword)).2 hspells]

end Text

/-! ## The first fault -/

section

variable {ε α β : Type} {fault : Option ε} {x : Except ε α} {a : α} {e : ε}

/-- A result, unless there is a fault. -/
def unlessFault (fault : Option ε) (result : Except ε α) : Except ε α :=
  match fault with
  | some e => .error e
  | none => result

/-- What is wrong, if anything. -/
def faultOf : Except ε α → Option ε
  | .ok _ => none
  | .error e => some e

theorem unlessFault_findSome?_cons {γ : Type} {fault? : γ → Option ε} {c : γ} {cs : List γ} :
    unlessFault ((c :: cs).findSome? fault?) x =
      unlessFault (fault? c) (unlessFault (cs.findSome? fault?) x) := by
  rw [List.findSome?_cons]
  cases fault? c <;> rfl

theorem unlessFault_bind {f : α → Except ε β} :
    (unlessFault fault x >>= f) = unlessFault fault (x >>= f) := by
  cases fault <;> rfl

theorem unlessFault_eq_ok_iff : unlessFault fault x = .ok a ↔ fault = none ∧ x = .ok a := by
  cases fault <;> simp [unlessFault]

theorem unlessFault_eq_error_iff :
    unlessFault fault x = .error e ↔ fault = some e ∨ fault = none ∧ x = .error e := by
  cases fault <;> simp [unlessFault]

theorem eq_unlessFault (x : Except ε α) (a : α) :
    x = unlessFault (faultOf x) (.ok (x.toOption.getD a)) := by
  cases x <;> rfl

theorem faultOf_eq_none_iff : faultOf x = none ↔ ∃ a, x = .ok a := by
  cases x <;> simp [faultOf]

theorem faultOf_eq_some_iff : faultOf x = some e ↔ x = .error e := by
  cases x <;> simp [faultOf]

end

namespace Environment

/-! ## What is given -/

section

variable {α : Type} {env : Environment} {option text : String}

/-- The text of the variable for an option.  The blanks around it do not belong to it, and if there
is nothing else no text is given. -/
def Given (env : Environment) (option text : String) : Prop :=
  ∃ raw, env (variableName option) = some raw ∧ Trims raw.toList text.toList ∧ text ≠ ""

/-- An option has the value that its text says, or the default if no text is given. -/
def Asks (env : Environment) (option : String) (Says : String → α → Prop) (default a : α) : Prop :=
  (∃ text, env.Given option text ∧ Says text a) ∨ (∀ text, ¬ env.Given option text) ∧ a = default

theorem value?_eq_some_iff : env.value? option = some text ↔ env.Given option text := by
  unfold value? Given
  cases env (variableName option) with
  | none => simp
  | some raw =>
    simp only [Option.some.injEq, exists_eq_left', ← trimmed_eq_iff]
    split
    · next hblank =>
      simp only [reduceCtorEq, hblank, false_iff, not_and, not_not]
      exact Eq.symm
    · next hblank =>
      rw [Option.some.injEq]
      refine ⟨?_, And.left⟩
      rintro rfl
      exact ⟨rfl, hblank⟩

theorem Given.ne_empty (h : env.Given option text) : text ≠ "" := by
  obtain ⟨_, _, _, hne⟩ := h
  exact hne

end

/-! ## One variable -/

/-- What the text of a variable has to be. -/
inductive Kind where
  | flag
  | number (limit : Nat)

/-- The text is of the kind. -/
def Kind.Admits : Kind → String → Prop
  | .flag, text => ∃ b, IsFlag text b
  | .number limit, text => ∃ n, IsNumber limit text n

/-- Why a text is not of the kind. -/
inductive Kind.Faults : Kind → String → String → Prop
  | flag {text : String} : ¬ Kind.flag.Admits text →
      Faults .flag text "must be a boolean (true/false/1/0)"
  | tooLarge {limit : Nat} {text : String} : Overruns limit text.toList →
      Faults (.number limit) text "number too large to fit in target type"
  | invalidDigit {limit : Nat} {text : String} : ¬ Overruns limit text.toList →
      ¬ (Kind.number limit).Admits text →
      Faults (.number limit) text "invalid digit found in string"

/-- A variable by the option it is for. -/
structure Variable where
  option : String
  kind : Kind

/-- The variable can be read: it has no text or one of its kind. -/
def Readable (env : Environment) (v : Variable) : Prop :=
  ∀ text, env.Given v.option text → v.kind.Admits text

/-- The variable cannot be read, which is reported under its name. -/
def Refuses (env : Environment) (v : Variable) (e : ConfigError) : Prop :=
  ∃ text reason, env.Given v.option text ∧ v.kind.Faults text reason ∧
    e = .invalidVariable (variableName v.option) reason

/-! ## Reading one variable -/

section

variable {α : Type} {env : Environment} {option text reason : String} {limit n : Nat} {b : Bool}
  {e : ConfigError}

/-- A truth value, or why the text is none. -/
def parseFlag (text : String) : Except String Bool :=
  match flag? text with
  | some b => .ok b
  | none => .error "must be a boolean (true/false/1/0)"

/-- A number up to a limit, or why the text is none. -/
def parseNumber (limit : Nat) (text : String) : Except String Nat :=
  (readNumeral limit text.toList).mapError NumeralError.message

/-- What the text for an option is parsed to, or the default. -/
def read (env : Environment) (option : String) (parse : String → Except String α) (default : α) :
    Except ConfigError α :=
  match env.value? option with
  | none => .ok default
  | some text => (parse text).mapError (.invalidVariable (variableName option))

theorem flag_eq_read (default : Bool) :
    env.flag option default = env.read option parseFlag default := by
  unfold flag read parseFlag
  cases env.value? option with
  | none => rfl
  | some text => cases h : flag? text <;> simp [h, Except.mapError]

theorem number_eq_read (default : Nat) :
    env.number option limit default = env.read option (parseNumber limit) default := by
  unfold number read parseNumber
  cases env.value? option with
  | none => rfl
  | some text => cases h : readNumeral limit text.toList <;> simp [h, Except.mapError]

theorem flag?_eq_some_iff : flag? text = some b ↔ IsFlag text b := by
  rw [← mem_flagWords_iff]
  -- The words for `false` are looked up only behind the others, which would matter to a common one.
  have apart : ∀ word ∈ flagWords true, word ∉ flagWords false := by decide
  unfold flag?
  simp only [List.contains_iff_mem]
  change (if text.map Char.toLower ∈ flagWords true then some true
    else if text.map Char.toLower ∈ flagWords false then some false else none) = some b ↔ _
  by_cases ht : text.map Char.toLower ∈ flagWords true
  · rw [if_pos ht]
    cases b with
    | true => simp [ht]
    | false => simp [apart _ ht]
  · rw [if_neg ht]
    cases b <;> simp [ht]

theorem parseFlag_eq_ok_iff : parseFlag text = .ok b ↔ IsFlag text b := by
  rw [← flag?_eq_some_iff, parseFlag]
  cases flag? text <;> simp

theorem parseFlag_eq_error_iff :
    parseFlag text = .error reason ↔ Kind.flag.Faults text reason := by
  have hadmits : Kind.flag.Admits text ↔ ∃ b, flag? text = some b := by
    simp only [Kind.Admits, flag?_eq_some_iff]
  unfold parseFlag
  constructor
  · intro h
    cases hf : flag? text with
    | some b => simp [hf] at h
    | none =>
      rw [hf] at h
      obtain rfl := Except.error.inj h
      exact .flag (by simp [hadmits, hf])
  · rintro ⟨hno⟩
    cases hf : flag? text with
    | some b => exact absurd (hadmits.2 ⟨b, hf⟩) hno
    | none => rfl

theorem parseNumber_eq_ok_iff : parseNumber limit text = .ok n ↔ IsNumber limit text n := by
  rw [IsNumber, ← readNumeral_eq_ok_iff, parseNumber]
  cases readNumeral limit text.toList <;> simp [Except.mapError]

/-- The reader has a third complaint, but it is about a text that is empty. -/
theorem parseNumber_eq_error_iff (h : text ≠ "") :
    parseNumber limit text = .error reason ↔ (Kind.number limit).Faults text reason := by
  have hadmits : (Kind.number limit).Admits text ↔
      ∃ n, readNumeral limit text.toList = .ok n := by
    simp only [Kind.Admits, IsNumber, readNumeral_eq_ok_iff]
  have hne : text.toList ≠ [] := by simpa using h
  unfold parseNumber
  constructor
  · intro hp
    cases hr : readNumeral limit text.toList with
    | ok n => simp [hr, Except.mapError] at hp
    | error problem =>
      rw [hr] at hp
      obtain rfl := Except.error.inj hp
      cases problem with
      | empty => exact absurd hr (readNumeral_ne_empty hne)
      | invalidDigit =>
        exact .invalidDigit (by simp [← readNumeral_eq_tooLarge_iff, hr]) (by simp [hadmits, hr])
      | tooLarge => exact .tooLarge (readNumeral_eq_tooLarge_iff.1 hr)
  · intro hfaults
    cases hfaults with
    | tooLarge hover => rw [readNumeral_eq_tooLarge_iff.2 hover]; rfl
    | invalidDigit hnot hno =>
      cases hr : readNumeral limit text.toList with
      | ok n => exact absurd (hadmits.2 ⟨n, hr⟩) hno
      | error problem =>
        cases problem with
        | empty => exact absurd hr (readNumeral_ne_empty hne)
        | invalidDigit => rfl
        | tooLarge => exact absurd (readNumeral_eq_tooLarge_iff.1 hr) hnot

theorem read_eq_ok_iff {parse : String → Except String α} {Says : String → α → Prop}
    {default a : α} (hparse : ∀ text a, parse text = .ok a ↔ Says text a) :
    env.read option parse default = .ok a ↔ env.Asks option Says default a := by
  unfold read Asks
  simp only [← value?_eq_some_iff, ← hparse]
  cases env.value? option with
  | none => simp [eq_comm]
  | some text => cases h : parse text <;> simp [h, Except.mapError]

theorem read_eq_error_iff {parse : String → Except String α} {default : α} {kind : Kind}
    (hparse : ∀ text reason, text ≠ "" → (parse text = .error reason ↔ kind.Faults text reason)) :
    env.read option parse default = .error e ↔ env.Refuses ⟨option, kind⟩ e := by
  unfold read Refuses
  constructor
  · intro h
    cases hv : env.value? option with
    | none => simp [hv] at h
    | some text =>
      rw [hv] at h
      have hgiven := value?_eq_some_iff.1 hv
      cases hp : parse text with
      | ok a => simp [hp, Except.mapError] at h
      | error reason =>
        simp only [hp, Except.mapError, Except.error.injEq] at h
        exact ⟨text, reason, hgiven, (hparse text reason hgiven.ne_empty).1 hp, h.symm⟩
  · rintro ⟨text, reason, hgiven, hfaults, rfl⟩
    rw [value?_eq_some_iff.2 hgiven]
    simp only [(hparse text reason hgiven.ne_empty).2 hfaults, Except.mapError]

theorem flag_eq_ok_iff {default : Bool} :
    env.flag option default = .ok b ↔ env.Asks option IsFlag default b := by
  rw [flag_eq_read]
  exact read_eq_ok_iff fun _ _ => parseFlag_eq_ok_iff

theorem number_eq_ok_iff {default : Nat} :
    env.number option limit default = .ok n ↔ env.Asks option (IsNumber limit) default n := by
  rw [number_eq_read]
  exact read_eq_ok_iff fun _ _ => parseNumber_eq_ok_iff

/-- What is wrong with a variable, if anything.  It does not matter what the default is. -/
def fault? (env : Environment) (v : Variable) : Option ConfigError :=
  match v.kind with
  | .flag => faultOf (env.flag v.option true)
  | .number limit => faultOf (env.number v.option limit 0)

theorem fault?_eq_some_iff {v : Variable} : env.fault? v = some e ↔ env.Refuses v e := by
  obtain ⟨option, kind⟩ := v
  cases kind with
  | flag =>
    rw [fault?, faultOf_eq_some_iff, flag_eq_read]
    exact read_eq_error_iff fun _ _ _ => parseFlag_eq_error_iff
  | number limit =>
    rw [fault?, faultOf_eq_some_iff, number_eq_read]
    exact read_eq_error_iff fun _ _ => parseNumber_eq_error_iff

theorem exists_asks_iff {Says : String → α → Prop} {default : α} :
    (∃ a, env.Asks option Says default a) ↔
      ∀ text, env.Given option text → ∃ a, Says text a := by
  simp only [Asks, ← value?_eq_some_iff]
  cases env.value? option <;> simp

theorem fault?_eq_none_iff {v : Variable} : env.fault? v = none ↔ env.Readable v := by
  obtain ⟨option, kind⟩ := v
  cases kind with
  | flag =>
    simp only [fault?, faultOf_eq_none_iff, flag_eq_ok_iff, exists_asks_iff, Readable, Kind.Admits]
  | number limit =>
    simp only [fault?, faultOf_eq_none_iff, number_eq_ok_iff, exists_asks_iff, Readable, Kind.Admits]

/-- The truth value for an option, or its default also where the variable cannot be read. -/
def flagOr (env : Environment) (option : String) (default : Bool) : Bool :=
  (env.flag option default).toOption.getD default

/-- The number for an option, or its default also where the variable cannot be read. -/
def numberOr (env : Environment) (option : String) (limit default : Nat) : Nat :=
  (env.number option limit default).toOption.getD default

theorem faultOf_flag (default : Bool) :
    faultOf (env.flag option default) = env.fault? ⟨option, .flag⟩ := by
  unfold fault? flag
  cases env.value? option <;> rfl

theorem faultOf_number (default : Nat) :
    faultOf (env.number option limit default) = env.fault? ⟨option, .number limit⟩ := by
  unfold fault? number
  cases env.value? option <;> rfl

theorem flag_eq (default : Bool) : env.flag option default =
    unlessFault (env.fault? ⟨option, .flag⟩) (.ok (env.flagOr option default)) := by
  rw [← faultOf_flag default]
  exact eq_unlessFault _ _

theorem number_eq (default : Nat) : env.number option limit default =
    unlessFault (env.fault? ⟨option, .number limit⟩) (.ok (env.numberOr option limit default)) := by
  rw [← faultOf_number default]
  exact eq_unlessFault _ _

end

end Environment

/-! ## The numbers of a configuration -/

namespace Config

/-- The numbers of a configuration by the names they are reported under. -/
def counts (c : Config) : List (String × Nat) :=
  [("read_batch_size", c.batchSize), ("snapshot_threshold", c.threshold),
    ("max_command_attempts", c.attempts), ("append_timeout_ms", c.timeout)]

/-- No number is zero. -/
def Positive (c : Config) : Prop :=
  ∀ x ∈ c.counts, 0 < x.2

instance (c : Config) : Decidable c.Positive :=
  inferInstanceAs (Decidable (∀ x ∈ c.counts, 0 < x.2))

/-- The numbers are within the words that are read for them. -/
structure Fits (c : Config) : Prop where
  batchSize : c.batchSize ≤ greatestWord
  threshold : c.threshold ≤ greatestWord
  attempts : c.attempts ≤ greatestShort
  timeout : c.timeout ≤ greatestWord

/-- What is wrong with a number, if anything. -/
def zeroFault? (x : String × Nat) : Option ConfigError :=
  if x.2 = 0 then some (.invalid (x.1 ++ " must be positive")) else none

theorem zeroFault?_eq_none_iff {x : String × Nat} : zeroFault? x = none ↔ 0 < x.2 := by
  unfold zeroFault?
  split
  · next h => simp [h]
  · next h => simp [Nat.pos_of_ne_zero h]

theorem zeroFault?_eq_some_iff {x : String × Nat} {e : ConfigError} :
    zeroFault? x = some e ↔ x.2 = 0 ∧ e = .invalid (x.1 ++ " must be positive") := by
  unfold zeroFault?
  split
  · next h => simp [h, eq_comm]
  · next h => simp [h]

theorem validate_eq (c : Config) :
    c.validate = unlessFault (c.counts.findSome? zeroFault?) (.ok c) := by
  simp only [counts, unlessFault_findSome?_cons, zeroFault?, validate]
  split
  · rfl
  split
  · rfl
  split
  · rfl
  split <;> rfl

theorem validate_eq_ok_iff {c c' : Config} : c.validate = .ok c' ↔ c.Positive ∧ c' = c := by
  rw [validate_eq, unlessFault_eq_ok_iff, List.findSome?_eq_none_iff, Except.ok.injEq, eq_comm]
  simp only [zeroFault?_eq_none_iff, Positive]

theorem validate_eq_error_iff {c : Config} {e : ConfigError} : c.validate = .error e ↔
    ∃ before x after, c.counts = before ++ x :: after ∧ (∀ y ∈ before, 0 < y.2) ∧ x.2 = 0 ∧
      e = .invalid (x.1 ++ " must be positive") := by
  rw [validate_eq, unlessFault_eq_error_iff]
  simp only [reduceCtorEq, and_false, or_false, List.findSome?_eq_some_iff, zeroFault?_eq_none_iff,
    zeroFault?_eq_some_iff]
  grind

/-- The fields of a configuration as texts for the variables. -/
def written (c : Config) : List (String × String) :=
  [("VERIFY_CHAIN_ON_READ", flagText c.verifyOnRead), ("READ_BATCH_SIZE", toString c.batchSize),
    ("USE_SNAPSHOTS", flagText c.useSnapshots), ("SNAPSHOT_THRESHOLD", toString c.threshold),
    ("MAX_COMMAND_ATTEMPTS", toString c.attempts), ("APPEND_TIMEOUT_MS", toString c.timeout)]

/-- The variables that a configuration is written into, and no others. -/
def environment (c : Config) : Environment := fun name =>
  (c.written.find? fun x => Environment.variableName x.1 == name).map Prod.snd

theorem environment_written (c : Config) :
    ∀ x ∈ c.written, c.environment (Environment.variableName x.1) = some x.2 := by
  simp only [environment, written, List.forall_mem_cons]
  exact ⟨rfl, rfl, rfl, rfl, rfl, rfl, by simp⟩

end Config

namespace Environment

/-! ## All variables -/

/-- The variables in the order in which they are read. -/
def readingOrder : List Variable :=
  [⟨"VERIFY_CHAIN_ON_READ", .flag⟩, ⟨"READ_BATCH_SIZE", .number greatestWord⟩,
    ⟨"USE_SNAPSHOTS", .flag⟩, ⟨"SNAPSHOT_THRESHOLD", .number greatestWord⟩,
    ⟨"MAX_COMMAND_ATTEMPTS", .number greatestShort⟩, ⟨"APPEND_TIMEOUT_MS", .number greatestWord⟩]

/-- The configuration is the defaults, overlaid with what the variables say. -/
structure Describes (env : Environment) (c : Config) : Prop where
  verifyOnRead : env.Asks "VERIFY_CHAIN_ON_READ" IsFlag Config.default.verifyOnRead c.verifyOnRead
  batchSize : env.Asks "READ_BATCH_SIZE" (IsNumber greatestWord) Config.default.batchSize
    c.batchSize
  useSnapshots : env.Asks "USE_SNAPSHOTS" IsFlag Config.default.useSnapshots c.useSnapshots
  threshold : env.Asks "SNAPSHOT_THRESHOLD" (IsNumber greatestWord) Config.default.threshold
    c.threshold
  attempts : env.Asks "MAX_COMMAND_ATTEMPTS" (IsNumber greatestShort) Config.default.attempts
    c.attempts
  timeout : env.Asks "APPEND_TIMEOUT_MS" (IsNumber greatestWord) Config.default.timeout c.timeout

/-- The defaults, overlaid with what can be read. -/
def overlay (env : Environment) : Config where
  verifyOnRead := env.flagOr "VERIFY_CHAIN_ON_READ" Config.default.verifyOnRead
  batchSize := env.numberOr "READ_BATCH_SIZE" greatestWord Config.default.batchSize
  useSnapshots := env.flagOr "USE_SNAPSHOTS" Config.default.useSnapshots
  threshold := env.numberOr "SNAPSHOT_THRESHOLD" greatestWord Config.default.threshold
  attempts := env.numberOr "MAX_COMMAND_ATTEMPTS" greatestShort Config.default.attempts
  timeout := env.numberOr "APPEND_TIMEOUT_MS" greatestWord Config.default.timeout

section

variable {env : Environment} {c : Config} {e : ConfigError}

theorem config_eq (env : Environment) :
    env.config = unlessFault (readingOrder.findSome? env.fault?) env.overlay.validate := by
  simp only [config, flag_eq, number_eq, unlessFault_bind, readingOrder,
    unlessFault_findSome?_cons]
  rfl

theorem asks_flag_iff {option : String} {default b : Bool} : env.Asks option IsFlag default b ↔
    env.fault? ⟨option, .flag⟩ = none ∧ b = env.flagOr option default := by
  rw [← flag_eq_ok_iff, flag_eq, unlessFault_eq_ok_iff, Except.ok.injEq, eq_comm (a := b)]

theorem asks_number_iff {option : String} {limit default n : Nat} :
    env.Asks option (IsNumber limit) default n ↔
      env.fault? ⟨option, .number limit⟩ = none ∧ n = env.numberOr option limit default := by
  rw [← number_eq_ok_iff, number_eq, unlessFault_eq_ok_iff, Except.ok.injEq, eq_comm (a := n)]

theorem describes_iff :
    env.Describes c ↔ readingOrder.findSome? env.fault? = none ∧ c = env.overlay := by
  simp only [readingOrder, List.findSome?_eq_none_iff, List.forall_mem_cons, List.not_mem_nil,
    false_imp_iff, implies_true, and_true]
  constructor
  · rintro ⟨h₁, h₂, h₃, h₄, h₅, h₆⟩
    rw [asks_flag_iff] at h₁ h₃
    rw [asks_number_iff] at h₂ h₄ h₅ h₆
    refine ⟨⟨h₁.1, h₂.1, h₃.1, h₄.1, h₅.1, h₆.1⟩, ?_⟩
    obtain ⟨verifyOnRead, batchSize, useSnapshots, threshold, attempts, timeout⟩ := c
    simp only [overlay, Config.mk.injEq]
    exact ⟨h₁.2, h₂.2, h₃.2, h₄.2, h₅.2, h₆.2⟩
  · rintro ⟨⟨h₁, h₂, h₃, h₄, h₅, h₆⟩, rfl⟩
    exact ⟨asks_flag_iff.2 ⟨h₁, rfl⟩, asks_number_iff.2 ⟨h₂, rfl⟩, asks_flag_iff.2 ⟨h₃, rfl⟩,
      asks_number_iff.2 ⟨h₄, rfl⟩, asks_number_iff.2 ⟨h₅, rfl⟩, asks_number_iff.2 ⟨h₆, rfl⟩⟩

theorem config_eq_ok_iff : env.config = .ok c ↔ env.Describes c ∧ c.Positive := by
  rw [config_eq, unlessFault_eq_ok_iff, Config.validate_eq_ok_iff, describes_iff]
  constructor
  · rintro ⟨hread, hpos, rfl⟩
    exact ⟨⟨hread, rfl⟩, hpos⟩
  · rintro ⟨⟨hread, rfl⟩, hpos⟩
    exact ⟨hread, hpos, rfl⟩

theorem exists_describes_iff : (∃ c, env.Describes c) ↔ ∀ v ∈ readingOrder, env.Readable v := by
  simp only [describes_iff, exists_and_left, exists_eq, and_true, List.findSome?_eq_none_iff,
    fault?_eq_none_iff]

theorem config_eq_error_iff : env.config = .error e ↔
    (∃ before v after, readingOrder = before ++ v :: after ∧ (∀ u ∈ before, env.Readable u) ∧
      env.Refuses v e) ∨
    ∃ c, env.Describes c ∧ ∃ before x after, c.counts = before ++ x :: after ∧
      (∀ y ∈ before, 0 < y.2) ∧ x.2 = 0 ∧ e = .invalid (x.1 ++ " must be positive") := by
  rw [config_eq, unlessFault_eq_error_iff]
  apply or_congr
  · simp only [List.findSome?_eq_some_iff, fault?_eq_none_iff, fault?_eq_some_iff]
    grind
  · simp only [describes_iff, ← Config.validate_eq_error_iff, and_assoc, exists_and_left,
      exists_eq_left]

/-- A zero is not reported while there is a variable that cannot be read, be it a later one. -/
example : config (fun name => if name = "CIM_LEDGER_READ_BATCH_SIZE" then some "0"
      else if name = "CIM_LEDGER_APPEND_TIMEOUT_MS" then some " 1s " else none) =
    .error (.invalidVariable "CIM_LEDGER_APPEND_TIMEOUT_MS" "invalid digit found in string") := by
  decide

/-! ## Writing -/

theorem given_of_eq {option text : String} (h : env (variableName option) = some text)
    (hblank : ∀ ch ∈ text.toList, isBlank ch = false) (hne : text ≠ "") : env.Given option text :=
  ⟨text, h, trims_self hblank, hne⟩

theorem asks_flagText {option : String} {default b : Bool}
    (h : env (variableName option) = some (Config.flagText b)) :
    env.Asks option IsFlag default b := by
  left
  refine ⟨_, given_of_eq h ?_ ?_, _, ?_, spells_self _⟩
  · cases b <;> simp [Config.flagText, isBlank]
  · cases b <;> simp [Config.flagText]
  · cases b <;> exact List.mem_cons_self

theorem asks_toString {option : String} {limit default n : Nat}
    (h : env (variableName option) = some (toString n)) (hn : n ≤ limit) :
    env.Asks option (IsNumber limit) default n := by
  left
  have hdigits : (toString n).toList = digits n := Nat.toList_repr
  refine ⟨_, given_of_eq h ?_ ?_, ?_⟩
  · rw [hdigits]
    intro ch hch
    exact isBlank_of_isDigit (isDigit_of_mem_digits hch)
  · intro hempty
    rw [hempty] at hdigits
    exact digits_ne_nil n hdigits.symm
  · rw [IsNumber, hdigits]
    exact ⟨isNumeral_digits n, hn⟩

theorem describes_of_written (hfits : c.Fits)
    (h : ∀ x ∈ c.written, env (variableName x.1) = some x.2) : env.Describes c := by
  simp only [Config.written, List.forall_mem_cons] at h
  obtain ⟨h₁, h₂, h₃, h₄, h₅, h₆, -⟩ := h
  exact ⟨asks_flagText h₁, asks_toString h₂ hfits.batchSize, asks_flagText h₃,
    asks_toString h₄ hfits.threshold, asks_toString h₅ hfits.attempts,
    asks_toString h₆ hfits.timeout⟩

/-- An environment asks for a configuration that has no zero and agrees with every variable, and
for no other.  If there is none, what is reported is the first variable that cannot be read, or if
all can be read the first zero.  A configuration that is written into the variables comes back. -/
theorem config_exact (env : Environment) :
    (∀ c, env.config = .ok c ↔ env.Describes c ∧ c.Positive) ∧
    ((∃ c, env.Describes c) ↔ ∀ v ∈ readingOrder, env.Readable v) ∧
    (∀ e, env.config = .error e ↔
      (∃ before v after, readingOrder = before ++ v :: after ∧ (∀ u ∈ before, env.Readable u) ∧
        env.Refuses v e) ∨
      ∃ c, env.Describes c ∧ ∃ before x after, c.counts = before ++ x :: after ∧
        (∀ y ∈ before, 0 < y.2) ∧ x.2 = 0 ∧ e = .invalid (x.1 ++ " must be positive")) ∧
    ∀ c : Config, c.Positive → c.Fits → (∀ x ∈ c.written, env (variableName x.1) = some x.2) →
      env.config = .ok c := by
  refine ⟨fun _ => config_eq_ok_iff, exists_describes_iff, fun _ => config_eq_error_iff, ?_⟩
  intro c hpos hfits h
  exact config_eq_ok_iff.2 ⟨describes_of_written hfits h, hpos⟩

/-- The greatest numbers there are come back as well. -/
theorem config_exact_greatest :
    let c : Config := ⟨false, greatestWord, true, greatestWord, greatestShort, 1⟩
    c.Positive ∧ c.Fits ∧ (∀ x ∈ c.written, c.environment (variableName x.1) = some x.2) ∧
      c.environment.config = .ok c := by
  intro c
  have hpos : c.Positive := by decide
  have hfits : c.Fits := ⟨Nat.le_refl _, Nat.le_refl _, Nat.le_refl _, by decide⟩
  have hwritten := c.environment_written
  exact ⟨hpos, hfits, hwritten, (config_exact c.environment).2.2.2 c hpos hfits hwritten⟩

end

end Environment
end TransferLedger

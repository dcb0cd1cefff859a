import TransferLedger.Json.Decode
import TransferLedger.Json.Writer
import TransferLedger.Text.Blank

/-!
# Configuration

The options of a ledger.  They have defaults, and come from a document or from the variables of an
environment; either way an option that is not given keeps its default.  A variable that is blank
counts as not given.  The first variable that cannot be read is reported, and only if all can be
read are the values checked.
-/

set_option autoImplicit false

namespace TransferLedger

open TransferLedger.Text Json

/-- The options of a ledger. -/
structure Config where
  /-- Check the chain of hashes while reading. -/
  verifyOnRead : Bool
  /-- Records that are fetched at a time. -/
  batchSize : Nat
  /-- Load snapshots and write them. -/
  useSnapshots : Bool
  /-- A snapshot is due whenever the version reaches a multiple of this. -/
  threshold : Nat
  /-- Attempts at a command before a conflict is reported. -/
  attempts : Nat
  /-- Milliseconds that one append may take. -/
  timeout : Nat
  deriving DecidableEq, Repr

inductive ConfigError where
  /-- A variable of the environment cannot be read. -/
  | invalidVariable (name reason : String)
  /-- A value is out of range. -/
  | invalid (reason : String)
  deriving DecidableEq, Repr

def ConfigError.message : ConfigError → String
  | .invalidVariable name reason => "Invalid environment variable " ++ name ++ ": " ++ reason
  | .invalid reason => "Invalid configuration: " ++ reason

namespace Config

/-- The options that hold unless others are given. -/
def default : Config :=
  ⟨true, 256, true, 100, 3, 5000⟩

instance : Inhabited Config := ⟨default⟩

/-- Every number has to be positive.  The first that is not is reported. -/
def validate (c : Config) : Except ConfigError Config :=
  if c.batchSize = 0 then .error (.invalid "read_batch_size must be positive")
  else if c.threshold = 0 then .error (.invalid "snapshot_threshold must be positive")
  else if c.attempts = 0 then .error (.invalid "max_command_attempts must be positive")
  else if c.timeout = 0 then .error (.invalid "append_timeout_ms must be positive")
  else .ok c

end Config

/-! ## The environment -/

/-- The values of variables by their names. -/
abbrev Environment := String → Option String

namespace Environment

/-- The name of the variable for an option. -/
def variableName (option : String) : String :=
  "CIM_LEDGER_" ++ option

/-- The value for an option without the blanks around it, unless it is blank. -/
def value? (env : Environment) (option : String) : Option String :=
  match env (variableName option) with
  | none => none
  | some text => if trimmed text = "" then none else some (trimmed text)

/-- A truth value in one of its spellings, in letters of either case. -/
def flag? (text : String) : Option Bool :=
  let text := text.map Char.toLower
  if ["true", "1", "yes", "y"].contains text then some true
  else if ["false", "0", "no", "n"].contains text then some false
  else none

/-- The truth value for an option, or its default. -/
def flag (env : Environment) (option : String) (default : Bool) : Except ConfigError Bool :=
  match env.value? option with
  | none => .ok default
  | some text =>
    match flag? text with
    | some b => .ok b
    | none =>
      .error (.invalidVariable (variableName option) "must be a boolean (true/false/1/0)")

/-- The number for an option, which is at most `limit`, or its default. -/
def number (env : Environment) (option : String) (limit default : Nat) : Except ConfigError Nat :=
  match env.value? option with
  | none => .ok default
  | some text =>
    match readNumeral limit text.toList with
    | .ok n => .ok n
    | .error e => .error (.invalidVariable (variableName option) e.message)

/-- The configuration that an environment asks for. -/
def config (env : Environment) : Except ConfigError Config := do
  let verifyOnRead ← env.flag "VERIFY_CHAIN_ON_READ" Config.default.verifyOnRead
  let batchSize ← env.number "READ_BATCH_SIZE" greatestWord Config.default.batchSize
  let useSnapshots ← env.flag "USE_SNAPSHOTS" Config.default.useSnapshots
  let threshold ← env.number "SNAPSHOT_THRESHOLD" greatestWord Config.default.threshold
  let attempts ← env.number "MAX_COMMAND_ATTEMPTS" greatestShort Config.default.attempts
  let timeout ← env.number "APPEND_TIMEOUT_MS" greatestWord Config.default.timeout
  Config.validate ⟨verifyOnRead, batchSize, useSnapshots, threshold, attempts, timeout⟩

end Environment

/-! ## Documents -/

namespace Config

def fieldNames : List String :=
  ["verify_chain_on_read", "read_batch_size", "use_snapshots", "snapshot_threshold",
    "max_command_attempts", "append_timeout_ms"]

def toJson (c : Config) : Json :=
  .object [("verify_chain_on_read", .bool c.verifyOnRead), ("read_batch_size", .ofNat c.batchSize),
    ("use_snapshots", .bool c.useSnapshots), ("snapshot_threshold", .ofNat c.threshold),
    ("max_command_attempts", .ofNat c.attempts), ("append_timeout_ms", .ofNat c.timeout)]

def ofNode? (n : Node) : Option Config := do
  let [verifyOnRead, batchSize, useSnapshots, threshold, attempts, timeout] ←
    n.slots? fieldNames | none
  return ⟨← verifyOnRead.orDefault default.verifyOnRead Node.bool?,
    ← batchSize.orDefault default.batchSize Node.word?,
    ← useSnapshots.orDefault default.useSnapshots Node.bool?,
    ← threshold.orDefault default.threshold Node.word?,
    ← attempts.orDefault default.attempts Node.short?,
    ← timeout.orDefault default.timeout Node.word?⟩

def flagText (b : Bool) : String :=
  if b then "true" else "false"

def describe (c : Config) : String :=
  "LedgerConfig \x7b verify_chain_on_read: " ++ flagText c.verifyOnRead ++
    ", read_batch_size: " ++ toString c.batchSize ++
    ", use_snapshots: " ++ flagText c.useSnapshots ++
    ", snapshot_threshold: " ++ toString c.threshold ++
    ", max_command_attempts: " ++ toString c.attempts ++
    ", append_timeout_ms: " ++ toString c.timeout ++ " \x7d"

end Config

end TransferLedger

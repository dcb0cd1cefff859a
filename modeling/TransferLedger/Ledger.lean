import TransferLedger.CommandHandler
import TransferLedger.Log.Audit

/-!
# Ledgers

A ledger is a log over a medium and, if there is one, a store for snapshots, and everything that
works on them comes from it.  It is put together only from a sound configuration and a usable key;
of two faults the one in the configuration is reported.
-/

set_option autoImplicit false

namespace TransferLedger

inductive LedgerError where
  | config (e : ConfigError)
  | key (e : KeyError)
  deriving DecidableEq, Repr

def LedgerError.message : LedgerError → String
  | config e => e.message
  | key e => e.message

/-- A log, and whether there is a store for snapshots. -/
structure Ledger where
  log : Log
  snapshots : Bool

namespace Ledger

/-- Put a ledger together. -/
def assemble (c : Config) (key : List UInt8) (snapshots : Bool) : Except LedgerError Ledger :=
  match c.validate with
  | .error e => .error (.config e)
  | .ok c =>
    match Sealer.ofKey key with
    | .error e => .error (.key e)
    | .ok sealer => .ok ⟨⟨sealer, c⟩, snapshots⟩

def coordinator (l : Ledger) : Coordinator :=
  .idle l.log l.snapshots

def handler (l : Ledger) : CommandHandler :=
  .configured l.log l.snapshots

def describe (medium : String) (l : Ledger) : String :=
  "Ledger \x7b log: EventLog \x7b storage: " ++ medium ++ ", verifier: " ++ l.log.sealer.describe ++
    ", config: " ++ l.log.config.describe ++ " \x7d, snapshots: " ++ Config.flagText l.snapshots ++
    " \x7d"

end Ledger

end TransferLedger

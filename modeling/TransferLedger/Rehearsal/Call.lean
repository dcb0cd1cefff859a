import TransferLedger.Transfer.WorkingCopy

/-!
# Calls on a working copy

Everything that a script can ask of a working copy: the operations of the lifecycle, and what the
surroundings of a copy do to it when they rebuild it, store it or write it down.
-/

set_option autoImplicit false

namespace TransferLedger.Rehearsal

/-- What a script asks of a working copy. -/
inductive Call where
  | perform (o : Operation)
  | apply (e : Event)
  | markReplayed (version : Nat)
  | markCommitted (version : Nat)
  | serialize
  /-- Write the state down and read it again, which leaves versions and buffer behind. -/
  | reload

inductive Outcome where
  | done
  | text (s : String)
  | refused (e : OperationError)
  | rejected (e : TransitionError)

/-- The working copy after a call.  A call that fails leaves it as it was. -/
def Call.run (now : Instant) (c : WorkingCopy) : Call → Outcome × WorkingCopy
  | .perform o =>
    match c.perform now o with
    | .ok c => (.done, c)
    | .error e => (.refused e, c)
  | .apply e =>
    match c.apply e with
    | .ok c => (.done, c)
    | .error e => (.rejected e, c)
  | .markReplayed version => (.done, c.markReplayed version)
  | .markCommitted version => (.done, c.markCommitted version)
  | .serialize => (.text c.transfer.text, c)
  | .reload =>
    match Transfer.ofText? c.transfer.text with
    | some t => (.done, .replayed t 0)
    | none => (.done, c)

end TransferLedger.Rehearsal

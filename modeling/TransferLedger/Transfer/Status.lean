/-!
# The lifecycle of a transfer

A transfer moves from one status to the next, and one table says which moves there are.  Operations
ask the table before they emit a fact, and replay asks it before it takes one, so the two can never
disagree about what is legal.

A dispute is not a status: it is raised once, while the transfer is authorized or completed, and
leaves the status as it is.
-/

set_option autoImplicit false

namespace TransferLedger

/-- Where a transfer stands. -/
inductive Status where
  /-- Recorded, awaiting authorization. -/
  | initiated
  /-- Limits and balances have been checked. -/
  | authorized
  /-- The money has moved. -/
  | completed
  /-- Authorization or settlement has failed. -/
  | failed
  /-- The transfer was completed and then undone. -/
  | reversed
  deriving DecidableEq, Repr

/-- A step of the lifecycle. -/
inductive Move where
  | initiate
  | authorize
  | failAuthorization
  | complete
  | failSettlement
  | reverse
  | dispute
  deriving DecidableEq, Repr

namespace Status

def name : Status → String
  | initiated => "Initiated"
  | authorized => "Authorized"
  | completed => "Completed"
  | failed => "Failed"
  | reversed => "Reversed"

def all : List Status :=
  [initiated, authorized, completed, failed, reversed]

def ofName? (name : String) : Option Status :=
  all.find? fun s => s.name == name

/-- Nothing can follow. -/
def isTerminal : Status → Bool
  | failed => true
  | reversed => true
  | _ => false

def label : Option Status → String
  | none => "New"
  | some s => s.name

theorem ofName?_name (s : Status) : ofName? s.name = some s := by
  cases s <;> decide

end Status

namespace Move

def name : Move → String
  | initiate => "Initiate"
  | authorize => "Authorize"
  | failAuthorization => "FailAuthorization"
  | complete => "Complete"
  | failSettlement => "FailSettlement"
  | reverse => "Reverse"
  | dispute => "Dispute"

def all : List Move :=
  [initiate, authorize, failAuthorization, complete, failSettlement, reverse, dispute]

def ofName? (name : String) : Option Move :=
  all.find? fun m => m.name == name

end Move

/-- The status that a move leads to, if the move is legal.  A second dispute is not. -/
def nextStatus (current : Option Status) (disputed : Bool) (m : Move) : Option Status :=
  match current, m with
  | none, .initiate => some .initiated
  | some .initiated, .authorize => some .authorized
  | some .initiated, .failAuthorization => some .failed
  | some .authorized, .complete => some .completed
  | some .authorized, .failSettlement => some .failed
  | some .authorized, .dispute => if disputed then none else some .authorized
  | some .completed, .reverse => some .reversed
  | some .completed, .dispute => if disputed then none else some .completed
  | _, _ => none

theorem nextStatus_of_isTerminal {s : Status} (h : s.isTerminal = true) (disputed : Bool)
    (m : Move) : nextStatus (some s) disputed m = none := by
  cases s <;> simp [Status.isTerminal] at h <;> cases m <;> rfl

end TransferLedger

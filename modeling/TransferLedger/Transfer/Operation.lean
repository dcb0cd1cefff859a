import TransferLedger.Text.Blank
import TransferLedger.Text.Quoted
import TransferLedger.Transfer.State

/-!
# Operations on a transfer

What can be asked of a transfer.  An operation is one move of the lifecycle with its arguments; if
the move is legal and the arguments are sound it becomes one fact, and otherwise nothing happens.
The lifecycle is asked first, so an operation that comes at the wrong time is refused for that,
whatever its arguments.
-/

set_option autoImplicit false

namespace TransferLedger

open TransferLedger.Text

/-- The outcome of the checks of limits and balances. -/
inductive Authorization where
  | approved (code : String)
  | declined (code reason : String)
  deriving DecidableEq, Repr

/-- The outcome of moving the money. -/
inductive Settlement where
  | settled (reference : String)
  | rejected (code reason : String)
  deriving DecidableEq, Repr

/-- What can be asked of a transfer. -/
inductive Operation where
  | initiate (terms : Terms)
  | authorize (outcome : Authorization)
  | settle (outcome : Settlement)
  | reverse (reason : String)
  | dispute (reason : String)
  deriving DecidableEq

/-- What can be wrong with the arguments of an operation. -/
inductive Fault where
  | noAmount
  | notACurrency (given : String)
  | missingAccount
  | sameAccount
  /-- What it is that has no reason. -/
  | missingReason (subject : String)
  deriving DecidableEq, Repr

def Fault.message : Fault → String
  | noAmount => "amount must be positive"
  | notACurrency given => "currency must be a three-letter ISO code, got " ++ quoted given
  | missingAccount => "both counterparts are required"
  | sameAccount => "source and destination accounts must differ"
  | missingReason subject => subject ++ " reason is required"

/-- Why an operation is refused. -/
inductive OperationError where
  /-- The lifecycle does not allow it in this state. -/
  | notAllowed (state operation : String)
  /-- An argument is not sound. -/
  | invalid (reason : String)
  /-- A fact cannot be written down. -/
  | unwritable (reason : String)
  deriving DecidableEq, Repr

namespace OperationError

def message : OperationError → String
  | notAllowed state operation =>
    "Invalid state transition: cannot " ++ operation ++ " a transaction in state " ++ state
  | invalid reason => "Validation error: " ++ reason
  | unwritable reason => "Serialization error: " ++ reason

def isNotAllowed : OperationError → Bool
  | notAllowed .. => true
  | _ => false

def isInvalid : OperationError → Bool
  | invalid _ => true
  | _ => false

end OperationError

/-- A currency is named by three capital letters. -/
def isCurrency (s : String) : Bool :=
  s.toList.length == 3 && s.toList.all fun c => 'A' ≤ c && c ≤ 'Z'

/-- A text of blanks only, or of nothing. -/
def isVoid (s : String) : Bool :=
  s.toList.all isBlank

namespace Operation

def name : Operation → String
  | initiate _ => "initiate"
  | authorize _ => "authorize"
  | settle _ => "settle"
  | reverse _ => "reverse"
  | dispute _ => "dispute"

def move : Operation → Move
  | initiate _ => .initiate
  | authorize (.approved _) => .authorize
  | authorize (.declined ..) => .failAuthorization
  | settle (.settled _) => .complete
  | settle (.rejected ..) => .failSettlement
  | reverse _ => .reverse
  | dispute _ => .dispute

/-- The first fault in the terms of a transfer. -/
def termsFault? (t : Terms) : Option Fault :=
  if t.amount = 0 then some .noAmount
  else if isCurrency t.currency = false then some (.notACurrency t.currency)
  else if t.source = "" ∨ t.destination = "" then some .missingAccount
  else if t.source = t.destination then some .sameAccount
  else none

/-- The first fault in the arguments of an operation. -/
def fault? : Operation → Option Fault
  | initiate terms => termsFault? terms
  | reverse reason => if isVoid reason then some (.missingReason "reversal") else none
  | dispute reason => if isVoid reason then some (.missingReason "dispute") else none
  | authorize _ => none
  | settle _ => none

/-- The fact that an operation becomes. -/
def event (id : String) (now : Instant) : Operation → Event
  | initiate terms => .initiated id terms now
  | authorize (.approved code) => .authorized code now
  | authorize (.declined code reason) => .failed .authorization code reason now
  | settle (.settled reference) => .completed reference now
  | settle (.rejected code reason) => .failed .settlement code reason now
  | reverse reason => .reversed reason now
  | dispute reason => .disputed reason now

theorem move_event (id : String) (now : Instant) (o : Operation) :
    (o.event id now).move = o.move := by
  cases o with
  | authorize outcome => cases outcome <;> rfl
  | settle outcome => cases outcome <;> rfl
  | _ => rfl

end Operation

/-- The fact that an operation becomes, or why it is refused. -/
def Transfer.decide (t : Transfer) (now : Instant) (o : Operation) :
    Except OperationError Event :=
  match t.next? o.move, o.fault? with
  | none, _ => .error (.notAllowed t.stateName o.name)
  | some _, some fault => .error (.invalid fault.message)
  | some _, none => .ok (o.event t.id now)

end TransferLedger

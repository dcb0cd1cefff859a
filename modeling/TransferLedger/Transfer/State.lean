import TransferLedger.Transfer.Event

/-!
# The state of a transfer

What is known about a transfer after some of its facts.  A fact is taken only if the lifecycle
allows its move, and then it leaves its data and the new status behind; nothing else changes the
state.
-/

set_option autoImplicit false

namespace TransferLedger

open Json

/-- Why a transfer has failed. -/
structure Failure where
  stage : Stage
  code : String
  reason : String
  deriving DecidableEq

/-- What is known about a transfer. -/
structure Transfer where
  /-- The name of the transfer, and of its stream. -/
  id : String
  status : Option Status
  terms : Terms
  /-- The reference of the authorization. -/
  authorization : Option String
  /-- The reference of the settlement. -/
  settlement : Option String
  failure : Option Failure
  /-- Why the transfer was reversed. -/
  reversal : Option String
  /-- Why the transfer was disputed. -/
  dispute : Option String
  deriving DecidableEq

/-- A fact that the lifecycle does not allow. -/
structure TransitionError where
  /-- The state that the transfer is in. -/
  state : String
  /-- The kind of the fact. -/
  kind : String
  deriving DecidableEq, Repr

def TransitionError.message (e : TransitionError) : String :=
  "event " ++ e.kind ++ " is not valid in state " ++ e.state

namespace Transfer

def blank (id : String) : Transfer :=
  ⟨id, none, ⟨0, "", "", ""⟩, none, none, none, none, none⟩

def disputed (t : Transfer) : Bool :=
  t.dispute.isSome

def stateName (t : Transfer) : String :=
  if t.disputed then Status.label t.status ++ " (disputed)" else Status.label t.status

/-- The status that a move leads to, if the move is legal. -/
def next? (t : Transfer) (m : Move) : Option Status :=
  nextStatus t.status t.disputed m

/-- The data of a fact go into the state. -/
def absorb (t : Transfer) : Event → Transfer
  | .initiated _ terms _ => { t with terms := terms }
  | .authorized code _ => { t with authorization := some code }
  | .failed stage code reason _ => { t with failure := some ⟨stage, code, reason⟩ }
  | .completed reference _ => { t with settlement := some reference }
  | .reversed reason _ => { t with reversal := some reason }
  | .disputed reason _ => { t with dispute := some reason }

/-- Take a fact. -/
def apply (t : Transfer) (e : Event) : Except TransitionError Transfer :=
  match t.next? e.move with
  | some next => .ok { t.absorb e with status := some next }
  | none => .error ⟨t.stateName, e.kind⟩

/-- Take facts one after the other, up to the first that is refused. -/
def applyAll (t : Transfer) : List Event → Except TransitionError Transfer
  | [] => .ok t
  | e :: rest =>
    match t.apply e with
    | .ok t => t.applyAll rest
    | .error x => .error x

theorem applyAll_append (t : Transfer) (es fs : List Event) :
    t.applyAll (es ++ fs) =
      match t.applyAll es with
      | .ok u => u.applyAll fs
      | .error x => .error x := by
  induction es generalizing t with
  | nil => rfl
  | cons e es ih =>
    simp only [List.cons_append, applyAll]
    cases t.apply e with
    | ok u => exact ih u
    | error x => rfl

theorem applyAll_snoc {t u v : Transfer} {es : List Event} {e : Event}
    (h : t.applyAll es = .ok u) (he : u.apply e = .ok v) : t.applyAll (es ++ [e]) = .ok v := by
  rw [applyAll_append, h]
  simp only [applyAll, he]

theorem applyAll_cons_eq_ok {t u : Transfer} {e : Event} {es : List Event} :
    t.applyAll (e :: es) = .ok u ↔ ∃ v, t.apply e = .ok v ∧ v.applyAll es = .ok u := by
  simp only [applyAll]
  cases t.apply e with
  | ok v => simp
  | error x => simp

/-- A fact does not change whose transfer it is. -/
theorem id_of_apply {t u : Transfer} {e : Event} (h : t.apply e = .ok u) : u.id = t.id := by
  unfold apply at h
  split at h
  · obtain rfl := Except.ok.inj h
    cases e <;> rfl
  · simp at h

theorem id_of_applyAll {t u : Transfer} {es : List Event} (h : t.applyAll es = .ok u) :
    u.id = t.id := by
  induction es generalizing t with
  | nil => rw [Except.ok.inj h]
  | cons e rest ih =>
    obtain ⟨v, ha, hrest⟩ := applyAll_cons_eq_ok.1 h
    rw [ih hrest, id_of_apply ha]

end Transfer

/-! ## Documents -/

namespace Failure

def toJson (f : Failure) : Json :=
  .object [("stage", .string f.stage.name), ("code", .string f.code), ("reason", .string f.reason)]

def ofNode? (n : Node) : Option Failure := do
  let [stage, code, reason] ← n.slots? ["stage", "code", "reason"] | none
  return ⟨← stage.required fun n => n.name?.bind Stage.ofName?, ← code.required Node.text?,
    ← reason.required Node.text?⟩

end Failure

namespace Transfer

def fieldNames : List String :=
  ["id", "status", "amount", "currency", "source_account", "destination_account",
    "authorization_code", "settlement_reference", "failure", "reversal_reason", "dispute_reason"]

def toJson (t : Transfer) : Json :=
  .object [("id", .string t.id), ("status", ofText? (t.status.map Status.name)),
    ("amount", .ofWord t.terms.amount), ("currency", .string t.terms.currency),
    ("source_account", .string t.terms.source),
    ("destination_account", .string t.terms.destination),
    ("authorization_code", ofText? t.authorization), ("settlement_reference", ofText? t.settlement),
    ("failure", (t.failure.map Failure.toJson).getD .null), ("reversal_reason", ofText? t.reversal),
    ("dispute_reason", ofText? t.dispute)]

def text (t : Transfer) : String :=
  t.toJson.text

def ofNode? (n : Node) : Option Transfer := do
  let [id, status, amount, currency, source, destination, authorization, settlement, failure,
    reversal, dispute] ← n.slots? fieldNames | none
  return ⟨← id.required Node.text?,
    ← status.optional fun n => n.name?.bind Status.ofName?,
    ⟨← amount.required Node.amount?, ← currency.required Node.text?, ← source.required Node.text?,
      ← destination.required Node.text?⟩,
    ← authorization.optional Node.text?, ← settlement.optional Node.text?,
    ← failure.optional Failure.ofNode?, ← reversal.optional Node.text?,
    ← dispute.optional Node.text?⟩

def ofText? (s : String) : Option Transfer :=
  (read? s).bind ofNode?

def ofJson? (v : Json) : Option Transfer :=
  ofNode? (toNode v)

end Transfer

end TransferLedger

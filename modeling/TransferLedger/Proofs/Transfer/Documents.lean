import TransferLedger.Proofs.Json.Decode
import TransferLedger.Proofs.Json.Node
import TransferLedger.Proofs.Time.Rfc3339
import TransferLedger.Transfer.State

/-!
# Facts and states are read back

A fact that is written down is the fact that is read (`Event.ofText?_text`), and a state that is put
aside in canonical form is the state that is restored (`Transfer.ofJson?_canonical`).  A replay
therefore sees the facts that were decided, and a snapshot loses nothing.
-/

set_option autoImplicit false

namespace TransferLedger

open TransferLedger.Text Json

/-! ## Leaves -/

theorem Json.instant?_ofInstant (i : Instant) : (toNode (ofInstant i)).instant? = some i := by
  rw [ofInstant, toNode, Node.instant?, Node.text?, Option.bind_some]
  exact Instant.ofText?_text i

theorem toNat_le_greatestWord (w : UInt64) : w.toNat ≤ greatestWord :=
  Nat.le_pred_of_lt w.toNat_lt

theorem Json.amount?_ofWord (w : UInt64) : (toNode (ofWord w)).amount? = some w := by
  simp only [ofWord, ofNat, toNode, Node.amount?, Node.word?, Node.upTo?,
    if_pos (toNat_le_greatestWord w), Option.map_some, UInt64.ofNat_toNat]

theorem Json.optional_ofText? (s : Option String) :
    (Slot.given (toNode (ofText? s))).optional Node.text? = some s := by
  cases s with
  | none => rfl
  | some s => rfl

theorem Json.canonical_ofText? (s : Option String) : canonical (ofText? s) = ofText? s := by
  cases s with
  | none => rfl
  | some s => rfl

theorem Json.readable_ofWord (level : Nat) (w : UInt64) : Readable level (ofWord w) :=
  toNat_le_greatestWord w

/-! ## Facts -/

namespace Event

theorem readable_data (level : Nat) (e : Event) : ReadableFields level e.data := by
  cases e with
  | initiated id terms time =>
    exact ⟨trivial, readable_ofWord level terms.amount, trivial, trivial, trivial, trivial, trivial⟩
  | authorized | completed | reversed | disputed => exact ⟨trivial, trivial, trivial⟩
  | failed => exact ⟨trivial, trivial, trivial, trivial, trivial⟩

theorem readable_toJson (e : Event) : Readable 0 e.toJson :=
  ⟨by decide, trivial, ⟨by decide, readable_data 2 e⟩, trivial⟩

/-- What the data of a fact say about its fields. -/
theorem slots?_data (e : Event) :
    (Node.object (toFields e.data)).slots? (e.data.map Prod.fst) =
      some (e.data.map fun f => .given (toNode f.2)) := by
  cases e <;> rfl

theorem fieldNames?_kind (e : Event) : fieldNames? e.kind = some (e.data.map Prod.fst) := by
  cases e <;> rfl

theorem ofSlots?_data (e : Event) :
    ofSlots? Node.name? e.kind (e.data.map fun f => .given (toNode f.2)) = some e := by
  cases e with
  | failed stage code reason time =>
    simp [ofSlots?, data, kind, Slot.required, toNode, Node.name?, Node.text?, Stage.ofName?_name,
      instant?_ofInstant]
  | initiated | authorized | completed | reversed | disputed =>
    simp [ofSlots?, data, kind, Slot.required, toNode, Node.text?, amount?_ofWord,
      instant?_ofInstant]

/-- A fact that is written down is read back. -/
theorem ofText?_text (e : Event) : ofText? e.text = some e := by
  rw [ofText?, text, read?_text (readable_toJson e), Option.bind_some]
  show (some e.kind).bind (fun kind => ofParts? Node.name? kind (.object (toFields e.data))) = _
  rw [Option.bind_some, ofParts?, fieldNames?_kind]
  simp only [Option.bind_eq_bind, Option.bind_some, slots?_data]
  exact ofSlots?_data e

end Event

/-! ## States -/

/-- A failure in canonical form is read back. -/
theorem Failure.ofNode?_canonical (f : Failure) :
    Failure.ofNode? (toNode (canonical f.toJson)) = some f := by
  have distinct : ["stage", "code", "reason"].Nodup := by decide
  have hs : (toNode (canonical f.toJson)).slots? ["stage", "code", "reason"] =
      some [.given (.string f.stage.name), .given (.string f.code), .given (.string f.reason)] :=
    slots?_canonical (by exact distinct) _
  rw [Failure.ofNode?, hs]
  simp [Slot.required, Node.name?, Node.text?, Stage.ofName?_name]

namespace Transfer

/-- The fields of a state in canonical form, as they are found. -/
theorem slots?_canonical (t : Transfer) :
    (toNode (canonical t.toJson)).slots? fieldNames = some
      [.given (.string t.id), .given (toNode (Json.ofText? (t.status.map Status.name))),
        .given (toNode (ofWord t.terms.amount)), .given (.string t.terms.currency),
        .given (.string t.terms.source), .given (.string t.terms.destination),
        .given (toNode (Json.ofText? t.authorization)), .given (toNode (Json.ofText? t.settlement)),
        .given (toNode (canonical ((t.failure.map Failure.toJson).getD .null))),
        .given (toNode (Json.ofText? t.reversal)), .given (toNode (Json.ofText? t.dispute))] := by
  have distinct : fieldNames.Nodup := by decide
  rw [toJson, Json.slots?_canonical (by exact distinct)]
  simp only [canonicalFields, canonical_ofText?]
  rfl

theorem optional_status (s : Option Status) :
    (Slot.given (toNode (Json.ofText? (s.map Status.name)))).optional
      (fun n => n.name?.bind Status.ofName?) = some s := by
  cases s with
  | none => rfl
  | some s => cases s <;> rfl

theorem optional_failure (f : Option Failure) :
    (Slot.given (toNode (canonical ((f.map Failure.toJson).getD .null)))).optional
      Failure.ofNode? = some f := by
  cases f with
  | none => rfl
  | some f =>
    show (Failure.ofNode? (toNode (canonical f.toJson))).map some = _
    rw [Failure.ofNode?_canonical]
    rfl

/-- A state that is put aside in canonical form is read back. -/
theorem ofJson?_canonical (t : Transfer) : ofJson? (canonical t.toJson) = some t := by
  rw [ofJson?, ofNode?, slots?_canonical]
  simp [optional_status, optional_failure, optional_ofText?, amount?_ofWord, Slot.required,
    Node.text?]

end Transfer

end TransferLedger

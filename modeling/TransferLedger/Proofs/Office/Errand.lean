import TransferLedger.Ledger

/-!
# Errands

What somebody can come to a ledger for: to append, to stage batches and store them, to put down a
working copy and work on it, to have coordinators commit it, to have a command handled.  An errand
is a dialogue, so others come in between.  What a clerk has in hand after one errand, his open
batches and his coordinators, is there for the next one.

Working copies are in nobody's hand.  They lie where everybody who knows the name of one can work on
it, and they come from a rebuild or start blank.
-/

set_option autoImplicit false

namespace TransferLedger

/-- What a clerk has in hand between two errands. -/
structure Desk where
  /-- Open batches, each with the log that it is for. -/
  batches : Nat → Option (Log × Batch)
  coordinators : Nat → Option Coordinator

def Desk.bare : Desk :=
  ⟨fun _ => none, fun _ => none⟩

/-- What somebody can come for.  Batches and coordinators go by numbers that the clerk chooses. -/
inductive Errand where
  | append (log : Log) (stream : String) (entries : List Entry) (expected : Nat)
  | openBatch (k : Nat) (log : Log)
  | stage (k : Nat) (stream : String) (entries : List Entry) (expected : Nat)
  | store (k : Nat)
  | discard (k : Nat)
  /-- Put down a working copy of a stream without facts. -/
  | start (stream : String)
  /-- Rebuild a transfer and put down the working copy. -/
  | rebuild (log : Log) (snapshots : Bool) (stream : String)
  | perform (h : HandleId) (o : Operation)
  /-- Get a coordinator. -/
  | hire (k : Nat) (log : Log) (snapshots : Bool) (policy : SnapshotPolicy)
  /-- Name a working copy to a coordinator. -/
  | track (k : Nat) (h : HandleId)
  /-- Open a transaction. -/
  | begin (k : Nat)
  /-- Store what is buffered, or stage it inside a transaction. -/
  | push (k : Nat)
  | commit (k : Nat)
  | rollback (k : Nat)
  | handle (h : CommandHandler) (id : CommandId) (c : Command)
  | audit (log : Log) (stream : String)

namespace Desk

def setBatch (d : Desk) (k : Nat) (b : Option (Log × Batch)) : Desk :=
  { d with batches := Keyed.set d.batches k b }

def setCoordinator (d : Desk) (k : Nat) (c : Coordinator) : Desk :=
  { d with coordinators := Keyed.set d.coordinators k (some c) }

/-- The desk after a coordinator has come back from some work. -/
def after (d : Desk) (k : Nat) (work : Dialogue (Except CommitError Nat × Coordinator)) :
    Dialogue Desk := do
  let (_, c) ← work
  return d.setCoordinator k c

end Desk

namespace Errand

def log? : Errand → Option Log
  | append log .. => some log
  | openBatch _ log => some log
  | rebuild log .. => some log
  | hire _ log .. => some log
  | handle h .. => some h.log
  | audit log _ => some log
  | _ => none

/-- The log of an errand, if it brings one, seals with a given key. -/
def SealedBy (s : Sealer) (e : Errand) : Prop :=
  ∀ log ∈ e.log?, log.sealer = s

/-- The errand is to store entries that are nobody's facts: to append them, or to open a batch for
them. -/
def Raw : Errand → Prop
  | append .. => True
  | openBatch .. => True
  | _ => False

/-- Run an errand.  An errand for a batch or a coordinator that is not there comes to nothing. -/
def work (d : Desk) : Errand → Dialogue Desk
  | append log stream entries expected => do
    let _ ← log.append stream entries expected
    return d
  | openBatch k log => return d.setBatch k (some (log, .empty))
  | stage k stream entries expected =>
    match d.batches k with
    | none => return d
    | some (log, b) => do
      match ← log.stage b stream entries expected with
      | .ok (_, b) => return d.setBatch k (some (log, b))
      | .error _ => return d
  | store k =>
    match d.batches k with
    | none => return d
    | some (log, b) => do
      let _ ← log.commit b
      return d.setBatch k none
  | discard k => return d.setBatch k none
  | start stream => do
    let _ ← Dialogue.place (.blank stream)
    return d
  | rebuild log snapshots stream => do
    match ← log.rebuild snapshots stream with
    | .ok b =>
      let _ ← Dialogue.place b.copy
      return d
    | .error _ => return d
  | perform h o => do
    let _ ← Dialogue.perform h o
    return d
  | hire k log snapshots policy =>
    return d.setCoordinator k { Coordinator.idle log snapshots with policy := policy }
  | track k h =>
    match d.coordinators k with
    | none => return d
    | some c => return d.setCoordinator k (c.track h)
  | begin k =>
    match d.coordinators k with
    | none => return d
    | some c =>
      match c.begin with
      | .ok c => return d.setCoordinator k c
      | .error _ => return d
  | push k =>
    match d.coordinators k with
    | none => return d
    | some c => d.after k c.push
  | commit k =>
    match d.coordinators k with
    | none => return d
    | some c => d.after k c.commit
  | rollback k =>
    match d.coordinators k with
    | none => return d
    | some c =>
      match c.rollback with
      | .ok (_, c) => return d.setCoordinator k c
      | .error _ => return d
  | handle h id c => do
    let _ ← h.handle id c
    return d
  | audit log stream => do
    let _ ← log.audit stream
    return d

end Errand

end TransferLedger

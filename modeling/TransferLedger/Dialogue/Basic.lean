import TransferLedger.Dialogue.Request

/-!
# Dialogues

A piece of work that needs its surroundings is a dialogue: it asks, and what it does next depends on
the answer.  A dialogue says nothing about where the answers come from.  Run in some surroundings
from beginning to end it is a function of their state; led by several at once, one request of
somebody at a time, it is what happens when they share them.
-/

set_option autoImplicit false

namespace TransferLedger

/-- Work that asks its surroundings and comes to a result. -/
inductive Dialogue (α : Type) where
  | done (a : α)
  | ask (q : Request) (next : q.Answer → Dialogue α)

namespace Dialogue

variable {α β : Type}

def bind (t : Dialogue α) (f : α → Dialogue β) : Dialogue β :=
  match t with
  | .done a => f a
  | .ask q next => .ask q fun a => (next a).bind f

instance : Monad Dialogue where
  pure := .done
  bind := .bind

/-! ## Single requests -/

def head (stream : String) : Dialogue (Except StoreError Head) :=
  .ask (.head stream) .done

def page (stream : String) (start limit : Nat) : Dialogue (Except StoreError (List Record)) :=
  .ask (.page stream start limit) .done

def commit (allowed : Nat) (appends : List Append) : Dialogue Reply :=
  .ask (.commit allowed appends) .done

def save (x : Snapshot) : Dialogue (Except SnapshotError Unit) :=
  .ask (.save x) .done

def load (stream : String) : Dialogue (Except SnapshotError (Option Snapshot)) :=
  .ask (.load stream) .done

def time : Dialogue Instant :=
  .ask .time .done

def look (h : HandleId) : Dialogue (Option WorkingCopy) :=
  .ask (.look h) .done

/-- Tell a working copy how far it has been stored. -/
def confirm (h : HandleId) (version : Nat) : Dialogue (Option WorkingCopy) :=
  .ask (.confirm h version) .done

def place (c : WorkingCopy) : Dialogue HandleId :=
  .ask (.place c) .done

def perform (h : HandleId) (o : Operation) : Dialogue (Option (Except OperationError Unit)) :=
  .ask (.perform h o) .done

/-! ## Running -/

/-- Lead a dialogue to its end. -/
def run {ω : Type} [Surroundings ω] : Dialogue α → ω → α × ω
  | .done a, w => (a, w)
  | .ask q next, w =>
    let (a, w) := Surroundings.answer q w
    (next a).run w

/-- The dialogue of somebody who holds one working copy that nobody else knows of: it is no part of
the surroundings, so what is asked about it is answered here, whatever it is called. -/
def holding (c : WorkingCopy) : Dialogue α → Dialogue (α × WorkingCopy)
  | .done a => .done (a, c)
  | .ask (.look _) next => (next (some c)).holding c
  | .ask (.confirm _ version) next =>
    (next (some (c.markCommitted version))).holding (c.markCommitted version)
  | .ask q next => .ask q fun a => (next a).holding c

end Dialogue

end TransferLedger

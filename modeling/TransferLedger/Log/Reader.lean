import TransferLedger.Log.Basic

/-!
# Reading a stream

A reader hands out the records of a stream one by one and fetches them from the medium page by page,
when they are asked for.  A page that is shorter than it could be is the last one.

A reader that checks the chain follows it with a cursor.  When it starts behind the first record it
first has to find the record before its start, in its place and with its own hash right, because the
chain is taken up from there.  A reader that does not check asks only that the positions have no
gaps.  After an error, and after the end, a reader is at its end for good.
-/

set_option autoImplicit false

namespace TransferLedger

structure Reader where
  stream : String
  /-- The sealer to check the chain with, if it is checked. -/
  sealer? : Option Sealer
  /-- The position of the next record. -/
  next : Nat
  /-- The number of records in a full page. -/
  batch : Nat
  /-- Records that have been fetched and not handed out. -/
  buffer : List Record
  /-- How far the chain has been followed. -/
  cursor? : Option Cursor
  /-- The last page has been fetched. -/
  exhausted : Bool
  done : Bool

inductive Item where
  | record (r : Record)
  | failed (e : StoreError)
  | ended

/-- A reader of a stream from a position on, with pages of a given size. -/
def Log.reader (log : Log) (stream : String) (start batch : Nat) : Reader :=
  ⟨stream, if log.config.verifyOnRead then some log.sealer else none, max start 1, max batch 1,
    [], none, false, false⟩

/-- A reader of a stream with pages of the configured size. -/
def Log.streamReader (log : Log) (stream : String) (start : Nat) : Reader :=
  log.reader stream start log.config.batchSize

namespace Reader

/-- A reader at its end. -/
def finish (r : Reader) : Reader :=
  { r with done := true }

/-- The record before the start is in its place and its own hash is right. -/
def anchor (s : Sealer) (stream : String) (boundary : Nat) (p : Record) :
    Except ChainError Cursor :=
  if p.sequence ≠ boundary then .error (.sequenceGap stream boundary p.sequence)
  else if p.stream ≠ stream ∨ s.accepts p p.previous = false then
    .error (.hashMismatch stream p.sequence)
  else .ok (.resume stream p.sequence p.hash)

/-- The cursor behind the record before the start, or nothing if the stream ends before it. -/
def findAnchor (s : Sealer) (stream : String) (boundary : Nat) :
    Dialogue (Except StoreError (Option Cursor)) := do
  match ← Dialogue.page stream boundary 1 with
  | .error e => return .error e
  | .ok (p :: _) =>
    match anchor s stream boundary p with
    | .ok c => return .ok (some c)
    | .error e => return .error (.integrity e)
  | .ok [] =>
    match ← Dialogue.head stream with
    | .error e => return .error e
    | .ok h =>
      if h.version < boundary then return .ok none
      else return .error (.integrity (.sequenceGap stream boundary h.version))

/-- A reader that checks the chain gets its cursor.  Nothing, if the stream ends before the
start. -/
def prime (r : Reader) : Dialogue (Except StoreError (Option Reader)) :=
  match r.sealer?, r.cursor? with
  | some s, none =>
    if r.next = 1 then return .ok (some { r with cursor? := some (.start r.stream) })
    else do
      match ← findAnchor s r.stream (r.next - 1) with
      | .error e => return .error e
      | .ok none => return .ok none
      | .ok (some c) => return .ok (some { r with cursor? := some c })
  | _, _ => return .ok (some r)

/-- A reader with an empty buffer fetches a page, unless it has fetched the last. -/
def fill (r : Reader) : Dialogue (Except StoreError Reader) :=
  if r.buffer.isEmpty && !r.exhausted then do
    match ← Dialogue.page r.stream r.next r.batch with
    | .error e => return .error e
    | .ok page => return .ok { r with buffer := page, exhausted := page.length < r.batch }
  else return .ok r

/-- The record is the next one. -/
def check (r : Reader) (x : Record) : Except ChainError (Option Cursor) :=
  match r.sealer?, r.cursor? with
  | some s, some c => (c.advance s x).map some
  | _, c =>
    if x.sequence = r.next then .ok c else .error (.sequenceGap r.stream r.next x.sequence)

/-- The next record out of the buffer. -/
def take (r : Reader) : Item × Reader :=
  match r.buffer with
  | [] => (.ended, r.finish)
  | x :: rest =>
    match r.check x with
    | .error e => (.failed (.integrity e), r.finish)
    | .ok c => (.record x, { r with buffer := rest, cursor? := c, next := x.sequence + 1 })

/-- The next record of the stream. -/
def step (r : Reader) : Dialogue (Item × Reader) := do
  if r.done then return (.ended, r)
  match ← r.prime with
  | .error e => return (.failed e, r.finish)
  | .ok none => return (.ended, r.finish)
  | .ok (some r) =>
    match ← r.fill with
    | .error e => return (.failed e, r.finish)
    | .ok r => return r.take

/-- Why a run along a stream has stopped. -/
inductive Stop (ε : Type) where
  | ended
  | failed (e : StoreError)
  | refused (e : ε)

/-- Hand records one by one to `take`, at most `bound` of them, until something stops that.  What
has become of the state, and why it stopped. -/
def runWithin {σ ε : Type} (take : σ → Record → Except ε σ) :
    (bound : Nat) → σ → Reader → Dialogue (σ × Stop ε)
  | 0, s, _ => return (s, .ended)
  | bound + 1, s, r => do
    match ← r.step with
    | (.ended, _) => return (s, .ended)
    | (.failed e, _) => return (s, .failed e)
    | (.record x, r) =>
      match take s x with
      | .error e => return (s, .refused e)
      | .ok s => runWithin take bound s r

/-- There are no more positions than words, and a reader hands out no position twice. -/
def positions : Nat := Nat.pow 2 64

/-- Hand all records of a reader to `take`. -/
def run {σ ε : Type} (take : σ → Record → Except ε σ) (s : σ) (r : Reader) :
    Dialogue (σ × Stop ε) :=
  runWithin take positions s r

/-- Put a record in front of the ones before it. -/
def collect (done : List Record) (x : Record) : Except StoreError (List Record) :=
  .ok (x :: done)

/-- All records of a reader, and the error that ended them, if one did. -/
def toList (r : Reader) : Dialogue (List Record × Option StoreError) := do
  match ← r.run collect [] with
  | (done, .failed e) => return (done.reverse, some e)
  | (done, .refused e) => return (done.reverse, some e)
  | (done, .ended) => return (done.reverse, none)

end Reader

end TransferLedger

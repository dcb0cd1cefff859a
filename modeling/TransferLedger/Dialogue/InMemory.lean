import TransferLedger.Dialogue.Basic
import TransferLedger.Store.Memory

/-!
# Surroundings in memory

Streams, snapshots and working copies in memory, and a clock that somebody sets.
-/

set_option autoImplicit false

namespace TransferLedger

/-- Everything a ledger in memory works on. -/
structure InMemory where
  medium : Memory
  shelf : Shelf
  clock : Instant
  /-- The working copies that have been put down, the first one first. -/
  copies : List WorkingCopy

namespace InMemory

/-- Nothing is stored, and nobody works on anything. -/
def empty (clock : Instant) : InMemory :=
  ⟨.empty, .empty, clock, []⟩

def answer : (q : Request) → InMemory → q.Answer × InMemory
  | .head stream, w => (w.medium.readHead stream, w)
  | .page stream start limit, w => (w.medium.readPage stream start limit, w)
  | .commit _ appends, w =>
    let (reply, medium) := w.medium.reply appends
    (reply, { w with medium := medium })
  | .save x, w => (.ok (), { w with shelf := w.shelf.save x })
  | .load stream, w => (w.shelf.load stream, w)
  | .time, w => (w.clock, w)
  | .look h, w => (w.copies[h]?, w)
  | .confirm h version, w =>
    (w.copies[h]?.map (·.markCommitted version),
      { w with copies := w.copies.modify h (·.markCommitted version) })
  | .place c, w => (w.copies.length, { w with copies := w.copies ++ [c] })
  | .perform h o, w =>
    match w.copies[h]? with
    | none => (none, w)
    | some c =>
      match c.perform w.clock o with
      | .ok c => (some (.ok ()), { w with copies := w.copies.set h c })
      | .error e => (some (.error e), w)

instance : Surroundings InMemory where
  answer := answer

end InMemory

end TransferLedger

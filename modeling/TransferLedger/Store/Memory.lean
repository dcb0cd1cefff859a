import TransferLedger.Store.Keyed
import TransferLedger.Store.Storage

/-!
# Streams in memory

A medium that holds every stream as a list.  The record at position `n` is the `n`th of the list, so
a page is a slice of it.  Appends are checked all together, each against the stream as the ones
before it leave it, and only then stored.

The medium cuts a page out of its list at two indices, and it reckons in words: a position has 64
bits, an index as many as the machine gives it, which may be fewer.
-/

set_option autoImplicit false

namespace TransferLedger

structure Memory where
  records : String → List Record
  available : Bool

namespace Append

/-- The end that records leave behind if they continue a stream from a head. -/
def link (stream : String) : Head → List Record → Except ChainError Head
  | h, [] => .ok h
  | h, r :: rest =>
    if r.stream ≠ stream ∨ r.sequence ≠ h.version + 1 then
      .error (.sequenceGap stream (h.version + 1) r.sequence)
    else if r.previous ≠ h.hash then
      .error (.brokenChain stream r.sequence "staged event does not link to the durable head")
    else link stream r.head rest

/-- The end of the stream after an append, if it fits behind a head. -/
def fit (a : Append) (h : Head) : Except StoreError Head :=
  if h.version ≠ a.expected then .error (.conflict a.stream a.expected h.version)
  else
    match link a.stream h a.records with
    | .ok h => .ok h
    | .error e => .error (.integrity e)

/-- The first error among appends, each behind the ends that the ones before it leave. -/
def check (heads : String → Head) : List Append → Except StoreError Unit
  | [] => .ok ()
  | a :: rest =>
    match a.fit (heads a.stream) with
    | .ok h => check (Keyed.set heads a.stream h) rest
    | .error e => .error e

end Append

/-- A part of a list, from the index `first` on and up to the index `last`, without it. -/
structure Span where
  first : USize
  last : USize

/-- The part of a list that is the page from the position `start` on.  A number that is too large
for an index counts as the greatest index, and no index is greater than the length. -/
def Span.ofPage (start : UInt64) (limit length : USize) : Span :=
  let first := min (.ofNatClamp (max start 1 - 1).toNat) length
  ⟨first, min (.ofNatClamp (first.toNat + limit.toNat)) length⟩

namespace Memory

def empty : Memory :=
  ⟨fun _ => [], true⟩

def outage : StoreError :=
  .unavailable "in-memory storage marked unavailable"

def head (m : Memory) (stream : String) : Head :=
  Head.empty.after (m.records stream)

/-- At most `limit` elements of a list, from the position `start` on, where the first is at
position 1. -/
def slice (start limit : Nat) (rs : List Record) : List Record :=
  (rs.drop (max start 1 - 1)).take limit

/-- The medium with more records at the end of a stream. -/
def store (m : Memory) (a : Append) : Memory :=
  let longer := m.records a.stream ++ a.records
  { m with records := Keyed.set m.records a.stream longer }

/-- The medium after appends, if all of them fit. -/
def commit (m : Memory) (appends : List Append) : Except StoreError Memory :=
  if m.available = false then .error outage
  else
    match Append.check m.head appends with
    | .ok () => .ok (appends.foldl store m)
    | .error e => .error e

/-- A list with the first record at a position changed. -/
def alterFirst (sequence : Nat) (change : Record → Record) : List Record → Option (List Record)
  | [] => none
  | r :: rest =>
    if r.sequence = sequence then some (change r :: rest)
    else (alterFirst sequence change rest).map (r :: ·)

/-- The medium with one record changed behind the back of the log, if there is such a record. -/
def tamper (m : Memory) (stream : String) (sequence : Nat) (change : Record → Record) :
    Option Memory :=
  (alterFirst sequence change (m.records stream)).map fun changed =>
    { m with records := Keyed.set m.records stream changed }

def readHead (m : Memory) (stream : String) : Except StoreError Head :=
  if m.available then .ok (m.head stream) else .error outage

def readPage (m : Memory) (stream : String) (start limit : Nat) : Except StoreError (List Record) :=
  if m.available then .ok (slice start limit (m.records stream)) else .error outage

/-- A page as the medium cuts it out of its list. -/
def cutPage (m : Memory) (stream : String) (start : UInt64) (limit : USize) :
    Except StoreError (List Record) :=
  let rs := m.records stream
  let span := Span.ofPage start limit (.ofNat rs.length)
  if m.available then .ok (rs.extract span.first.toNat span.last.toNat) else .error outage

/-- What the medium answers to appends. -/
def reply (m : Memory) (appends : List Append) : Reply × Memory :=
  match m.commit appends with
  | .ok m => (.applied, m)
  | .error e => (.refused e, m)

/-- Positions begin at one, so a page from zero on is one from one on. -/
theorem slice_eq (start limit : Nat) (rs : List Record) :
    slice start limit rs = (rs.drop (start - 1)).take limit := by
  rw [slice, show max start 1 - 1 = start - 1 by omega]

theorem records_store_other (m : Memory) (a : Append) {stream : String} (h : stream ≠ a.stream) :
    (m.store a).records stream = m.records stream :=
  Keyed.set_other _ _ h

theorem records_store_same (m : Memory) (a : Append) :
    (m.store a).records a.stream = m.records a.stream ++ a.records :=
  Keyed.set_same ..

end Memory

end TransferLedger

import TransferLedger.Proofs.Rebuild.Taking

/-!
# Stored forms

A fact is stored as a text with its kind beside it, and a state as a value with a checksum.  A
rebuild reads both, and finds what was put there (`stored_forms_read_back`): no text of a fact is
taken for another fact or for none, no kind disagrees with the one inside the text, and no field of
a state is lost or added on the way.  The rest is remade, not stored: the versions of a restored
copy are that of the snapshot, and its buffer is empty.
-/

set_option autoImplicit false

namespace TransferLedger

open Json

/-- The text of a fact names its kind once, and puts it where the kind is looked for. -/
theorem Event.tag_text (e : Event) :
    ∃ fields, read? e.text = some (.object fields) ∧
      fieldSlot? fields "type" = some (.given (.string e.kind)) := by
  refine ⟨[("type", .string e.kind), ("data", .object (toFields e.data))], ?_, rfl⟩
  exact read?_text e.readable_toJson

/-- A fact that is recorded is the fact that is read, of the kind that is stored beside it; and a
state that is put aside for some version is the state that is restored, at that version and with
nothing buffered. -/
theorem stored_forms_read_back :
    (∀ (e : Event) (now : Instant) (r : Record), r.entry = e.entry now →
      r.event = .ok e ∧ r.kind = e.kind ∧
      ∃ fields, read? r.payload = some (.object fields) ∧
        fieldSlot? fields "type" = some (.given (.string r.kind))) ∧
    ∀ (c : WorkingCopy) (version : Nat) (now : Instant),
      let x := Snapshot.capture now c.stream Transfer.snapshotType version c.transfer.toJson
      x.isIntact = true ∧ x.restore c.stream = .ok ⟨c.transfer, version, version, []⟩ := by
  refine ⟨fun e now r stored => ?_, fun c version now => ?_⟩
  · have carried := Record.carries_entry stored
    refine ⟨Record.event_of_carries carried, carried.1, ?_⟩
    rw [carried.1, carried.2]
    exact e.tag_text
  · exact ⟨Snapshot.isIntact_capture .., c.transfer.restore_capture version now⟩

/-- A failure with a quote, a backslash, a control character and characters of two and of four bytes
in it, in a leap second of the first year that there is. -/
def awkward : Event :=
  .failed .settlement "\x01\"\\" "é😀"
    ⟨⟨-262143, 12, 31⟩, ⟨23, 59, 60, 999999999⟩, by decide, by decide⟩

/-- The failure comes out of a record again, and a state with the same texts in it, of a copy with a
buffer, out of a snapshot. -/
theorem stored_forms_read_back_awkward :
    (Record.mk "t" 4 awkward.kind awkward.text .startOf2025 .root .root).event = .ok awkward ∧
    ∃ c : WorkingCopy, c.pending = [awkward] ∧
      c.transfer.failure = some ⟨.settlement, "\x01\"\\", "é😀"⟩ ∧
      (Snapshot.capture .startOf2025 c.stream Transfer.snapshotType 3 c.transfer.toJson).restore
        c.stream = .ok ⟨c.transfer, 3, 3, []⟩ := by
  obtain ⟨held, -, -⟩ := stored_forms_read_back.1 awkward .startOf2025
    ⟨"t", 4, awkward.kind, awkward.text, .startOf2025, .root, .root⟩ rfl
  let t : Transfer := ⟨"t", some .failed, ⟨18446744073709551615, "EUR", "a", "b"⟩, some "x", none,
    some ⟨.settlement, "\x01\"\\", "é😀"⟩, none, some "not mine"⟩
  exact ⟨held, ⟨t, 4, 3, [awkward]⟩, rfl, rfl,
    (stored_forms_read_back.2 ⟨t, 4, 3, [awkward]⟩ 3 .startOf2025).2⟩

end TransferLedger

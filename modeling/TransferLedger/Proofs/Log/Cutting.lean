import TransferLedger.Proofs.Log.Fitting

/-!
# Appends in pieces

Entries for a stream can be appended in one go, in pieces by one append after the other, or in
pieces that are staged on one batch.  The end that a piece is sealed behind then comes from the
sealing of the entry before it, from the medium or from the batch, and an empty piece asks for it
and seals nothing.  All three leave the same medium (`Log.append_in_pieces`), because each of them
stores the entries behind what the stream has by then (`Log.run_append`, `Log.run_stageEach`), and
storing goes on where it has stopped (`Log.stored_append`).
-/

set_option autoImplicit false

namespace TransferLedger

namespace Log

variable {log : Log} {w : InMemory} {stream : String}

/-- Append pieces one after the other, each at the version that the one before it has led to. -/
def appendEach (log : Log) (stream : String) :
    List (List Entry) → Nat → Dialogue (Except StoreError Nat)
  | [], version => return .ok version
  | piece :: rest, version => do
    match ← log.append stream piece version with
    | .error e => return .error e
    | .ok version => log.appendEach stream rest version

/-- Stage pieces one after the other, each at the version that the one before it has led to. -/
def stageEach (log : Log) (stream : String) :
    List (List Entry) → Nat → Batch → Dialogue (Except StoreError (Nat × Batch))
  | [], version, b => return .ok (version, b)
  | piece :: rest, version, b => do
    match ← log.stage b stream piece version with
    | .error e => return .error e
    | .ok (version, b) => log.stageEach stream rest version b

/-- Append pieces in one batch.  The version that the last of them has led to. -/
def appendTogether (log : Log) (stream : String) (pieces : List (List Entry)) (version : Nat) :
    Dialogue (Except StoreError Nat) := do
  match ← log.stageEach stream pieces version .empty with
  | .error e => return .error e
  | .ok (version, b) =>
    match ← log.commit b with
    | .ok _ => return .ok version
    | .error e => return .error e

/-! ## Where nobody else writes -/

variable (available : w.medium.available = true)

include available

theorem run_append (log : Log) (stream : String) (entries : List Entry) :
    (log.append stream entries (w.medium.head stream).version).run w =
      (.ok ((w.medium.head stream).version + entries.length),
        { w with medium := log.stored stream entries w.medium }) := by
  obtain ⟨b, hstage, hb⟩ := (Batch.Fits.empty w.medium).run_stage available log stream entries rfl
  have hcommit := hb.fits.run_commit (.inl available) log
  rw [hb.landed, Batch.landed_empty] at hcommit
  rw [Batch.landed_empty] at hstage
  rw [append, Dialogue.run_bind_of hstage]
  show (log.commit b >>= _).run w = _
  rw [Dialogue.run_bind_of hcommit]
  rfl

theorem run_appendEach (log : Log) (stream : String) (pieces : List (List Entry)) :
    (log.appendEach stream pieces (w.medium.head stream).version).run w =
      (.ok ((w.medium.head stream).version + pieces.flatten.length),
        { w with medium := log.stored stream pieces.flatten w.medium }) := by
  induction pieces generalizing w with
  | nil =>
    rw [List.flatten_nil, stored_nil]
    rfl
  | cons piece rest ih =>
    rw [appendEach, Dialogue.run_bind_of (run_append available log stream piece)]
    -- The version that the first piece leads to is the one that the others find.
    have hrest := ih (w := { w with medium := log.stored stream piece w.medium }) available
    rw [version_stored, stored_append] at hrest
    rw [List.flatten_cons, List.length_append, ← Nat.add_assoc]
    exact hrest

theorem run_stageEach (log : Log) (stream : String) (pieces : List (List Entry)) {b : Batch}
    (fits : b.Fits w.medium) :
    ∃ b', (log.stageEach stream pieces ((b.landed w.medium).head stream).version b).run w =
        (.ok (((b.landed w.medium).head stream).version + pieces.flatten.length, b'), w) ∧
      Batch.Fits.Extended log w.medium stream pieces.flatten b b' := by
  induction pieces generalizing b with
  | nil => exact ⟨b, rfl, fits, (stored_nil ..).symm, rfl⟩
  | cons piece rest ih =>
    obtain ⟨b₁, hstage, h₁⟩ := fits.run_stage available log stream piece rfl
    obtain ⟨b₂, hrest, h₂⟩ := ih h₁.fits
    rw [h₁.landed, version_stored] at hrest
    refine ⟨b₂, ?_, h₂.fits, ?_, ?_⟩
    · rw [stageEach, Dialogue.run_bind_of hstage, List.flatten_cons, List.length_append,
        ← Nat.add_assoc]
      exact hrest
    · rw [h₂.landed, h₁.landed, stored_append, List.flatten_cons]
    · rw [h₂.size, h₁.size, List.flatten_cons, List.length_append, Nat.add_assoc]

theorem run_appendTogether (log : Log) (stream : String) (pieces : List (List Entry)) :
    (log.appendTogether stream pieces (w.medium.head stream).version).run w =
      (.ok ((w.medium.head stream).version + pieces.flatten.length),
        { w with medium := log.stored stream pieces.flatten w.medium }) := by
  obtain ⟨b, hstage, hb⟩ := run_stageEach available log stream pieces (.empty w.medium)
  have hcommit := hb.fits.run_commit (.inl available) log
  rw [hb.landed, Batch.landed_empty] at hcommit
  rw [Batch.landed_empty] at hstage
  rw [appendTogether, Dialogue.run_bind_of hstage]
  show (log.commit b >>= _).run w = _
  rw [Dialogue.run_bind_of hcommit]
  rfl

/-- However entries are cut into pieces, some of them empty perhaps: appended whole at the version
of the stream, piece by piece, or in one batch, they leave the same medium, with their chain behind
what the stream held, and the same version. -/
theorem append_in_pieces (log : Log) (stream : String) (pieces : List (List Entry)) {version : Nat}
    (current : (w.medium.head stream).version = version) :
    let grown := { w with medium := log.stored stream pieces.flatten w.medium }
    (log.append stream pieces.flatten version).run w =
        (.ok (version + pieces.flatten.length), grown) ∧
      (log.appendEach stream pieces version).run w =
        (.ok (version + pieces.flatten.length), grown) ∧
      (log.appendTogether stream pieces version).run w =
        (.ok (version + pieces.flatten.length), grown) := by
  subst current
  exact ⟨run_append available log stream _, run_appendEach available log stream pieces,
    run_appendTogether available log stream pieces⟩

omit available in
/-- Behind one record, two pieces with an empty one between them and another at the end. -/
theorem append_in_pieces_thrice :
    let noted (text : String) : Entry := ⟨"Noted", text, .startOf2025⟩
    let pieces := [[noted "b"], [], [noted "c", noted "d"], []]
    let one : InMemory :=
      { InMemory.empty .startOf2025 with medium := quick.stored "S" [noted "a"] .empty }
    ((quick.append "S" pieces.flatten 1).run one).1 = .ok 4 ∧
      (quick.appendEach "S" pieces 1).run one = (quick.append "S" pieces.flatten 1).run one ∧
      (quick.appendTogether "S" pieces 1).run one =
        (quick.append "S" pieces.flatten 1).run one := by
  intro noted pieces one
  obtain ⟨whole, each, together⟩ :=
    append_in_pieces (w := one) rfl quick "S" pieces (show _ = 1 from rfl)
  exact ⟨congrArg Prod.fst whole, each.trans whole.symm, together.trans whole.symm⟩

end Log

end TransferLedger

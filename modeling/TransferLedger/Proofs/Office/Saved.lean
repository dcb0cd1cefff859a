import TransferLedger.Proofs.Office.Once
import TransferLedger.Proofs.Transfer.Documents

/-!
# Snapshots that are written

A coordinator captures a copy behind its commit, when others may have gone on with the copy already,
and the state of a snapshot and its version come from different places.  They agree all the same:
whatever snapshot is about to be written, its state is what the facts of its stream up to its
version make, and the stream has that many (`Office.saved_of_reaches`).

A clerk who is about to save keeps to the rules, and the law that copies are faithful asks for no
less.  The law has to hold from the beginning, so it matters that there are no snapshots then.  One
that has come from elsewhere may be intact and still tell of facts that the stream does not hold;
what is rebuilt from it goes on from there, and its snapshots are as wrong
(`Office.mistaken_of_borrowed`).
-/

set_option autoImplicit false

namespace TransferLedger.Office

variable {allowed : Errand → Prop} {clock : Instant} {o : Office}

/-- Every snapshot that somebody is about to write is one of a transfer, intact, and of the state
that the first facts of its stream make. -/
theorem saved_of_reaches (reached : Reaches allowed (opening clock .empty) o) {p : ClerkId}
    {x : Snapshot} {next : Except SnapshotError Unit → Dialogue Desk}
    (saving : o.clerks p = .ask (.save x) next) :
    x.type = Transfer.snapshotType ∧ x.isIntact = true ∧
      x.version ≤ (o.scene.records x.stream).length ∧
      ∃ t b, Transfer.ofJson? x.state = some t ∧ t.id = x.stream ∧
        (Rebuilt.blank x.stream).takeAll x.stream
          ((o.scene.records x.stream).take x.version) = .ok b ∧
        b.copy = .replayed t x.version := by
  obtain ⟨authors, hs, -⟩ := sound_of_reaches_faithful reached
  have hk := hs.keeps p
  rw [saving] at hk
  obtain ⟨hproper, -⟩ := hk _ (.refl ..) hs.holds
  have hfaithful : x.Faithful o.scene.world.medium := hproper
  obtain ⟨t, ht, hid, hf⟩ := hfaithful.state
  have hstream : (WorkingCopy.replayed t x.version).stream = x.stream := hid
  have hle := hf.version_le
  obtain ⟨b, hb, hbc⟩ := hf.replay hs.holds.orderly (WorkingCopy.settled_replayed ..)
  rw [hstream] at hle hb
  exact ⟨hfaithful.type_eq, hfaithful.intact, hle, t, b, ht, hid, hb, hbc⟩

/-- A coordinator that captures at every version has stored a fact, confirmed it and looked at the
clock, and is about to write the snapshot. -/
def aboutToSave : List Turn :=
  [.begins 0 (.start "t"), .serve 0 1,
    .begins 0 (.perform 0 (.initiate ⟨100, "EUR", "a", "b"⟩)), .serve 0 1,
    .begins 0 (.hire 0 .quick true ⟨true, 1⟩), .begins 0 (.track 0 0),
    .begins 0 (.push 0), .serve 0 6]

theorem saved_of_aboutToSave :
    let o := (opening .startOf2025 .empty).play aboutToSave
    ∃ x next t b, o.clerks 0 = .ask (.save x) next ∧ x.stream = "t" ∧ x.version = 1 ∧
      x.isIntact = true ∧ Transfer.ofJson? x.state = some t ∧
      (Rebuilt.blank "t").takeAll "t" ((o.scene.records "t").take 1) = .ok b ∧
      b.copy = .replayed t 1 := by
  have may : ∀ t ∈ aboutToSave, ∀ e ∈ t.errand?, True := fun _ _ _ _ => trivial
  have reached := reaches_play (opening .startOf2025 .empty) may
  obtain ⟨x, next, saving, hs, hv⟩ :
      ∃ x next, ((opening .startOf2025 .empty).play aboutToSave).clerks 0 =
        .ask (.save x) next ∧ x.stream = "t" ∧ x.version = 1 := ⟨_, _, rfl, rfl, rfl⟩
  obtain ⟨-, hintact, -, t, b, ht, -, hb, hbc⟩ := saved_of_reaches reached saving
  rw [hs, hv] at hb
  rw [hv] at hbc
  exact ⟨x, next, t, b, saving, hs, hv, hintact, ht, hb, hbc⟩

/-! ## A snapshot from elsewhere -/

/-- A transfer of this name that has been opened elsewhere, and in another currency. -/
def openedElsewhere : WorkingCopy :=
  .replayed { Transfer.blank "t" with status := some .initiated, terms := ⟨100, "EUR", "a", "b"⟩ } 1

/-- A shelf on which somebody has left a snapshot of it. -/
def borrowed : Shelf :=
  Shelf.empty.save (openedElsewhere.snapshot .startOf2025)

/-- A transfer is opened and stored, and is about to be rebuilt from a snapshot. -/
def reopening : List Turn :=
  [.begins 0 (.start "t"), .serve 0 1,
    .begins 0 (.perform 0 (.initiate ⟨999, "USD", "a", "b"⟩)), .serve 0 1,
    .begins 0 (.hire 0 .quick true ⟨true, 2⟩), .begins 0 (.track 0 0),
    .begins 0 (.push 0), .serve 0 5, .begins 0 (.rebuild .quick true "t")]

/-- What is rebuilt is authorized, and the coordinator is about to write its snapshot. -/
def misled : List Turn :=
  reopening ++
    [.serve 0 1, .serve 0 4, .begins 0 (.perform 1 (.authorize (.approved "x"))), .serve 0 1,
      .begins 0 (.track 0 1), .begins 0 (.push 0), .serve 0 6]

/-- The snapshot is of a transfer in euros, and the stream holds one in dollars. -/
theorem mistaken_of_borrowed :
    let o := (opening .startOf2025 borrowed).play misled
    Reaches (fun _ => True) (opening .startOf2025 borrowed) o ∧
    ∃ x next t b, o.clerks 0 = .ask (.save x) next ∧ x.stream = "t" ∧ x.version = 2 ∧
      x.isIntact = true ∧ (o.scene.records "t").length = 2 ∧
      Transfer.ofJson? x.state = some t ∧
      (Rebuilt.blank "t").takeAll "t" ((o.scene.records "t").take 2) = .ok b ∧
      t.terms.currency = "EUR" ∧ b.copy.transfer.terms.currency = "USD" := by
  have may : ∀ t ∈ misled, ∀ e ∈ t.errand?, True := fun _ _ _ _ => trivial
  refine ⟨reaches_play (opening .startOf2025 borrowed) may, ?_⟩
  have loaded : ((opening .startOf2025 borrowed).play reopening).scene.world.shelf.load "t" =
      .ok (some (openedElsewhere.snapshot .startOf2025)) :=
    Shelf.load_saved rfl (Snapshot.isIntact_capture ..)
  -- To run the check of the snapshot takes long, and it is known already what is loaded.
  have played : (opening .startOf2025 borrowed).play misled = _ :=
    (play_append _ reopening _).trans (play_of_load rfl loaded _)
  have held : ((((opening .startOf2025 borrowed).play misled).scene.records "t").take 2).map
      Record.event = [.initiated "t" ⟨999, "USD", "a", "b"⟩ .startOf2025,
        .authorized "x" .startOf2025].map .ok := by
    rw [played]
    exact Record.events_of_carried rfl
  obtain ⟨b, hb, ht⟩ := Rebuilt.takeAll_of_facts (b := .blank "t") "t" held rfl
  rw [played] at hb ⊢
  exact ⟨_, _, _, b, rfl, rfl, rfl, Snapshot.isIntact_capture .., rfl, Transfer.ofJson?_canonical _,
    hb, rfl, congrArg (·.terms.currency) ht⟩

end TransferLedger.Office

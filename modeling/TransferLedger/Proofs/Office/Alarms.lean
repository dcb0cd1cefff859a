import TransferLedger.Proofs.Office.Chains
import TransferLedger.Proofs.Office.Visits

/-!
# False alarms

Somebody reads a stream and checks its chain while others, who all have the same key, go on storing.
What he is handed are records of the stream, one after the other from his start on, and nobody has
tampered with any of them.  So there should be no error of integrity.

There is one nevertheless.  A reader that starts behind the first record asks for the record before
its start, and if there is none it asks where the stream ends.  If the others take the stream past
its start in between, the reader is told of an end before which a record is missing
(`Office.not_quiet`).  That is the only case: it takes a start beyond the end that the stream had
when the reading began, the alarm comes before any record, and it names the record before the start
as the one that is missing (`Office.alarm_of_reading`).
-/

set_option autoImplicit false

namespace TransferLedger

open Chronicle

namespace Office

variable {s : Sealer} {clock : Instant} {shelf : Shelf} {o o' : Office}

/-- Whoever reads a stream while others go on storing with the same key gets records of it without
gaps from his start on.  If nothing goes wrong these are at least all that there were.  An error of
integrity is a false alarm: he has checked the chain from beyond the end of the stream, and others
have taken it past his start before he had got anything. -/
theorem alarm_of_reading (reached : Reaches (Errand.SealedBy s) (opening clock shelf) o) {log : Log}
    (hl : log.sealer = s) (stream : String) (start batch : Nat) {xs : List (Exchange Office)}
    {rs : List Record} {e? : Option StoreError}
    (led : (log.reader stream start batch).toList.Led (Step (Errand.SealedBy s)) Serves o xs
      (rs, e?) o') :
    rs <+: (o'.scene.records stream).drop (start - 1) ∧
    (∀ (i : Nat) r, rs[i]? = some r → r.stream = stream ∧ r.sequence = max start 1 + i) ∧
    (e? = none → (o.scene.records stream).length ≤ Reader.positions →
      (o.scene.records stream).length ≤ start - 1 + rs.length) ∧
    ∀ e, e? = some (.integrity e) → log.config.verifyOnRead = true ∧ rs = [] ∧
      (o.scene.records stream).length < start - 1 ∧
      ∃ n, e = .sequenceGap stream (start - 1) n ∧ start - 1 ≤ n ∧
        n ≤ (o'.scene.records stream).length := by
  obtain ⟨authors, sound⟩ := sound_of_reaches_sealed reached
  have hnext : (log.reader stream start batch).next - 1 = start - 1 := by
    show max start 1 - 1 = start - 1
    omega
  have reading : Reader.Reading (fun _ => True) (fun s : Chronicle => s.scene.world)
      (o.scene.records stream).length (log.reader stream start batch) ⟨o.scene, authors⟩ := by
    refine Reader.reading_reader trivial log ?_ start batch
    exact Nat.le_refl (o.scene.records stream).length
  obtain ⟨authors', sound', listed, -⟩ := sound.received
    (admits_officeRules (fun e may log' h => Log.obeys_sealed (may log' h))
      fun _ _ _ _ _ => trivial) (known_nothing _) [] trivial
    (Reader.keeps_toList (officeRules_grows _ none) Rules.Stable.const reading) led
  have stretch : rs <+: (o'.scene.records stream).drop (start - 1) := hnext ▸ listed.stretch
  refine ⟨stretch, fun i r hi => ?_, fun he short => ?_, fun e he => ?_⟩
  · obtain ⟨more, hmore⟩ := stretch
    have hat : (o'.scene.records stream)[start - 1 + i]? = some r := by
      rw [← List.getElem?_drop, ← hmore,
        List.getElem?_append_left (List.getElem?_eq_some_iff.1 hi).1]
      exact hi
    obtain ⟨hstream, hseq⟩ := sound'.holds.orderly.sequence hat
    exact ⟨hstream, by omega⟩
  · have := listed.all he
    rw [hnext] at this
    show _ ≤ start - 1 + rs.length
    dsimp only at this
    omega
  · have mishap := listed.failed _ he
    dsimp only at mishap
    generalize hk : rs.length = k at mishap
    generalize he' : StoreError.integrity e = e' at mishap
    cases mishap with
    | outage => simp [Memory.outage] at he'
    | @forged k e' sealer x checks mem bad =>
      have hsealer : sealer = s := (log.sealer_of_reader checks).trans hl
      exact absurd (sound'.holds.lawful stream x mem) (hsealer ▸ bad)
    | @overtaken n unprimed beyond reached le =>
      have checks : log.config.verifyOnRead = true := by
        by_contra off
        exact unprimed fun h => absurd h (by simp [Log.reader, off])
      rw [hnext] at he' beyond reached
      exact ⟨checks, List.length_eq_zero_iff.1 hk, beyond, n, StoreError.integrity.inj he', reached,
        le⟩

/-- Somebody reads an empty stream from the second position on.  When he has found nothing at the
first, a clerk appends a record. -/
def overtaking : List (List Turn) :=
  [[], [.begins 0 (.append .quick "a" [⟨"x", "", .startOf2025⟩] 0), .serve 0 2]]

def overtaken : List (Exchange Office) × (List Record × Option StoreError) × Office :=
  playVisit (Log.quick.reader "a" 2 256).toList overtaking (opening .startOf2025 .empty)

theorem led_overtaken : (Log.quick.reader "a" 2 256).toList.Led (Step (Errand.SealedBy .quick)) Serves
    (opening .startOf2025 .empty) overtaken.1 overtaken.2.1 overtaken.2.2 := by
  refine led_playVisit _ ?_ _
  simp [overtaking, Turn.errand?, Errand.SealedBy, Errand.log?, Log.quick]

/-- The alarm is raised at a stream that nobody has tampered with and that was empty at first. -/
theorem alarm_of_overtaken :
    overtaken.2.1 = ([], some (.integrity (.sequenceGap "a" 1 1))) ∧
    ((opening .startOf2025 .empty).scene.records "a").length = 0 ∧
    1 ≤ (overtaken.2.2.scene.records "a").length := by
  have alarm : overtaken.2.1 = ([], some (.integrity (.sequenceGap "a" 1 1))) := rfl
  have led := led_overtaken
  rw [alarm] at led
  obtain ⟨-, -, -, alarmed⟩ := alarm_of_reading .refl (rfl : Log.quick.sealer = .quick) "a" 2 256 led
  obtain ⟨-, -, before, n, gap, reached, le⟩ := alarmed _ rfl
  exact ⟨alarm, rfl, Nat.le_trans reached le⟩

/-- So it is not true that whoever checks the chain while others go on storing with the same key
never gets an error of integrity. -/
theorem not_quiet : ¬ ∀ (s : Sealer) (clock : Instant) (o o' : Office) (log : Log) (stream : String)
    (start batch : Nat) (xs : List (Exchange Office)) (rs : List Record) (e? : Option StoreError),
    Reaches (Errand.SealedBy s) (opening clock .empty) o → log.sealer = s →
    log.config.verifyOnRead = true →
    (log.reader stream start batch).toList.Led (Step (Errand.SealedBy s)) Serves o xs (rs, e?) o' →
    ∀ e, e? ≠ some (.integrity e) := by
  intro quiet
  have alarm : overtaken.2.1 = ([], some (.integrity (.sequenceGap "a" 1 1))) := rfl
  have led := led_overtaken
  rw [alarm] at led
  exact quiet .quick .startOf2025 _ _ .quick "a" 2 256 _ _ _ .refl rfl rfl led _ rfl

end Office

end TransferLedger

import TransferLedger.Proofs.Log.Auditing
import TransferLedger.Proofs.Office.Sound
import TransferLedger.Proofs.Office.Turns

/-!
# The chains of the office

Sealing happens when a record is staged, against an end of the stream that may be durable or only
staged itself, and the medium checks the links of a batch but never a hash.  Nevertheless, as long
as everybody seals with the same key, every stream is at any time a chain of sealed records, and it
only ever grows (`Office.chain_of_reaches`).

That the links are in order is the medium's doing, whoever stores.  That the hashes are right is the
doing of the logs: it is the law here, and nobody breaks it.
-/

set_option autoImplicit false

namespace TransferLedger

open Chronicle

/-- The law that every record is sealed with a given key. -/
def Law.sealed (s : Sealer) : Law :=
  .ofRecords s.Sealed

theorem Log.obeys_sealed {s : Sealer} {log : Log} (hl : log.sealer = s) :
    log.Obeys (.sealed s) := by
  subst hl
  exact fun stream head e => log.sealer.sealed_record stream head e

/-- The records of a stream are in their places, each behind the one before it and each with the
hash of its own fields. -/
def Sealer.Chained (s : Sealer) (stream : String) (rs : List Record) : Prop :=
  ∀ i r, rs[i]? = some r →
    r.stream = stream ∧ r.sequence = i + 1 ∧ r.previous = lastHash (rs.take i) ∧
      r.hash = s.hash r.previous r.stream r.sequence r.entry

theorem Sealer.Linked.chained {s : Sealer} {stream : String} {rs : List Record}
    (h : s.Linked stream .empty rs) : s.Chained stream rs := by
  intro i r hi
  obtain ⟨hc, hsealed⟩ := Sealer.linked_iff.1 h
  obtain ⟨h1, -, h3⟩ := hc.getElem? hi
  refine ⟨h1, hc.sequence_eq hi, ?_, hsealed r (List.mem_of_getElem? hi)⟩
  rw [h3, hash_after_empty]

namespace Office

variable {s : Sealer} {clock : Instant} {shelf : Shelf} {o o' : Office}

/-- Whatever is on the shelf, it does not matter for records. -/
theorem sound_of_reaches_sealed (reached : Reaches (Errand.SealedBy s) (opening clock shelf) o) :
    ∃ authors, Sound (.sealed s) o authors := by
  have begun : Sound (.sealed s) (opening clock shelf) fun _ => [] := .opening fun _ _ _ => trivial
  obtain ⟨authors, h, -⟩ := begun.reaches
    (fun e may log hl => Log.obeys_sealed (may log hl)) reached
  exact ⟨authors, h⟩

/-- In every state that the office can reach if everybody uses one key, each stream is a chain of
sealed records; whatever happens then, it stays the beginning of what the stream becomes; and as
long as the medium is in reach, an audit finds all of it right.  Positions are words, so no stream
is longer than there are positions. -/
theorem chain_of_reaches (reached : Reaches (Errand.SealedBy s) (opening clock shelf) o)
    (stream : String) :
    s.Chained stream (o.scene.records stream) ∧
    (∀ o', Reaches (Errand.SealedBy s) o o' → o.scene.records stream <+: o'.scene.records stream) ∧
    (o.scene.world.medium.available = true →
      (o.scene.records stream).length ≤ Reader.positions → ∀ log : Log, log.sealer = s →
      ∃ version, (Log.version stream).run o.scene.world = (.ok version, o.scene.world) ∧
        version = (o.scene.records stream).length ∧
        (log.audit stream).run o.scene.world =
          (.ok ⟨stream, version, lastHash (o.scene.records stream)⟩, o.scene.world)) := by
  obtain ⟨authors, h⟩ := sound_of_reaches_sealed reached
  have orderly : o.scene.world.medium.Orderly := h.holds.orderly
  have linked : s.Linked stream .empty (o.scene.records stream) :=
    Sealer.linked_iff.2 ⟨orderly stream, h.holds.lawful stream⟩
  refine ⟨linked.chained, fun o' later => ?_, fun available short log hl => ⟨_, ?_, rfl, ?_⟩⟩
  · obtain ⟨authors', -, hr⟩ := h.reaches
      (fun e may log hl => Log.obeys_sealed (may log hl)) later
    exact hr.within stream
  · exact Log.run_version orderly available
  · rw [← hl] at linked
    exact Log.run_audit available linked short

/-- Two clerks append to one stream, and the second one is served when the first is done. -/
def inTurn : List Turn :=
  [.begins 0 (.append .quick "a" [⟨"x", "", .startOf2025⟩, ⟨"y", "", .startOf2025⟩] 0),
    .begins 1 (.append .quick "a" [⟨"z", "", .startOf2025⟩] 2), .serve 0 2, .serve 1 2]

theorem chain_of_inTurn :
    let o := (opening .startOf2025 .empty).play inTurn
    (o.scene.records "a").length = 3 ∧ Sealer.quick.Chained "a" (o.scene.records "a") ∧
      ((Log.quick.audit "a").run o.scene.world).1 =
        .ok ⟨"a", 3, lastHash (o.scene.records "a")⟩ := by
  have may : ∀ t ∈ inTurn, ∀ e ∈ t.errand?, Errand.SealedBy .quick e := by
    simp [inTurn, Turn.errand?, Errand.SealedBy, Errand.log?, Log.quick]
  have three : (((opening .startOf2025 .empty).play inTurn).scene.records "a").length = 3 := rfl
  have reached := reaches_play (opening .startOf2025 .empty) may
  obtain ⟨chained, -, audited⟩ := chain_of_reaches reached "a"
  obtain ⟨version, -, hv, ha⟩ := audited rfl (by rw [three]; decide) Log.quick rfl
  refine ⟨three, chained, ?_⟩
  rw [ha, hv, three]

end Office

end TransferLedger

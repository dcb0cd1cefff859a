import TransferLedger.Proofs.Office.Current

/-!
# Rebuilding while others commit

A rebuild asks for a snapshot and then for one page after the other, and between two of its requests
others commit.  Nevertheless it makes no mixture of what there was at different times.  As long as
the medium can be reached it succeeds, and what it hands back is what a replay makes of the first
facts of the stream, of as many as there were when it began, or of more
(`Office.beginning_of_rebuild`).

Nothing can go wrong on the way.  Where every stream can be replayed, whoever has taken a beginning
of it takes the next fact as well (`Rebuilt.takes_next`).  Every record is sealed, so the cursor
follows.  And no snapshot is ahead of its stream, so the reader finds the record before its start
and need not ask where the stream ends.
-/

set_option autoImplicit false

namespace TransferLedger

open Chronicle

/-- Of a stream that can be replayed a faithful copy takes the next fact. -/
theorem Rebuilt.takes_next {m : Memory} {b full : Rebuilt} {stream : String} {x : Record}
    (ho : m.Orderly) (settled : b.copy.Settled) (faithful : b.copy.Faithful m)
    (hs : b.copy.stream = stream)
    (whole : (blank stream).takeAll stream (m.records stream) = .ok full)
    (next : (m.records stream)[b.copy.version]? = some x) : ∃ b', b.take stream x = .ok b' := by
  obtain ⟨a, ha, hac⟩ := faithful.replay ho settled
  rw [hs] at ha
  rw [← List.take_append_drop b.copy.version (m.records stream), takeAll_append, ha,
    drop_eq_cons next] at whole
  obtain ⟨a', ha', -⟩ := takeAll_cons_eq_ok.1 whole
  have one : a.takeAll stream [x] = .ok a' := takeAll_cons_eq_ok.2 ⟨a', ha', rfl⟩
  obtain ⟨b', hb', -⟩ := takeAll_cons_eq_ok.1 (takeAll_of_copy one hac.symm)
  exact ⟨b', hb'⟩

namespace Log

variable {s : Sealer} {R : Rules Chronicle} {P : Chronicle → Prop} {known : Nat} {log : Log}
  {stream : String} {res : Except ReplayError Rebuilt} {t : Chronicle}

/-- Where every stream can be replayed, all records are sealed, and the medium can be reached, a
rebuild of a stream that had records comes to what a beginning of it makes, and that is no shorter
than it was. -/
theorem RebuildsTo.beginning (hl : log.sealer = s)
    (reachable : ∀ t, P t → t.medium.available = true) (hi : Holds (.replayed s) t)
    (filled : 0 < known) (short : known ≤ Reader.positions)
    (h : log.RebuildsTo (.replayed s) R P known stream res t) :
    ∃ b full, res = .ok b ∧ known ≤ b.copy.version ∧
      b.copy.version ≤ (t.medium.records stream).length ∧
      (Rebuilt.blank stream).takeAll stream ((t.medium.records stream).take b.copy.version) =
        .ok full ∧ b.copy = full.copy := by
  obtain ⟨from?, now, known_le, now_le, begins, le_now, replayed⟩ := h
  have start_le := le_now (Law.replayed_grounded s)
  have ho := hi.orderly
  cases replayed with
  | @taken _ rs b stretch accepted all =>
    obtain ⟨settled, hstream, faithful⟩ := Rebuildable.of_taken hi begins stretch accepted
    have hf : b.copy.Faithful t.medium := faithful
    have hv := Rebuilt.version_of_stretch ho (Nat.le_trans start_le now_le) stretch accepted
    obtain ⟨full, hfull, hcopy⟩ := hf.replay ho settled
    have hle := hf.version_le
    rw [hstream] at hle hfull
    exact ⟨b, full, rfl, by omega, hle, hfull, hcopy.symm⟩
  | nothing _ empty => omega
  | failed mishap =>
    cases mishap with
    | outage out =>
      obtain ⟨t', ht', -, out⟩ := out
      rw [reachable t' ht'] at out
      simp at out
    | @forged k e sealer x checks mem bad =>
      have hsealer : sealer = s := (log.sealer_of_reader checks).trans hl
      exact absurd (hi.lawful stream x mem) (hsealer ▸ bad)
    | overtaken _ beyond =>
      rw [next_replayer] at beyond
      omega
  | @refused _ rs b x e stretch accepted next refused =>
    obtain ⟨settled, hstream, faithful⟩ := Rebuildable.of_taken hi begins stretch accepted
    rw [← Rebuilt.version_of_stretch ho (Nat.le_trans start_le now_le) stretch accepted] at next
    obtain ⟨full, whole⟩ := hi.whole stream
    obtain ⟨b', hb'⟩ := Rebuilt.takes_next ho settled faithful hstream whole next
    rw [hb'] at refused
    simp at refused

end Log

namespace Office

variable {allowed : Errand → Prop} {s : Sealer} {clock : Instant} {o o' : Office}

/-- The medium has not gone out of reach. -/
def StaysInReach (s s' : Chronicle) : Prop :=
  s.medium.available = true → s'.medium.available = true

theorem StaysInReach.refl (s : Chronicle) : StaysInReach s s :=
  id

theorem StaysInReach.trans {s s' s'' : Chronicle} (h : StaysInReach s s')
    (h' : StaysInReach s' s'') : StaysInReach s s'' :=
  fun available => h' (h available)

/-- The rules of the office for a party in whose presence the medium does not go out of reach. -/
def servedRules (L : Law) (p : Party) : Rules Chronicle :=
  (officeRules L p).narrow StaysInReach .refl .trans

theorem servedRules_looking (L : Law) (p : Party) : (servedRules L p).Looking L p :=
  ⟨id, And.left, fun _ => id, fun _ => id⟩

theorem admits_served {L : Law} (obeys : ∀ e, allowed e → ∀ log ∈ e.log?, log.Obeys L)
    (raw : ∀ e, allowed e → e.Raw → L.Lenient) :
    Admits L (servedRules L none) (InReach allowed) Serves where
  holds := id
  others h reach := by
    obtain ⟨authors', h', hr, -⟩ := (admits_officeRules obeys raw).others h reach.step
    exact ⟨authors', h', hr, hr, fun _ => reach.available⟩
  answers := (admits_officeRules obeys raw).answers

/-- Where all that is ever stored are the facts of working copies, sealed with one key, and while
the medium can be reached, whoever rebuilds a stream that has records succeeds, whatever others
commit meanwhile, and finds a beginning of the stream: all that there was at first, and maybe some
of what has come since.  It makes no difference how the log reads, whether it checks the chain, or
whether there are snapshots. -/
theorem beginning_of_rebuild (one : ∀ e, allowed e → e.SealedBy s)
    (copies : ∀ e, allowed e → ¬ e.Raw) (reached : Reaches allowed (opening clock .empty) o)
    (available : o.medium.available = true) {log : Log} (hl : log.sealer = s) (snapshots : Bool)
    {stream : String} (filled : o.scene.records stream ≠ [])
    (short : (o.scene.records stream).length ≤ Reader.positions) {xs : List (Exchange Office)}
    {res : Except ReplayError Rebuilt}
    (led : (log.rebuild snapshots stream).Led (InReach allowed) Serves o xs res o') :
    ∃ b full, res = .ok b ∧ (o.scene.records stream).length ≤ b.copy.version ∧
      b.copy.version ≤ (o'.scene.records stream).length ∧
      (Rebuilt.blank stream).takeAll stream ((o'.scene.records stream).take b.copy.version) =
        .ok full ∧ b.copy = full.copy := by
  obtain ⟨authors, sound, -⟩ := sound_of_reaches_replayed one copies reached
  have looking := servedRules_looking (.replayed s) none
  have stable : (servedRules (.replayed s) none).Stable fun t => t.medium.available = true :=
    fun _ _ ha hr _ => hr.2 ha
  have keeps := log.keeps_rebuild_meanwhile looking snapshots stable (s := ⟨o.scene, authors⟩)
    available (Nat.le_refl (o.scene.records stream).length)
  have admits := admits_served (L := .replayed s)
    (fun e may log hlog => Log.obeys_replayed (one e may log hlog))
    (fun e may hraw => absurd hraw (copies e may))
  obtain ⟨authors', sound', ⟨-, rebuilt⟩, -⟩ := sound.received admits (known_nothing _) [] trivial
    keeps led
  exact rebuilt.beginning hl (fun _ h => h) sound'.holds (List.length_pos_iff.2 filled) short

/-- A log that fetches one record at a time. -/
def oneByOne : Log :=
  { Log.quick with config.batchSize := 1 }

/-- After the first page has been fetched the transfer is authorized, and that is committed. -/
def authorizedMeanwhile : List (List Turn) :=
  [[], [.begins 0 (.perform 0 (.authorize (.approved "x"))), .serve 0 1,
    .begins 0 (.track 0 0), .begins 0 (.push 0), .serve 0 7]]

def rereading : List (Exchange Office) × Except ReplayError Rebuilt × Office :=
  playVisit (oneByOne.rebuild false "t") authorizedMeanwhile
    ((opening .startOf2025 .empty).play oneCommitted)

/-- There was one fact when the rebuild began, and it hands back what two facts make. -/
theorem beginning_of_rereading :
    (((opening .startOf2025 .empty).play oneCommitted).scene.records "t").length = 1 ∧
    (rereading.2.2.scene.records "t").length = 2 ∧
    ∃ b full, rereading.2.1 = .ok b ∧ b.copy.version = 2 ∧
      (Rebuilt.blank "t").takeAll "t" (rereading.2.2.scene.records "t") = .ok full ∧
      b.copy = full.copy := by
  have may : ∀ t ∈ oneCommitted, ∀ e ∈ t.errand?, e.SealedBy .quick ∧ ¬ e.Raw := by
    simp [oneCommitted, toCommit, Turn.errand?, Errand.SealedBy, Errand.log?, Errand.Raw, Log.quick]
  have mayThen : ∀ turns ∈ authorizedMeanwhile, ∀ turn ∈ turns,
      (∀ e ∈ turn.errand?, e.SealedBy .quick ∧ ¬ e.Raw) ∧ turn.Indoors := by
    simp [authorizedMeanwhile, Turn.errand?, Errand.SealedBy, Errand.log?, Errand.Raw,
      Turn.Indoors]
  have one : (((opening .startOf2025 .empty).play oneCommitted).scene.records "t").length = 1 := rfl
  obtain ⟨two, found⟩ : (rereading.2.2.scene.records "t").length = 2 ∧
      rereading.2.1.toOption.map (·.copy.version) = some 2 := by decide +kernel
  have available : ((opening .startOf2025 .empty).play oneCommitted).medium.available = true := rfl
  have led := led_playVisit_inReach (oneByOne.rebuild false "t") mayThen available
  rw [← rereading] at led
  obtain ⟨b, full, hb, -, -, hfull, hcopy⟩ := beginning_of_rebuild (fun _ h => h.1)
    (fun _ h => h.2) (reaches_play _ may) available (rfl : oneByOne.sealer = .quick) false
    (List.ne_nil_of_length_pos (by rw [one]; decide)) (by rw [one]; decide) led
  have hv : b.copy.version = 2 := by
    rw [hb] at found
    exact Option.some.inj found
  rw [hv, ← two, List.take_length] at hfull
  exact ⟨one, two, b, full, hb, hv, hfull, hcopy⟩

end Office

end TransferLedger

import TransferLedger.Proofs.Office.Replaying
import TransferLedger.Proofs.Office.UpToDate

/-!
# Live copies and rebuilt ones

A working copy comes to its state by operations, a rebuilt one by reading what they have left in the
stream, maybe on top of a snapshot.  Both come to the same (`Office.rebuilt_of_reaches`): every
stream that only working copies have written to can be rebuilt, all of it; and a copy whose facts
have just been stored is what a rebuild of its stream hands back.
-/

set_option autoImplicit false

namespace TransferLedger

open Chronicle

theorem Law.replayed_grounded (s : Sealer) : (Law.replayed s).Grounded :=
  Law.faithful_grounded

theorem Chronicle.mem_signed {p : Party} {rs : List Record} {notes : List Party} {r : Record}
    (h : r ∈ signed p rs notes) : ∃ i : Nat, rs[i]? = some r ∧ notes[i]? = some p := by
  obtain ⟨x, hx, hxr⟩ := List.mem_filterMap.1 h
  obtain ⟨i, hi⟩ := List.mem_iff_getElem?.1 hx
  obtain ⟨r', q⟩ := x
  obtain ⟨h1, h2⟩ := List.getElem?_zip_eq_some.1 hi
  by_cases hq : q = p
  · obtain rfl : r' = r := by simpa [hq] using hxr
    exact ⟨i, h1, hq ▸ h2⟩
  · simp [hq] at hxr

namespace Office

variable {L : Law} {allowed : Errand → Prop} {o o' : Office} {authors : String → List Party}
  {xs : List (Exchange Office)}

/-! ## After a commit -/

/-- Whoever has a coordinator settle a batch finds each copy that it has told abreast of what it has
stored. -/
theorem Sound.settled (grounded : L.Grounded)
    (obeys : ∀ e, allowed e → ∀ log ∈ e.log?, log.Obeys L)
    (raw : ∀ e, allowed e → e.Raw → L.Lenient) (hs : Sound L o authors)
    (howns : Owns none (fun _ => []) ⟨o.scene, authors⟩) {c c' : Coordinator}
    (hl : c.log.Obeys L) (hc : c.transaction = none) {b : OpenBatch}
    (hb : Follows L b ⟨o.scene, authors⟩) {n : Nat}
    (led : (c.settle b).Led (Step allowed) Serves o xs (.ok n, c') o') {x : Exchange Office}
    (hx : x ∈ xs) {h : HandleId} {v : Nat} (hq : x.request = .confirm h v) :
    ∃ authors', Sound L o' authors' ∧
      Owns none (Exchange.allAdded medium xs) ⟨o'.scene, authors'⟩ ∧
      Abreast none h ⟨o'.scene, authors'⟩ := by
  obtain ⟨k, b₁, ys, o₁, zs, hstage, hfinish, rfl⟩ := Coordinator.led_settle_ok led
  obtain ⟨authors₁, hs₁, hb₁, howns₁⟩ := hs.visited obeys howns
    (Log.keeps_stageAll hl c.tracked hb) hstage raw
  obtain ⟨authors', hs', habreast, howns'⟩ := hs₁.visited obeys howns₁
    (Coordinator.keeps_finish_abreast grounded hl hc (hb₁ k b₁ rfl)) hfinish raw
  refine ⟨authors', hs', ⟨howns'.noted, fun stream => ?_⟩, ?_⟩
  · rw [howns'.signed_eq stream, Exchange.allAdded_append, List.nil_append]
  · -- While it stages a coordinator only looks.
    rcases List.mem_append.1 hx with hx | hx
    · have := ((c.log.onlyLooks_stageAll c.tracked b).exchanged hstage x hx).1
      rw [hq] at this
      exact absurd this (by simp [Request.looks])
    · obtain ⟨m, hm, rfl, ht⟩ := ((c.confirmsOnly_finish b₁).exchanged hfinish x hx).1 h v hq
      exact habreast n rfl m hm ht

/-- Whichever call of a coordinator it was in which the copy has been told, it has come down to
settling a batch. -/
theorem Sound.called (grounded : L.Grounded)
    (obeys : ∀ e, allowed e → ∀ log ∈ e.log?, log.Obeys L)
    (raw : ∀ e, allowed e → e.Raw → L.Lenient) (hs : Sound L o authors)
    (howns : Owns none (fun _ => []) ⟨o.scene, authors⟩) {c c' : Coordinator}
    (hc : c.Fit L ⟨o.scene, authors⟩) {work : Dialogue (Except CommitError Nat × Coordinator)}
    (call : work = c.push ∨ work = c.commit) {n : Nat}
    (led : work.Led (Step allowed) Serves o xs (.ok n, c') o') {x : Exchange Office}
    (hx : x ∈ xs) {h : HandleId} {v : Nat} (hq : x.request = .confirm h v) :
    ∃ authors', Sound L o' authors' ∧
      Owns none (Exchange.allAdded medium xs) ⟨o'.scene, authors'⟩ ∧
      Abreast none h ⟨o'.scene, authors'⟩ := by
  rcases call with rfl | rfl
  · cases ht : c.transaction with
    | none =>
      unfold Coordinator.push at led
      rw [ht] at led
      exact hs.settled grounded obeys raw howns hc.obeys ht (.empty L _) led hx hq
    | some b =>
      have := ((Coordinator.onlyLooks_push ht).exchanged led x hx).1
      rw [hq] at this
      exact absurd this (by simp [Request.looks])
  · unfold Coordinator.commit at led
    cases ht : c.transaction with
    | none =>
      rw [ht] at led
      rw [led.of_pure.2.1] at hx
      exact absurd hx (by simp)
    | some b =>
      rw [ht] at led
      have hl : ({ c with transaction := none } : Coordinator).log.Obeys L := hc.obeys
      exact hs.settled grounded obeys raw howns hl rfl (hc.follows b ht) led hx hq

/-- A coordinator from the desk of a clerk who has nothing to do is made to store what it tracks, or
its transaction, and that succeeds.  It has told this copy how far it is stored now, and nobody has
stored anything on the stream of the copy since. -/
inductive Committed (allowed : Errand → Prop) (o : Office) (h : HandleId) (c : WorkingCopy) :
    Office → Prop
  | intro {p : ClerkId} {d : Desk} {k n v : Nat} {hired left : Coordinator}
      {work : Dialogue (Except CommitError Nat × Coordinator)} {xs : List (Exchange Office)}
      {x : Exchange Office} {r : Record} {o' : Office}
      (idle : o.clerks p = .done d) (found : d.coordinators k = some hired)
      (call : work = hired.push ∨ work = hired.commit)
      (led : work.Led (Step allowed) Serves o xs (.ok n, left) o')
      (told : x ∈ xs) (confirms : x.request = .confirm h v)
      (copy : o'.scene.world.copies[h]? = some c)
      (own : r ∈ Exchange.allAdded medium xs c.stream)
      (last : (o'.scene.records c.stream).getLast? = some r) : Committed allowed o h c o'

/-- The last record of the stream is one of the call's own, so the copy knows of it, and of all the
others. -/
theorem Sound.committed (grounded : L.Grounded)
    (obeys : ∀ e, allowed e → ∀ log ∈ e.log?, log.Obeys L)
    (raw : ∀ e, allowed e → e.Raw → L.Lenient) (hs : Sound L o authors)
    (howns : Owns none (fun _ => []) ⟨o.scene, authors⟩) {h : HandleId} {c : WorkingCopy}
    (hc : Committed allowed o h c o') :
    ∃ authors', Sound L o' authors' ∧ o'.scene.world.copies[h]? = some c ∧
      c.durable = (o'.scene.records c.stream).length ∧ o'.scene.records c.stream ≠ [] := by
  obtain @⟨p, d, k, n, v, hired, left, work, xs, x, r, o', idle, found, call, led, told, confirms,
    copy, own, last⟩ := hc
  have hk := hs.keeps p
  rw [idle] at hk
  have hfit : d.Fit L ⟨o.scene, authors⟩ := hk _ (.refl ..) hs.holds
  obtain ⟨authors', hs', howns', c', hc', habreast⟩ := hs.called grounded obeys raw howns
    (hfit.coordinators k hired found) call led told confirms
  obtain rfl : c = c' := Option.some.inj (copy.symm.trans hc')
  refine ⟨authors', hs', copy, ?_, List.ne_nil_of_mem (List.mem_of_getLast? last)⟩
  rw [← howns'.signed_eq] at own
  obtain ⟨i, hi, hau⟩ := mem_signed own
  have hat : (o'.scene.records c.stream)[i]? = some r := hi
  have hlast : (o'.scene.records c.stream)[(o'.scene.records c.stream).length - 1]? = some r := by
    rw [← List.getLast?_eq_getElem?]
    exact last
  have hseq := (hs'.holds.orderly.sequence hat).2
  have hseq' := (hs'.holds.orderly.sequence hlast).2
  have hlt : i < (o'.scene.records c.stream).length := (List.getElem?_eq_some_iff.1 hat).1
  have hle : c.durable ≤ (o'.scene.records c.stream).length := hs'.holds.durable_le grounded copy
  have hnot : ¬ c.durable ≤ i := fun hd => habreast i hd hau
  omega

/-! ## Rebuilding -/

section rebuilding

variable {s : Sealer} {clock : Instant}

/-- Every stream that is not empty is rebuilt, and comes to what a replay of all of it makes. -/
theorem Sound.rebuilds (hs : Sound (.replayed s) o authors) {log : Log} (hl : log.sealer = s)
    (snapshots : Bool) {stream : String} (available : o.medium.available = true)
    (filled : o.scene.records stream ≠ [])
    (short : (o.scene.records stream).length ≤ Reader.positions) :
    ∃ full b, (Rebuilt.blank stream).takeAll stream (o.scene.records stream) = .ok full ∧
      (log.rebuild snapshots stream).run o.scene.world = (.ok b, o.scene.world) ∧
      b.copy = full.copy := by
  have linked : s.Linked stream .empty (o.scene.records stream) :=
    Sealer.linked_iff.2 ⟨hs.holds.orderly stream, hs.holds.lawful stream⟩
  obtain ⟨full, hfull⟩ := hs.holds.whole stream
  obtain ⟨b, hb, hcopy, -⟩ := Log.rebuild_accepts snapshots available (hl ▸ linked) short filled
    hs.holds.orderly (hs.holds.shelved stream) hfull
  exact ⟨full, b, hfull, hb, hcopy⟩

/-- A copy with nothing in its buffer that knows of all of its stream is what a replay makes. -/
theorem Sound.replays (hs : Sound (.replayed s) o authors) {h : HandleId} {c : WorkingCopy}
    (hc : o.scene.world.copies[h]? = some c) (hnil : c.pending = [])
    (hend : c.durable = (o.scene.records c.stream).length) :
    ∃ full, (Rebuilt.blank c.stream).takeAll c.stream (o.scene.records c.stream) = .ok full ∧
      full.copy = c := by
  obtain ⟨y, hset, hstart, n, ht⟩ := hs.holds.story hc
  obtain ⟨t, hid, hf, hcur⟩ := ht.faithful hset hstart
  obtain rfl := hcur hnil
  have hsettled : c.Settled := by
    refine ⟨hnil, ?_⟩
    rw [ht.version_eq_durable, hnil]
    rfl
  rw [← hsettled.2, ← hsettled.eq_replayed] at hf
  obtain ⟨full, hfull, hcopy⟩ := hf.replay hs.holds.orderly hsettled
  have hall : (o.medium.records c.stream).take c.version = o.scene.records c.stream := by
    rw [hsettled.2, hend]
    exact List.take_length
  exact ⟨full, hall ▸ hfull, hcopy⟩

theorem sound_of_reaches_replayed (one : ∀ e, allowed e → e.SealedBy s)
    (copies : ∀ e, allowed e → ¬ e.Raw) (reached : Reaches allowed (opening clock .empty) o) :
    ∃ authors, Sound (.replayed s) o authors ∧ Owns none (fun _ => []) ⟨o.scene, authors⟩ :=
  sound_of_reaches (fun e may log hlog => Log.obeys_replayed (one e may log hlog)) reached
    fun e may hraw => absurd hraw (copies e may)

/-- Where all that is ever stored are the facts of working copies, each stream that is not empty can
be rebuilt, and the rebuild takes all of it; and a copy whose facts have just been stored, and that
has none left in its buffer, is what a rebuild of its stream hands back.  That is so with or without
snapshots, of which there are those that coordinators have written. -/
theorem rebuilt_of_reaches (one : ∀ e, allowed e → e.SealedBy s)
    (copies : ∀ e, allowed e → ¬ e.Raw) (reached : Reaches allowed (opening clock .empty) o)
    {log : Log} (hl : log.sealer = s) (snapshots : Bool) :
    (∀ stream, o.medium.available = true → o.scene.records stream ≠ [] →
      (o.scene.records stream).length ≤ Reader.positions →
      ∃ b, (log.rebuild snapshots stream).run o.scene.world = (.ok b, o.scene.world) ∧
        b.copy.version = (o.scene.records stream).length) ∧
    (∀ o' h c, Committed allowed o h c o' → c.pending = [] → o'.medium.available = true →
      (o'.scene.records c.stream).length ≤ Reader.positions →
      ∃ b, (log.rebuild snapshots c.stream).run o'.scene.world = (.ok b, o'.scene.world) ∧
        b.copy = c) := by
  obtain ⟨authors, hs, howns⟩ := sound_of_reaches_replayed one copies reached
  refine ⟨fun stream available filled short => ?_, fun o' h c hc hnil available short => ?_⟩
  · obtain ⟨full, b, hfull, hb, hcopy⟩ := hs.rebuilds hl snapshots available filled short
    obtain ⟨hf, -⟩ := Rebuilt.of_blank (hs.holds.orderly stream) hfull
    refine ⟨b, hb, ?_⟩
    rw [hcopy, hf]
    rfl
  · obtain ⟨authors', hs', hcopy, hend, filled⟩ := hs.committed (Law.replayed_grounded s)
      (fun e may log hlog => Log.obeys_replayed (one e may log hlog))
      (fun e may hraw => absurd hraw (copies e may)) howns hc
    obtain ⟨full, b, hfull, hb, hbc⟩ := hs'.rebuilds hl snapshots available filled short
    obtain ⟨full', hfull', hlive⟩ := hs'.replays hcopy hnil hend
    obtain rfl : full = full' := Except.ok.inj (hfull.symm.trans hfull')
    exact ⟨b, hb, hbc.trans hlive⟩

end rebuilding

/-- A transfer is opened, and a coordinator that captures at every version is to commit it. -/
def toCommit : List Turn :=
  [.begins 0 (.start "t"), .serve 0 1,
    .begins 0 (.perform 0 (.initiate ⟨100, "EUR", "a", "b"⟩)), .serve 0 1,
    .begins 0 (.hire 0 .quick true ⟨true, 1⟩), .begins 0 (.track 0 0)]

/-- The coordinator commits, as an errand of its clerk. -/
def oneCommitted : List Turn :=
  toCommit ++ [.begins 0 (.push 0), .serve 0 7]

/-- The coordinator commits, as a call that somebody looks at. -/
def committing : List (Exchange Office) × (Except CommitError Nat × Coordinator) × Office :=
  playVisit (Coordinator.push ⟨.quick, true, ⟨true, 1⟩, [0], none⟩) []
    ((opening .startOf2025 .empty).play toCommit)

/-- The stream can be rebuilt, from the snapshot that has been written, and the copy is what comes
of it. -/
theorem rebuilt_of_committing :
    (∃ b, (Log.quick.rebuild true "t").run
        ((opening .startOf2025 .empty).play oneCommitted).scene.world =
        (.ok b, ((opening .startOf2025 .empty).play oneCommitted).scene.world) ∧
      b.copy.version = 1) ∧
    ∃ c b, committing.2.2.scene.world.copies[0]? = some c ∧ c.version = 1 ∧
      (Log.quick.rebuild true "t").run committing.2.2.scene.world =
        (.ok b, committing.2.2.scene.world) ∧ b.copy = c := by
  have may : ∀ t ∈ oneCommitted, ∀ e ∈ t.errand?, e.SealedBy .quick ∧ ¬ e.Raw := by
    simp [oneCommitted, toCommit, Turn.errand?, Errand.SealedBy, Errand.log?, Errand.Raw, Log.quick]
  have may' : ∀ t ∈ toCommit, ∀ e ∈ t.errand?, e.SealedBy .quick ∧ ¬ e.Raw :=
    fun t ht => may t (List.mem_append_left _ ht)
  constructor
  · have reached := reaches_play (opening .startOf2025 .empty) may
    have one : (((opening .startOf2025 .empty).play oneCommitted).scene.records "t").length = 1 :=
      rfl
    obtain ⟨b, hb, hv⟩ := (rebuilt_of_reaches (fun _ h => h.1) (fun _ h => h.2) reached
      (rfl : Log.quick.sealer = .quick) true).1 "t" rfl
      (List.ne_nil_of_length_pos (by rw [one]; decide)) (by rw [one]; decide)
    exact ⟨b, hb, hv.trans one⟩
  · have reached := reaches_play (opening .startOf2025 .empty) may'
    obtain ⟨c, hc, hv, hnil, hst⟩ : ∃ c, committing.2.2.scene.world.copies[0]? = some c ∧
        c.version = 1 ∧ c.pending = [] ∧ c.stream = "t" := ⟨_, rfl, rfl, rfl, rfl⟩
    obtain ⟨x, hx, hq⟩ : ∃ x ∈ committing.1, x.request = .confirm 0 1 :=
      ⟨_, List.mem_of_getElem? (i := 4) rfl, rfl⟩
    obtain ⟨r, hr, hlast⟩ : ∃ r ∈ Exchange.allAdded medium committing.1 "t",
        (committing.2.2.scene.records "t").getLast? = some r := ⟨_, List.mem_cons_self, rfl⟩
    have led := @led_playVisit (fun e => e.SealedBy .quick ∧ ¬ e.Raw) _
      (Coordinator.push ⟨.quick, true, ⟨true, 1⟩, [0], none⟩) [] (by simp)
      ((opening .startOf2025 .empty).play toCommit)
    have hcommitted : Committed (fun e => e.SealedBy .quick ∧ ¬ e.Raw)
        ((opening .startOf2025 .empty).play toCommit) 0 c committing.2.2 :=
      .intro (p := 0) (k := 0) rfl rfl (.inl rfl) led hx hq hc (hst ▸ hr) (hst ▸ hlast)
    have one : (committing.2.2.scene.records "t").length = 1 := rfl
    obtain ⟨b, hb, hbc⟩ := (rebuilt_of_reaches (fun _ h => h.1) (fun _ h => h.2) reached
      (rfl : Log.quick.sealer = .quick) true).2 _ 0 c hcommitted hnil rfl
      (by rw [hst, one]; decide)
    rw [hst] at hb
    exact ⟨c, b, hc, hv, hb, hbc⟩

end Office

end TransferLedger

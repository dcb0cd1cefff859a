import TransferLedger.Proofs.Office.Current
import TransferLedger.Proofs.Office.DueSnapshots

/-!
# What a rebuild costs

Let a stream be written to only by coordinators that take a snapshot past each multiple of a
threshold, and by one of them at a time: while one is called that may store something, nobody else
writes to the stream, and nobody operates on the copies that are to be committed.  Then a rebuild of
the stream never has to take as many facts as the threshold (`Office.replay_lt_threshold`).

A batch may jump over several multiples, the version that counts as the previous one is that of the
first staging, which may have been in another call, and coordinators may commit different copies of
the same stream.  Everything else goes on as always: clerks stage, roll back, rebuild, write to
other streams and operate on copies that are not being committed.
-/

set_option autoImplicit false

namespace TransferLedger

/-! ## The facts that a rebuild takes -/

theorem Snapshot.Faithful.restores {x : Snapshot} {m : Memory} (h : x.Faithful m) :
    ∃ c, x.restore x.stream = .ok c ∧ c.version = x.version := by
  obtain ⟨t, ht, hid, -⟩ := h.state
  refine ⟨.replayed t x.version, ?_, rfl⟩
  have hm : ¬ (x.stream ≠ x.stream ∨ x.type ≠ Transfer.snapshotType) :=
    fun hn => hn.elim (fun hs => hs rfl) (fun ht => ht h.type_eq)
  rw [restore]
  simp only [if_neg hm, ht]
  exact if_neg fun hn => hn hid

/-- A rebuild that may use snapshots starts as far as the shelf reaches. -/
theorem Log.reach_of_startingPoint {log : Log} (on : log.config.useSnapshots = true)
    {w : InMemory} (inPlace : w.shelf.InPlace) {stream : String}
    (shelved : ∀ x, w.shelf.latest stream = some x → x.Faithful w.medium) :
    (((log.startingPoint true stream).run w).1.map WorkingCopy.version).getD 0 =
      w.shelf.reach stream := by
  cases hx : w.shelf.latest stream with
  | none =>
    obtain ⟨from?, hrun, hfrom⟩ := run_startingPoint log true stream w
    rw [hrun, Shelf.reach, hx]
    cases from? with
    | none => rfl
    | some c =>
      obtain ⟨x, hx', -⟩ := hfrom c rfl
      exact absurd (hx.symm.trans hx') (by simp)
  | some x =>
    have hf := shelved x hx
    obtain ⟨c, hc, hv⟩ := hf.restores
    have hc' : x.restore stream = .ok c := inPlace stream x hx ▸ hc
    rw [run_startingPoint_some on (Shelf.load_of_latest hx hf.intact) hc', Shelf.reach_of_latest hx]
    exact hv

/-- Between a number and one that has passed the same multiples there is less than a multiple. -/
theorem lt_add_of_div_le {n k t : Nat} (ht : 0 < t) (h : n / t ≤ k / t) : n < k + t := by
  have hn := Nat.div_add_mod n t
  have hlt := Nat.mod_lt n ht
  calc n = t * (n / t) + n % t := hn.symm
    _ < t * (n / t) + t := Nat.add_lt_add_left hlt _
    _ ≤ t * (k / t) + t := Nat.add_le_add_right (Nat.mul_le_mul_left t h) t
    _ ≤ k + t := Nat.add_le_add_right (Nat.mul_div_le k t) t

namespace Office

open Chronicle

variable {s : Sealer} {t : Nat} {stream : String} {clock : Instant} {o o' : Office}

/-! ## One writer at a time -/

/-- One thing happens, and a given clerk has no part in it.  It is not that somebody writes to the
stream, and not that somebody operates on one of these copies. -/
structure Quiet (allowed : Errand → Prop) (p : ClerkId) (stream : String) (hs : List HandleId)
    (o o' : Office) : Prop where
  besides : Besides allowed p o o'
  records_eq : o'.scene.records stream = o.scene.records stream
  stories : ∀ h ∈ hs, ∀ y, o.scene.stories[h]? = some y → o'.scene.stories[h]? = some y

/-- All that has been written to the stream has been stored in calls of coordinators that take a
snapshot at every multiple of the threshold, one call after the other. -/
inductive Serial (s : Sealer) (t : Nat) (stream : String) (clock : Instant) : Office → Prop
  | opening : Serial s t stream clock (opening clock .empty)
  /-- Anything may happen that does not write to the stream. -/
  | step {o o' : Office} (before : Serial s t stream clock o) (step : Step (Errand.SealedBy s) o o')
      (records_eq : o'.scene.records stream = o.scene.records stream) : Serial s t stream clock o'
  /-- A clerk with nothing to do calls one of his coordinators, and puts it back when it is done. -/
  | call {o o' : Office} {p : ClerkId} {d : Desk} {k : Nat} {hired left : Coordinator}
      {work : Dialogue (Except CommitError Nat × Coordinator)} {res : Except CommitError Nat}
      {xs : List (Exchange Office)} (before : Serial s t stream clock o)
      (idle : o.clerks p = .done d) (found : d.coordinators k = some hired)
      (snapshots : hired.snapshots = true) (policy : hired.policy = ⟨true, t⟩)
      (call : work = hired.push ∨ work = hired.commit)
      (led : work.Led (Quiet (Errand.SealedBy s) p stream hired.tracked) Serves o xs (res, left)
        o') : Serial s t stream clock (o'.busy p (.done (d.setCoordinator k left)))

/-- What holds of the office at any time in such a run. -/
structure Frugal (s : Sealer) (t : Nat) (stream : String) (o : Office)
    (authors : String → List Party) : Prop where
  sound : Sound (.genuine s) o authors
  kempt : o.Kempt
  inPlace : o.scene.world.shelf.InPlace
  economical : Economical t stream ⟨o.scene, authors⟩

theorem obeys_sealedBy {e : Errand} (he : e.SealedBy s) : ∀ log ∈ e.log?, log.Obeys (.genuine s) :=
  fun log hlog => Log.obeys_genuine (he log hlog)

theorem admits_quiet (s : Sealer) (p : ClerkId) (stream : String) (hs : List HandleId) :
    Admits (.genuine s) (quietRules (.genuine s) none stream hs)
      (Quiet (Errand.SealedBy s) p stream hs) Serves where
  holds := id
  others := fun h quiet => by
    obtain ⟨authors', h', hr⟩ := h.step (fun _ => obeys_sealedBy) quiet.besides.1
    exact ⟨authors', h', hr, hr, quiet.records_eq, quiet.besides.1.onward.reach_le stream,
      quiet.stories⟩
  answers := fun h hp ha => by
    obtain @⟨scene, answered⟩ := ha
    exact ⟨scene, rfl, ⟨answered⟩, h.answered hp answered⟩

/-- While a clerk leads a call nothing else changes for him, and what holds of all desks and of the
shelf goes on to hold. -/
theorem Quiet.led {α : Type} {u : Dialogue α} {p : ClerkId} {hs : List HandleId}
    {xs : List (Exchange Office)} {a : α} (kempt : o.Kempt)
    (inPlace : o.scene.world.shelf.InPlace)
    (led : u.Led (Quiet (Errand.SealedBy s) p stream hs) Serves o xs a o') :
    o'.clerks p = o.clerks p ∧ o'.Kempt ∧ o'.scene.world.shelf.InPlace := by
  refine led.preserves (P := fun o' => o'.clerks p = o.clerks p ∧ o'.Kempt ∧
    o'.scene.world.shelf.InPlace) ?_ ?_ ⟨rfl, kempt, inPlace⟩
  · intro o₁ o₂ h quiet
    exact ⟨quiet.besides.2.trans h.1, h.2.1.step quiet.besides.1,
      quiet.besides.1.onward.inPlace h.2.2⟩
  · intro q o₁ a o₂ h answered
    obtain @⟨scene, answered⟩ := answered
    exact ⟨h.1, h.2.1, answered.onward.inPlace h.2.2⟩

theorem Frugal.called {authors : String → List Party} (h : Frugal s t stream o authors)
    (ht : 0 < t) {p : ClerkId} {d : Desk} {k : Nat} {hired left : Coordinator}
    {work : Dialogue (Except CommitError Nat × Coordinator)} {res : Except CommitError Nat}
    {xs : List (Exchange Office)} (idle : o.clerks p = .done d)
    (found : d.coordinators k = some hired) (snapshots : hired.snapshots = true)
    (policy : hired.policy = ⟨true, t⟩) (call : work = hired.push ∨ work = hired.commit)
    (led : work.Led (Quiet (Errand.SealedBy s) p stream hired.tracked) Serves o xs (res, left) o') :
    ∃ authors', Frugal s t stream (o'.busy p (.done (d.setCoordinator k left))) authors' := by
  have hk := h.sound.keeps p
  have hkempt := h.kempt p
  rw [idle] at hk hkempt
  have hfit : d.Fit (.genuine s) ⟨o.scene, authors⟩ := hk _ (.refl ..) h.sound.holds
  have hhired := hfit.coordinators k hired found
  have kempt : hired.Kempt := hkempt k hired found
  obtain ⟨keeps, ends⟩ : work.Keeps (quietRules (.genuine s) none stream hired.tracked)
      (fun r s' => r.2.Fit (.genuine s) s' ∧ Economical t stream s') ⟨o.scene, authors⟩ ∧
      work.Ends fun r => r.2.Kempt := by
    rcases call with rfl | rfl
    · exact ⟨Coordinator.keeps_push_economical ht snapshots policy hhired h.economical,
        Coordinator.ends_push kempt⟩
    · exact ⟨Coordinator.keeps_commit_economical ht snapshots policy hhired kempt h.economical,
        Coordinator.ends_commit kempt⟩
  have nothing : Known (.genuine s) fun _ _ => True := ⟨fun _ _ _ => trivial, fun _ _ => trivial⟩
  obtain ⟨authors', hs', ⟨hleft, he⟩, -⟩ := h.sound.received
    (admits_quiet s p stream hired.tracked) nothing [] trivial keeps led
  obtain ⟨hp, hkempt', hplace⟩ := Quiet.led h.kempt h.inPlace led
  have hd := hs'.keeps p
  rw [hp, idle] at hd
  have hfit' : d.Fit (.genuine s) ⟨o'.scene, authors'⟩ := hd _ (.refl ..) hs'.holds
  refine ⟨authors', ⟨hs'.holds, fun p' => ?_⟩, hkempt'.set o'.scene p ?_, hplace, he⟩
  · show Dialogue.Keeps _ _ (Keyed.set o'.clerks p _ p') _
    by_cases hpp : p' = p
    · subst hpp
      rw [Keyed.set_same]
      exact (hfit'.setCoordinator k hleft).keeps_pure
    · rw [Keyed.set_other _ _ hpp]
      exact hs'.keeps p'
  · exact hkempt.setCoordinator k (ends.of_led led)

theorem Serial.frugal (ht : 0 < t) (run : Serial s t stream clock o) :
    ∃ authors, Frugal s t stream o authors := by
  induction run with
  | opening =>
    exact ⟨fun _ => [], .opening fun stream x hx => absurd hx (by simp [Shelf.empty]),
      kempt_opening clock .empty, Shelf.inPlace_empty, Nat.le_refl _, _, rfl⟩
  | step before step records_eq ih =>
    obtain ⟨authors, h⟩ := ih
    obtain ⟨authors', hs', -⟩ := h.sound.step (fun _ => obeys_sealedBy) step
    have spares : Spares stream [] ⟨_, authors⟩ ⟨_, authors'⟩ :=
      ⟨records_eq, step.onward.reach_le stream, by simp⟩
    exact ⟨authors', hs', h.kempt.step step, step.onward.inPlace h.inPlace,
      h.economical.later spares⟩
  | call before idle found snapshots policy call led ih =>
    obtain ⟨authors, h⟩ := ih
    exact h.called ht idle found snapshots policy call led

/-- However many commits there have been, and whatever they have jumped over: a rebuild of the
stream takes fewer facts than the threshold.  They are those behind the snapshot that it has used,
up to the end of the stream. -/
theorem replay_lt_threshold (ht : 0 < t) (run : Serial s t stream clock o) {log : Log}
    (hl : log.sealer = s) (on : log.config.useSnapshots = true)
    (available : o.medium.available = true) (filled : o.scene.records stream ≠ [])
    (short : (o.scene.records stream).length ≤ Reader.positions) :
    ∃ b, (log.rebuild true stream).run o.scene.world = (.ok b, o.scene.world) ∧
      b.copy.version = (o.scene.records stream).length ∧
      b.applied = (o.scene.records stream).length - b.snapshotVersion.getD 0 ∧ b.applied < t := by
  obtain ⟨authors, h⟩ := run.frugal ht
  have hi := h.sound.holds
  have linked : s.Linked stream .empty (o.scene.records stream) :=
    Sealer.linked_iff.2 ⟨hi.orderly stream, hi.lawful stream⟩
  obtain ⟨full, hfull⟩ := h.economical.replays
  obtain ⟨b, hb, hcopy, hsnap, happ⟩ := Log.rebuild_accepts true available (hl ▸ linked) short
    filled hi.orderly (hi.shelved stream) hfull
  have hreach := Log.reach_of_startingPoint on h.inPlace (hi.shelved stream)
  rw [← hsnap] at hreach
  have happ' : b.applied + b.snapshotVersion.getD 0 = (o.scene.records stream).length := happ
  have hreached : (o.scene.records stream).length / t ≤ o.scene.world.shelf.reach stream / t :=
    h.economical.reached
  have hlt := lt_add_of_div_le ht hreached
  refine ⟨b, hb, ?_, by omega, by omega⟩
  obtain ⟨hf, -⟩ := Rebuilt.of_blank (hi.orderly stream) hfull
  rw [hcopy, hf]
  rfl

/-! ## A run -/

/-- What leaves the stream as it was has not written to it on the way. -/
theorem Serial.reaches (ht : 0 < t) (run : Serial s t stream clock o)
    (reached : Reaches (Errand.SealedBy s) o o')
    (records_eq : o'.scene.records stream = o.scene.records stream) :
    Serial s t stream clock o' := by
  obtain ⟨authors, h⟩ := run.frugal ht
  induction reached with
  | refl => exact run
  | @tail o₁ o₂ reached step ih =>
    obtain ⟨authors₁, h₁, hr₁⟩ := h.sound.reaches (fun _ => obeys_sealedBy) reached
    obtain ⟨authors₂, h₂, hr₂⟩ := h₁.step (fun _ => obeys_sealedBy) step
    have hle : (o₂.scene.records stream).length ≤ (o.scene.records stream).length :=
      Nat.le_of_eq (congrArg List.length records_eq)
    have hle₁ : (o₁.scene.records stream).length ≤ (o₂.scene.records stream).length :=
      hr₂.within.length_le stream
    have same : o₁.scene.records stream = o.scene.records stream :=
      ((hr₁.within stream).eq_of_length_le (Nat.le_trans hle₁ hle)).symm
    exact .step (ih same) step (records_eq.trans same.symm)

/-- A clerk calls one of his coordinators while nobody else does anything. -/
def callAlone (p : ClerkId) (k : Nat)
    (work : Coordinator → Dialogue (Except CommitError Nat × Coordinator)) (o : Office) : Office :=
  match o.clerks p with
  | .ask _ _ => o
  | .done d =>
    match d.coordinators k with
    | none => o
    | some c =>
      let visit := playVisit (work c) [] o
      visit.2.2.busy p (.done (d.setCoordinator k visit.2.1.2))

theorem Serial.callAlone {p : ClerkId} {k : Nat} {d : Desk} {c : Coordinator}
    {work : Coordinator → Dialogue (Except CommitError Nat × Coordinator)}
    (run : Serial s t stream clock o) (idle : o.clerks p = .done d)
    (found : d.coordinators k = some c) (snapshots : c.snapshots = true)
    (policy : c.policy = ⟨true, t⟩) (call : work = Coordinator.push ∨ work = Coordinator.commit) :
    Serial s t stream clock (o.callAlone p k work) := by
  unfold Office.callAlone
  rw [idle]
  simp only [found]
  exact .call run idle found snapshots policy (call.imp (congrFun · c) (congrFun · c))
    (led_alone (work c) o)

/-- A transfer is opened, and a coordinator that captures at every second version is to commit
it. -/
def opened : Office :=
  (opening .startOf2025 .empty).play
    [.begins 0 (.start "t"), .serve 0 1,
      .begins 0 (.perform 0 (.initiate ⟨100, "EUR", "a", "b"⟩)), .serve 0 1,
      .begins 0 (.hire 0 .quick true ⟨true, 2⟩), .begins 0 (.track 0 0)]

/-- The transfer goes on in a transaction, and one more fact is waiting behind what is staged. -/
def halfStaged : Office :=
  (opened.callAlone 0 0 Coordinator.push).play
    [.begins 0 (.perform 0 (.authorize (.approved "x"))), .serve 0 1,
      .begins 0 (.track 0 0), .begins 0 (.begin 0), .begins 0 (.push 0), .serve 0 3,
      .begins 0 (.perform 0 (.settle (.settled "y"))), .serve 0 1]

/-- The commit takes the stream from its first version past the second to the third. -/
theorem replay_of_halfStaged :
    ((halfStaged.callAlone 0 0 Coordinator.commit).scene.records "t").length = 3 ∧
    ∃ b, (Log.quick.rebuild true "t").run
          (halfStaged.callAlone 0 0 Coordinator.commit).scene.world =
        (.ok b, (halfStaged.callAlone 0 0 Coordinator.commit).scene.world) ∧
      b.copy.version = 3 ∧ b.applied < 2 := by
  have two : 0 < 2 := by decide
  have begun : Serial .quick 2 "t" .startOf2025 opened :=
    Serial.opening.reaches two (reaches_play _ (by
      simp [Turn.errand?, Errand.SealedBy, Errand.log?, Log.quick])) rfl
  have stored : Serial .quick 2 "t" .startOf2025 (opened.callAlone 0 0 Coordinator.push) :=
    begun.callAlone rfl rfl rfl rfl (.inl rfl)
  have staged : Serial .quick 2 "t" .startOf2025 halfStaged :=
    stored.reaches two (reaches_play _ (by
      simp [Turn.errand?, Errand.SealedBy, Errand.log?])) rfl
  have done : Serial .quick 2 "t" .startOf2025 (halfStaged.callAlone 0 0 Coordinator.commit) :=
    staged.callAlone rfl rfl rfl rfl (.inr rfl)
  have three : ((halfStaged.callAlone 0 0 Coordinator.commit).scene.records "t").length = 3 := rfl
  have sealed : Log.quick.sealer = .quick := rfl
  obtain ⟨b, hb, hv, -, hlt⟩ := replay_lt_threshold two done sealed rfl rfl
    (List.ne_nil_of_length_pos (by rw [three]; decide)) (by rw [three]; decide)
  exact ⟨three, b, hb, hv.trans three, hlt⟩

end Office

end TransferLedger

import TransferLedger.Proofs.Office.Handling

/-!
# The office is sound

Every errand keeps to the rules of the office (`Errand.keeps_work`).  So does whatever is left of
an errand, because that is what keeping to the rules means; and what one clerk may do is what the
others rely on.  So in every state that the office can reach there are notes on who has stored
what under which everything that always holds does hold, and each clerk is still keeping to the
rules (`Office.Sound.reaches`).
-/

set_option autoImplicit false

namespace TransferLedger

open Chronicle

variable {L : Law} {p : Party} {s : Chronicle}

/-! ## Errands -/

/-- What is on a desk is in order. -/
structure Desk.Fit (L : Law) (d : Desk) (s : Chronicle) : Prop where
  batches : ∀ k log b, d.batches k = some (log, b) →
    log.Obeys L ∧ (∀ r ∈ b.records, L.record r) ∧ L.Lenient
  coordinators : ∀ k c, d.coordinators k = some c → c.Fit L s

namespace Desk.Fit

variable {d : Desk}

theorem stable (d : Desk) : (officeRules L p).Stable (Desk.Fit L d) := by
  intro s s' h hr hs
  refine ⟨h.batches, fun k c hc => ?_⟩
  exact Coordinator.Fit.stable (L := L) (p := p) c (h.coordinators k c hc) hr hs

theorem bare (L : Law) (s : Chronicle) : Desk.bare.Fit L s where
  batches := fun _ _ _ h => absurd h (by simp [Desk.bare])
  coordinators := fun _ _ h => absurd h (by simp [Desk.bare])

theorem setBatch (hd : d.Fit L s) (k : Nat) {x : Option (Log × Batch)}
    (hx : ∀ log b, x = some (log, b) →
      log.Obeys L ∧ (∀ r ∈ b.records, L.record r) ∧ L.Lenient) :
    (d.setBatch k x).Fit L s where
  batches := by
    intro k' log b h
    have h' : Keyed.set d.batches k x k' = some (log, b) := h
    by_cases hk : k' = k
    · subst hk
      rw [Keyed.set_same] at h'
      exact hx log b h'
    · rw [Keyed.set_other _ _ hk] at h'
      exact hd.batches k' log b h'
  coordinators := hd.coordinators

theorem setCoordinator (hd : d.Fit L s) (k : Nat) {c : Coordinator} (hc : c.Fit L s) :
    (d.setCoordinator k c).Fit L s where
  batches := hd.batches
  coordinators := by
    intro k' c' h
    have h' : Keyed.set d.coordinators k (some c) k' = some c' := h
    by_cases hk : k' = k
    · subst hk
      rw [Keyed.set_same] at h'
      obtain rfl := Option.some.inj h'
      exact hc
    · rw [Keyed.set_other _ _ hk] at h'
      exact hd.coordinators k' c' h'

end Desk.Fit

theorem Desk.Fit.lasting (d : Desk) : Lasting L (Desk.Fit L d) :=
  fun _ => Desk.Fit.stable d

theorem Desk.Fit.keeps_pure {d : Desk} (hd : d.Fit L s) :
    (pure d : Dialogue Desk).Keeps (officeRules L p) (Desk.Fit L) s :=
  .pure (Desk.Fit.stable d) hd fun _ _ h => h

theorem Desk.Fit.keeps_aside {d : Desk} (hd : d.Fit L s) {α : Type} {t : Dialogue α}
    {Q : α → Chronicle → Prop} (ht : t.Keeps (officeRules L p) Q s) :
    (t >>= fun _ => pure d).Keeps (officeRules L p) (Desk.Fit L) s :=
  .bind ((ht.frame (Desk.Fit.lasting d) hd).mono fun _ _ _ h => h.2.keeps_pure)

theorem Desk.Fit.keeps_after {d : Desk} (hd : d.Fit L s) (k : Nat)
    {work : Dialogue (Except CommitError Nat × Coordinator)}
    (hw : work.Keeps (officeRules L p) (fun r s' => r.2.Fit L s') s) :
    (d.after k work).Keeps (officeRules L p) (Desk.Fit L) s :=
  .bind ((hw.frame (Desk.Fit.lasting d) hd).mono fun _ _ _ h =>
    (h.2.setCoordinator k h.1).keeps_pure)

/-- An audit only reads. -/
theorem Log.keeps_audit (log : Log) (stream : String) :
    (log.audit stream).Keeps (officeRules L p) (fun _ _ => True) s := by
  have reading : Reader.Reading (fun _ => True) (fun s : Chronicle => s.scene.world) 0
      (log.unverified.streamReader stream 1) s :=
    Reader.reading_reader trivial log.unverified (Nat.zero_le _) ..
  refine .bind ((Reader.keeps_runWithin (officeRules_grows L p) (Cursor.advance log.sealer)
    Reader.positions Rules.Stable.const reading).mono fun res s₁ _ _ => ?_)
  obtain ⟨c, stop⟩ := res
  cases stop with
  | ended | failed | refused => exact .pure Rules.Stable.const trivial fun _ _ h => h

/-- Staging lawful records to a batch of lawful records makes one. -/
theorem Log.keeps_stageLawful {log : Log} (obeys : log.Obeys L) {b : Batch}
    (lawful : ∀ r ∈ b.records, L.record r) (stream : String) (entries : List Entry)
    (expected : Nat) :
    (log.stage b stream entries expected).Keeps (officeRules L p)
      (fun res _ => ∀ v b', res = .ok (v, b') → ∀ r ∈ b'.records, L.record r) s := by
  refine (Log.keeps_stage (officeRules_shows L p) (P := fun _ => True) Rules.Stable.const trivial
    log b stream entries expected).mono fun res s' _ hres v b' hr r hmem => ?_
  obtain ⟨h, hstage, -⟩ := hres.2.1 v b' hr
  obtain ⟨-, -, hrec⟩ := Log.records_of_stageBehind hstage
  rw [hrec] at hmem
  rcases List.mem_append.1 hmem with hmem | hmem
  · exact lawful r hmem
  · exact obeys.chain hmem

theorem Log.keeps_commitLawful (log : Log) {b : Batch} (lawful : ∀ r ∈ b.records, L.record r)
    (lenient : L.Lenient) : (log.commit b).Keeps (officeRules L p) (fun _ _ => True) s :=
  have nothing : (officeRules L p).Stable fun _ => True := .const
  (log.keeps_commit lawful nothing trivial (fun _ _ _ _ _ _ => lenient ..) nothing
    fun _ _ _ _ _ => trivial).mono fun _ _ _ _ => trivial

theorem Log.keeps_append {log : Log} (obeys : log.Obeys L) (lenient : L.Lenient) (stream : String)
    (entries : List Entry) (expected : Nat) :
    (log.append stream entries expected).Keeps (officeRules L p) (fun _ _ => True) s := by
  have nothing : ∀ r ∈ Batch.empty.records, L.record r := by simp [Batch.empty, Batch.records]
  refine .bind ((Log.keeps_stageLawful obeys nothing stream entries expected).mono
    fun res s₁ _ hres => ?_)
  cases res with
  | error e => exact .pure Rules.Stable.const trivial fun _ _ h => h
  | ok staged =>
    obtain ⟨version, b⟩ := staged
    refine .bind ((log.keeps_commitLawful (hres version b rfl) lenient).mono fun res s₂ _ _ => ?_)
    cases res with
    | ok | error => exact .pure Rules.Stable.const trivial fun _ _ h => h

theorem keeps_place {c : WorkingCopy} {stream : String} (hc : Rebuildable L stream s c) :
    (Dialogue.place c).Keeps (officeRules L p) (fun _ _ => True) s :=
  .ask (Rebuildable.stable stream c) hc fun _ _ h =>
    ⟨⟨h.1, h.2.2⟩, fun _ _ _ _ => .done Rules.Stable.const trivial fun _ _ h => h⟩

theorem keeps_perform (h : HandleId) (o : Operation) :
    (Dialogue.perform h o).Keeps (officeRules L p) (fun _ _ => True) s :=
  .ask (P := fun _ => True) Rules.Stable.const trivial fun _ _ _ =>
    ⟨trivial, fun _ _ _ _ => .done Rules.Stable.const trivial fun _ _ h => h⟩

/-! ## Coordinators between two commits -/

theorem Coordinator.Fit.track {c : Coordinator} (hc : c.Fit L s) (h : HandleId) :
    (c.track h).Fit L s := by
  unfold Coordinator.track
  split
  · exact hc
  · exact ⟨hc.obeys, hc.follows⟩

theorem Coordinator.Fit.begin {c c' : Coordinator} (hc : c.Fit L s) (h : c.begin = .ok c') :
    c'.Fit L s := by
  unfold Coordinator.begin at h
  split at h
  · simp at h
  · obtain rfl := Except.ok.inj h
    refine ⟨hc.obeys, fun b hb => ?_⟩
    obtain rfl := Option.some.inj hb
    exact .empty L s

theorem Coordinator.Fit.rollback {c c' : Coordinator} {n : Nat} (hc : c.Fit L s)
    (h : c.rollback = .ok (n, c')) : c'.Fit L s := by
  unfold Coordinator.rollback at h
  split at h
  · simp at h
  · obtain ⟨-, rfl⟩ := Prod.mk.inj (Except.ok.inj h)
    exact .closed hc.obeys rfl

/-- Every errand keeps to the rules, and leaves a desk in order. -/
theorem Errand.keeps_work {d : Desk} (hs : Holds L s) (hd : d.Fit L s) (e : Errand)
    (allowed : ∀ log ∈ e.log?, log.Obeys L) (raw : e.Raw → L.Lenient) :
    (e.work d).Keeps (officeRules L p) (Desk.Fit L) s := by
  have lasting := Desk.Fit.lasting (L := L) d
  cases e with
  | append log stream entries expected =>
    exact hd.keeps_aside
      (Log.keeps_append (allowed log rfl) (raw trivial) stream entries expected)
  | openBatch k log =>
    refine (hd.setBatch k fun log' b hx => ?_).keeps_pure
    obtain ⟨rfl, rfl⟩ := Prod.mk.inj (Option.some.inj hx)
    exact ⟨allowed log rfl, by simp [Batch.empty, Batch.records], raw trivial⟩
  | stage k stream entries expected =>
    simp only [Errand.work]
    cases hb : d.batches k with
    | none => exact hd.keeps_pure
    | some x =>
      obtain ⟨log, b⟩ := x
      obtain ⟨obeys, lawful, lenient⟩ := hd.batches k log b hb
      refine .bind (((Log.keeps_stageLawful obeys lawful stream entries expected).frame
        lasting hd).mono fun res s₁ _ hres => ?_)
      cases res with
      | error e => exact hres.2.keeps_pure
      | ok staged =>
        obtain ⟨v, b'⟩ := staged
        refine (hres.2.setBatch k fun log' b'' hx => ?_).keeps_pure
        obtain ⟨rfl, rfl⟩ := Prod.mk.inj (Option.some.inj hx)
        exact ⟨obeys, hres.1 v b' rfl, lenient⟩
  | store k =>
    simp only [Errand.work]
    cases hb : d.batches k with
    | none => exact hd.keeps_pure
    | some x =>
      obtain ⟨log, b⟩ := x
      obtain ⟨-, lawful, lenient⟩ := hd.batches k log b hb
      refine .bind (((log.keeps_commitLawful lawful lenient).frame lasting hd).mono
        fun _ _ _ h => ?_)
      exact (h.2.setBatch k fun _ _ hx => absurd hx (by simp)).keeps_pure
  | discard k => exact (hd.setBatch k fun _ _ hx => absurd hx (by simp)).keeps_pure
  | start stream => exact hd.keeps_aside (keeps_place (.blank hs stream))
  | rebuild log snapshots stream =>
    refine .bind (((log.keeps_rebuild snapshots stream (P := fun _ => True) Rules.Stable.const
      trivial).frame lasting hd).mono fun res s₁ _ hres => ?_)
    cases res with
    | ok b => exact hres.2.keeps_aside (keeps_place (hres.1.2 b rfl))
    | error e => exact hres.2.keeps_pure
  | perform h o => exact hd.keeps_aside (keeps_perform h o)
  | hire k log snapshots policy =>
    refine (hd.setCoordinator k ?_).keeps_pure
    exact .closed (allowed log rfl) rfl
  | track k h =>
    simp only [Errand.work]
    cases hc : d.coordinators k with
    | none => exact hd.keeps_pure
    | some c => exact (hd.setCoordinator k ((hd.coordinators k c hc).track h)).keeps_pure
  | begin k =>
    simp only [Errand.work]
    cases hc : d.coordinators k with
    | none => exact hd.keeps_pure
    | some c =>
      cases hb : c.begin with
      | error e => simpa only [hb] using hd.keeps_pure
      | ok c' =>
        simpa only [hb] using
          (hd.setCoordinator k ((hd.coordinators k c hc).begin hb)).keeps_pure
  | push k =>
    simp only [Errand.work]
    cases hc : d.coordinators k with
    | none => exact hd.keeps_pure
    | some c => exact hd.keeps_after k (Coordinator.keeps_push (hd.coordinators k c hc))
  | commit k =>
    simp only [Errand.work]
    cases hc : d.coordinators k with
    | none => exact hd.keeps_pure
    | some c => exact hd.keeps_after k (Coordinator.keeps_commit (hd.coordinators k c hc))
  | rollback k =>
    simp only [Errand.work]
    cases hc : d.coordinators k with
    | none => exact hd.keeps_pure
    | some c =>
      cases hb : c.rollback with
      | error e => simpa only [hb] using hd.keeps_pure
      | ok r =>
        simpa only [hb] using
          (hd.setCoordinator k ((hd.coordinators k c hc).rollback hb)).keeps_pure
  | handle h id c =>
    exact hd.keeps_aside (CommandHandler.keeps_handle (allowed h.log rfl) (.idle L p h.log) id c
      trivial)
  | audit log stream => exact hd.keeps_aside (log.keeps_audit stream)

/-! ## Offices -/

namespace Office

/-- Under some notes on who has stored what, everything that always holds does hold, and each clerk
is keeping to the rules. -/
structure Sound (L : Law) (o : Office) (authors : String → List Party) : Prop where
  holds : Holds L ⟨o.scene, authors⟩
  keeps : ∀ p, (o.clerks p).Keeps (officeRules L (some p)) (Desk.Fit L) ⟨o.scene, authors⟩

theorem Sound.opening {clock : Instant} {shelf : Shelf}
    (lawful : ∀ stream x, shelf.latest stream = some x → L.snapshot .empty x) :
    Sound L (opening clock shelf) fun _ => [] where
  holds :=
    { orderly := Memory.orderly_empty
      lawful := fun _ r hr => absurd hr (by simp [Office.opening, InMemory.empty, Memory.empty])
      whole := L.whole_nil
      noted := fun _ => rfl
      length_stories := rfl
      told := fun _ _ _ hc => absurd hc (by simp [Chronicle.copies, Office.opening, InMemory.empty])
      shelved := lawful }
  keeps := fun _ => (Desk.Fit.bare L _).keeps_pure

/-- Somebody's request is answered, and the others go on from there. -/
theorem Sound.answered {o : Office} {authors : String → List Party} (h : Sound L o authors)
    {p : Party} {q : Request} {a : q.Answer} {scene : Scene}
    (hp : Proper L p ⟨o.scene, authors⟩ q) (ha : o.scene.Answers q a scene) :
    Kept L p ⟨o.scene, authors⟩ (Chronicle.after ⟨o.scene, authors⟩ p scene) :=
  Chronicle.Answers.kept (s := ⟨o.scene, authors⟩) h.holds hp ⟨ha⟩

/-- One thing happens: to somebody from outside it is something that the others may do. -/
theorem Sound.step {allowed : Errand → Prop}
    (obeys : ∀ e, allowed e → ∀ log ∈ e.log?, log.Obeys L) {o o' : Office}
    {authors : String → List Party} (h : Sound L o authors) (hs : Step allowed o o')
    (raw : ∀ e, allowed e → e.Raw → L.Lenient := by exact fun _ _ _ _ _ => trivial) :
    ∃ authors', Sound L o' authors' ∧ Rely none ⟨o.scene, authors⟩ ⟨o'.scene, authors'⟩ := by
  cases hs with
  | @begins p d e idle may =>
    refine ⟨authors, ⟨h.holds, fun p' => ?_⟩, .refl ..⟩
    by_cases hp : p' = p
    · -- He has kept to the rules up to here, so his desk is in order.
      subst hp
      have hd := h.keeps p'
      rw [idle] at hd
      have hfit : d.Fit L ⟨o.scene, authors⟩ := hd _ (.refl ..) h.holds
      show Dialogue.Keeps _ _ (Keyed.set o.clerks p' (e.work d) p') _
      rw [Keyed.set_same]
      exact Errand.keeps_work h.holds hfit e (obeys e may) (raw e may)
    · show Dialogue.Keeps _ _ (Keyed.set o.clerks p (e.work d) p') _
      rw [Keyed.set_other _ _ hp]
      exact h.keeps p'
  | @asks p q next a scene busy answered =>
    have hk := h.keeps p
    rw [busy] at hk
    obtain ⟨hp, hn⟩ := hk _ (.refl ..) h.holds
    obtain ⟨hi, hr⟩ := h.answered hp answered
    refine ⟨_, ⟨hi, fun p' => ?_⟩, hr none (by simp)⟩
    by_cases hpp : p' = p
    · subst hpp
      show Dialogue.Keeps _ _ (Keyed.set o.clerks p' (next a) p') _
      rw [Keyed.set_same]
      exact hn a _ ⟨answered⟩
    · -- To every other clerk it is something that the others may do.
      show Dialogue.Keeps _ _ (Keyed.set o.clerks p (next a) p') _
      rw [Keyed.set_other _ _ hpp]
      exact (h.keeps p').later (hr (some p') (by simpa using Ne.symm hpp))
  | medium available =>
    refine ⟨authors, ⟨h.holds.of_eq (fun _ => rfl) rfl rfl h.holds.shelved, fun p' => ?_⟩,
      .of_eq (s := ⟨o.scene, authors⟩) (fun _ => rfl) rfl⟩
    exact (h.keeps p').later (Rely.of_eq (s := ⟨o.scene, authors⟩) (fun _ => rfl) rfl)
  | clock now =>
    refine ⟨authors, ⟨h.holds.of_eq (fun _ => rfl) rfl rfl h.holds.shelved, fun p' => ?_⟩,
      .of_eq (s := ⟨o.scene, authors⟩) (fun _ => rfl) rfl⟩
    exact (h.keeps p').later (Rely.of_eq (s := ⟨o.scene, authors⟩) (fun _ => rfl) rfl)

theorem Sound.reaches {allowed : Errand → Prop}
    (obeys : ∀ e, allowed e → ∀ log ∈ e.log?, log.Obeys L) {o o' : Office}
    {authors : String → List Party} (h : Sound L o authors) (hr : Reaches allowed o o')
    (raw : ∀ e, allowed e → e.Raw → L.Lenient := by exact fun _ _ _ _ _ => trivial) :
    ∃ authors', Sound L o' authors' ∧ Rely none ⟨o.scene, authors⟩ ⟨o'.scene, authors'⟩ := by
  induction hr with
  | refl => exact ⟨authors, h, .refl ..⟩
  | tail _ hs ih =>
    obtain ⟨authors₁, h₁, hr₁⟩ := ih
    obtain ⟨authors₂, h₂, hr₂⟩ := h₁.step obeys hs raw
    exact ⟨authors₂, h₂, hr₁.trans hr₂⟩

end Office

end TransferLedger

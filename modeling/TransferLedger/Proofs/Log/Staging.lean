import TransferLedger.Coordinator
import TransferLedger.Proofs.Chain.Medium
import TransferLedger.Proofs.Dialogue.Holding
import TransferLedger.Proofs.Dialogue.Views
import TransferLedger.Proofs.Rebuild.Taking

/-!
# What staging does to a batch

Staging entries for a stream adds one append to the batch, and only if the head that the log sees,
its batch's own or the medium's, is at the version that the append expects
(`Log.stageBehind_eq_ok`).  A batch never has an append without records.  What it has for a stream
goes up to the head that it shows for it, and no further (`Batch.Topped`).
-/

set_option autoImplicit false

namespace TransferLedger

/-! ## The ends of a batch -/

namespace Batch

variable {b b' : Batch} {stream : String} {h : Head} {rs : List Record}

/-- What a batch has for a stream goes no further than the end that it has for it. -/
def Topped (b : Batch) : Prop :=
  ∀ r ∈ b.records, ∃ g, b.head? r.stream = some g ∧ r.sequence ≤ g.version

theorem records_of_staged {as : List Append} (h : b'.staged = b.staged ++ as) :
    b'.records = b.records ++ as.flatMap Append.records := by
  rw [records, h, List.flatMap_append, records]

theorem head?_extended (hb : b'.records = b.records ++ rs) (hc : Continues stream h rs)
    (filled : rs ≠ []) : b'.head? stream = some (h.after rs) := by
  have hrs : rs.filter (fun r => r.stream == stream) = rs :=
    List.filter_eq_self.2 fun r hr => by simpa using (hc.of_mem hr).1
  obtain ⟨r, hr⟩ := Option.isSome_iff_exists.1 (List.getLast?_isSome.2 filled)
  rw [head?, hb, List.filter_append, hrs, List.getLast?_append, hr, Head.after_of_getLast? hr]
  rfl

theorem head?_extended_other (hb : b'.records = b.records ++ rs) (hc : Continues stream h rs)
    {other : String} (hne : other ≠ stream) : b'.head? other = b.head? other := by
  have hrs : rs.filter (fun r => r.stream == other) = [] := by
    refine List.filter_eq_nil_iff.2 fun r hr => ?_
    rw [(hc.of_mem hr).1]
    simpa using Ne.symm hne
  rw [head?, hb, List.filter_append, hrs, List.append_nil, head?]

/-- Records behind the end that the batch has for their stream, if it has one. -/
theorem Topped.extended (ht : b.Topped) (hb : b'.records = b.records ++ rs)
    (hc : Continues stream h rs) (filled : rs ≠ [])
    (behind : ∀ g, b.head? stream = some g → g = h) : b'.Topped := by
  intro r hr
  rw [hb, List.mem_append] at hr
  have hend := head?_extended hb hc filled
  have hv := hc.version_after
  rcases hr with hr | hr
  · obtain ⟨g, hg, hle⟩ := ht r hr
    by_cases hs : r.stream = stream
    · rw [hs] at hg ⊢
      obtain rfl := behind g hg
      exact ⟨_, hend, by omega⟩
    · exact ⟨g, by rwa [head?_extended_other hb hc hs], hle⟩
  · obtain ⟨hs, -, hle, -⟩ := hc.of_mem hr
    rw [hs]
    exact ⟨_, hend, by omega⟩

end Batch

namespace Log

theorem stageBehind_eq_ok {log : Log} {b b' : Batch} {stream : String} {entries : List Entry}
    {expected v : Nat} {h : Head}
    (hs : log.stageBehind b stream entries expected h = .ok (v, b')) :
    h.version = expected ∧ v = expected + entries.length ∧
      b'.staged = b.staged ++
        if entries = [] then [] else [⟨stream, expected, log.sealer.chain stream h entries⟩] := by
  unfold stageBehind at hs
  by_cases hv : h.version = expected
  · rw [if_neg (by simpa using hv)] at hs
    cases entries with
    | nil =>
      simp only [List.isEmpty_nil, if_true, Except.ok.injEq, Prod.mk.injEq] at hs
      obtain ⟨rfl, rfl⟩ := hs
      exact ⟨hv, rfl, by simp⟩
    | cons e rest =>
      simp only [List.isEmpty_cons, Bool.false_eq_true, if_false, Except.ok.injEq,
        Prod.mk.injEq] at hs
      obtain ⟨rfl, rfl⟩ := hs
      refine ⟨hv, ?_, by simp⟩
      rw [Append.version, Sealer.length_chain]
  · rw [if_pos hv] at hs
    simp at hs

/-- A stage that succeeds adds a record for each entry, and nothing else. -/
theorem records_of_stageBehind {log : Log} {b b' : Batch} {stream : String} {entries : List Entry}
    {expected v : Nat} {h : Head}
    (hs : log.stageBehind b stream entries expected h = .ok (v, b')) :
    h.version = expected ∧ v = expected + entries.length ∧
      b'.records = b.records ++ log.sealer.chain stream h entries := by
  obtain ⟨h1, h2, h3⟩ := stageBehind_eq_ok hs
  refine ⟨h1, h2, ?_⟩
  rw [Batch.records_of_staged h3]
  cases entries with
  | nil => rfl
  | cons e rest => simp

variable {σ : Type} {R : Rules σ} {view : σ → InMemory}

/-- What the log takes for the end of a stream behind a batch: the end that the batch has for it, or
the one that the medium has shown at a moment of which something was known. -/
def Sees (known : σ → Prop) (view : σ → InMemory) (b : Batch) (stream : String) (h : Head) : Prop :=
  b.head? stream = some h ∨
    b.head? stream = none ∧ ∃ s, known s ∧ h = (view s).medium.head stream

theorem Sees.behind {known : σ → Prop} {b : Batch} {stream : String} {h g : Head}
    (hs : Sees known view b stream h) (hg : b.head? stream = some g) : g = h := by
  rcases hs with hh | ⟨hnone, -⟩
  · exact Option.some.inj (hg.symm.trans hh)
  · rw [hnone] at hg
    exact absurd hg (by simp)

/-- Staging comes to a conflict if the stream is not at the version that it should have. -/
theorem conflict_of_stageBehind {log : Log} {b : Batch} {stream : String} {entries : List Entry}
    {expected : Nat} {h : Head} {e : StoreError}
    (he : log.stageBehind b stream entries expected h = .error e) :
    h.version ≠ expected ∧ e.isConflict = true := by
  unfold stageBehind at he
  split at he
  · next hv =>
    obtain rfl := Except.error.inj he
    exact ⟨hv, rfl⟩
  · split at he <;> simp at he

/-- Staging looks at no more than a head, and changes nothing but the batch.  What it comes to is up
to the end of the stream that it goes by, unless the medium is out of reach. -/
theorem keeps_staging (shows : R.Shows view) {P : σ → Prop} {P' : Head → σ → Prop}
    (stable : R.Stable P) (stable' : ∀ h, R.Stable (P' h)) (log : Log) (b : Batch)
    (stream : String) (entries : List Entry) (expected : Nat)
    (staged : ∀ h s, b.head? stream = some h → P s → P' h s)
    (shown : ∀ s, b.head? stream = none → R.holds s → P s → P' ((view s).medium.head stream) s)
    {s : σ} (hs : P s) :
    (log.stage b stream entries expected).Keeps R
      (fun r s' => (∃ h, r = log.stageBehind b stream entries expected h ∧ P' h s') ∨
        r = .error Memory.outage ∧ P s' ∧
          ∃ s₀, R.holds s₀ ∧ P s₀ ∧ (view s₀).medium.available = false) s := by
  refine .bind ?_
  unfold headBehind
  cases hb : b.head? stream with
  | some h =>
    refine .pure (stable' h) (staged h s hb hs) fun s' _ hp => ?_
    exact .pure (stable' h) hp fun s'' _ hp' => .inl ⟨h, rfl, hp'⟩
  | none =>
    refine .look shows rfl stable hs fun s' hi hp => ?_
    dsimp only [InMemory.answer, Memory.readHead]
    by_cases ha : (view s').medium.available
    · rw [if_pos ha]
      refine .done (stable' _) (shown s' hb hi hp) fun s'' _ hp' => ?_
      exact .pure (stable' _) hp' fun t _ ht => .inl ⟨_, rfl, ht⟩
    · rw [if_neg ha]
      refine .done stable hp fun s'' _ hp' => ?_
      exact .pure stable hp' fun t _ ht => .inr ⟨rfl, ht, s', hi, hp, by simpa using ha⟩

/-- It fails if somebody else has written to the stream, or if the medium is out of reach. -/
theorem keeps_stage (shows : R.Shows view) {P : σ → Prop} (stable : R.Stable P) {s : σ} (hs : P s)
    (log : Log) (b : Batch) (stream : String) (entries : List Entry) (expected : Nat) :
    (log.stage b stream entries expected).Keeps R
      (fun r s' => P s' ∧
        (∀ v b', r = .ok (v, b') → ∃ h, log.stageBehind b stream entries expected h = .ok (v, b') ∧
          Sees (fun s => R.holds s ∧ P s) view b stream h) ∧
        ∀ e, r = .error e → e.isConflict = true ∨
          ∃ s₀, R.holds s₀ ∧ P s₀ ∧ (view s₀).medium.available = false) s := by
  have stable' (h : Head) : R.Stable fun s' => P s' ∧
      Sees (fun s => R.holds s ∧ P s) view b stream h := stable.and .const
  refine (keeps_staging shows stable stable' log b stream entries expected
    (fun h s hb hp => ⟨hp, .inl hb⟩) (fun s hb hi hp => ⟨hp, .inr ⟨hb, s, ⟨hi, hp⟩, rfl⟩⟩)
    hs).mono fun r s' _ hr => ?_
  rcases hr with ⟨h, rfl, hp, sees⟩ | ⟨rfl, hp, out⟩
  · exact ⟨hp, fun v b' hr => ⟨h, hr, sees⟩, fun e he => .inl (conflict_of_stageBehind he).2⟩
  · exact ⟨hp, fun v b' hr => by simp at hr, fun e _ => .inr out⟩

/-- Each fact gets its time when its turn comes, and may get another one than the fact before it. -/
theorem keeps_entries (shows : R.Shows view) {P : σ → Prop} (stable : R.Stable P) {s : σ} (hs : P s)
    (es : List Event) :
    (Dialogue.entries es).Keeps R (fun xs s' => P s' ∧ List.Forall₂ Entry.Carries xs es) s := by
  induction es generalizing s with
  | nil => exact .pure stable hs fun _ _ hp => ⟨hp, .nil⟩
  | cons e rest ih =>
    refine .look_bind shows rfl stable hs fun s₁ _ hs₁ => ?_
    refine .bind ((ih hs₁).mono fun xs s₂ _ hr => ?_)
    exact .pure stable hr.1 fun _ _ hp => ⟨hp, .cons ⟨_, rfl⟩ hr.2⟩

/-- How a batch comes out of staging a copy that was seen to be like this when it was looked at. -/
inductive StagesTo (log : Log) (known : Option WorkingCopy → σ → Prop) (view : σ → InMemory)
    (h : HandleId) (b : OpenBatch) : Option WorkingCopy → OpenBatch → Prop
  /-- There is no copy, or nothing to stage of it. -/
  | unchanged {c? : Option WorkingCopy} (nothing : ∀ c ∈ c?, c.pending.length ≤ b.stagedFor h) :
      StagesTo log known view h b c? b
  | staged {c : WorkingCopy} {entries : List Entry} {head : Head} {v : Nat} {batch : Batch}
      (more : b.stagedFor h < c.pending.length)
      (ready : List.Forall₂ Entry.Carries entries (c.pending.drop (b.stagedFor h)))
      (stage : log.stageBehind b.batch c.stream entries (c.durable + b.stagedFor h) head =
        .ok (v, batch))
      (sees : Sees (known (some c)) view b.batch c.stream head) :
      StagesTo log known view h b (some c) ⟨batch, OpenBatch.note h c.durable v b.moved⟩

/-- A copy is looked at, and from then on it may change; what is staged is what has been seen. -/
theorem keeps_stagingCopy (shows : R.Shows view) (log : Log) (h : HandleId) (b : OpenBatch)
    {P : σ → Prop} {P' : Option WorkingCopy → σ → Prop} (stable : R.Stable P)
    (stable' : ∀ c?, R.Stable (P' c?))
    (seen : ∀ s, R.holds s → P s → P' (view s).copies[h]? s) {s : σ} (hs : P s) :
    (log.stageCopy h b).Keeps R (fun r s' =>
      (∀ n b', r = .ok (n, b') →
        ∃ c?, P' c? s' ∧ log.StagesTo (fun c? s => R.holds s ∧ P' c? s) view h b c? b') ∧
      ∀ e, r = .error e → e.isConflict = true ∨
        ∃ c? s₀, R.holds s₀ ∧ P' c? s₀ ∧ (view s₀).medium.available = false) s := by
  refine .look_bind shows rfl stable hs fun s₁ hi₁ hs₁ => ?_
  dsimp only [InMemory.answer]
  have hseen := seen s₁ hi₁ hs₁
  cases hc : (view s₁).copies[h]? with
  | none =>
    rw [hc] at hseen
    refine .pure (stable' none) hseen fun s₂ _ hs₂ => ⟨fun n b' hr => ?_, fun e he => by simp at he⟩
    obtain ⟨-, rfl⟩ := Prod.mk.inj (Except.ok.inj hr)
    exact ⟨none, hs₂, .unchanged (by simp)⟩
  | some c =>
    rw [hc] at hseen
    have st := stable' (some c)
    by_cases hle : c.pending.length ≤ b.stagedFor h
    · simp only [if_pos hle]
      refine .pure st hseen fun s₂ _ hs₂ => ⟨fun n b' hr => ?_, fun e he => by simp at he⟩
      obtain ⟨-, rfl⟩ := Prod.mk.inj (Except.ok.inj hr)
      exact ⟨some c, hs₂, .unchanged fun x hx => Option.some.inj hx ▸ hle⟩
    · simp only [if_neg hle]
      refine .bind ((keeps_entries shows st hseen _).mono fun entries s₂ _ hr => ?_)
      obtain ⟨hs₂, ready⟩ := hr
      refine .bind ((keeps_stage shows st hs₂ log _ _ _ _).mono fun r s₃ _ hr => ?_)
      obtain ⟨hs₃, hok, herror⟩ := hr
      cases r with
      | error e =>
        refine .pure st hs₃ fun _ _ _ => ⟨fun n b' hr => by simp at hr, fun e' he => ?_⟩
        obtain rfl := Except.error.inj he
        exact (herror e rfl).imp_right fun ⟨s₀, h₀⟩ => ⟨some c, s₀, h₀⟩
      | ok r =>
        obtain ⟨v, batch⟩ := r
        obtain ⟨head, hstage, sees⟩ := hok v batch rfl
        refine .pure st hs₃ fun s₄ _ hs₄ => ⟨fun n b' hr => ?_, fun e he => by simp at he⟩
        obtain ⟨-, rfl⟩ := Prod.mk.inj (Except.ok.inj hr)
        exact ⟨some c, hs₄, .staged (Nat.lt_of_not_le hle) ready hstage sees⟩

/-- Storing a batch asks for nothing else.  Either it lands, or there is nothing in it, or it
fails, and then something may be known of the error. -/
theorem keeps_storing_or (log : Log) (b : Batch) {P P' : σ → Prop} {P'' : StoreError → σ → Prop}
    (stable : R.Stable P) (stable' : R.Stable P') (stable'' : ∀ e, R.Stable (P'' e)) {s : σ}
    (hs : P s)
    (asked : ∀ s, R.holds s → P s → R.proper (.commit log.config.timeout b.staged) s)
    (applied : ∀ s s', R.holds s → P s →
      R.answers (.commit log.config.timeout b.staged) s Reply.applied s' → P' s')
    (refused : ∀ s s' e, R.holds s → P s →
      R.answers (.commit log.config.timeout b.staged) s (Reply.refused e) s' → P'' e s')
    (late : ∀ s s', R.holds s → P s →
      R.answers (.commit log.config.timeout b.staged) s Reply.late s' →
        P'' (tooLate log.config.timeout) s') :
    (log.commit b).Keeps R (fun r s' => match r with
      | .ok n => n = b.size ∧ (b.size = 0 ∧ P s' ∨ P' s')
      | .error e => P'' e s') s := by
  unfold Log.commit
  by_cases hz : b.size = 0
  · rw [if_pos hz]
    exact .pure stable hs fun s' _ hs' => ⟨hz.symm, .inl ⟨hz, hs'⟩⟩
  · rw [if_neg hz]
    refine .ask_bind stable hs fun s₁ hi₁ hs₁ => ⟨asked s₁ hi₁ hs₁, fun a s₂ hi₂ ha => ?_⟩
    cases a with
    | applied =>
      exact .pure stable' (applied s₁ s₂ hi₁ hs₁ ha) fun s' _ hs' => ⟨rfl, .inr hs'⟩
    | refused e => exact .pure (stable'' e) (refused s₁ s₂ e hi₁ hs₁ ha) fun s' _ hs' => hs'
    | late => exact .pure (stable'' _) (late s₁ s₂ hi₁ hs₁ ha) fun s' _ hs' => hs'

theorem keeps_storing (log : Log) (b : Batch) {P P' P'' : σ → Prop} (stable : R.Stable P)
    (stable' : R.Stable P') (stable'' : R.Stable P'') {s : σ} (hs : P s)
    (asked : ∀ s, R.holds s → P s → R.proper (.commit log.config.timeout b.staged) s)
    (applied : ∀ s s', R.holds s → P s →
      R.answers (.commit log.config.timeout b.staged) s Reply.applied s' → P' s')
    (failed : ∀ s s' (a : Reply), R.holds s → P s → a ≠ .applied →
      R.answers (.commit log.config.timeout b.staged) s a s' → P'' s') :
    (log.commit b).Keeps R (fun r s' => match r with
      | .ok n => n = b.size ∧ (b.size = 0 ∧ P s' ∨ P' s')
      | .error _ => P'' s') s :=
  log.keeps_storing_or b stable stable' (fun _ => stable'') hs asked applied
    (fun s s' e hi hp => failed s s' (.refused e) hi hp nofun)
    (fun s s' hi hp => failed s s' .late hi hp nofun)

/-! ## The log does not ask about copies -/

theorem impersonal_stage (log : Log) (b : Batch) (stream : String) (entries : List Entry)
    (expected : Nat) : (log.stage b stream entries expected).Impersonal := by
  refine .bind ?_ fun res => ?_
  · unfold headBehind
    cases b.head? stream with
    | some h => exact trivial
    | none => exact fun _ => trivial
  · cases res <;> exact trivial

theorem impersonal_entries (es : List Event) : (Dialogue.entries es).Impersonal := by
  induction es with
  | nil => exact trivial
  | cons e rest ih =>
    have time : Dialogue.time.Impersonal := fun _ => trivial
    exact time.bind fun _ => ih.bind fun _ => trivial

theorem impersonal_commit (log : Log) (b : Batch) : (log.commit b).Impersonal := by
  unfold Log.commit
  by_cases hz : b.size = 0
  · rw [if_pos hz]
    exact trivial
  · rw [if_neg hz]
    exact fun reply => by cases reply <;> exact trivial

end Log

end TransferLedger

import TransferLedger.Proofs.Office.Movements

/-!
# What a coordinator keeps

Staging keeps the movements in step whatever the others do between its requests
(`keeps_stageCopy`); a batch that lands makes them due, and confirming them is proper
(`keeps_confirmAll`).  So a coordinator keeps to the rules of the office, and its open batch is in
order whenever it is idle: `Coordinator.keeps_push`, `Coordinator.keeps_commit`.
-/

set_option autoImplicit false

namespace TransferLedger

open Chronicle

variable {L : Law} {p : Party} {s : Chronicle}

/-- What the log seals is lawful. -/
def Log.Obeys (L : Law) (log : Log) : Prop :=
  ∀ stream h e, L.record (log.sealer.record stream h e)

theorem Log.Obeys.chain {log : Log} (hl : log.Obeys L) {stream : String} {h : Head}
    {es : List Entry} {r : Record} (hr : r ∈ log.sealer.chain stream h es) : L.record r := by
  induction es generalizing h with
  | nil => simp [Sealer.chain] at hr
  | cons e rest ih =>
    rcases List.mem_cons.1 hr with rfl | hr
    · exact hl stream h e
    · exact ih hr

theorem Batch.mem_records {b : Batch} {r : Record} :
    r ∈ b.records ↔ ∃ a ∈ b.staged, r ∈ a.records :=
  List.mem_flatMap

/-- Whatever has been staged of a copy before, staging the rest takes it to all that it has
buffered. -/
theorem Log.version_of_unstaged {log : Log} {b : OpenBatch} {c : WorkingCopy} {h : HandleId}
    {entries : List Entry} {head : Head} {v : Nat} {batch : Batch}
    (more : b.stagedFor h < c.pending.length)
    (ready : List.Forall₂ Entry.Carries entries (c.pending.drop (b.stagedFor h)))
    (stage : log.stageBehind b.batch c.stream entries (c.durable + b.stagedFor h) head =
      .ok (v, batch)) : v = c.durable + c.pending.length := by
  rw [(Log.records_of_stageBehind stage).2.1, ready.length_eq, List.length_drop]
  omega

/-! ## Staging -/

/-- What is known of a copy from the moment at which it was looked at: the batch was in order with
it, and others may have gone on with it since. -/
structure LookedAt (L : Law) (p : Party) (h : HandleId) (b : OpenBatch) (c : WorkingCopy)
    (s : Chronicle) : Prop where
  follows : Follows L b s
  evolves : ∃ c', s.copies[h]? = some c' ∧ Evolves p s c c'
  noted : ∀ m, (b.moved.find? fun x => x.handle == h) = some m → m.durable ≤ c.durable

theorem Chronicle.Rely.evolves {s s' : Chronicle} {h : HandleId} {c c' : WorkingCopy}
    (hr : Rely p s s') (hc' : s.copies[h]? = some c') (he : Evolves p s c c') :
    ∃ c'', s'.copies[h]? = some c'' ∧ Evolves p s' c c'' := by
  obtain ⟨c'', hc'', he'⟩ := hr.copies h c' hc'
  exact ⟨c'', hc'', he.trans hr he'⟩

theorem LookedAt.stable (h : HandleId) (b : OpenBatch) (c : WorkingCopy) :
    (officeRules L p).Stable (LookedAt L p h b c) := by
  intro s s' hl hr hs
  obtain ⟨c', hc', he⟩ := hl.evolves
  exact ⟨Follows.stable b hl.follows hr hs, hr.evolves hc' he, hl.noted⟩

theorem Batch.Holds.extended {b b' : Batch} {rs : List Record} {stream : String} {n : Nat}
    {e : Event} (h : b.Holds stream n e) (hb : b'.records = b.records ++ rs) :
    b'.Holds stream n e := by
  obtain ⟨r, hr, hre⟩ := h
  refine ⟨r, ?_, hre⟩
  rw [hb]
  exact List.mem_append_left _ hr

namespace Chronicle.InStep

variable {b b' : Batch} {rs : List Record} {m m₀ : Movement} {c x : WorkingCopy}

/-- More records in the batch take nothing from a movement. -/
theorem extended (h : s.InStep b m x) (hb : b'.records = b.records ++ rs) : s.InStep b' m x where
  copy := h.copy
  durable_lt := h.durable_lt
  first := by
    obtain ⟨e, hf⟩ := h.first
    exact ⟨e, hf.extended hb⟩
  alive := by
    intro heq
    obtain ⟨hle, hheld⟩ := h.alive heq
    exact ⟨hle, fun i e hi hpe => (hheld i e hi hpe).extended hb⟩
  dead := h.dead

/-- All that a copy had buffered when it was looked at is staged, and nothing was staged for it
before. -/
theorem begun (hx : s.copies[m.handle]? = some x) (he : Evolves p s c x)
    (hp : 0 < c.pending.length) (hd : m.durable = c.durable)
    (hv : m.staged = c.durable + c.pending.length)
    (new : ∀ i e, c.pending[i]? = some e → b.Holds c.stream (c.durable + i + 1) e) :
    s.InStep b m x where
  copy := hx
  durable_lt := by omega
  first := by
    rw [he.stream_eq, hd]
    exact ⟨_, new 0 _ (List.getElem?_eq_getElem hp)⟩
  alive := by
    intro heq
    have hpre := he.pending (by omega)
    have := hpre.length_le
    refine ⟨by omega, fun i e hi hpe => ?_⟩
    obtain ⟨more, hmore⟩ := hpre
    rw [← hmore, List.getElem?_append_left (by omega)] at hpe
    rw [he.stream_eq, hd]
    exact new i e hpe
  dead := by
    intro hne
    have := he.durable_le
    rw [he.stream_eq]
    exact ⟨by omega, he.stored (by omega)⟩

/-- The rest of what a copy had buffered when it was looked at is staged behind what was staged
before. -/
theorem continued (h : s.InStep b m₀ x) (he : Evolves p s c x) (hle : m₀.durable ≤ c.durable)
    (hh : m.handle = m₀.handle) (hd : m.durable = m₀.durable)
    (hv : m.staged = c.durable + c.pending.length)
    (hmore : m₀.staged - m₀.durable < c.pending.length) (hb : b'.records = b.records ++ rs)
    (new : ∀ i e, m₀.staged - m₀.durable ≤ i → c.pending[i]? = some e →
      b'.Holds c.stream (c.durable + i + 1) e) : s.InStep b' m x where
  copy := by
    rw [hh]
    exact h.copy
  durable_lt := by omega
  first := by
    obtain ⟨e, hf⟩ := h.first
    rw [hd]
    exact ⟨e, hf.extended hb⟩
  alive := by
    intro heq
    have := he.durable_le
    have hpre := he.pending (by omega)
    have := hpre.length_le
    obtain ⟨-, hheld⟩ := h.alive (by omega)
    refine ⟨by omega, fun i e hi hpe => ?_⟩
    -- The batch has had the facts up to here, and has got the others now.
    by_cases his : i < m₀.staged - m₀.durable
    · rw [hd]
      exact (hheld i e his hpe).extended hb
    · obtain ⟨more, hmo⟩ := hpre
      rw [← hmo, List.getElem?_append_left (by omega)] at hpe
      rw [he.stream_eq, hd, show m₀.durable = c.durable by omega]
      exact new i e (by omega) hpe
  dead := by
    intro hne
    rw [hd] at hne ⊢
    exact h.dead hne

end Chronicle.InStep

section staged

variable {log : Log} {h : HandleId} {b : OpenBatch} {c : WorkingCopy} {entries : List Entry}
  {v : Nat} {batch : Batch} {head : Head} (hl : LookedAt L p h b c s)
  (hstage : log.stageBehind b.batch c.stream entries (c.durable + b.stagedFor h) head =
    .ok (v, batch))

include hl hstage

/-- Staging what is behind the staged facts of a copy keeps every movement in step. -/
theorem LookedAt.inStep (hmore : b.stagedFor h < c.pending.length)
    (ready : List.Forall₂ Entry.Carries entries (c.pending.drop (b.stagedFor h))) {m : Movement}
    (hm : m ∈ OpenBatch.note h c.durable v b.moved) : ∃ x, s.InStep batch m x := by
  obtain ⟨hv, -, hrec⟩ := Log.records_of_stageBehind hstage
  have hlen := Log.version_of_unstaged hmore ready hstage
  have new (i : Nat) (e : Event) (hi : b.stagedFor h ≤ i) (he : c.pending[i]? = some e) :
      batch.Holds c.stream (c.durable + i + 1) e := by
    have he' : (c.pending.drop (b.stagedFor h))[i - b.stagedFor h]? = some e := by
      rw [List.getElem?_drop, show b.stagedFor h + (i - b.stagedFor h) = i by omega]
      exact he
    obtain ⟨r, hr, h1, h2, h3⟩ := log.sealer.chain_carries c.stream head ready he'
    exact ⟨r, by rw [hrec]; exact List.mem_append_right _ hr, h1, by omega, h3⟩
  obtain ⟨x, hx, he⟩ := hl.evolves
  rcases OpenBatch.of_mem_note hl.follows.nodup hm with ⟨hm, -⟩ | ⟨hh, hst, hnew | hold⟩
  · -- A movement of another copy.
    obtain ⟨y, hy⟩ := hl.follows.moved m hm
    exact ⟨y, hy.extended hrec⟩
  · -- The copy is staged for the first time.
    obtain ⟨hnone, hd⟩ := hnew
    have hzero : b.stagedFor h = 0 := by simp only [OpenBatch.stagedFor, hnone]
    rw [hzero] at hmore new
    exact ⟨x, .begun (hh ▸ hx) he hmore hd (hst.trans hlen) fun i e => new i e (Nat.zero_le i)⟩
  · -- It has been staged before: the batch goes on where it had stopped.
    obtain ⟨m₀, hm₀, hfind, hh₀, hd⟩ := hold
    have hskip : b.stagedFor h = m₀.staged - m₀.durable := by
      simp only [OpenBatch.stagedFor, hfind]
    rw [hskip] at hmore new
    obtain ⟨y, hy⟩ := hl.follows.moved m₀ hm₀
    obtain rfl : x = y := Option.some.inj (hx ▸ hh₀ ▸ hy.copy)
    exact ⟨x, hy.continued he (hl.noted m₀ hfind) (hh.trans hh₀.symm) hd (hst.trans hlen) hmore
      hrec new⟩

/-- Every record is within a movement of a copy of its stream. -/
theorem LookedAt.covered (hmore : b.stagedFor h < c.pending.length)
    (ready : List.Forall₂ Entry.Carries entries (c.pending.drop (b.stagedFor h))) {r : Record}
    (hr : r ∈ batch.records) : ∃ m ∈ OpenBatch.note h c.durable v b.moved,
      s.stream? m.handle = some r.stream ∧ m.durable < r.sequence ∧ r.sequence ≤ m.staged := by
  obtain ⟨hv, hv', hrec⟩ := Log.records_of_stageBehind hstage
  have hlen := Log.version_of_unstaged hmore ready hstage
  obtain ⟨x, hx, he⟩ := hl.evolves
  obtain ⟨m, hm, hh, hst⟩ := OpenBatch.exists_mem_note h c.durable v b.moved
  -- The movement of the copy begins where it began, or where the copy stands now.
  have begins : m.durable ≤ c.durable ∧ ∀ m₀ ∈ b.moved, m₀.handle = h →
      m.durable = m₀.durable ∧ m₀.staged ≤ v := by
    rcases OpenBatch.of_mem_note hl.follows.nodup hm with ⟨-, hne⟩ | ⟨-, -, ⟨hnone, hd⟩ | hold⟩
    · exact absurd hh hne
    · refine ⟨Nat.le_of_eq hd, fun m₀ hm₀ hh₀ => ?_⟩
      exact absurd (List.find?_eq_none.1 hnone m₀ hm₀) (by simp [hh₀])
    · obtain ⟨m₁, hm₁, hfind, hh₁, hd⟩ := hold
      have hle := hl.noted m₁ hfind
      have hskip : b.stagedFor h = m₁.staged - m₁.durable := by
        simp only [OpenBatch.stagedFor, hfind]
      refine ⟨hd ▸ hle, fun m₀ hm₀ hh₀ => ?_⟩
      obtain rfl := List.inj_on_of_nodup_map hl.follows.nodup hm₀ hm₁ (hh₀.trans hh₁.symm)
      exact ⟨hd, by omega⟩
  rw [hrec] at hr
  rcases List.mem_append.1 hr with hr | hr
  · obtain ⟨m₀, hm₀, hs, hlt, hle⟩ := hl.follows.covered r hr
    by_cases hh₀ : m₀.handle = h
    · obtain ⟨hd, hstaged⟩ := begins.2 m₀ hm₀ hh₀
      exact ⟨m, hm, by rw [hh, ← hh₀]; exact hs, by omega, by omega⟩
    · exact ⟨m₀, OpenBatch.mem_note_other hm₀ hh₀, hs, hlt, hle⟩
  · obtain ⟨hrs, hfrom, hto, -⟩ := (log.sealer.continues_chain c.stream head entries).of_mem hr
    rw [Sealer.length_chain] at hto
    refine ⟨m, hm, ?_, by omega, by omega⟩
    rw [hh, stream?_eq hx, he.stream_eq, hrs]

variable (behind : ∀ g, b.batch.head? c.stream = some g → g = head)

include behind

/-- What is staged goes up to the end that the batch has for the stream then. -/
theorem LookedAt.ends (hmore : b.stagedFor h < c.pending.length)
    (ready : List.Forall₂ Entry.Carries entries (c.pending.drop (b.stagedFor h))) : batch.Topped ∧
    ∀ stream g, batch.head? stream = some g → ∃ m ∈ OpenBatch.note h c.durable v b.moved,
      s.stream? m.handle = some stream ∧ m.staged = g.version := by
  obtain ⟨hv, hv', hrec⟩ := Log.records_of_stageBehind hstage
  have hcont := log.sealer.continues_chain c.stream head entries
  have hlen : (log.sealer.chain c.stream head entries).length =
      c.pending.length - b.stagedFor h := by
    rw [Sealer.length_chain, ready.length_eq, List.length_drop]
  have filled : log.sealer.chain c.stream head entries ≠ [] :=
    List.ne_nil_of_length_pos (by omega)
  refine ⟨hl.follows.topped.extended hrec hcont filled behind, fun stream g hg => ?_⟩
  obtain ⟨x, hx, he⟩ := hl.evolves
  have hown : s.stream? h = some c.stream := by rw [stream?_eq hx, he.stream_eq]
  by_cases hs : stream = c.stream
  · subst hs
    rw [Batch.head?_extended hrec hcont filled] at hg
    obtain rfl := Option.some.inj hg
    obtain ⟨m, hm, rfl, hst⟩ := OpenBatch.exists_mem_note h c.durable v b.moved
    refine ⟨m, hm, hown, ?_⟩
    rw [hst, hv', hcont.version_after, Sealer.length_chain, hv]
  · rw [Batch.head?_extended_other hrec hcont hs] at hg
    obtain ⟨m, hm, hst, hend⟩ := hl.follows.ends stream g hg
    refine ⟨m, OpenBatch.mem_note_other hm fun hh => hs ?_, hst, hend⟩
    rw [hh, hown] at hst
    exact (Option.some.inj hst).symm

/-- The movement of the copy that is staged does not begin where that of another one does. -/
theorem LookedAt.apart_other {m m' : Movement} (hm : m ∈ OpenBatch.note h c.durable v b.moved)
    (hh : m.handle = h) (hm' : m' ∈ b.moved) (hne : m'.handle ≠ h)
    (same : s.stream? m.handle = s.stream? m'.handle) : m.durable ≠ m'.durable := by
  intro hd
  rcases OpenBatch.of_mem_note hl.follows.nodup hm with ⟨-, hn⟩ | ⟨-, -, hnew | hold⟩
  · exact hn hh
  · -- The other one has a record in the batch, so the batch was at a later version already.
    obtain ⟨hnone, hd₀⟩ := hnew
    have hzero : b.stagedFor h = 0 := by simp only [OpenBatch.stagedFor, hnone]
    obtain ⟨hv, -, -⟩ := Log.records_of_stageBehind hstage
    obtain ⟨x, hx, he⟩ := hl.evolves
    obtain ⟨y, hy⟩ := hl.follows.moved m' hm'
    obtain ⟨e, r, hr, hrs, hseq, -⟩ := hy.first
    obtain ⟨g, hg, hle⟩ := hl.follows.topped r hr
    have hst : y.stream = c.stream := by
      rw [hh, stream?_eq hx, stream?_eq hy.copy, he.stream_eq] at same
      exact (Option.some.inj same).symm
    rw [hrs, hst] at hg
    obtain rfl := behind g hg
    omega
  · obtain ⟨m₀, hm₀, -, hh₀, hd₀⟩ := hold
    have := hl.follows.apart m₀ hm₀ m' hm' (by rw [hh₀, ← hh, same]) (by rw [← hd₀, hd])
    exact hne (this ▸ hh₀)

theorem LookedAt.apart {m m' : Movement} (hm : m ∈ OpenBatch.note h c.durable v b.moved)
    (hm' : m' ∈ OpenBatch.note h c.durable v b.moved)
    (same : s.stream? m.handle = s.stream? m'.handle) (hd : m.durable = m'.durable) : m = m' := by
  have old {x : Movement} (hx : x ∈ OpenBatch.note h c.durable v b.moved) (hne : x.handle ≠ h) :
      x ∈ b.moved := by
    rcases OpenBatch.of_mem_note hl.follows.nodup hx with ⟨hx', -⟩ | ⟨hh, -⟩
    · exact hx'
    · exact absurd hh hne
  by_cases hh : m.handle = h
  · by_cases hh' : m'.handle = h
    · exact List.inj_on_of_nodup_map (OpenBatch.nodup_note hl.follows.nodup) hm hm'
        (hh.trans hh'.symm)
    · exact absurd hd (hl.apart_other hstage behind hm hh (old hm' hh') hh' same)
  · by_cases hh' : m'.handle = h
    · exact absurd hd.symm
        (hl.apart_other hstage behind hm' hh' (old hm hh) hh same.symm)
    · exact hl.follows.apart m (old hm hh) m' (old hm' hh') same hd

/-- The batch with the rest of the copy is in order. -/
theorem LookedAt.staged (obeys : log.Obeys L) (hmore : b.stagedFor h < c.pending.length)
    (ready : List.Forall₂ Entry.Carries entries (c.pending.drop (b.stagedFor h))) :
    Follows L ⟨batch, OpenBatch.note h c.durable v b.moved⟩ s where
  lawful := by
    intro r hr
    have hr' : r ∈ batch.records := hr
    rw [(Log.records_of_stageBehind hstage).2.2] at hr'
    rcases List.mem_append.1 hr' with hr' | hr'
    · exact hl.follows.lawful r hr'
    · exact obeys.chain hr'
  nodup := OpenBatch.nodup_note hl.follows.nodup
  moved := fun _ hm => hl.inStep hstage hmore ready hm
  topped := (hl.ends hstage behind hmore ready).1
  covered := fun _ hr => hl.covered hstage hmore ready hr
  ends := (hl.ends hstage behind hmore ready).2
  apart := fun _ hm _ hm' => hl.apart hstage behind hm hm'

end staged

/-- What is known of a copy that was looked at, or that there was no copy. -/
def Seen (L : Law) (p : Party) (h : HandleId) (b : OpenBatch) :
    Option WorkingCopy → Chronicle → Prop
  | none => Follows L b
  | some c => LookedAt L p h b c

theorem Seen.stable (h : HandleId) (b : OpenBatch) (c? : Option WorkingCopy) :
    (officeRules L p).Stable (Seen L p h b c?) := by
  cases c? with
  | none => exact Follows.stable b
  | some c => exact LookedAt.stable h b c

theorem Seen.follows {h : HandleId} {b : OpenBatch} {c? : Option WorkingCopy}
    (hl : Seen L p h b c? s) : Follows L b s := by
  cases c? with
  | none => exact hl
  | some c => exact LookedAt.follows hl

/-- Whoever looks at a copy while the batch is in order has seen it. -/
theorem Chronicle.Follows.seen {b : OpenBatch} (hb : Follows L b s) (h : HandleId) :
    Seen L p h b s.copies[h]? s := by
  cases hc : s.copies[h]? with
  | none => exact hb
  | some c =>
    refine ⟨hb, ⟨c, hc, .refl ..⟩, fun m hm => ?_⟩
    obtain ⟨x, hx⟩ := hb.moved m (List.mem_of_find?_eq_some hm)
    have hh : m.handle = h := by simpa using List.find?_some hm
    obtain rfl : c = x := Option.some.inj (hc ▸ hh ▸ hx.copy)
    exact hx.durable_le

theorem Log.keeps_stageCopy {log : Log} (obeys : log.Obeys L) (h : HandleId) {b : OpenBatch}
    (hb : Follows L b s) :
    (log.stageCopy h b).Keeps (officeRules L p)
      (fun r s' => ∀ n b', r = .ok (n, b') → Follows L b' s') s := by
  refine (log.keeps_stagingCopy (officeRules_shows L p) h b (Follows.stable b)
    (Seen.stable (L := L) (p := p) h b) (fun _ _ hb₁ => hb₁.seen h) hb).mono
    fun r s₁ _ hr n b' hok => ?_
  obtain ⟨c?, hseen, hto⟩ := hr.1 n b' hok
  cases hto with
  | unchanged => exact hseen.follows
  | staged more ready stage sees =>
    have hl : LookedAt L p h b _ s₁ := hseen
    exact hl.staged stage (fun _ => sees.behind) obeys more ready

theorem Log.keeps_stageAll {log : Log} (obeys : log.Obeys L) (hs : List HandleId) {b : OpenBatch}
    (hb : Follows L b s) :
    (log.stageAll hs b).Keeps (officeRules L p)
      (fun r s' => ∀ n b', r = .ok (n, b') → Follows L b' s') s := by
  induction hs generalizing b s with
  | nil =>
    refine .pure (Follows.stable b) hb fun s' _ hb' n b' hr => ?_
    obtain ⟨-, rfl⟩ := Prod.mk.inj (Except.ok.inj hr)
    exact hb'
  | cons h rest ih =>
    refine .bind ((Log.keeps_stageCopy obeys h hb).mono fun r s₁ _ hr => ?_)
    cases r with
    | error e => exact .pure Rules.Stable.const trivial fun _ _ _ n b' hr => by simp at hr
    | ok r =>
      obtain ⟨n, b₁⟩ := r
      refine .bind ((ih (hr n b₁ rfl)).mono fun r s₂ _ hr => ?_)
      cases r with
      | error e => exact .pure Rules.Stable.const trivial fun _ _ _ n b' hr => by simp at hr
      | ok r =>
        obtain ⟨more, b₂⟩ := r
        refine .pure (Follows.stable b₂) (hr more b₂ rfl) fun s' _ hb' n b' hr => ?_
        obtain ⟨-, rfl⟩ := Prod.mk.inj (Except.ok.inj hr)
        exact hb'

/-! ## Storing -/

/-- Storing a batch is proper if its records are lawful and it leaves streams that the law allows.
Either it lands, or it is empty, or it fails, and then something may be known of the error. -/
theorem Log.keeps_commit_or (log : Log) {b : Batch} (lawful : ∀ r ∈ b.records, L.record r)
    {P P' : Chronicle → Prop} {P'' : StoreError → Chronicle → Prop}
    (stable : (officeRules L p).Stable P) (hs : P s)
    (whole : ∀ s m, Holds L s → P s → s.medium.commit b.staged = .ok m →
      ∀ stream, L.whole stream (m.records stream))
    (stable' : (officeRules L p).Stable P')
    (landed : ∀ s m, Holds L s → P s → s.medium.commit b.staged = .ok m →
      P' (s.after p (s.landed m)))
    (stable'' : ∀ e, (officeRules L p).Stable (P'' e))
    (refused : ∀ s e, Holds L s → P s → s.medium.commit b.staged = .error e → P'' e s)
    (late : ∀ s, Holds L s → P s → P'' (tooLate log.config.timeout) s) :
    (log.commit b).Keeps (officeRules L p)
      (fun r s' => match r with
        | .ok n => n = b.size ∧ (b.size = 0 ∧ P s' ∨ P' s')
        | .error e => P'' e s') s := by
  refine log.keeps_storing_or b stable stable' stable'' hs (fun s₁ hi₁ hs₁ => ⟨?_, ?_⟩) ?_ ?_ ?_
  · exact fun x hx r hr => lawful r (Batch.mem_records.2 ⟨x, hx, hr⟩)
  · exact fun m hm => whole s₁ m hi₁ hs₁ hm
  · intro s₁ s₂ hi₁ hs₁ ha
    rcases ha.of_commit with ⟨-, m, hm, rfl⟩ | ⟨hne, -⟩
    · exact landed s₁ m hi₁ hs₁ hm
    · exact absurd rfl hne
  · intro s₁ s₂ e hi₁ hs₁ ha
    obtain ⟨hm, rfl⟩ := ha.of_refused
    exact refused s₂ e hi₁ hs₁ hm
  · intro s₁ s₂ hi₁ hs₁ ha
    rcases ha.of_commit with ⟨he, -⟩ | ⟨-, rfl⟩
    · exact absurd he nofun
    · exact late s₂ hi₁ hs₁

/-- If it fails, what was known before is known still. -/
theorem Log.keeps_commit (log : Log) {b : Batch} (lawful : ∀ r ∈ b.records, L.record r)
    {P P' : Chronicle → Prop} (stable : (officeRules L p).Stable P) (hs : P s)
    (whole : ∀ s m, Holds L s → P s → s.medium.commit b.staged = .ok m →
      ∀ stream, L.whole stream (m.records stream))
    (stable' : (officeRules L p).Stable P')
    (landed : ∀ s m, Holds L s → P s → s.medium.commit b.staged = .ok m →
      P' (s.after p (s.landed m))) :
    (log.commit b).Keeps (officeRules L p)
      (fun r s' => match r with
        | .ok n => n = b.size ∧ (b.size = 0 ∧ P s' ∨ P' s')
        | .error _ => P s') s :=
  log.keeps_commit_or lawful stable hs whole stable' landed (fun _ => stable)
    (fun _ _ _ h _ => h) fun _ _ h => h

theorem Chronicle.Follows.moved_of_size {b : OpenBatch} (hb : Follows L b s)
    (hz : b.batch.size = 0) : b.moved = [] := by
  cases hm : b.moved with
  | nil => rfl
  | cons m rest =>
    obtain ⟨c, hc⟩ := hb.moved m (by rw [hm]; exact List.mem_cons_self)
    obtain ⟨e, r, hr, -⟩ := hc.first
    rw [List.eq_nil_of_length_eq_zero hz] at hr
    exact absurd hr (by simp)

/-! ## Confirming -/

theorem Chronicle.AllDue.confirmed {m : Movement} {rest : List Movement} {v : Nat}
    (h : AllDue p (m :: rest) s) :
    AllDue p rest ⟨s.changed m.handle (·.markCommitted v) id, s.authors⟩ := by
  obtain ⟨hn, hd⟩ := h
  rw [List.map_cons, List.nodup_cons] at hn
  refine ⟨hn.2, fun x hx => ?_⟩
  obtain ⟨c, hc⟩ := hd x (List.mem_cons_of_mem m hx)
  have hne : m.handle ≠ x.handle := fun he => hn.1 (he ▸ List.mem_map_of_mem hx)
  refine ⟨c, { hc with copy := ?_ }⟩
  show (s.copies.modify m.handle _)[x.handle]? = some c
  rw [List.getElem?_modify, hc.copy]
  simp [hne]

theorem Chronicle.AllDue.saved {ms : List Movement} {x : Snapshot} (h : AllDue p ms s) :
    AllDue p ms ⟨s.saved x, s.authors⟩ := by
  refine ⟨h.1, fun m hm => ?_⟩
  obtain ⟨c, hc⟩ := h.2 m hm
  exact ⟨c, hc.copy, hc.durable_lt, hc.stores, hc.author⟩

/-- What a party knows once its batch has landed, and what nothing undoes that it does then. -/
structure Chronicle.Unmoved (L : Law) (p : Party) (P : Chronicle → Prop) : Prop where
  stable : (officeRules L p).Stable P
  confirmed (s : Chronicle) (h : HandleId) (v : Nat) :
    P s → P ⟨s.changed h (·.markCommitted v) id, s.authors⟩
  saved (s : Chronicle) (x : Snapshot) : P s → P ⟨s.saved x, s.authors⟩

theorem Chronicle.Unmoved.nothing (L : Law) (p : Party) : Unmoved L p fun _ => True :=
  ⟨.const, fun _ _ _ _ => trivial, fun _ _ _ => trivial⟩

/-- The copy has been told that it is stored as far as the movement goes. -/
def Chronicle.Confirmed (m : Movement) (s : Chronicle) : Prop :=
  ∃ c, s.copies[m.handle]? = some c ∧ m.staged ≤ c.durable

theorem Chronicle.Confirmed.lasting (L : Law) (m : Movement) : Lasting L (Confirmed m) := by
  rintro p s s' ⟨c, hc, hle⟩ hr -
  obtain ⟨c', hc', he⟩ := hr.copies _ _ hc
  exact ⟨c', hc', Nat.le_trans hle he.durable_le⟩

/-- What is left while one movement is confirmed: the others are due. -/
def Chronicle.Confirming (p : Party) (P : Chronicle → Prop) (m : Movement) (rest : List Movement)
    (s : Chronicle) : Prop :=
  (AllDue p rest s ∧ P s) ∧ Confirmed m s

section confirm

variable {P : Chronicle → Prop} {m : Movement} {rest : List Movement}

theorem Chronicle.Confirming.stable (hP : Unmoved L p P) (m : Movement) (rest : List Movement) :
    (officeRules L p).Stable (Confirming p P m rest) :=
  ((AllDue.stable rest).and hP.stable).and (Confirmed.lasting L m p)

/-- Saving a snapshot that may be saved leaves what is due as it is. -/
theorem Chronicle.Confirming.keeps_save (hP : Unmoved L p P) (h : Confirming p P m rest s)
    {c : WorkingCopy} (hx : ∀ now, L.snapshot s.medium (c.snapshot now)) :
    (Dialogue.time >>= fun now => Dialogue.save (c.snapshot now) >>= fun _ => pure ()).Keeps
      (officeRules L p) (fun _ s' => Confirming p P m rest s') s := by
  have st : (officeRules L p).Stable fun s => Confirming p P m rest s ∧
      ∀ now, L.snapshot s.medium (c.snapshot now) := fun _ _ h hr hs =>
    ⟨Confirming.stable hP m rest h.1 hr hs, fun now => L.snapshot_within hr.within (h.2 now)⟩
  refine .look_bind (officeRules_shows L p) rfl st ⟨h, hx⟩ fun s₁ _ h₁ => ?_
  refine .ask_bind st h₁ fun s₂ _ h₂ => ⟨h₂.2 _, fun a s₃ _ ha => ?_⟩
  obtain rfl := ha.of_save
  exact .pure (Confirming.stable hP m rest)
    ⟨⟨h₂.1.1.1.saved, hP.saved _ _ h₂.1.1.2⟩, h₂.1.2⟩ fun _ _ h => h

theorem Coordinator.keeps_confirm (c : Coordinator) (hP : Unmoved L p P)
    (h : AllDue p (m :: rest) s ∧ P s) :
    (c.confirm m).Keeps (officeRules L p) (fun _ s' => Confirming p P m rest s') s := by
  refine .ask_bind ((AllDue.stable (L := L) (m :: rest)).and hP.stable) h
    fun s₁ hi₁ h₁ => ?_
  obtain ⟨x, hx⟩ := h₁.1.2 m List.mem_cons_self
  refine ⟨fun y hy => ?_, fun a s₂ hi₂ ha => ?_⟩
  · obtain rfl : x = y := Option.some.inj (hx.copy ▸ hy)
    exact ⟨hx.stores, fun _ => hx.author⟩
  · obtain ⟨rfl, rfl⟩ := ha.of_confirm
    have hcopy : (s₁.changed m.handle (·.markCommitted m.staged) id).world.copies[m.handle]? =
        some (x.markCommitted m.staged) := by
      show (s₁.copies.modify m.handle _)[m.handle]? = _
      rw [List.getElem?_modify, hx.copy]
      simp
    have h₂ : Confirming p P m rest
        ⟨s₁.changed m.handle (·.markCommitted m.staged) id, s₁.authors⟩ :=
      ⟨⟨h₁.1.confirmed, hP.confirmed _ _ _ h₁.2⟩, _, hcopy, Nat.le_refl _⟩
    rw [hx.copy]
    simp only [Option.map_some]
    by_cases hcap : (c.captures m && (x.markCommitted m.staged).version == m.staged) = true
    · rw [if_pos hcap]
      -- A snapshot is taken only if the copy holds nothing newer than what was staged.
      have hver : (x.markCommitted m.staged).version = m.staged := by
        simpa using (Bool.and_eq_true_iff.1 hcap).2
      obtain ⟨y, hset, hstart, n, ht⟩ := hi₂.story hcopy
      have hnil : (x.markCommitted m.staged).pending = [] := by
        have hd : (x.markCommitted m.staged).durable = m.staged := rfl
        have := ht.version_eq_durable
        exact List.eq_nil_of_length_eq_zero (by omega)
      exact h₂.keeps_save hP fun now => L.captured hi₂.orderly hset hstart ht hnil
    · rw [if_neg hcap]
      exact .pure (Confirming.stable hP m rest) h₂ fun _ _ h => h

/-- What is due may be confirmed, one movement after the other, and is confirmed then. -/
theorem Coordinator.keeps_confirmAll (c : Coordinator) (hP : Unmoved L p P) {ms : List Movement}
    (h : AllDue p ms s ∧ P s) :
    (c.confirmAll ms).Keeps (officeRules L p)
      (fun _ s' => P s' ∧ ∀ m ∈ ms, m.handle ∈ c.tracked → Confirmed m s') s := by
  induction ms generalizing s with
  | nil => exact .pure hP.stable h.2 fun _ _ h => ⟨h, by simp⟩
  | cons m rest ih =>
    unfold Coordinator.confirmAll
    by_cases hm : m.handle ∈ c.tracked
    · rw [if_pos hm]
      refine .bind ((c.keeps_confirm hP h).mono fun _ s₁ _ h₁ => ?_)
      refine ((ih h₁.1).frame (Confirmed.lasting L m) h₁.2).mono fun _ _ _ h₂ => ?_
      refine ⟨h₂.1.1, fun x hx ht => ?_⟩
      rcases List.mem_cons.1 hx with rfl | hx
      · exact h₂.2
      · exact h₂.1.2 x hx ht
    · rw [if_neg hm]
      have hrest : AllDue p rest s :=
        ⟨(List.nodup_cons.1 h.1.1).2, fun x hx => h.1.2 x (List.mem_cons_of_mem m hx)⟩
      refine (ih ⟨hrest, h.2⟩).mono fun _ _ _ h₂ => ⟨h₂.1, fun x hx ht => ?_⟩
      rcases List.mem_cons.1 hx with rfl | hx
      · exact absurd ht hm
      · exact h₂.2 x hx ht

end confirm

/-! ## Coordinators -/

/-- What a coordinator has in hand is in order: its log is allowed, and so is its open batch. -/
structure Coordinator.Fit (L : Law) (c : Coordinator) (s : Chronicle) : Prop where
  obeys : c.log.Obeys L
  follows : ∀ b, c.transaction = some b → Follows L b s

theorem Coordinator.Fit.stable (c : Coordinator) :
    (officeRules L p).Stable (Coordinator.Fit L c) := by
  intro s s' h hr hs
  exact ⟨h.obeys, fun b hb => Follows.stable b (h.follows b hb) hr hs⟩

/-- Without a transaction there is nothing that could get out of step. -/
theorem Coordinator.Fit.closed {c : Coordinator} (obeys : c.log.Obeys L)
    (hc : c.transaction = none) : c.Fit L s :=
  ⟨obeys, fun b hb => by rw [hc] at hb; exact absurd hb (by simp)⟩

/-- If a batch lands it is confirmed, and the coordinator knows what it can know then. -/
theorem Coordinator.keeps_finish {c : Coordinator} (obeys : c.log.Obeys L)
    (hc : c.transaction = none) {b : OpenBatch} (hb : Follows L b s) {P : Chronicle → Prop}
    (hP : Unmoved L p P)
    (landed : ∀ s m, Holds L s → Follows L b s → s.medium.commit b.batch.staged = .ok m →
      P (s.after p (s.landed m))) :
    (c.finish b).Keeps (officeRules L p) (fun r s' => r.2.Fit L s' ∧ ∀ n, r.1 = .ok n →
      ∀ m ∈ b.moved, m.handle ∈ c.tracked → P s' ∧ Confirmed m s') s := by
  refine .bind ((c.log.keeps_commit hb.lawful (Follows.stable b) hb
    (fun _ _ hi₁ hb₁ hm => hb₁.whole hi₁ hm) ((AllDue.stable (L := L) b.moved).and hP.stable)
    fun s₁ m hi₁ hb₁ hm => ⟨.of_landed hi₁ hb₁ hm, landed s₁ m hi₁ hb₁ hm⟩).mono
    fun r s₁ _ hr => ?_)
  cases r with
  | error e =>
    exact .pure Rules.Stable.const trivial fun _ _ _ =>
      ⟨.closed obeys hc, fun n hn => by simp at hn⟩
  | ok n =>
    obtain ⟨-, ⟨hz, hb₁⟩ | hd⟩ := hr
    · -- Nothing was staged, so there is nothing to confirm.
      show (c.confirmAll b.moved >>= _).Keeps _ _ _
      rw [hb₁.moved_of_size hz]
      exact .pure Rules.Stable.const trivial fun _ _ _ => ⟨.closed obeys hc, by simp⟩
    · refine .bind ((c.keeps_confirmAll hP hd).mono fun _ s₂ _ h₂ => ?_)
      have st : (officeRules L p).Stable fun s => P s ∧
          ∀ m ∈ b.moved, m.handle ∈ c.tracked → Confirmed m s := fun _ _ h hr hs =>
        ⟨hP.stable h.1 hr hs, fun m hm ht => Confirmed.lasting L m p (h.2 m hm ht) hr hs⟩
      exact .pure st h₂ fun _ _ h =>
        ⟨.closed obeys hc, fun _ _ m hm ht => ⟨h.1, h.2 m hm ht⟩⟩

theorem Coordinator.keeps_settle {c : Coordinator} (obeys : c.log.Obeys L)
    (hc : c.transaction = none) {b : OpenBatch} (hb : Follows L b s) :
    (c.settle b).Keeps (officeRules L p) (fun r s' => r.2.Fit L s') s := by
  refine .bind ((Log.keeps_stageAll obeys c.tracked hb).mono fun r s₁ _ hr => ?_)
  cases r with
  | error e => exact .pure Rules.Stable.const trivial fun _ _ _ => .closed obeys hc
  | ok r =>
    exact (Coordinator.keeps_finish obeys hc (hr r.1 r.2 rfl) (.nothing L p)
      fun _ _ _ _ _ => trivial).mono fun _ _ _ h => h.1

theorem Coordinator.keeps_push {c : Coordinator} (hf : c.Fit L s) :
    c.push.Keeps (officeRules L p) (fun r s' => r.2.Fit L s') s := by
  unfold Coordinator.push
  cases hc : c.transaction with
  | none => exact Coordinator.keeps_settle hf.obeys hc (.empty L s)
  | some b =>
    refine .bind ((Log.keeps_stageAll hf.obeys c.tracked (hf.follows b hc)).mono
      fun r s₁ _ hr => ?_)
    cases r with
    | error e => exact .pure Rules.Stable.const trivial fun _ _ _ => .closed hf.obeys rfl
    | ok r =>
      refine .pure (Follows.stable r.2) (hr r.1 r.2 rfl) fun s₂ _ hb₂ => ⟨hf.obeys, ?_⟩
      intro b' hb'
      obtain rfl := Option.some.inj hb'
      exact hb₂

theorem Coordinator.keeps_commit {c : Coordinator} (hf : c.Fit L s) :
    c.commit.Keeps (officeRules L p) (fun r s' => r.2.Fit L s') s := by
  unfold Coordinator.commit
  cases hc : c.transaction with
  | none => exact .pure (Coordinator.Fit.stable c) hf fun _ _ h => h
  | some b =>
    exact Coordinator.keeps_settle (c := { c with transaction := none }) hf.obeys rfl
      (hf.follows b hc)

end TransferLedger

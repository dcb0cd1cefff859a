import TransferLedger.Proofs.Dialogue.Narrowing
import TransferLedger.Proofs.Office.Growth
import TransferLedger.Proofs.Office.Replaying
import TransferLedger.Proofs.Office.Tracked
import TransferLedger.Proofs.Office.UpToDate
import TransferLedger.Proofs.Snapshot.Due

/-!
# Snapshots that are due are written

A coordinator writes a snapshot when its commit takes a stream past a multiple of a threshold.  The
snapshot is of the copy that it has committed, so it is written only if the copy holds nothing newer
by then; and it goes by the version from which the copy was staged first, which may be long ago.
While nobody else writes to the stream, and nobody operates on the copies that the coordinator
tracks, neither does any harm (`Coordinator.keeps_push_economical`,
`Coordinator.keeps_commit_economical`).

When a batch lands, all that its copies have emitted is in it (`Chronicle.Spent`), and the movement
that goes up to the end of the stream begins where the stream has ended before.  So if a multiple
has been passed the snapshot of that movement is due, and until it is written the coordinator owes
it (`Coordinator.Owes`).
-/

set_option autoImplicit false

namespace TransferLedger

open Chronicle

/-- The version that a copy gets to with all that it has emitted. -/
def Story.version (y : Story) : Nat :=
  y.start.durable + y.emitted.length

theorem Chronicle.Holds.version_eq {L : Law} {s : Chronicle} (hs : Holds L s) {h : HandleId}
    {c : WorkingCopy} {y : Story} (hc : s.copies[h]? = some c) (hy : s.stories[h]? = some y) :
    y.version = c.version ∧ y.version = c.durable + c.pending.length := by
  obtain ⟨-, -, n, ht⟩ := hs.told h c y hc hy
  exact ⟨ht.version_eq.symm, ht.version_eq.symm.trans ht.version_eq_durable⟩

theorem Law.genuine_grounded (s : Sealer) : (Law.genuine s).Grounded :=
  Law.faithful_grounded

/-! ## Leaving alone -/

/-- Nobody has written to the stream, nobody has operated on these copies, and no snapshot has been
replaced by an older one. -/
structure Chronicle.Spares (stream : String) (hs : List HandleId) (s s' : Chronicle) : Prop where
  records_eq : s'.medium.records stream = s.medium.records stream
  reach_le : s.scene.world.shelf.reach stream ≤ s'.scene.world.shelf.reach stream
  stories : ∀ h ∈ hs, ∀ y, s.stories[h]? = some y → s'.stories[h]? = some y

namespace Chronicle.Spares

variable {stream : String} {hs : List HandleId} {s s' s'' : Chronicle}

theorem refl (s : Chronicle) : Spares stream hs s s :=
  ⟨rfl, Nat.le_refl _, fun _ _ _ hy => hy⟩

theorem trans (h : Spares stream hs s s') (h' : Spares stream hs s' s'') :
    Spares stream hs s s'' where
  records_eq := h'.records_eq.trans h.records_eq
  reach_le := Nat.le_trans h.reach_le h'.reach_le
  stories := fun i hi y hy => h'.stories i hi y (h.stories i hi y hy)

end Chronicle.Spares

/-- The rules of the office for a party that the others leave a stream and some copies to. -/
def quietRules (L : Law) (p : Party) (stream : String) (hs : List HandleId) : Rules Chronicle :=
  (officeRules L p).narrow (Spares stream hs) .refl .trans

section quiet

variable {L : Law} {p : Party} {s s' : Chronicle} {stream : String} {hs : List HandleId}

theorem quietRules_within (L : Law) (p : Party) (stream : String) (hs : List HandleId) :
    (quietRules L p stream hs).Within (fun _ => True) (officeRules L p) :=
  ⟨id, And.left, fun _ => id, fun _ => id⟩

theorem quietRules_shows (L : Law) (p : Party) (stream : String) (hs : List HandleId) :
    (quietRules L p stream hs).lax.Shows fun s => s.scene.world :=
  Rules.Shows.lax ⟨(officeRules_shows L p).proper, (officeRules_shows L p).answered⟩

/-! ## Staging all that there is -/

/-- All that the copy has emitted is staged, unless somebody has told the copy of some since. -/
def Chronicle.Spent (m : Movement) (s : Chronicle) : Prop :=
  ∃ c y, s.copies[m.handle]? = some c ∧ s.stories[m.handle]? = some y ∧
    y.version ≤ c.durable + (m.staged - m.durable)

theorem Chronicle.Spent.later {m : Movement} (h : Spent m s) (hm : m.handle ∈ hs)
    (hr : Rely p s s') (spares : Spares stream hs s s') : Spent m s' := by
  obtain ⟨c, y, hc, hy, hv⟩ := h
  obtain ⟨c', hc', he⟩ := hr.copies _ _ hc
  have := he.durable_le
  exact ⟨c', y, hc', spares.stories _ hm y hy, by omega⟩

/-- A copy has emitted nothing since it was looked at, whatever it has been told. -/
def Chronicle.Resting (h : HandleId) (c : WorkingCopy) (s : Chronicle) : Prop :=
  ∃ x y, s.copies[h]? = some x ∧ s.stories[h]? = some y ∧ c.durable ≤ x.durable ∧
    y.version = c.durable + c.pending.length

theorem Chronicle.Resting.later {h : HandleId} {c : WorkingCopy} (hc : Resting h c s) (hh : h ∈ hs)
    (hr : Rely p s s') (spares : Spares stream hs s s') : Resting h c s' := by
  obtain ⟨x, y, hx, hy, hle, hv⟩ := hc
  obtain ⟨x', hx', he⟩ := hr.copies _ _ hx
  exact ⟨x', y, hx', spares.stories _ hh y hy, Nat.le_trans hle he.durable_le, hv⟩

/-- All that copies with these handles have emitted is staged. -/
def Chronicle.AllSpent (done : List HandleId) (b : OpenBatch) (s : Chronicle) : Prop :=
  ∀ m ∈ b.moved, m.handle ∈ done → Spent m s

/-- What is known of a copy from the moment at which it was looked at, while others leave it
alone. -/
structure Glanced (done : List HandleId) (h : HandleId) (b : OpenBatch) (c? : Option WorkingCopy)
    (s : Chronicle) : Prop where
  spent : AllSpent done b s
  unknown : c? = none → ∀ m ∈ b.moved, m.handle ≠ h
  noted : ∀ c, c? = some c → ∀ m ∈ b.moved, m.handle = h → m.durable ≤ c.durable
  resting : ∀ c, c? = some c → Resting h c s

variable {done : List HandleId} {h : HandleId} {b : OpenBatch}

theorem Chronicle.AllSpent.stable (within : ∀ i ∈ done, i ∈ hs) (b : OpenBatch) :
    (quietRules L p stream hs).lax.Stable (AllSpent done b) :=
  fun _ _ ha hr _ m hm hd => (ha m hm hd).later (within _ hd) hr.1 hr.2

theorem Glanced.stable (within : ∀ i ∈ done, i ∈ hs) (hh : h ∈ hs) (b : OpenBatch)
    (c? : Option WorkingCopy) : (quietRules L p stream hs).lax.Stable (Glanced done h b c?) :=
  fun _ _ hg hr hi => ⟨AllSpent.stable within b hg.spent hr hi, hg.unknown, hg.noted,
    fun c hc => (hg.resting c hc).later hh hr.1 hr.2⟩

theorem Glanced.of_follows (hi : Holds L s) (hb : Follows L b s) (spent : AllSpent done b s)
    (h : HandleId) : Glanced done h b s.copies[h]? s where
  spent := spent
  unknown := by
    intro hnone m hm he
    obtain ⟨c, hc⟩ := hb.moved m hm
    rw [← he, hc.copy] at hnone
    exact absurd hnone (by simp)
  noted := by
    intro c hc m hm he
    obtain ⟨x, hx⟩ := hb.moved m hm
    obtain rfl : c = x := Option.some.inj (hc.symm.trans (he ▸ hx.copy))
    exact hx.durable_le
  resting := by
    intro c hc
    obtain ⟨y, hy⟩ := hi.exists_story hc
    exact ⟨c, y, hc, hy, Nat.le_refl _, (hi.version_eq hc hy).2⟩

/-- Once a copy has been staged, all that it has emitted is. -/
theorem Glanced.staged {log : Log} {known : Option WorkingCopy → Chronicle → Prop}
    {view : Chronicle → InMemory} {c? : Option WorkingCopy} {b' : OpenBatch}
    (hg : Glanced done h b c? s) (hn : (b.moved.map Movement.handle).Nodup)
    (hto : log.StagesTo known view h b c? b') : AllSpent (h :: done) b' s := by
  cases hto with
  | unchanged nothing =>
    intro m hm hd
    by_cases hh : m.handle = h
    · cases c? with
      | none => exact absurd hh (hg.unknown rfl m hm)
      | some c =>
        obtain ⟨x, y, hx, hy, hle, hv⟩ := hg.resting c rfl
        have hskip := nothing c rfl
        rw [← hh, OpenBatch.stagedFor_of_mem hn hm] at hskip
        exact ⟨x, y, hh ▸ hx, hh ▸ hy, by omega⟩
    · exact hg.spent m hm ((List.mem_cons.1 hd).resolve_left hh)
  | @staged c entries head v batch more ready stage sees =>
    intro m hm hd
    rcases OpenBatch.of_mem_note hn hm with ⟨hm, hne⟩ | ⟨hh, hst, hfrom⟩
    · exact hg.spent m hm ((List.mem_cons.1 hd).resolve_left hne)
    · obtain ⟨x, y, hx, hy, hle, hv⟩ := hg.resting c rfl
      have hlen := Log.version_of_unstaged more ready stage
      -- It is staged from where it was staged first, which is no later than where it was seen.
      have hfirst : m.durable ≤ c.durable := by
        rcases hfrom with ⟨-, he⟩ | ⟨m₀, hm₀, -, hh₀, he⟩
        · exact Nat.le_of_eq he
        · exact he ▸ hg.noted c rfl m₀ hm₀ hh₀
      exact ⟨x, y, hh ▸ hx, hh ▸ hy, by omega⟩

theorem Log.keeps_stageCopy_spent {log : Log} (within : ∀ i ∈ done, i ∈ hs) (hh : h ∈ hs)
    (hb : Follows L b s) (spent : AllSpent done b s) :
    (log.stageCopy h b).Keeps (quietRules L p stream hs).lax
      (fun r s' => ∀ n b', r = .ok (n, b') → AllSpent (h :: done) b' s') s := by
  have stable : (quietRules L p stream hs).lax.Stable fun s => Follows L b s ∧ AllSpent done b s :=
    .and (fun _ _ hf hr hi => Follows.stable b hf hr.1 hi) (AllSpent.stable within b)
  refine (log.keeps_stagingCopy (quietRules_shows L p stream hs) h b stable
    (Glanced.stable within hh b) (fun s₁ hi₁ h₁ => .of_follows hi₁ h₁.1 h₁.2 h)
    ⟨hb, spent⟩).mono fun r s₁ _ hr n b' hok => ?_
  obtain ⟨c?, hg, hto⟩ := hr.1 n b' hok
  exact hg.staged hb.nodup hto

theorem Log.keeps_stageAll_spent {log : Log} (obeys : log.Obeys L) (todo : List HandleId)
    (within : ∀ i ∈ done, i ∈ hs) (within' : ∀ i ∈ todo, i ∈ hs) (hb : Follows L b s)
    (spent : AllSpent done b s) :
    (log.stageAll todo b).Keeps (quietRules L p stream hs)
      (fun r s' => ∀ n b', r = .ok (n, b') →
        Follows L b' s' ∧ AllSpent (done ++ todo) b' s') s := by
  have st (done : List HandleId) (hd : ∀ i ∈ done, i ∈ hs) (b : OpenBatch) :
      (quietRules L p stream hs).Stable fun s => Follows L b s ∧ AllSpent done b s :=
    .and ((quietRules_within L p stream hs).stable (Follows.stable b)) (AllSpent.stable hd b)
  induction todo generalizing done b s with
  | nil =>
    rw [List.append_nil]
    refine .pure (st done within b) ⟨hb, spent⟩ fun s' _ h n b' hr => ?_
    obtain ⟨-, rfl⟩ := Prod.mk.inj (Except.ok.inj hr)
    exact h
  | cons h rest ih =>
    have hh := within' h List.mem_cons_self
    have within₁ : ∀ i ∈ h :: done, i ∈ hs := List.forall_mem_cons.2 ⟨hh, within⟩
    have follows := ((Log.keeps_stageCopy (p := p) obeys h hb).within
      (.anything _) (quietRules_within L p stream hs))
    refine .bind ((follows.and_lax (Log.keeps_stageCopy_spent within hh hb spent)).mono
      fun r s₁ _ hr => ?_)
    cases r with
    | error e => exact .pure Rules.Stable.const trivial fun _ _ _ n b' hr => by simp at hr
    | ok r =>
      obtain ⟨n, b₁⟩ := r
      refine .bind ((ih within₁ (fun i hi => within' i (List.mem_cons_of_mem h hi))
        (hr.1 n b₁ rfl) (hr.2 n b₁ rfl)).mono fun r s₂ _ hr => ?_)
      cases r with
      | error e => exact .pure Rules.Stable.const trivial fun _ _ _ n b' hr => by simp at hr
      | ok r =>
        obtain ⟨more, b₂⟩ := r
        have hin : ∀ i ∈ h :: done ++ rest, i ∈ hs := fun i hi =>
          (List.mem_append.1 hi).elim (within₁ i) fun hi => within' i (List.mem_cons_of_mem h hi)
        refine .pure (st _ hin b₂) (hr more b₂ rfl) fun s' _ h' n b' hr => ?_
        obtain ⟨-, rfl⟩ := Prod.mk.inj (Except.ok.inj hr)
        refine ⟨h'.1, fun m hm hd => h'.2 m hm ?_⟩
        simpa [or_left_comm] using hd

end quiet

/-! ## Snapshots that are due -/

/-- Past every multiple of the threshold that the stream has passed there is a snapshot; and the
stream can be replayed. -/
structure Chronicle.Economical (t : Nat) (stream : String) (s : Chronicle) : Prop where
  reached : (s.medium.records stream).length / t ≤ s.scene.world.shelf.reach stream / t
  replays : ∃ b, (Rebuilt.blank stream).takeAll stream (s.medium.records stream) = .ok b

/-- What a coordinator has stored has taken the stream past a multiple, and with this movement the
snapshot will be written that makes up for it. -/
structure Coordinator.Owes (c : Coordinator) (t : Nat) (stream : String) (m : Movement)
    (s : Chronicle) : Prop where
  tracked : m.handle ∈ c.tracked
  captures : c.captures m = true
  copy : ∃ x y, s.copies[m.handle]? = some x ∧ x.stream = stream ∧
    s.stories[m.handle]? = some y ∧ y.version = m.staged
  passed : (s.medium.records stream).length / t ≤ m.staged / t
  replays : ∃ b, (Rebuilt.blank stream).takeAll stream (s.medium.records stream) = .ok b

/-- With some movements still to be confirmed, no snapshot will be missing in the end. -/
def Coordinator.Thrifty (c : Coordinator) (t : Nat) (stream : String) (ms : List Movement)
    (s : Chronicle) : Prop :=
  Economical t stream s ∨ ∃ m ∈ ms, c.Owes t stream m s

section thrifty

variable {L : Law} {p : Party} {s s' : Chronicle} {c : Coordinator} {t : Nat} {stream : String}

theorem Chronicle.Economical.later {hs : List HandleId} (h : Economical t stream s)
    (spares : Spares stream hs s s') : Economical t stream s' where
  reached := by
    rw [spares.records_eq]
    exact Nat.le_trans h.reached (Nat.div_le_div_right spares.reach_le)
  replays := spares.records_eq ▸ h.replays

theorem Coordinator.Owes.later {m : Movement} (h : c.Owes t stream m s)
    (hr : ∀ (i : HandleId) x, s.copies[i]? = some x →
      ∃ x', s'.copies[i]? = some x' ∧ x'.stream = x.stream)
    (spares : Spares stream c.tracked s s') : c.Owes t stream m s' where
  tracked := h.tracked
  captures := h.captures
  copy := by
    obtain ⟨x, y, hx, hs, hy, hv⟩ := h.copy
    obtain ⟨x', hx', hs'⟩ := hr _ x hx
    exact ⟨x', y, hx', hs'.trans hs, spares.stories _ h.tracked y hy, hv⟩
  passed := spares.records_eq ▸ h.passed
  replays := spares.records_eq ▸ h.replays

theorem Coordinator.Thrifty.later {ms : List Movement} (h : c.Thrifty t stream ms s)
    (hr : ∀ (i : HandleId) x, s.copies[i]? = some x →
      ∃ x', s'.copies[i]? = some x' ∧ x'.stream = x.stream)
    (spares : Spares stream c.tracked s s') : c.Thrifty t stream ms s' := by
  rcases h with h | ⟨m, hm, h⟩
  · exact .inl (h.later spares)
  · exact .inr ⟨m, hm, h.later hr spares⟩

theorem Chronicle.Rely.streams (hr : Rely p s s') (i : HandleId) (x : WorkingCopy)
    (hx : s.copies[i]? = some x) : ∃ x', s'.copies[i]? = some x' ∧ x'.stream = x.stream := by
  obtain ⟨x', hx', he⟩ := hr.copies i x hx
  exact ⟨x', hx', he.stream_eq⟩

theorem Coordinator.Thrifty.stable (ms : List Movement) :
    (quietRules L p stream c.tracked).lax.Stable (c.Thrifty t stream ms) :=
  fun _ _ h hr _ => h.later hr.1.streams hr.2

theorem Chronicle.Economical.stable (hs : List HandleId) :
    (quietRules L p stream hs).Stable (Economical t stream) :=
  fun _ _ h hr _ => h.later hr.2

/-! ### Landing -/

theorem Coordinator.captures_of_cross (c : Coordinator) (ht : 0 < t)
    (snapshots : c.snapshots = true) (policy : c.policy = ⟨true, t⟩) {m : Movement}
    (hcross : m.durable / t < m.staged / t) : c.captures m = true := by
  rw [captures, snapshots, policy, Bool.true_and]
  exact (SnapshotPolicy.isDue_iff_div_lt rfl ht).2 hcross

/-- A batch with all that its copies have emitted lands.  Then either no multiple of the threshold
has been passed, or the movement up to the new end of the stream is owed a snapshot. -/
theorem Chronicle.Economical.landed {sealer : Sealer} (ht : 0 < t) {b : OpenBatch} {m : Memory}
    (hi : Holds (.genuine sealer) s) (he : Economical t stream s)
    (hb : Follows (.genuine sealer) b s) (moves : b.MovesOnly c.tracked)
    (spent : AllSpent c.tracked b s) (snapshots : c.snapshots = true)
    (policy : c.policy = ⟨true, t⟩) (hm : s.medium.commit b.batch.staged = .ok m) :
    c.Thrifty t stream b.moved (s.after p (s.landed m)) := by
  by_cases hon : Append.onto stream b.batch.staged = []
  · have same : m.records stream = s.medium.records stream := by
      rw [Memory.records_commit hm, hon, List.append_nil]
    have spares : Spares stream [] s (s.after p (s.landed m)) := ⟨same, Nat.le_refl _, by simp⟩
    exact .inl (he.later spares)
  · obtain ⟨y', c', n, hset, hstart, ht', rfl, hend⟩ := hb.told_end hi hm hon
    have replays := ht'.replays (hi.orderly.commit hm) hset hstart hend
    obtain ⟨mv, hmv, x, hdue, hst, hstaged⟩ := hb.reaches_end (p := p) hi hm hon
    have hx : s.copies[mv.handle]? = some x := hdue.copy
    obtain ⟨z, hz⟩ := hb.moved mv hmv
    obtain rfl : x = z := Option.some.inj (hx.symm.trans hz.copy)
    obtain ⟨hd, hlen, -⟩ := hz.alive_of_landed hi.orderly hm
    have hle := hi.durable_le (Law.genuine_grounded sealer) hx
    rw [hst] at hlen hle
    have hlt := hz.durable_lt
    by_cases hcross : mv.durable / t < mv.staged / t
    · -- Alive and spent, the movement goes exactly as far as its copy.
      obtain ⟨x', y, hx', hy, hv⟩ := spent mv hmv (moves mv hmv)
      obtain rfl : x = x' := Option.some.inj (hx.symm.trans hx')
      have hfull := (hz.alive hd).1
      have hver := (hi.version_eq hx hy).2
      exact .inr ⟨mv, hmv, moves mv hmv, c.captures_of_cross ht snapshots policy hcross,
        ⟨x, y, hx, hst, hy, by omega⟩, Nat.le_of_eq (congrArg (· / t) hstaged.symm), replays⟩
    · refine .inl ⟨?_, replays⟩
      have hfrom : mv.durable = (s.medium.records c'.stream).length := by omega
      calc (m.records c'.stream).length / t = mv.staged / t := by rw [hstaged]
        _ ≤ mv.durable / t := Nat.le_of_not_lt hcross
        _ ≤ s.scene.world.shelf.reach c'.stream / t := hfrom ▸ he.reached

/-! ### Confirming -/

/-- What a coordinator asks for once its batch has landed. -/
def Request.Closing : Request → Prop
  | .time => True
  | .save _ => True
  | .confirm .. => True
  | _ => False

theorem Coordinator.closing_confirm (c : Coordinator) (m : Movement) :
    (c.confirm m).Asks Request.Closing :=
  c.asks_confirm trivial (fun _ => trivial) trivial

/-- Whatever is asked, no copy becomes one of another stream. -/
theorem Chronicle.Answers.streams {q : Request} {a : q.Answer} (h : Answers p q s a s')
    (hi : Holds L s) (hp : Proper L p s q) (i : HandleId) (x : WorkingCopy)
    (hx : s.copies[i]? = some x) : ∃ x', s'.copies[i]? = some x' ∧ x'.stream = x.stream := by
  obtain ⟨p', hne⟩ := Party.exists_other p
  exact ((h.kept hi hp).2 p' hne).streams i x hx

/-- Confirming and saving is none of what the others are not to do. -/
theorem Chronicle.Answers.spares {q : Request} (hq : q.Closing) {a : q.Answer}
    (h : Answers p q s a s') (stream : String) (hs : List HandleId) : Spares stream hs s s' := by
  cases q with
  | time =>
    obtain ⟨rfl, -⟩ := (officeRules_shows .free p).answered rfl h
    exact .refl _
  | save x =>
    obtain rfl := h.of_save
    exact ⟨rfl, s.scene.world.shelf.reach_le_save x stream, fun _ _ _ hy => hy⟩
  | confirm h' v =>
    obtain ⟨-, rfl⟩ := h.of_confirm
    refine ⟨rfl, Nat.le_refl _, fun i _ y hy => ?_⟩
    show (s.stories.modify h' id)[i]? = some y
    rw [List.getElem?_modify, hy]
    by_cases hi : h' = i <;> simp [hi]
  | head | page | commit | load | look | place | perform => exact hq.elim

theorem Coordinator.Thrifty.answered {q : Request} (hq : q.Closing) {a : q.Answer}
    {ms : List Movement} (h : c.Thrifty t stream ms s) (hi : Holds L s) (hp : Proper L p s q)
    (ha : Answers p q s a s') : c.Thrifty t stream ms s' :=
  h.later (ha.streams hi hp) (ha.spares hq stream c.tracked)

theorem Coordinator.Owes.answered {q : Request} (hq : q.Closing) {a : q.Answer} {m : Movement}
    (h : c.Owes t stream m s) (hi : Holds L s) (hp : Proper L p s q) (ha : Answers p q s a s') :
    c.Owes t stream m s' :=
  h.later (ha.streams hi hp) (ha.spares hq stream c.tracked)

/-- The snapshot that is owed is written with the confirmation of its movement. -/
theorem Coordinator.Owes.keeps_confirm {m : Movement} (h : c.Owes t stream m s) :
    (c.confirm m).Keeps (quietRules L p stream c.tracked).lax
      (fun _ s' => Economical t stream s') s := by
  have st : (quietRules L p stream c.tracked).lax.Stable (c.Owes t stream m) :=
    fun _ _ h hr _ => h.later hr.1.streams hr.2
  refine .ask_bind st h fun s₁ hi₁ h₁ => ⟨trivial, fun a s₂ hi₂ ha => ?_⟩
  have h₂ : c.Owes t stream m s₂ :=
    h₁.answered (q := .confirm m.handle m.staged) trivial hi₁ ha.1 ha.2
  obtain ⟨x, y, hx, hst, hy, hv⟩ := h₁.copy
  have hver : (x.markCommitted m.staged).version = m.staged := by
    have := (hi₁.version_eq hx hy).1
    show max x.version m.staged = m.staged
    omega
  obtain ⟨rfl, -⟩ := ha.2.of_confirm
  rw [hx]
  simp only [Option.map_some]
  rw [if_pos (by simp [h.captures, hver])]
  refine .look_bind (quietRules_shows L p stream c.tracked) rfl st h₂ fun s₃ _ h₃ => ?_
  refine .ask_bind st h₃ fun s₄ _ h₄ => ⟨trivial, fun a s₅ _ ha => ?_⟩
  obtain rfl := ha.2.of_save
  have hreach := s₄.scene.world.shelf.le_reach_save
    ((x.markCommitted m.staged).snapshot s₃.scene.world.clock)
  have saved : Economical t stream
      ⟨s₄.saved ((x.markCommitted m.staged).snapshot s₃.scene.world.clock), s₄.authors⟩ := by
    refine ⟨Nat.le_trans h₄.passed (Nat.div_le_div_right ?_), h₄.replays⟩
    rw [← hst]
    exact Nat.le_trans (Nat.le_of_eq hver.symm) hreach
  exact .pure (Economical.stable c.tracked).lax saved fun _ _ h => h

theorem Coordinator.Thrifty.keeps_confirmAll {ms : List Movement}
    (h : c.Thrifty t stream ms s) :
    (c.confirmAll ms).Keeps (quietRules L p stream c.tracked).lax
      (fun _ s' => Economical t stream s') s := by
  induction ms generalizing s with
  | nil =>
    have he : Economical t stream s := h.resolve_right (by simp)
    exact .pure (Economical.stable c.tracked).lax he fun _ _ h => h
  | cons m rest ih =>
    have hor : c.Thrifty t stream rest s ∨ c.Owes t stream m s := by
      rcases h with he | ⟨x, hx, ho⟩
      · exact .inl (.inl he)
      · rcases List.mem_cons.1 hx with rfl | hx
        · exact .inr ho
        · exact .inl (.inr ⟨x, hx, ho⟩)
    unfold confirmAll
    by_cases hm : m.handle ∈ c.tracked
    · rw [if_pos hm]
      refine .bind (Dialogue.Keeps.mono (Q := fun _ => c.Thrifty t stream rest) ?_
        fun _ _ _ h => ih h)
      rcases hor with hrest | ho
      · exact ((Dialogue.Keeps.lax_anything _ s).carry (c.closing_confirm m)
          (Thrifty.stable rest) (fun hq hi h _ ha => h.answered hq hi ha.1 ha.2) hrest).mono
          fun _ _ _ h => h.2
      · exact ho.keeps_confirm.mono fun _ _ _ h => .inl h
    · rw [if_neg hm]
      exact ih (hor.resolve_right fun ho => hm ho.tracked)

/-! ### The whole call -/

/-- A call that only looks changes nothing, and neither do the others. -/
theorem Chronicle.Economical.keeps_looking {α : Type} {u : Dialogue α} (looks : u.OnlyLooks)
    (hs : List HandleId) (he : Economical t stream s) :
    u.Keeps (quietRules L p stream hs).lax (fun _ s' => Economical t stream s') s :=
  ((Dialogue.Keeps.lax_anything u s).carry looks (Economical.stable hs).lax
    (fun hq _ h _ ha => ((quietRules_shows L p stream hs).answered hq ha).1 ▸ h) he).mono
    fun _ _ _ h => h.2

section call

variable {sealer : Sealer} {b : OpenBatch} (ht : 0 < t) (snapshots : c.snapshots = true)
  (policy : c.policy = ⟨true, t⟩)

include ht snapshots policy

theorem Coordinator.keeps_finish_economical (moves : b.MovesOnly c.tracked)
    (hb : Follows (.genuine sealer) b s) (spent : AllSpent c.tracked b s)
    (he : Economical t stream s) :
    (c.finish b).Keeps (quietRules (.genuine sealer) p stream c.tracked).lax
      (fun _ s' => Economical t stream s') s := by
  have quiet : (quietRules (.genuine sealer) p stream c.tracked).lax.Stable
      (Economical t stream) := (Economical.stable c.tracked).lax
  have owing : (quietRules (.genuine sealer) p stream c.tracked).lax.Stable
      (c.Thrifty t stream b.moved) := Thrifty.stable b.moved
  have st : (quietRules (.genuine sealer) p stream c.tracked).lax.Stable fun s =>
      Follows (.genuine sealer) b s ∧ AllSpent c.tracked b s ∧ Economical t stream s :=
    .and (fun _ _ hf hr hi => Follows.stable b hf hr.1 hi)
      (.and (AllSpent.stable (fun _ hi => hi) b) quiet)
  refine .bind ((c.log.keeps_storing b.batch st owing quiet ⟨hb, spent, he⟩
    (fun _ _ _ => trivial) ?_ ?_).mono fun r s₁ _ hr => ?_)
  · intro s₁ s₂ hi₁ h₁ ha
    rcases ha.2.of_commit with ⟨-, m, hm, rfl⟩ | ⟨hne, -⟩
    · exact h₁.2.2.landed ht hi₁ h₁.1 moves h₁.2.1 snapshots policy hm
    · exact absurd rfl hne
  · intro s₁ s₂ a hi₁ h₁ hne ha
    rcases ha.2.of_commit with ⟨rfl, -⟩ | ⟨-, rfl⟩
    · exact absurd rfl hne
    · exact h₁.2.2
  · cases r with
    | error e => exact .pure quiet hr fun _ _ h => h
    | ok n =>
      have hthrifty : c.Thrifty t stream b.moved s₁ := by
        obtain ⟨-, ⟨-, h⟩ | h⟩ := hr
        · exact .inl h.2.2
        · exact h
      exact .bind (hthrifty.keeps_confirmAll.mono fun _ s₂ _ h₂ => .pure quiet h₂ fun _ _ h => h)

theorem Coordinator.keeps_settle_economical (obeys : c.log.Obeys (.genuine sealer))
    (moves : b.MovesOnly c.tracked) (hb : Follows (.genuine sealer) b s)
    (he : Economical t stream s) :
    (c.settle b).Keeps (quietRules (.genuine sealer) p stream c.tracked).lax
      (fun _ s' => Economical t stream s') s := by
  have quiet : (quietRules (.genuine sealer) p stream c.tracked).lax.Stable
      (Economical t stream) := (Economical.stable c.tracked).lax
  have all : (c.log.stageAll c.tracked b).Keeps (quietRules (.genuine sealer) p stream c.tracked)
      (fun r s' => ∀ n b', r = .ok (n, b') →
        Follows (.genuine sealer) b' s' ∧ AllSpent ([] ++ c.tracked) b' s') s :=
    Log.keeps_stageAll_spent obeys c.tracked (by simp) (fun _ hi => hi) hb
      fun _ _ hd => absurd hd (by simp)
  have staging := all.lax.carry (c.log.onlyLooks_stageAll c.tracked b) quiet (fun looks _ hs _ ha =>
    ((quietRules_shows _ p stream c.tracked).answered looks ha).1 ▸ hs) he
  have ends := c.log.ends_stageAll c.tracked (fun _ hi => hi) moves
  refine .bind ((staging.and_ends ends).mono fun r s₁ _ hr => ?_)
  cases r with
  | error e => exact .pure quiet hr.1.2 fun _ _ h => h
  | ok r =>
    obtain ⟨hb₁, spent⟩ := hr.1.1 r.1 r.2 rfl
    exact keeps_finish_economical ht snapshots policy (hr.2 r.1 r.2 rfl) hb₁ spent hr.1.2

/-- Whatever comes of it, a call that stores what is buffered, or only stages it, leaves no snapshot
missing. -/
theorem Coordinator.keeps_push_economical (hf : c.Fit (.genuine sealer) s)
    (he : Economical t stream s) :
    c.push.Keeps (quietRules (.genuine sealer) p stream c.tracked)
      (fun r s' => r.2.Fit (.genuine sealer) s' ∧ Economical t stream s') s := by
  have fit := (Coordinator.keeps_push hf).within (.anything _)
    (quietRules_within (.genuine sealer) p stream c.tracked)
  refine fit.and_lax ?_
  cases hc : c.transaction with
  | none =>
    unfold push
    rw [hc]
    exact keeps_settle_economical ht snapshots policy hf.obeys (OpenBatch.movesOnly_empty _)
      (.empty _ s) he
  | some b => exact he.keeps_looking (onlyLooks_push hc) c.tracked

theorem Coordinator.keeps_commit_economical (hf : c.Fit (.genuine sealer) s) (kempt : c.Kempt)
    (he : Economical t stream s) :
    c.commit.Keeps (quietRules (.genuine sealer) p stream c.tracked)
      (fun r s' => r.2.Fit (.genuine sealer) s' ∧ Economical t stream s') s := by
  have fit := (Coordinator.keeps_commit hf).within (.anything _)
    (quietRules_within (.genuine sealer) p stream c.tracked)
  refine fit.and_lax ?_
  unfold commit
  cases hc : c.transaction with
  | none => exact .pure (Economical.stable c.tracked).lax he fun _ _ h => h
  | some b =>
    exact keeps_settle_economical (c := { c with transaction := none }) ht snapshots policy
      hf.obeys (kempt b hc) (hf.follows b hc) he

end call

end thrifty

end TransferLedger

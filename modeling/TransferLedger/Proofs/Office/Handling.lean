import TransferLedger.CommandHandler
import TransferLedger.Proofs.Office.Coordinating
import TransferLedger.Proofs.Office.Rebuilding

/-!
# Handling a command among others

An attempt rebuilds a copy, performs the operation on it, and commits the one fact that comes of
it. Between the rebuild and the commit the others may have stored anything, but then the stream
has another version than the copy, and the commit does not land.  So a commit that lands stores
one record, behind exactly the facts that the copy was rebuilt from; and an attempt that does not
land stores nothing, and is lost only if the stream has grown since it was begun
(`CommandHandler.keeps_attempt`).  A handler goes on only after attempts of that kind
(`CommandHandler.keeps_handle`).

What is to be shown of a caller who has stored nothing, and what of one whose record has landed, are
parameters.
-/

set_option autoImplicit false

namespace TransferLedger

open Chronicle

variable {L : Law} {p : Party} {s : Chronicle} {P P' : Chronicle → Prop}

/-- A copy with one fact in its buffer, decided on a copy that could have been put down. -/
structure Prepared (L : Law) (c₀ c : WorkingCopy) (e : Event) (s : Chronicle) : Prop where
  settled : c₀.Settled
  start : L.start s.medium c₀
  tells : (⟨c₀, [e]⟩ : Story).Tells s.medium c 0

namespace Prepared

variable {c₀ c : WorkingCopy} {e : Event}

theorem stable (c₀ c : WorkingCopy) (e : Event) :
    (officeRules L p).Stable (Prepared L c₀ c e) := by
  intro s s' h hr _
  have hw := hr.within
  exact ⟨h.settled, L.start_within hw h.start, h.tells.within hw⟩

theorem pending (h : Prepared L c₀ c e s) : c.pending = [e] := h.tells.pending_eq

theorem durable (h : Prepared L c₀ c e s) : c.durable = c₀.durable := h.tells.durable_eq

theorem version (h : Prepared L c₀ c e s) : c.version = c.durable + 1 := by
  rw [h.tells.version_eq, h.durable]
  rfl

theorem of_perform {now : Instant} {o : Operation} (hset : c₀.Settled)
    (hl : L.start s.medium c₀) (h : c₀.perform now o = .ok c) :
    ∃ e, e = o.event c₀.stream now ∧ Prepared L c₀ c e s := by
  obtain ⟨e, t, hd, ha, rfl⟩ := WorkingCopy.decide_of_perform h
  exact ⟨e, (Transfer.apply_of_decide hd).1, hset, hl, (Story.Tells.begun hset s.medium).emit ha⟩

end Prepared

/-! ## Copies that are left behind -/

/-- The stream of a copy holds more than what the copy knows to be stored. -/
def WorkingCopy.LeftBehind (c : WorkingCopy) (m : Memory) : Prop :=
  c.durable < (m.records c.stream).length

/-- Where no copy is ahead of its stream, a copy that meets a conflict has been left behind. -/
def Explained (L : Law) (c : WorkingCopy) (conflict : Bool) (s : Chronicle) : Prop :=
  L.Grounded → conflict = true → c.LeftBehind s.medium

theorem Explained.stable (L : Law) (p : Party) (c : WorkingCopy) (conflict : Bool) :
    (officeRules L p).Stable (Explained L c conflict) :=
  fun _ _ h hr _ grounded he => Nat.lt_of_lt_of_le (h grounded he) (hr.within.length_le c.stream)

theorem Explained.of_quiet {c : WorkingCopy} : Explained L c false s :=
  fun _ he => absurd he (by simp)

theorem Prepared.leftBehind {c₀ c : WorkingCopy} {e : Event} (h : Prepared L c₀ c e s)
    (ho : s.medium.Orderly) (grounded : L.Grounded)
    (other : (s.medium.head c.stream).version ≠ c.durable) : c.LeftBehind s.medium := by
  have hle := grounded s.medium c₀ h.start
  rw [h.settled.2, ← h.durable, ← h.tells.stream_eq] at hle
  rw [ho.version_head] at other
  exact Nat.lt_of_le_of_ne hle (Ne.symm other)

/-- The one append that a copy with one fact in its buffer becomes. -/
def OneAppend (log : Log) (c : WorkingCopy) (e : Event) (a : Append) : Prop :=
  ∃ head now, head.version = c.durable ∧
    a = ⟨c.stream, c.durable, [log.sealer.record c.stream head (e.entry now)]⟩

theorem OneAppend.carries {log : Log} {c : WorkingCopy} {e : Event} {a : Append}
    (h : OneAppend log c e a) : a.stream = c.stream ∧
      ∃ r, a.records = [r] ∧ r.stream = c.stream ∧ r.sequence = c.durable + 1 ∧ r.Carries e := by
  obtain ⟨head, now, hv, rfl⟩ := h
  exact ⟨rfl, _, rfl, rfl, congrArg (· + 1) hv, rfl, rfl⟩

/-- How far the one fact takes the copy. -/
def oneMove (c : WorkingCopy) : Movement :=
  ⟨0, c.durable, c.durable + 1⟩

/-- Where the one append lands, its record stands behind the facts that the copy was rebuilt from.
-/
theorem Prepared.stores {log : Log} {c₀ c : WorkingCopy} {e : Event} {a : Append} {m : Memory}
    (h : Prepared L c₀ c e s) (ho : s.medium.Orderly) (ha : OneAppend log c e a)
    (hm : s.medium.commit [a] = .ok m) : m.Stores c (c.durable + 1) where
  durable_le := Nat.le_succ _
  le_pending := by rw [h.pending]; exact Nat.le_refl _
  carried := by
    intro i x hi hx
    obtain ⟨hs, r, hr, hrs, hseq, hcar⟩ := ha.carries
    obtain rfl : i = 0 := by omega
    obtain rfl : e = x := by simpa [h.pending] using hx
    have hmem : r ∈ (⟨[a]⟩ : Batch).records := by simp [Batch.records, hr]
    obtain ⟨-, hat⟩ := landed_of_mem (b := ⟨[a]⟩) ho hm hmem
    rw [hrs, hseq] at hat
    exact ⟨r, hat, hcar⟩

/-- Once the one append has landed and is confirmed, the copy tells of one fact more. -/
theorem Prepared.told {log : Log} {c₀ c : WorkingCopy} {e : Event} {a : Append} {m : Memory}
    (h : Prepared L c₀ c e s) (ho : s.medium.Orderly) (ha : OneAppend log c e a)
    (hm : s.medium.commit [a] = .ok m) : L.start m c₀ ∧
      ∃ n, (⟨c₀, [e]⟩ : Story).Tells m (c.markCommitted (c.durable + 1)) n := by
  have hw := Memory.within_commit hm
  exact ⟨L.start_within hw h.start, _, (h.tells.within hw).confirm (h.stores ho ha hm)⟩

theorem Prepared.captured {log : Log} {c₀ c : WorkingCopy} {e : Event} {a : Append} {m : Memory}
    (h : Prepared L c₀ c e s) (ho : s.medium.Orderly) (ha : OneAppend log c e a)
    (hm : s.medium.commit [a] = .ok m) (now : Instant) :
    L.snapshot m ((c.markCommitted (c.durable + 1)).snapshot now) := by
  obtain ⟨hstart, n, htold⟩ := h.told ho ha hm
  refine L.captured (ho.commit hm) h.settled hstart htold ?_
  show c.pending.drop (c.durable + 1 - c.durable) = []
  rw [h.pending, Nat.add_sub_cancel_left]
  rfl

/-- The one append leaves its stream with what the copy tells of, and the others as they were. -/
theorem Prepared.whole {log : Log} {c₀ c : WorkingCopy} {e : Event} {a : Append} {m : Memory}
    (h : Prepared L c₀ c e s) (hs : Holds L s) (ha : OneAppend log c e a)
    (hm : s.medium.commit [a] = .ok m) (stream : String) :
    L.whole stream (m.records stream) := by
  obtain ⟨has, r, har, -, hseq, -⟩ := ha.carries
  by_cases hst : c.stream = stream
  · subst hst
    have hend : c.durable + 1 = (m.records c.stream).length := by
      rw [← hseq, ← (hs.orderly.commit hm).version_head, Memory.head, Memory.records_commit hm,
        Append.onto_cons, if_pos has, har, Head.after_append]
      rfl
    obtain ⟨hstart, n, htold⟩ := h.told hs.orderly ha hm
    have := L.whole_told (hs.orderly.commit hm) h.settled hstart htold hend
    exact this
  · rw [Memory.records_commit hm, Append.onto_cons, if_neg (has ▸ hst), Append.onto_nil,
      List.append_nil, List.append_nil]
    exact hs.whole stream

/-! ## Staging and storing one fact -/

section one

variable {log : Log} {c₀ c : WorkingCopy} {e : Event}

/-- A copy that is held is staged in a batch of its own, unless it has been left behind. -/
theorem keeps_stageCopy_holding (log : Log) (stable : (officeRules L p).Stable P)
    (hs : P s ∧ Prepared L c₀ c e s) :
    ((log.stageCopy 0 .empty).holding c).Keeps (officeRules L p)
      (fun x s' => x.2 = c ∧ (P s' ∧ Prepared L c₀ c e s') ∧
        (∀ n b, x.1 = .ok (n, b) → ∃ a, OneAppend log c e a ∧ b = ⟨⟨[a]⟩, [oneMove c]⟩) ∧
        ∀ y, x.1 = .error y → Explained L c y.isConflict s') s := by
  have st := stable.and (Prepared.stable (L := L) (p := p) c₀ c e)
  -- Nothing has been staged yet, so the one fact is what there is to stage.
  have hlen : ¬ c.pending.length ≤ OpenBatch.empty.stagedFor 0 := by
    rw [hs.2.pending]
    simp [OpenBatch.empty, OpenBatch.stagedFor]
  have hdrop : c.pending.drop (OpenBatch.empty.stagedFor 0) = [e] := by
    simp [OpenBatch.empty, OpenBatch.stagedFor, hs.2.pending]
  have hnone : Batch.empty.head? c.stream = none := rfl
  show ((if c.pending.length ≤ OpenBatch.empty.stagedFor 0 then _ else _ : Dialogue _).holding
    c).Keeps _ _ s
  rw [if_neg hlen]
  refine .holding_bind (.holding (Log.impersonal_entries _) ?_)
  refine (Log.keeps_entries (officeRules_shows L p) st hs _).mono fun entries s₁ _ hready => ?_
  intro s₂ hr₂ hi₂
  have hs₂ := st hready.1 hr₂ hi₂
  obtain ⟨now, rfl⟩ : ∃ now, entries = [e.entry now] := by
    obtain ⟨-, ready⟩ := hready
    rw [hdrop] at ready
    obtain ⟨x, rest, ⟨now, rfl⟩, hrest, rfl⟩ := List.forall₂_cons_right_iff.1 ready
    obtain rfl := List.forall₂_nil_right_iff.1 hrest
    exact ⟨now, rfl⟩
  show (((log.stage .empty c.stream [e.entry now] c.durable) >>= _).holding c).Keeps _ _ s₂
  refine Dialogue.Keeps.holding_bind ?_
  refine .holding (log.impersonal_stage ..) ?_
  -- The end that is shown is where the copy stands, or the copy has been left behind.
  have st' (head : Head) := st.and (Explained.stable L p c (head.version != c.durable))
  refine (Log.keeps_staging (officeRules_shows L p) st st' log .empty c.stream _ _
    (fun head s hb => absurd (hnone.symm.trans hb) (by simp))
    (fun s _ hi h => ⟨h, fun grounded he => h.2.leftBehind hi.orderly grounded (by simpa using he)⟩)
    hs₂).mono fun r s₃ _ hr => ?_
  intro s₄ hr₄ hi₄
  rcases hr with ⟨head, rfl, hs₃⟩ | ⟨rfl, hs₃, -⟩
  · have hs₄ := st' head hs₃ hr₄ hi₄
    cases hstage : log.stageBehind .empty c.stream [e.entry now] c.durable head with
    | error y =>
      refine .pure (st' head) hs₄ fun _ _ h => ⟨rfl, h.1, fun n b hb => by simp at hb,
        fun y' hy' => ?_⟩
      obtain rfl := Except.error.inj hy'
      obtain ⟨hv, -⟩ := Log.conflict_of_stageBehind hstage
      exact fun grounded _ => h.2 grounded (by simpa using hv)
    | ok r =>
      obtain ⟨v, batch⟩ := r
      obtain ⟨hv, hv', hst⟩ := Log.stageBehind_eq_ok hstage
      refine .pure (st' head) hs₄ fun _ _ h => ⟨rfl, h.1, fun n b hb => ?_, fun y hy => by
        simp at hy⟩
      obtain ⟨-, rfl⟩ := Prod.mk.inj (Except.ok.inj hb)
      refine ⟨⟨c.stream, c.durable, [log.sealer.record c.stream head (e.entry now)]⟩,
        ⟨head, now, hv, rfl⟩, ?_⟩
      have hb : batch =
          ⟨[⟨c.stream, c.durable, [log.sealer.record c.stream head (e.entry now)]⟩]⟩ := by
        cases batch
        exact congrArg Batch.mk hst
      rw [hb, hv']
      rfl
  · refine .pure st (st hs₃ hr₄ hi₄) fun _ _ h => ⟨rfl, h, fun n b hb => by simp at hb,
      fun y hy => ?_⟩
    obtain rfl := Except.error.inj hy
    exact .of_quiet

/-- What is known once the one append has landed: something of the caller's choice, and that the
copy may be saved. -/
def Stored (L : Law) (P' : Chronicle → Prop) (c : WorkingCopy) (s : Chronicle) : Prop :=
  P' s ∧ ∀ now, L.snapshot s.medium ((c.markCommitted (c.durable + 1)).snapshot now)

theorem Stored.stable (stable' : (officeRules L p).Stable P') (c : WorkingCopy) :
    (officeRules L p).Stable (Stored L P' c) := by
  rintro s s' ⟨hp, hx⟩ hr hs
  exact ⟨stable' hp hr hs, fun now => L.snapshot_within hr.within (hx now)⟩

/-- Confirming to a copy that is held needs nobody's leave. -/
theorem keeps_confirm_holding {k : Coordinator} (hk : 0 ∈ k.tracked)
    (stable' : (officeRules L p).Stable P') (saves : ∀ s x, P' s → P' ⟨s.saved x, s.authors⟩)
    (hs : Stored L P' c s) :
    ((k.confirmAll [oneMove c]).holding c).Keeps (officeRules L p)
      (fun x s' => x.2 = c.markCommitted (c.durable + 1) ∧ P' s') s := by
  show ((if 0 ∈ k.tracked then _ else _ : Dialogue _).holding c).Keeps _ _ s
  rw [if_pos hk]
  refine .holding_bind ?_
  show ((if _ then _ else pure () : Dialogue Unit).holding
    (c.markCommitted (c.durable + 1))).Keeps _ _ s
  split
  · refine .look (officeRules_shows L p) rfl (Stored.stable stable' c) hs fun s₁ _ hs₁ => ?_
    refine .ask (Stored.stable stable' c) hs₁ fun s₂ _ hs₂ => ⟨hs₂.2 _, fun a s₃ _ ha => ?_⟩
    obtain rfl := ha.of_save
    refine .done stable' (saves _ _ hs₂.1) fun s₄ _ hs₄ => ?_
    exact .done stable' hs₄ fun _ _ h => ⟨rfl, h⟩
  · refine .done stable' hs.1 fun s₁ _ hs₁ => ?_
    exact .done stable' hs₁ fun _ _ h => ⟨rfl, h⟩

/-- The one fact of a copy that is held lands behind the facts that the copy was rebuilt from, or
nothing is stored. -/
theorem keeps_push_holding (obeys : log.Obeys L) (snapshots : Bool)
    (stable : (officeRules L p).Stable P) (hs : P s ∧ Prepared L c₀ c e s)
    (stable' : (officeRules L p).Stable P') (saves : ∀ s x, P' s → P' ⟨s.saved x, s.authors⟩)
    (landed : ∀ s m a, Holds L s → P s → OneAppend log c e a → s.medium.commit [a] = .ok m →
      P' (s.after p (s.landed m))) :
    (((Coordinator.idle log snapshots).track 0).push.holding c).Keeps (officeRules L p)
      (fun x s' => match x.1.1 with
        | .ok _ => x.2.version = c.durable + 1 ∧ P' s'
        | .error x => P s' ∧ Explained L c x.isConflict s') s := by
  have st := stable.and (Prepared.stable (L := L) (p := p) c₀ c e)
  have st' (y : StoreError) := st.and (Explained.stable L p c y.isConflict)
  have hk : 0 ∈ ((Coordinator.idle log snapshots).track 0).tracked := by
    simp [Coordinator.track, Coordinator.idle]
  show ((((log.stageCopy 0 .empty >>= _ : Dialogue _) >>= _ : Dialogue _)).holding c).Keeps _ _ s
  refine .holding_bind (.holding_bind ((keeps_stageCopy_holding log stable hs).mono
    fun x s₁ _ hx => ?_))
  obtain ⟨res, c'⟩ := x
  obtain ⟨hc, hs₁, hb, behind⟩ := hx
  obtain rfl : c = c' := hc.symm
  cases res with
  | error y =>
    refine .done (st' y) ⟨hs₁, behind y rfl⟩ fun s₂ _ hs₂ => ?_
    exact .done (st' y) hs₂ fun _ _ h => ⟨h.1.1, h.2⟩
  | ok r =>
    obtain ⟨n, b⟩ := r
    obtain ⟨a, ha, rfl⟩ := hb n b rfl
    refine .done st hs₁ fun s₂ _ hs₂ => .holding_bind (.holding (log.impersonal_commit _) ?_)
    have lawful : ∀ r ∈ (⟨[a]⟩ : Batch).records, L.record r := by
      obtain ⟨head, now, -, rfl⟩ := ha
      simpa [Batch.records] using obeys ..
    refine (log.keeps_commit_or lawful st hs₂ (fun s₃ m hi₃ hs₃ hm => hs₃.2.whole hi₃ ha hm)
      (Stored.stable stable' c) (fun s₃ m hi₃ hs₃ hm => ?_) st' (fun s₃ y hi₃ hs₃ hy => ?_)
      fun s₃ _ hs₃ => ⟨hs₃, .of_quiet⟩).mono fun r s₃ _ hr => ?_
    · exact ⟨landed s₃ m a hi₃ hs₃.1 ha hm, hs₃.2.captured hi₃.orderly ha hm⟩
    · obtain ⟨head, now, -, rfl⟩ := ha
      exact ⟨hs₃, fun grounded he => hs₃.2.leftBehind hi₃.orderly grounded
        (Memory.version_ne_of_conflict hy he)⟩
    · intro s₄ hr₄ hi₄
      cases r with
      | error y => exact .done (st' y) (st' y hr hr₄ hi₄) fun _ _ h => ⟨h.1.1, h.2⟩
      | ok n =>
        -- The batch is not empty, so it has been to the medium.
        have hsize : (⟨[a]⟩ : Batch).size ≠ 0 := by
          obtain ⟨head, now, -, rfl⟩ := ha
          simp [Batch.size, Batch.records]
        obtain ⟨-, ⟨hz, -⟩ | hst⟩ := hr
        · exact absurd hz hsize
        · refine .holding_bind ((keeps_confirm_holding hk stable' saves
            (Stored.stable stable' c hst hr₄ hi₄)).mono fun x s₅ _ hx => ?_)
          obtain ⟨hc, hp⟩ := hx
          refine .done stable' hp fun _ _ h => ⟨?_, h⟩
          rw [hc]
          show max c.version (c.durable + 1) = _
          rw [hs₁.2.version, Nat.max_self]

end one

/-! ## Attempts -/

/-- What a caller wants to know: something that is true before a record of his has landed, and
something of the record once it has. -/
structure Concern (L : Law) (p : Party) (log : Log) where
  before : Chronicle → Prop
  after : WorkingCopy → Event → Chronicle → Prop
  stable_before : (officeRules L p).Stable before
  stable_after (c : WorkingCopy) (e : Event) : (officeRules L p).Stable (after c e)
  saved (c : WorkingCopy) (e : Event) (s : Chronicle) (x : Snapshot) :
    after c e s → after c e ⟨s.saved x, s.authors⟩
  landed (s : Chronicle) (m : Memory) (c : WorkingCopy) (e : Event) (a : Append) :
    s.Holds L → before s → OneAppend log c e a → s.medium.commit [a] = .ok m →
      after c e (s.after p (s.landed m))

def Concern.idle (L : Law) (p : Party) (log : Log) : Concern L p log where
  before := fun _ => True
  after := fun _ _ _ => True
  stable_before := fun _ _ _ _ _ => trivial
  stable_after := fun _ _ _ _ _ _ _ => trivial
  saved := fun _ _ _ _ _ => trivial
  landed := fun _ _ _ _ _ _ _ _ _ => trivial

variable {h : CommandHandler}

/-- A command has been accepted: its operation was performed on a copy that could have been put
down, and the record of its fact has landed behind what that copy stands for. -/
def Accepted (K : Concern L p h.log) (cmd : Command) (version : Nat) (s : Chronicle) : Prop :=
  ∃ c₀ c now, Rebuildable L cmd.transfer s c₀ ∧ c₀.perform now cmd.operation = .ok c ∧
    version = c₀.version + 1 ∧ K.after c (cmd.operation.event cmd.transfer now) s

theorem Accepted.stable (K : Concern L p h.log) (cmd : Command) (version : Nat) :
    (officeRules L p).Stable (Accepted K cmd version) := by
  rintro s s' ⟨c₀, c, now, hre, hperform, hv, hafter⟩ hr hs
  exact ⟨c₀, c, now, Rebuildable.stable (L := L) cmd.transfer c₀ hre hr hs, hperform, hv,
    K.stable_after _ _ hafter hr hs⟩

/-- A rebuild may come to this copy that was begun when its stream held so many records. -/
structure Loaded (L : Law) (known : Nat) (stream : String) (s : Chronicle) (c : WorkingCopy) :
    Prop where
  rebuildable : Rebuildable L stream s c
  known_le : L.Grounded → (s.medium.records stream).length ≤ Reader.positions → known ≤ c.version

theorem Loaded.stable (known : Nat) (stream : String) (c : WorkingCopy) :
    (officeRules L p).Stable fun s => Loaded L known stream s c :=
  fun _ _ h hr hs => ⟨Rebuildable.stable stream c h.rebuildable hr hs, fun grounded short =>
    h.known_le grounded (Nat.le_trans (hr.within.length_le stream) short)⟩

/-- The stream has grown beyond what it held once, if it can be read to its end at all. -/
def Outgrown (L : Law) (known : Nat) (stream : String) (s : Chronicle) : Prop :=
  L.Grounded → (s.medium.records stream).length ≤ Reader.positions →
    known < (s.medium.records stream).length

theorem Outgrown.stable (known : Nat) (stream : String) :
    (officeRules L p).Stable (Outgrown L known stream) := by
  intro s s' h hr _ grounded short
  have hle := hr.within.length_le stream
  exact Nat.lt_of_lt_of_le (h grounded (Nat.le_trans hle short)) hle

/-- Where a copy has been left behind that was loaded, the stream has grown since. -/
theorem Loaded.outgrown {known : Nat} {stream : String} {c₀ c : WorkingCopy}
    (h : Loaded L known stream s c₀) (hs : c.stream = stream) (hd : c.durable = c₀.version)
    (behind : L.Grounded → c.LeftBehind s.medium) : Outgrown L known stream s := by
  intro grounded short
  have hlt := behind grounded
  rw [WorkingCopy.LeftBehind, hs, hd] at hlt
  exact Nat.lt_of_le_of_lt (h.known_le grounded short) hlt

namespace CommandHandler

theorem keeps_load (K : Concern L p h.log) (cmd : Command) (hs : K.before s) {known : Nat}
    (known_le : known ≤ (s.medium.records cmd.transfer).length) :
    (h.load cmd).Keeps (officeRules L p)
      (fun res s' => K.before s' ∧ ∀ c, res = .ok c → Loaded L known cmd.transfer s' c) s := by
  have loaded {s : Chronicle} {c : WorkingCopy} (hs : K.before s ∧ Loaded L known cmd.transfer s c) :
      (pure (.ok c) : Dialogue (Except CommandError WorkingCopy)).Keeps (officeRules L p)
        (fun res s' => K.before s' ∧ ∀ c, res = .ok c → Loaded L known cmd.transfer s' c) s := by
    refine .pure (K.stable_before.and (Loaded.stable (L := L) known cmd.transfer c)) hs
      fun _ _ h => ⟨h.1, fun c' hc => ?_⟩
    obtain rfl := Except.ok.inj hc
    exact h.2
  refine .bind ((h.log.keeps_rebuild_meanwhile (.refl ..) h.snapshots K.stable_before hs
    known_le).mono fun res s₁ hi₁ hres => ?_)
  obtain ⟨hs₁, rebuilt⟩ := hres
  cases res with
  | ok b =>
    exact loaded ⟨hs₁, rebuilt.rebuildable hi₁, fun grounded short =>
      rebuilt.known_le grounded hi₁.orderly short⟩
  | error e =>
    show (if _ then _ else _ : Dialogue _).Keeps _ _ s₁
    split
    · next notFound =>
      have hz := rebuilt.known_eq_zero (Bool.and_eq_true_iff.1 notFound).1
      exact loaded ⟨hs₁, .blank hi₁ cmd.transfer, fun _ _ => Nat.le_of_eq hz⟩
    · exact .pure K.stable_before hs₁ fun _ _ h => ⟨h, fun c hc => by simp at hc⟩

/-- What an attempt leaves behind that was begun when the stream held so many records. -/
def Attempted (K : Concern L p h.log) (cmd : Command) (known : Nat) : Attempt → Chronicle → Prop
  | .done version, s => Accepted K cmd version s
  | .lost, s => K.before s ∧ Outgrown L known cmd.transfer s
  | .failed _, s => K.before s

theorem keeps_commitOne (obeys : h.log.Obeys L) (K : Concern L p h.log) {known : Nat}
    {stream : String} {c₀ c : WorkingCopy} {e : Event} (hs : K.before s)
    (hl : Loaded L known stream s c₀) (hp : Prepared L c₀ c e s) :
    (h.commitOne c).Keeps (officeRules L p)
      (fun res s' => match res with
        | .ok version => version = c.durable + 1 ∧ K.after c e s' ∧ Rebuildable L stream s' c₀
        | .error x => (K.before s' ∧ Loaded L known stream s' c₀) ∧
            Explained L c x.isConflict s') s := by
  have stable := K.stable_before.and (Loaded.stable (L := L) known stream c₀)
  have stable' := (K.stable_after c e).and (Rebuildable.stable (L := L) stream c₀)
  refine .bind ((keeps_push_holding obeys h.snapshots stable ⟨⟨hs, hl⟩, hp⟩ stable'
    (fun s x h' => ⟨K.saved c e s x h'.1, h'.2⟩) fun s m a hi hb ha hm => ?_).mono
    fun x s₁ _ hx => ?_)
  · obtain ⟨hset, hstream, hstart⟩ := hb.2.rebuildable
    exact ⟨K.landed s m c e a hi hb.1 ha hm, hset, hstream,
      L.start_within (Memory.within_commit hm) hstart⟩
  · obtain ⟨⟨res, k⟩, c'⟩ := x
    cases res with
    | ok n => exact .pure stable' hx.2 fun _ _ h => ⟨hx.1, h⟩
    | error x => exact .pure (stable.and (Explained.stable L p c x.isConflict)) hx fun _ _ h => h

/-- Among others who store, an attempt is lost only if the stream has grown since it was begun. -/
theorem keeps_attempt (obeys : h.log.Obeys L) (K : Concern L p h.log) (cmd : Command)
    (hs : K.before s) {known : Nat} (known_le : known ≤ (s.medium.records cmd.transfer).length) :
    (h.attempt cmd).Keeps (officeRules L p) (Attempted K cmd known) s := by
  refine .bind ((keeps_load K cmd hs known_le).mono fun res s₁ _ hres => ?_)
  obtain ⟨hs₁, hload⟩ := hres
  cases res with
  | error e => exact .pure K.stable_before hs₁ fun _ _ h => h
  | ok c₀ =>
    have st := K.stable_before.and (Loaded.stable (L := L) (p := p) known cmd.transfer c₀)
    refine .look_bind (officeRules_shows L p) rfl st ⟨hs₁, hload c₀ rfl⟩ fun s₂ _ hs₂ => ?_
    dsimp only [InMemory.answer]
    cases hc : c₀.perform s₂.scene.world.clock cmd.operation with
    | error e => exact .pure st hs₂ fun _ _ h => h.1
    | ok c =>
      obtain ⟨hset, hstream, hstart⟩ := hs₂.2.rebuildable
      obtain ⟨e, he, hp⟩ := Prepared.of_perform hset hstart hc
      rw [hstream] at he
      refine .bind ((keeps_commitOne obeys K hs₂.1 hs₂.2 hp).mono fun res s₃ _ hres => ?_)
      cases res with
      | ok version =>
        obtain ⟨hv, ha⟩ := hres
        refine .pure ((K.stable_after c e).and (Rebuildable.stable (L := L) cmd.transfer c₀)) ha
          fun s₄ _ h₄ => ⟨c₀, c, s₂.scene.world.clock, h₄.2, hc, ?_, he ▸ h₄.1⟩
        rw [hv, hp.durable, hset.2]
      | error x =>
        -- A conflict or not, nothing has been stored.
        obtain ⟨⟨hs₃, loaded⟩, explained⟩ := hres
        show (if x.isConflict then _ else _ : Dialogue _).Keeps _ _ s₃
        split
        · next conflict =>
          have grown := loaded.outgrown (hp.tells.stream_eq.trans hstream)
            (hp.durable.trans hset.2.symm) fun grounded => explained grounded conflict
          exact .pure (K.stable_before.and (Outgrown.stable known cmd.transfer)) ⟨hs₃, grown⟩
            fun _ _ h => h
        · exact .pure K.stable_before hs₃ fun _ _ h => h

/-- Attempts are made one after the other as long as they are lost, and a lost one has stored
nothing. -/
theorem keeps_attemptsFrom (obeys : h.log.Obeys L) (K : Concern L p h.log) (cmd : Command)
    (left lost : Nat) (hs : K.before s) :
    (h.attemptsFrom cmd left lost).Keeps (officeRules L p)
      (fun res s' => match res with
        | .ok (version, attempts) => lost < attempts ∧ attempts ≤ lost + left ∧
            Accepted K cmd version s'
        | .error _ => K.before s') s := by
  induction left generalizing lost s with
  | zero => exact .pure K.stable_before hs fun _ _ h => h
  | succ left ih =>
    refine .bind ((keeps_attempt obeys K cmd hs (Nat.zero_le _)).mono fun res s₁ _ hres => ?_)
    cases res with
    | done version =>
      exact .pure (Accepted.stable K cmd version) hres fun _ _ h => ⟨by omega, by omega, h⟩
    | failed e => exact .pure K.stable_before hres fun _ _ h => h
    | lost =>
      refine (ih (lost + 1) hres.1).mono fun res s₂ _ h₂ => ?_
      cases res with
      | ok res => exact ⟨by omega, by omega, h₂.2.2⟩
      | error e => exact h₂

theorem keeps_handle (obeys : h.log.Obeys L) (K : Concern L p h.log) (id : CommandId)
    (cmd : Command) (hs : K.before s) :
    (h.handle id cmd).Keeps (officeRules L p)
      (fun res s' => match res with
        | .ok ack => (ack.command = id ∧ ack.kind = cmd.kind ∧ ack.transfer = cmd.transfer ∧
            0 < ack.attempts ∧ ack.attempts ≤ h.attempts) ∧ Accepted K cmd ack.version s'
        | .error _ => K.before s') s := by
  refine .bind ((keeps_attemptsFrom obeys K cmd h.attempts 0 hs).mono fun res s₁ _ hres => ?_)
  cases res with
  | ok res =>
    obtain ⟨version, attempts⟩ := res
    exact .pure (Accepted.stable K cmd version) hres.2.2 fun _ _ ha =>
      ⟨⟨rfl, rfl, rfl, hres.1, by have := hres.2.1; simpa using this⟩, ha⟩
  | error e => exact .pure K.stable_before hres fun _ _ h => h

end CommandHandler

end TransferLedger

import TransferLedger.Proofs.Dialogue.Narrowing
import TransferLedger.Proofs.Office.Requests
import TransferLedger.Proofs.Rebuild.Meanwhile

/-!
# Rebuilding among others

A rebuild reads a stream while others store.  Whatever it comes to, it has started from nothing or
from a lawful snapshot, and has gone on from there (`Log.keeps_rebuild_meanwhile`).  What it hands
back is a lawful copy, because it has taken a stretch of the stream from a lawful starting point on
and a `Law` asks no more (`Log.keeps_rebuild`).

A rebuild only looks.  So all this holds under any rules that let somebody look around in the
office as everybody may, and the rules may say more about what the others leave alone.
-/

set_option autoImplicit false

namespace TransferLedger

open Chronicle

variable {L : Law} {p : Party} {R : Rules Chronicle} {s : Chronicle} {P : Chronicle → Prop}

/-- As far as looking goes these are rules of the office. -/
abbrev Rules.Looking (R : Rules Chronicle) (L : Law) (p : Party) : Prop :=
  R.Within (fun q => q.looks = true) (officeRules L p)

theorem Rules.Looking.grows (looking : R.Looking L p) :
    Reader.Grows R fun s => s.scene.world where
  proper s looks := looking.proper looks ((officeRules_shows L p).proper s looks)
  answered looks ha := (officeRules_shows L p).answered looks (looking.answers looks ha)
  within hr := (looking.rely hr).within
  orderly hs := (looking.holds hs).orderly

theorem officeRules_grows (L : Law) (p : Party) :
    Reader.Grows (officeRules L p) fun s => s.scene.world :=
  Rules.Looking.grows (.refl ..)

/-! ## Starting points -/

/-- A starting point of a rebuild, if there is one, comes from a lawful snapshot. -/
def Law.Begins (L : Law) (m : Memory) (stream : String) (from? : Option WorkingCopy) : Prop :=
  ∀ c, from? = some c → ∃ x, L.snapshot m x ∧ x.restore stream = .ok c

theorem Law.Begins.none (L : Law) (m : Memory) (stream : String) : L.Begins m stream none :=
  fun _ h => absurd h (by simp)

theorem Law.Begins.stable (stream : String) (from? : Option WorkingCopy) :
    (officeRules L p).Stable fun s => L.Begins s.medium stream from? := by
  intro s s' h hr _ c hc
  obtain ⟨x, hx, hres⟩ := h c hc
  exact ⟨x, L.snapshot_within hr.within hx, hres⟩

theorem Law.Begins.settled {m : Memory} {stream : String} {from? : Option WorkingCopy}
    (h : L.Begins m stream from?) : (Rebuilt.startingFrom stream from?).copy.Settled ∧
      (Rebuilt.startingFrom stream from?).copy.stream = stream :=
  Rebuilt.settled_startingFrom fun c hc => (h c hc).imp fun _ hx => hx.2

/-- No starting point is behind the end of its stream, if no copy is. -/
theorem Law.Begins.version_le {m : Memory} {stream : String} {from? : Option WorkingCopy}
    (h : L.Begins m stream from?) (grounded : L.Grounded) (ho : m.Orderly) :
    (Rebuilt.startingFrom stream from?).copy.version ≤ (m.records stream).length := by
  have := grounded m _ (L.rebuilt (k := 0) ho h rfl)
  rwa [h.settled.2] at this

theorem Log.keeps_startingPoint (looking : R.Looking L p) (log : Log) (snapshots : Bool)
    (stream : String) (stable : R.Stable P) (hs : P s) :
    (log.startingPoint snapshots stream).Keeps R
      (fun from? s' => P s' ∧ L.Begins s'.medium stream from?) s := by
  have nothing {s : Chronicle} (hs : P s) : (pure none : Dialogue (Option WorkingCopy)).Keeps
      R (fun from? s' => P s' ∧ L.Begins s'.medium stream from?) s :=
    .pure stable hs fun _ _ hs' => ⟨hs', Law.Begins.none L _ stream⟩
  unfold Log.startingPoint
  by_cases hc : (log.config.useSnapshots && snapshots) = true
  · rw [if_pos hc]
    refine .look_bind looking.grows.toShows rfl stable hs fun s₁ hi₁ hs₁ => ?_
    dsimp only [InMemory.answer]
    split
    · next x hx =>
      have hb : L.Begins s₁.medium stream (x.restore stream).toOption := by
        intro c hc
        refine ⟨x, (looking.holds hi₁).shelved stream x (Shelf.latest_of_load hx), ?_⟩
        cases hr : x.restore stream with
        | error e => rw [hr] at hc; simp [Except.toOption] at hc
        | ok c' =>
          rw [hr] at hc
          rw [show c' = c by simpa [Except.toOption] using hc]
      exact .pure (stable.and (looking.stable (Law.Begins.stable stream _))) ⟨hs₁, hb⟩
        fun _ _ h => h
    · exact nothing hs₁
    · exact nothing hs₁
  · rw [if_neg hc]
    exact nothing hs

/-! ## Rebuilding -/

/-- A stretch of the stream behind a copy takes it as far as the stretch goes. -/
theorem Rebuilt.version_of_stretch {m : Memory} {b b' : Rebuilt} {stream : String}
    {rs : List Record} (ho : m.Orderly) (hle : b.copy.version ≤ (m.records stream).length)
    (stretch : rs <+: (m.records stream).drop b.copy.version)
    (h : b.takeAll stream rs = .ok b') : b'.copy.version = b.copy.version + rs.length := by
  obtain ⟨more, hmore⟩ := stretch
  have hsplit := ho stream
  rw [← List.take_append_drop b.copy.version (m.records stream), Continues.append_iff] at hsplit
  have hhead := hsplit.1.version_after
  rw [List.length_take, Nat.min_eq_left hle] at hhead
  have hhead' := hhead.trans (Nat.zero_add _)
  have hrest := hsplit.2
  rw [← hmore, Continues.append_iff] at hrest
  rw [version_of_takeAll hrest.1 hhead'.symm h, hhead']

/-- What a rebuild hands back, if it does, may be put down. -/
def Rebuildable (L : Law) (stream : String) (s : Chronicle) (c : WorkingCopy) : Prop :=
  c.Settled ∧ c.stream = stream ∧ L.start s.medium c

theorem Rebuildable.stable (stream : String) (c : WorkingCopy) :
    (officeRules L p).Stable fun s => Rebuildable L stream s c := by
  rintro s s' ⟨hset, hstream, hstart⟩ hr -
  exact ⟨hset, hstream, L.start_within hr.within hstart⟩

theorem Rebuildable.blank (hs : Holds L s) (stream : String) :
    Rebuildable L stream s (.blank stream) := by
  refine ⟨WorkingCopy.settled_replayed .., rfl, ?_⟩
  exact L.rebuilt (k := 0) hs.orderly (Law.Begins.none L s.medium stream) rfl

/-- What has been taken from a lawful starting point on may be put down. -/
theorem Rebuildable.of_taken {stream : String} {from? : Option WorkingCopy} {rs : List Record}
    {b : Rebuilt} (hs : Holds L s) (hb : L.Begins s.medium stream from?)
    (stretch : rs <+: (s.medium.records stream).drop
      (Rebuilt.startingFrom stream from?).copy.version)
    (accepted : (Rebuilt.startingFrom stream from?).takeAll stream rs = .ok b) :
    Rebuildable L stream s b.copy := by
  obtain ⟨h1, h2⟩ := hb.settled
  obtain ⟨h3, h4⟩ := Rebuilt.settled_of_takeAll accepted h1
  rw [List.prefix_iff_eq_take.1 stretch] at accepted
  exact ⟨h3, h4.trans h2, L.rebuilt hs.orderly hb accepted⟩

/-- What a rebuild has come to, in a stream that had at least so many records when it began: it has
found a lawful starting point at some moment, and has replayed the stream from there. -/
def Log.RebuildsTo (L : Law) (R : Rules Chronicle) (P : Chronicle → Prop) (known : Nat) (log : Log)
    (stream : String) (res : Except ReplayError Rebuilt) (s : Chronicle) : Prop :=
  ∃ from? now, known ≤ now ∧ now ≤ (s.medium.records stream).length ∧
    L.Begins s.medium stream from? ∧
    (L.Grounded → (Rebuilt.startingFrom stream from?).copy.version ≤ now) ∧
    log.Replayed R P (fun s => s.scene.world) now stream from? res s

section rebuildsTo

variable {log : Log} {known : Nat} {stream : String} {t : Chronicle}

theorem Log.RebuildsTo.rebuildable {b : Rebuilt} (h : log.RebuildsTo L R P known stream (.ok b) t)
    (hi : Holds L t) : Rebuildable L stream t b.copy := by
  obtain ⟨from?, now, -, -, begins, -, replayed⟩ := h
  cases replayed with
  | taken stretch accepted => exact .of_taken hi begins stretch accepted

/-- A rebuild hands back nothing that is older than what the stream held when it began. -/
theorem Log.RebuildsTo.known_le {b : Rebuilt} (h : log.RebuildsTo L R P known stream (.ok b) t)
    (grounded : L.Grounded) (ho : t.medium.Orderly)
    (short : (t.medium.records stream).length ≤ Reader.positions) : known ≤ b.copy.version := by
  obtain ⟨from?, now, known_le, now_le, -, le_now, replayed⟩ := h
  have start_le := Nat.le_trans (le_now grounded) now_le
  cases replayed with
  | taken stretch accepted all =>
    have hv := Rebuilt.version_of_stretch ho start_le stretch accepted
    have hlen := stretch.length_le
    rw [List.length_drop] at hlen
    omega

/-- Whoever finds nothing has begun when there was nothing. -/
theorem Log.RebuildsTo.known_eq_zero {e : ReplayError}
    (h : log.RebuildsTo L R P known stream (.error e) t) (notFound : e.isNotFound = true) :
    known = 0 := by
  obtain ⟨from?, now, known_le, -, -, -, replayed⟩ := h
  cases replayed with
  | nothing blank empty => omega
  | failed mishap => simp [ReplayError.isNotFound] at notFound
  | refused stretch accepted next refused =>
    rw [Rebuilt.isNotFound_of_take refused] at notFound
    simp at notFound

end rebuildsTo

theorem Log.keeps_rebuild_meanwhile (looking : R.Looking L p) (log : Log) (snapshots : Bool)
    {stream : String} (stable : R.Stable P) (hs : P s) {known : Nat}
    (known_le : known ≤ (s.medium.records stream).length) :
    (log.rebuild snapshots stream).Keeps R
      (fun res s' => P s' ∧ log.RebuildsTo L R P known stream res s') s := by
  have hg := looking.grows
  have longer (n : Nat) : R.Stable fun s => n ≤ (s.medium.records stream).length :=
    fun _ _ h hr _ => Nat.le_trans h ((hg.within hr).length_le stream)
  refine .bind ((log.keeps_startingPoint looking snapshots stream
    (stable.and (longer known)) ⟨hs, known_le⟩).mono fun from? s₁ hi₁ ⟨⟨hs₁, le₁⟩, hb₁⟩ => ?_)
  -- What the replay is said to begin with is what is there now, and that is where the snapshot is.
  have begins := stable.and ((looking.stable (Law.Begins.stable (L := L) stream from?)).and
    (longer (s₁.medium.records stream).length))
  refine ((log.keeps_replayFrom hg begins ⟨hs₁, hb₁, Nat.le_refl _⟩ from? (Nat.le_refl _)).mono
    fun res s₂ _ ⟨⟨hs₂, hb₂, le₂⟩, hres⟩ => ⟨hs₂, from?, _, le₁, le₂, hb₂, fun grounded =>
      hb₁.version_le grounded (hg.orderly hi₁), hres.mono fun _ h => h.1⟩)

theorem Log.keeps_rebuild (log : Log) (snapshots : Bool) (stream : String)
    (stable : (officeRules L p).Stable P) (hs : P s) :
    (log.rebuild snapshots stream).Keeps (officeRules L p)
      (fun res s' => P s' ∧ ∀ b, res = .ok b → Rebuildable L stream s' b.copy) s := by
  refine (log.keeps_rebuild_meanwhile (.refl ..) snapshots stable hs (Nat.zero_le _)).mono
    fun res s' hi' ⟨hs', rebuilt⟩ => ⟨hs', fun b hb => ?_⟩
  subst hb
  exact rebuilt.rebuildable hi'

end TransferLedger

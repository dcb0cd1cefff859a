import TransferLedger.Proofs.Log.Reading
import TransferLedger.Proofs.Rebuild.Taking

/-!
# Replaying while others store

A replay takes what its reader hands out, so whatever others store meanwhile it has taken a stretch
of the stream behind its starting point (`Log.keeps_replayFrom`).  If it comes to its end it has
taken at least what was there when it began.  If it fails, then because its reader has failed, or
because it has met a record that does not fit what it had taken before.
-/

set_option autoImplicit false

namespace TransferLedger

namespace Log

variable {σ : Type} {R : Rules σ} {view : σ → InMemory} {known : Nat} {log : Log} {stream : String}
  {from? : Option WorkingCopy}

/-- The reader of a replay. -/
def replayer (log : Log) (stream : String) (from? : Option WorkingCopy) : Reader :=
  log.streamReader stream ((Rebuilt.startingFrom stream from?).copy.version + 1)

/-- The reader begins behind the starting point, wherever the stream ends by now. -/
theorem next_replayer (log : Log) (stream : String) (from? : Option WorkingCopy) :
    (log.replayer stream from?).next - 1 = (Rebuilt.startingFrom stream from?).copy.version := by
  show max _ 1 - 1 = _
  omega

/-- What a replay from a starting point has come to, in a stream that had at least so many records
when it began. -/
inductive Replayed (R : Rules σ) (P : σ → Prop) (view : σ → InMemory) (known : Nat) (log : Log)
    (stream : String) (from? : Option WorkingCopy) : Except ReplayError Rebuilt → σ → Prop
  /-- The facts of a stretch of the stream have been taken. -/
  | taken {s : σ} {rs : List Record} {b : Rebuilt}
      (stretch : rs <+: ((view s).medium.records stream).drop
        (Rebuilt.startingFrom stream from?).copy.version)
      (accepted : (Rebuilt.startingFrom stream from?).takeAll stream rs = .ok b)
      (all : rs.length = Reader.positions ∨
        known ≤ (Rebuilt.startingFrom stream from?).copy.version + rs.length) :
      Replayed R P view known log stream from? (.ok b) s
  /-- There was nothing to take. -/
  | nothing {s : σ} (blank : from? = none) (empty : known = 0) :
      Replayed R P view known log stream from? (.error (.notFound stream)) s
  | failed {s : σ} {k : Nat} {e : StoreError}
      (mishap : Reader.Mishap R P view known (log.replayer stream from?) s k e) :
      Replayed R P view known log stream from? (.error (.store e)) s
  /-- A record does not fit those before it. -/
  | refused {s : σ} {rs : List Record} {b : Rebuilt} {x : Record} {e : ReplayError}
      (stretch : rs <+: ((view s).medium.records stream).drop
        (Rebuilt.startingFrom stream from?).copy.version)
      (accepted : (Rebuilt.startingFrom stream from?).takeAll stream rs = .ok b)
      (next : ((view s).medium.records stream)[
        (Rebuilt.startingFrom stream from?).copy.version + rs.length]? = some x)
      (refused : b.take stream x = .error e) :
      Replayed R P view known log stream from? (.error e) s

theorem Replayed.mono {P P' : σ → Prop} {res : Except ReplayError Rebuilt} {s : σ}
    (h : log.Replayed R P' view known stream from? res s) (weaker : ∀ s, P' s → P s) :
    log.Replayed R P view known stream from? res s := by
  cases h with
  | taken stretch accepted all => exact .taken stretch accepted all
  | nothing blank empty => exact .nothing blank empty
  | failed mishap => exact .failed (mishap.mono weaker)
  | refused stretch accepted next refused => exact .refused stretch accepted next refused

theorem Replayed.stable (hg : Reader.Grows R view) (P : σ → Prop) (known : Nat) (log : Log)
    (stream : String) (from? : Option WorkingCopy) (res : Except ReplayError Rebuilt) :
    R.Stable (Replayed R P view known log stream from? res) := by
  intro s s' h hr hs
  have hw := hg.within hr
  have later {rs : List Record} {i : Nat} (hrs : rs <+: ((view s).medium.records stream).drop i) :
      rs <+: ((view s').medium.records stream).drop i :=
    hrs.trans (hw.drop ..)
  cases h with
  | taken stretch accepted all => exact .taken (later stretch) accepted all
  | nothing blank empty => exact .nothing blank empty
  | failed mishap => exact .failed (Reader.Mishap.stable hg P known _ _ _ mishap hr hs)
  | refused stretch accepted next refused =>
    exact .refused (later stretch) accepted (hw.getElem? next) refused

theorem keeps_replayFrom (hg : Reader.Grows R view) {P : σ → Prop} (stable : R.Stable P) {s : σ}
    (hs : P s) (log : Log) {stream : String} (from? : Option WorkingCopy)
    (known_le : known ≤ ((view s).medium.records stream).length) :
    (log.replayFrom stream from?).Keeps R
      (fun res s' => P s' ∧ Replayed R P view known log stream from? res s') s := by
  have reading : Reader.Reading P view known (log.replayer stream from?) s :=
    Reader.reading_reader hs log known_le ..
  refine .bind ((Reader.keeps_runWithin hg (Rebuilt.take stream) Reader.positions stable
    reading).mono fun res s₁ _ hres => ?_)
  obtain ⟨hs₁, rs, stretch, hfold, hstop⟩ := hres
  rw [next_replayer] at stretch hstop
  rw [← Rebuilt.takeAll_eq_foldlM] at hfold
  have settle {res : Except ReplayError Rebuilt}
      (h : Replayed R P view known log stream from? res s₁) :
      (pure res : Dialogue _).Keeps R
        (fun res s' => P s' ∧ Replayed R P view known log stream from? res s') s₁ :=
    .pure (stable.and (Replayed.stable hg P known log stream from? res)) ⟨hs₁, h⟩ fun _ _ h => h
  obtain ⟨b, stop⟩ := res
  cases stop with
  | failed e => exact settle (.failed hstop)
  | refused e =>
    obtain ⟨x, hx, he⟩ := hstop
    exact settle (.refused stretch hfold hx he)
  | ended =>
    show (if _ then _ else _ : Dialogue _).Keeps _ _ s₁
    split
    · next none =>
      -- Nothing has been counted, so nothing has been taken.
      obtain ⟨hsnap, happ⟩ := Rebuilt.counted_of_takeAll hfold
      rw [none.1] at hsnap
      rw [none.2] at happ
      cases from? with
      | some c => exact absurd hsnap (by simp [Rebuilt.startingFrom])
      | none =>
        have hlen : rs.length = 0 := by omega
        rw [hlen] at hstop
        refine settle (.nothing rfl ?_)
        rcases hstop with h | h
        · exact absurd h (by decide)
        · exact Nat.le_zero.1 h
    · exact settle (.taken stretch hfold hstop)

end Log

end TransferLedger

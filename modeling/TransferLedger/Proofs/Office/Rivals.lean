import TransferLedger.Proofs.Office.Attempts
import TransferLedger.Proofs.Office.Attribution
import TransferLedger.Proofs.Office.Current
import TransferLedger.Proofs.Office.Once

/-!
# Rivals

An attempt at a command is lost where its commit meets a stream at another version than that of the
copy.  It is not the visitor's own doing, because a lost attempt has stored nothing; and it is not
the doing of an old snapshot, because what is loaded is no older than the stream was when the
attempt began.  So somebody else has stored something in the stream meanwhile
(`Office.Unvisited.charged`).

To say how often that has happened the office is looked at together with a tally, which goes up
whenever somebody else makes the stream longer (`Office.Tallied`).  Any visit can be counted like
that (`Office.exists_tally`).  No two lost attempts share a rival, so a call does not give up before
there were as many rivals as it has attempts (`Office.rivals_of_handle`).
-/

set_option autoImplicit false

namespace TransferLedger

open Chronicle CommandHandler

namespace Office

variable {allowed : Errand → Prop} {clock : Instant} {o o' : Office} {x y : Office × Nat}
  {stream : String} {α : Type} {t : Dialogue α} {a : α}

/-! ## Counting -/

/-- A stream gets longer only by a commit of a clerk that lands. -/
theorem Step.landed (step : Step allowed o o')
    (longer : (o.scene.records stream).length < (o'.scene.records stream).length) :
    ∃ p n appends next, o.clerks p = .ask (.commit n appends) next ∧
      o.medium.commit appends = .ok o'.medium := by
  cases step with
  | begins | medium | clock => exact absurd longer (Nat.lt_irrefl _)
  | @asks p q next a s busy answered =>
    obtain @⟨w, answered⟩ := answered
    cases hq : q.stores with
    | false =>
      have same : w.medium = o.medium := Request.spares_medium hq answered
      rw [Scene.records, Scene.records, same] at longer
      exact absurd longer (Nat.lt_irrefl _)
    | true =>
      cases q with
      | commit n appends =>
        rcases answered.of_commit with ⟨-, m, hm, rfl⟩ | ⟨-, rfl⟩
        · exact ⟨p, n, appends, next, busy, hm⟩
        · exact absurd longer (Nat.lt_irrefl _)
      | _ => simp [Request.stores] at hq

/-- One thing happens, and it is counted if it makes the stream longer. -/
structure Tallied (allowed : Errand → Prop) (stream : String) (x y : Office × Nat) : Prop where
  step : Step allowed x.1 y.1
  tally : y.2 = if (x.1.scene.records stream).length < (y.1.scene.records stream).length
    then x.2 + 1 else x.2

/-- A request is answered to a visitor, and what he makes longer himself is not counted. -/
structure Uncounted (q : Request) (x : Office × Nat) (a : q.Answer) (y : Office × Nat) : Prop where
  served : Serves q x.1 a y.1
  tally : y.2 = x.2

/-- Whatever others do in a visit can be counted. -/
theorem exists_tally {xs : List (Exchange Office)} (stream : String)
    (led : t.Led (Step allowed) Serves o xs a o') (k : Nat) :
    ∃ ys k', t.Led (Tallied allowed stream) Uncounted (o, k) ys a (o', k') := by
  induction led generalizing k with
  | done a o => exact ⟨[], k, .done a _⟩
  | @meanwhile t o o₁ o' xs a step rest ih =>
    obtain ⟨ys, k', led⟩ := ih
      (if (o.scene.records stream).length < (o₁.scene.records stream).length then k + 1 else k)
    exact ⟨ys, k', .meanwhile ⟨step, rfl⟩ led⟩
  | @asks q next o o₁ o' r xs a served rest ih =>
    obtain ⟨ys, k', led⟩ := ih k
    exact ⟨⟨q, (o, k), (o₁, k)⟩ :: ys, k', .asks ⟨served, rfl⟩ led⟩

theorem Tallied.le (h : Tallied allowed stream x y) : x.2 ≤ y.2 := by
  rw [h.tally]
  split <;> omega

/-- The stream is no longer than before but for what the visitor has added, or something has been
counted. -/
theorem tally_of_led {xs : List (Exchange (Office × Nat))}
    (led : t.Led (Tallied allowed stream) Uncounted x xs a y) :
    x.2 ≤ y.2 ∧ ((y.1.scene.records stream).length ≤ (x.1.scene.records stream).length +
      (Exchange.allAdded (fun z => medium z.1) xs stream).length ∨ x.2 < y.2) := by
  induction led with
  | done a x => exact ⟨Nat.le_refl _, .inl (Nat.le_add_right ..)⟩
  | @meanwhile t x x' y xs a step rest ih =>
    have htally := step.tally
    split at htally <;> omega
  | @asks q next x x' y r xs a answered rest ih =>
    have hadded : (Exchange.added (fun z => medium z.1) ⟨q, x, x'⟩ stream).length =
        (x'.1.scene.records stream).length - (x.1.scene.records stream).length :=
      List.length_drop ..
    have htally := answered.tally
    rw [Exchange.allAdded_cons, List.length_append, hadded]
    omega

/-! ## Lost attempts -/

/-- Everything in the office is in order, and nothing in it is a visitor's. -/
def Unvisited (o : Office) : Prop :=
  ∃ authors, Sound .faithful o authors ∧ Owns none (fun _ => []) ⟨o.scene, authors⟩

variable {h : CommandHandler} {cmd : Command}

/-- While an attempt is lost others have stored something in the stream, and the visitor nothing
anywhere. -/
theorem Unvisited.lost {xs : List (Exchange Office)} (ho : Unvisited o)
    (led : (h.attempt cmd).Led (Step allowed) Serves o xs .lost o') :
    Unvisited o' ∧ (∀ stream, Exchange.allAdded medium xs stream = []) ∧
      ((o'.scene.records cmd.transfer).length ≤ Reader.positions →
        (o.scene.records cmd.transfer).length < (o'.scene.records cmd.transfer).length) := by
  obtain ⟨authors, sound, owns⟩ := ho
  obtain ⟨authors', sound', ⟨before, grown⟩, added⟩ := sound.visited (fun _ _ _ _ _ _ _ => trivial)
    owns (keeps_attempt (fun _ _ _ => trivial) (.once h.log) cmd owns (Nat.le_refl _)) led
  have nothing : Owns none (fun _ => []) ⟨o'.scene, authors'⟩ := before
  exact ⟨⟨authors', sound', nothing⟩,
    fun stream => (added.signed_eq stream).symm.trans (nothing.signed_eq stream),
    grown Law.faithful_grounded⟩

/-- An attempt that is lost is charged to a rival. -/
theorem Unvisited.charged {xs : List (Exchange (Office × Nat))} (hx : Unvisited x.1)
    (led : (h.attempt cmd).Led (Tallied allowed cmd.transfer) Uncounted x xs .lost y)
    (short : (y.1.scene.records cmd.transfer).length ≤ Reader.positions) :
    Unvisited y.1 ∧ x.2 < y.2 := by
  have uncounted := led.map Prod.fst Tallied.step Uncounted.served
  obtain ⟨hy, added, grown⟩ := hx.lost uncounted
  refine ⟨hy, (tally_of_led led).2.resolve_left fun hle => ?_⟩
  have nothing := added cmd.transfer
  rw [Exchange.allAdded_map] at nothing
  rw [nothing] at hle
  exact absurd (grown short) (Nat.not_lt.2 hle)

section tries

variable {xs : List (Exchange (Office × Nat))} {as : List Attempt}

theorem tally_le_of_tries
    (tries : h.Tries (Tallied allowed stream) Uncounted cmd x xs as y) : x.2 ≤ y.2 :=
  tries.preserves (P := fun z => x.2 ≤ z.2) (fun hle step => Nat.le_trans hle step.le)
    (fun hle answered => Nat.le_trans hle (Nat.le_of_eq answered.tally.symm)) (Nat.le_refl x.2)

theorem within_of_tries (tries : h.Tries (Tallied allowed stream) Uncounted cmd x xs as y) :
    x.1.medium.Within y.1.medium :=
  tries.preserves (P := fun z => x.1.medium.Within z.1.medium)
    (fun hw step => hw.trans step.step.within) (fun hw answered => hw.trans answered.served.within)
    (.refl _)

/-- The attempts that are lost are charged to different rivals. -/
theorem Unvisited.charged_all {transfer : String} {left lost : Nat}
    {res : Except CommandError (Nat × Nat)} (hx : Unvisited x.1)
    (tries : h.Tries (Tallied allowed cmd.transfer) Uncounted cmd x xs as y)
    (concl : Concludes transfer left lost as res)
    (short : (y.1.scene.records cmd.transfer).length ≤ Reader.positions) :
    x.2 + as.countP Attempt.isLost ≤ y.2 := by
  induction concl generalizing x xs with
  | exhausted | done | failed => exact tally_le_of_tries tries
  | @again left lost as res rest ih =>
    cases tries with
    | @tried _ z _ xs ys _ _ led tries =>
      have short' : (z.1.scene.records cmd.transfer).length ≤ Reader.positions :=
        Nat.le_trans ((within_of_tries tries).length_le cmd.transfer) short
      obtain ⟨hz, hlt⟩ := hx.charged led short'
      have := ih hz tries
      rw [List.countP_cons_of_pos (by rfl)]
      omega

end tries

/-- Somebody has a command handled while clerks go on, and `r` times one of them stores something in
the stream of the command.  The call gives up only if that was at least as often as it makes
attempts, and all of them were lost.  If it is acknowledged it has made one attempt more than were
lost, and not more than one more than there were rivals.  An attempt that fails, but is not lost, is
the last, and its error is what the call comes to. -/
theorem rivals_of_handle (reached : Reaches allowed (opening clock .empty) o) {id : CommandId}
    {result : Except CommandError Acknowledgment} {xs : List (Exchange (Office × Nat))} {r : Nat}
    (led : (h.handle id cmd).Led (Tallied allowed cmd.transfer) Uncounted (o, 0) xs result (o', r))
    (short : (o'.scene.records cmd.transfer).length ≤ Reader.positions) :
    ∃ attempts, h.Tries (Tallied allowed cmd.transfer) Uncounted cmd (o, 0) xs attempts (o', r) ∧
      attempts.countP Attempt.isLost ≤ r ∧
      (∀ transfer n, result = .error (.exhausted transfer n) →
        transfer = cmd.transfer ∧ n = h.attempts ∧ h.attempts ≤ r ∧
          attempts.length = h.attempts ∧ attempts.countP Attempt.isLost = h.attempts) ∧
      (∀ ack, result = .ok ack →
        ack.attempts ≤ min h.attempts (r + 1) ∧ ack.attempts = attempts.length ∧
          attempts.countP Attempt.isLost = ack.attempts - 1 ∧ 0 < ack.attempts) ∧
      ∀ i e, attempts[i]? = some (.failed e) →
        e.EndsAttempt ∧ attempts.length = i + 1 ∧ result = .error e := by
  obtain ⟨attempts, res, tries, concl, rfl⟩ := tries_of_handle led
  have unvisited : Unvisited o := sound_of_reaches_faithful reached
  have charged := Unvisited.charged_all (x := (o, 0)) unvisited tries concl short
  have hle : attempts.countP Attempt.isLost ≤ r := by omega
  refine ⟨attempts, tries, hle, fun transfer n hres => ?_, fun ack hres => ?_, fun i e hi => ?_⟩
  · cases res with
    | ok r => simp [Except.map] at hres
    | error e =>
      obtain rfl : e = .exhausted transfer n := by simpa [Except.map] using hres
      obtain ⟨ht, hn, hlen, hcount⟩ := concl.of_exhausted
      exact ⟨ht, by omega, by omega, hlen, hcount⟩
  · cases res with
    | error e => simp [Except.map] at hres
    | ok r =>
      obtain rfl := Except.ok.inj hres
      obtain ⟨hn, hlen, hcount⟩ := concl.of_ok
      dsimp only
      exact ⟨by omega, by omega, by omega, by omega⟩
  · obtain ⟨ends, hlen, rfl⟩ := concl.of_failed hi
    exact ⟨ends, hlen, rfl⟩

/-- The transfer that is to be opened in one attempt is opened by a clerk just before the commit. -/
def openedMeanwhile : List (Exchange Office) × Except CommandError Acknowledgment × Office :=
  playVisit openOnce [[], [], [], [], oneCommitted] (opening .startOf2025 .empty)

/-- The attempt is lost to the clerk, who is counted. -/
theorem rivals_of_openedMeanwhile :
    ∃ xs r attempts,
      openOnce.Led (Tallied (fun _ => True) "t") Uncounted (opening .startOf2025 .empty, 0) xs
        (.error (.exhausted "t" 1)) (openedMeanwhile.2.2, r) ∧
      (openedMeanwhile.2.2.scene.records "t").length = 1 ∧
      Tries (Tallied (fun _ => True) "t") Uncounted ⟨.quick, false, 1⟩
        ⟨"t", .initiate ⟨100, "EUR", "a", "b"⟩⟩ (opening .startOf2025 .empty, 0) xs attempts
        (openedMeanwhile.2.2, r) ∧
      attempts.length = 1 ∧ attempts.countP Attempt.isLost = 1 ∧ 1 ≤ r := by
  have given_up : openedMeanwhile.2.1 = .error (.exhausted "t" 1) := rfl
  have one : (openedMeanwhile.2.2.scene.records "t").length = 1 := rfl
  have visit : openOnce.Led (Step fun _ => True) Serves (opening .startOf2025 .empty)
      openedMeanwhile.1 openedMeanwhile.2.1 openedMeanwhile.2.2 :=
    led_playVisit openOnce (fun _ _ _ _ _ _ => trivial) _
  rw [given_up] at visit
  obtain ⟨xs, r, led⟩ := exists_tally "t" visit 0
  obtain ⟨attempts, tries, -, exhausted, -⟩ := @rivals_of_handle _ _ _ _ ⟨.quick, false, 1⟩
    ⟨"t", .initiate ⟨100, "EUR", "a", "b"⟩⟩ .refl ⟨.replicate 16 0⟩ _ xs r led
    (by rw [one]; decide)
  obtain ⟨-, -, hr, hlen, hcount⟩ := exhausted "t" 1 rfl
  exact ⟨xs, r, attempts, led, one, tries, hlen, hcount, hr⟩

end Office

end TransferLedger

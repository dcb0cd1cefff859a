import TransferLedger.CommandHandler
import TransferLedger.Proofs.Dialogue.Asking

/-!
# The attempts of a call

A call of a handler is a row of attempts, led one after the other (`CommandHandler.Tries`).  Each is
lost, or it has failed, or it is done, and what they come to says what the call comes to
(`Concludes`): another attempt is made only after one that is lost, and only while there are some
left.  So a call that gives up has lost as many as it may make (`Concludes.of_exhausted`), one that
is acknowledged has lost all but its last (`Concludes.of_ok`), and an attempt that has failed is the
last (`Concludes.of_failed`).
-/

set_option autoImplicit false

namespace TransferLedger

/-- Another attempt may follow. -/
def CommandHandler.Attempt.isLost : CommandHandler.Attempt → Bool
  | .lost => true
  | _ => false

/-- The error is one of an attempt, and no conflict. -/
def CommandError.EndsAttempt : CommandError → Prop
  | operation _ => True
  | replay _ => True
  | commit e => e.isConflict = false
  | exhausted .. => False

namespace CommandHandler

variable {σ : Type} {others : σ → σ → Prop} {answers : (q : Request) → σ → q.Answer → σ → Prop}
  {h : CommandHandler} {cmd : Command} {s s' s'' : σ} {xs : List (Exchange σ)}

/-! ## What an attempt can come to -/

theorem ends_load (h : CommandHandler) (cmd : Command) :
    (h.load cmd).Ends fun res => ∀ e, res = .error e → e.EndsAttempt := by
  refine .bind (.anything _) fun res _ => ?_
  cases res with
  | ok b => exact .pure fun e he => by simp at he
  | error x =>
    show (if _ then _ else _ : Dialogue _).Ends _
    split
    · exact .pure fun e he => by simp at he
    · refine .pure fun e he => ?_
      obtain rfl := Except.error.inj he
      exact trivial

theorem ends_attempt (h : CommandHandler) (cmd : Command) :
    (h.attempt cmd).Ends fun a => ∀ e, a = .failed e → e.EndsAttempt := by
  refine (ends_load h cmd).bind fun res hres => ?_
  cases res with
  | error x =>
    refine .pure fun e he => ?_
    obtain rfl := Attempt.failed.inj he
    exact hres x rfl
  | ok copy =>
    refine .bind (.anything Dialogue.time) fun now _ => ?_
    cases copy.perform now cmd.operation with
    | error x =>
      refine .pure fun e he => ?_
      obtain rfl := Attempt.failed.inj he
      exact trivial
    | ok copy =>
      refine .bind (.anything _) fun res _ => ?_
      cases res with
      | ok version => exact .pure fun e he => by simp at he
      | error x =>
        show (if _ then _ else _ : Dialogue _).Ends _
        split
        · exact .pure fun e he => by simp at he
        · next quiet =>
          refine .pure fun e he => ?_
          obtain rfl := Attempt.failed.inj he
          exact Bool.eq_false_iff.2 quiet

/-! ## A row of attempts -/

/-- Attempts at a command are led one after the other: the state in which the first is begun, the
exchanges of all of them, what each comes to, and the state in which it ends. -/
inductive Tries (others : σ → σ → Prop) (answers : (q : Request) → σ → q.Answer → σ → Prop)
    (h : CommandHandler) (cmd : Command) : σ → List (Exchange σ) → List Attempt → σ → Prop
  | ended {s s' : σ} (rest : Relation.ReflTransGen others s s') :
      Tries others answers h cmd s [] [] s'
  | tried {s s' s'' : σ} {xs ys : List (Exchange σ)} {a : Attempt} {as : List Attempt}
      (led : (h.attempt cmd).Led others answers s xs a s')
      (rest : Tries others answers h cmd s' ys as s'') :
      Tries others answers h cmd s (xs ++ ys) (a :: as) s''

namespace Tries

variable {as : List Attempt}

theorem later (tries : h.Tries others answers cmd s xs as s')
    (rest : Relation.ReflTransGen others s' s'') : h.Tries others answers cmd s xs as s'' := by
  induction tries with
  | ended first => exact .ended (first.trans rest)
  | tried led _ ih => exact .tried led (ih rest)

/-- One attempt, and nothing but the others behind it. -/
theorem once {a : Attempt} (led : (h.attempt cmd).Led others answers s xs a s')
    (rest : Relation.ReflTransGen others s' s'') : h.Tries others answers cmd s xs [a] s'' := by
  have tries := Tries.tried led (.ended rest)
  rwa [List.append_nil] at tries

theorem preserves {P : σ → Prop} (kept : ∀ {s s'}, P s → others s s' → P s')
    (kept' : ∀ {q s a s'}, P s → answers q s a s' → P s')
    (tries : h.Tries others answers cmd s xs as s') (hs : P s) : P s' := by
  induction tries with
  | ended rest =>
    induction rest with
    | refl => exact hs
    | tail _ step ih => exact kept ih step
  | tried led _ ih => exact ih (led.preserves kept kept' hs)

end Tries

/-! ## What they come to -/

/-- What attempts come to together, where so many may be made and so many have been lost before. -/
inductive Concludes (transfer : String) :
    (left lost : Nat) → List Attempt → Except CommandError (Nat × Nat) → Prop
  | exhausted (lost : Nat) : Concludes transfer 0 lost [] (.error (.exhausted transfer lost))
  | done (left lost version : Nat) :
      Concludes transfer (left + 1) lost [.done version] (.ok (version, lost + 1))
  | failed (left lost : Nat) {e : CommandError} (ends : e.EndsAttempt) :
      Concludes transfer (left + 1) lost [.failed e] (.error e)
  | again {left lost : Nat} {as : List Attempt} {res : Except CommandError (Nat × Nat)}
      (rest : Concludes transfer left (lost + 1) as res) :
      Concludes transfer (left + 1) lost (.lost :: as) res

namespace Concludes

variable {transfer : String} {left lost : Nat} {as : List Attempt}
  {res : Except CommandError (Nat × Nat)}

theorem of_exhausted {t : String} {n : Nat}
    (concl : Concludes transfer left lost as (.error (.exhausted t n))) :
    t = transfer ∧ n = lost + left ∧ as.length = left ∧ as.countP Attempt.isLost = left := by
  generalize hres : Except.error (CommandError.exhausted t n) = res at concl
  induction concl with
  | exhausted lost => simp_all
  | done => simp at hres
  | failed left lost ends =>
    obtain rfl := Except.error.inj hres
    exact ends.elim
  | again rest ih =>
    obtain ⟨ht, hn, hlen, hcount⟩ := ih hres
    rw [List.length_cons, List.countP_cons_of_pos (by rfl)]
    exact ⟨ht, by omega, by omega, by omega⟩

theorem of_ok {version n : Nat} (concl : Concludes transfer left lost as (.ok (version, n))) :
    n = lost + as.length ∧ as.length ≤ left ∧ as.countP Attempt.isLost + 1 = as.length := by
  generalize hres : Except.ok (version, n) = res at concl
  induction concl with
  | exhausted lost => simp at hres
  | done left lost version' =>
    obtain ⟨rfl, rfl⟩ := Prod.mk.inj (Except.ok.inj hres)
    exact ⟨rfl, by simp, rfl⟩
  | failed left lost ends => simp at hres
  | again rest ih =>
    obtain ⟨hn, hlen, hcount⟩ := ih hres
    rw [List.length_cons, List.countP_cons_of_pos (by rfl)]
    exact ⟨by omega, by omega, by omega⟩

/-- An attempt that has failed is the last, and the call fails with its error. -/
theorem of_failed {i : Nat} {e : CommandError} (concl : Concludes transfer left lost as res)
    (hi : as[i]? = some (.failed e)) : e.EndsAttempt ∧ as.length = i + 1 ∧ res = .error e := by
  induction concl generalizing i with
  | exhausted lost => simp at hi
  | done left lost version =>
    cases i with
    | zero => simp at hi
    | succ i => simp at hi
  | failed left lost ends =>
    cases i with
    | zero =>
      obtain rfl := Attempt.failed.inj (Option.some.inj hi)
      exact ⟨ends, rfl, rfl⟩
    | succ i => simp at hi
  | again rest ih =>
    cases i with
    | zero => simp at hi
    | succ i =>
      obtain ⟨ends, hlen, hres⟩ := ih hi
      exact ⟨ends, by rw [List.length_cons, hlen], hres⟩

end Concludes

/-! ## Calls are made of attempts -/

theorem tries_of_attemptsFrom {left lost : Nat} {res : Except CommandError (Nat × Nat)}
    (led : (h.attemptsFrom cmd left lost).Led others answers s xs res s') :
    ∃ as, h.Tries others answers cmd s xs as s' ∧ Concludes cmd.transfer left lost as res := by
  induction left generalizing lost s xs with
  | zero =>
    obtain ⟨rfl, rfl, rest⟩ := led.of_pure
    exact ⟨[], .ended rest, .exhausted lost⟩
  | succ left ih =>
    obtain ⟨ys, a, s₁, zs, attempt, rest, rfl⟩ := led.of_bind
    cases a with
    | done version =>
      obtain ⟨rfl, rfl, idle⟩ := rest.of_pure
      rw [List.append_nil]
      exact ⟨_, .once attempt idle, .done left lost version⟩
    | failed e =>
      obtain ⟨rfl, rfl, idle⟩ := rest.of_pure
      rw [List.append_nil]
      exact ⟨_, .once attempt idle, .failed left lost ((h.ends_attempt cmd).of_led attempt e rfl)⟩
    | lost =>
      obtain ⟨as, tries, concl⟩ := ih rest
      exact ⟨_, .tried attempt tries, .again concl⟩

theorem tries_of_handle {id : CommandId} {result : Except CommandError Acknowledgment}
    (led : (h.handle id cmd).Led others answers s xs result s') :
    ∃ as res, h.Tries others answers cmd s xs as s' ∧
      Concludes cmd.transfer h.attempts 0 as res ∧
      result = res.map fun r => ⟨id, cmd.kind, cmd.transfer, r.1, r.2⟩ := by
  obtain ⟨ys, res, s₁, zs, attempts, rest, rfl⟩ := led.of_bind
  obtain ⟨as, tries, concl⟩ := tries_of_attemptsFrom attempts
  refine ⟨as, res, ?_⟩
  cases res with
  | ok r =>
    obtain ⟨rfl, rfl, idle⟩ := rest.of_pure
    rw [List.append_nil]
    exact ⟨tries.later idle, concl, rfl⟩
  | error e =>
    obtain ⟨rfl, rfl, idle⟩ := rest.of_pure
    rw [List.append_nil]
    exact ⟨tries.later idle, concl, rfl⟩

end CommandHandler

end TransferLedger

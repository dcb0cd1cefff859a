import TransferLedger.Proofs.Batch.Collecting
import TransferLedger.Proofs.Office.Coordinating

/-!
# Copies that are up to date

A batch that lands may move copies of many streams, and several copies may stand for one stream.
But of each stream it moves one copy only, and moves it up to the end that the stream has then
(`Follows.staged_eq_length`): another one would have to begin where the stream has ended before, and
there the batch has a record already.  So when a coordinator has stored a batch and told the copies,
each copy that it has told knows of all that the coordinator has stored on its stream
(`Coordinator.keeps_finish_abreast`), and a copy that it has told is one that the batch has moved
(`Coordinator.confirmsOnly_finish`).
-/

set_option autoImplicit false

namespace TransferLedger

open Chronicle

variable {L : Law} {p : Party} {s : Chronicle}

/-! ## How far a batch goes -/

/-- What a copy knows to be stored its stream holds. -/
theorem Story.Tells.durable_le {y : Story} {m : Memory} {c : WorkingCopy} {n : Nat}
    (h : y.Tells m c n) (hle : y.start.durable ≤ (m.records c.stream).length) :
    c.durable ≤ (m.records c.stream).length := by
  rw [h.durable_eq]
  cases n with
  | zero => exact hle
  | succ n =>
    have hn := h.stored_le
    obtain ⟨r, hr, -⟩ := h.carried n _ (Nat.lt_succ_self n)
      (List.getElem?_eq_getElem (Nat.lt_of_lt_of_le (Nat.lt_succ_self n) hn))
    have := (List.getElem?_eq_some_iff.1 hr).1
    omega

namespace Chronicle

theorem Holds.durable_le (hs : Holds L s) (grounded : L.Grounded) {h : HandleId} {c : WorkingCopy}
    (hc : s.copies[h]? = some c) : c.durable ≤ (s.medium.records c.stream).length := by
  obtain ⟨y, hset, hstart, n, ht⟩ := hs.story hc
  have hle := grounded _ _ hstart
  rw [hset.2, ← ht.stream_eq] at hle
  exact ht.durable_le hle

/-- When a batch lands, all its movements on a stream go up to the end of the stream: there is only
one. -/
theorem Follows.staged_eq_length (grounded : L.Grounded) {b : OpenBatch} {m : Memory}
    (hs : Holds L s) (hb : Follows L b s) (hm : s.medium.commit b.batch.staged = .ok m)
    {mv : Movement} (hmv : mv ∈ b.moved) {c : WorkingCopy} (hc : s.copies[mv.handle]? = some c) :
    mv.staged = (m.records c.stream).length := by
  -- A movement that lands begins where the stream has ended before.
  have begins {x : Movement} (hx : x ∈ b.moved) {d : WorkingCopy}
      (hd : s.copies[x.handle]? = some d) : x.durable = (s.medium.records d.stream).length ∧
      x.durable < (m.records d.stream).length := by
    obtain ⟨d', hstep⟩ := hb.moved x hx
    obtain rfl : d = d' := Option.some.inj (hd.symm.trans hstep.copy)
    obtain ⟨heq, hlen, hnew⟩ := hstep.alive_of_landed hs.orderly hm
    have := hs.durable_le grounded hd
    omega
  obtain ⟨hd, hnew⟩ := begins hmv hc
  have grown : Append.onto c.stream b.batch.staged ≠ [] := by
    intro hnil
    rw [Memory.records_commit hm, hnil, List.append_nil] at hnew
    omega
  obtain ⟨x, hx, c', hdue, hst, hend⟩ := hb.reaches_end (p := none) hs hm grown
  have hc' : s.copies[x.handle]? = some c' := hdue.copy
  obtain ⟨hd', -⟩ := begins hx hc'
  rw [hst] at hd'
  have same : s.stream? mv.handle = s.stream? x.handle := by
    rw [stream?_eq hc, stream?_eq hc', hst]
  rw [hb.apart mv hmv x hx same (hd.trans hd'.symm), hend]

/-- The movements go up to the last record that a party has stored on their streams. -/
def Reaching (p : Party) (ms : List Movement) (s : Chronicle) : Prop :=
  ∀ m ∈ ms, ∃ c, s.copies[m.handle]? = some c ∧
    ∀ i, m.staged ≤ i → (s.authors c.stream)[i]? ≠ some p

theorem Reaching.unmoved (L : Law) (p : Party) (ms : List Movement) :
    Unmoved L p (Reaching p ms) where
  stable := by
    intro s s' h hr _ m hm
    obtain ⟨c, hc, hlast⟩ := h m hm
    obtain ⟨c', hc', he⟩ := hr.copies _ _ hc
    refine ⟨c', hc', fun i hi => ?_⟩
    rw [he.stream_eq]
    exact hr.other_author (hlast i hi)
  confirmed := by
    intro s h v hp m hm
    obtain ⟨c, hc, hlast⟩ := hp m hm
    refine ⟨if h = m.handle then c.markCommitted v else c, ?_, ?_⟩
    · show (s.copies.modify h _)[m.handle]? = _
      rw [List.getElem?_modify, hc]
      by_cases hh : h = m.handle <;> simp [hh]
    · by_cases hh : h = m.handle
      · rw [if_pos hh]
        exact hlast
      · rw [if_neg hh]
        exact hlast
  saved := fun _ _ hp => hp

theorem Reaching.of_landed (grounded : L.Grounded) {b : OpenBatch} {m : Memory} (hs : Holds L s)
    (hb : Follows L b s) (hm : s.medium.commit b.batch.staged = .ok m) :
    Reaching p b.moved (s.after p (s.landed m)) := by
  intro mv hmv
  obtain ⟨c, hc⟩ := hb.moved mv hmv
  refine ⟨c, hc.copy, fun i hi => ?_⟩
  have hend := hb.staged_eq_length grounded hs hm hmv hc.copy
  rw [List.getElem?_eq_none]
  · simp
  · rw [authors_after_landed hm, List.length_append, List.length_replicate, hs.noted,
      ← List.length_append, ← Memory.records_commit hm]
    omega

/-- The copy knows of everything that a party has stored on its stream. -/
def Abreast (p : Party) (h : HandleId) (s : Chronicle) : Prop :=
  ∃ c, s.copies[h]? = some c ∧ ∀ i, c.durable ≤ i → (s.authors c.stream)[i]? ≠ some p

end Chronicle

/-- What a coordinator has stored it has told the copies that it comes from. -/
theorem Coordinator.keeps_finish_abreast {c : Coordinator} (grounded : L.Grounded)
    (obeys : c.log.Obeys L) (hc : c.transaction = none) {b : OpenBatch} (hb : Follows L b s) :
    (c.finish b).Keeps (officeRules L p) (fun r s' => ∀ n, r.1 = .ok n →
      ∀ m ∈ b.moved, m.handle ∈ c.tracked → Abreast p m.handle s') s := by
  refine (Coordinator.keeps_finish obeys hc hb (Reaching.unmoved L p b.moved)
    fun s m hs hb hm => .of_landed grounded hs hb hm).mono fun r s' _ h n hn m hm ht => ?_
  obtain ⟨hreach, x, hx, hle⟩ := h.2 n hn m hm ht
  obtain ⟨x', hx', hlast⟩ := hreach m hm
  obtain rfl : x = x' := Option.some.inj (hx.symm.trans hx')
  exact ⟨x, hx, fun i hi => hlast i (Nat.le_trans hle hi)⟩

/-! ## Calls of a coordinator -/

namespace Coordinator

/-- Only copies that have been staged are told how far they are stored. -/
def ConfirmsOnly (c : Coordinator) (ms : List Movement) (q : Request) : Prop :=
  ∀ h v, q = .confirm h v → ∃ m ∈ ms, m.handle = h ∧ m.handle ∈ c.tracked

theorem confirmsOnly_finish (c : Coordinator) (b : OpenBatch) :
    (c.finish b).Asks (c.ConfirmsOnly b.moved) := by
  refine c.asks_finish nofun (fun _ => nofun) (fun _ _ => nofun) b fun m hm ht h v hq => ?_
  obtain ⟨rfl, -⟩ := Request.confirm.inj hq
  exact ⟨m, hm, rfl, ht⟩

/-- Inside a transaction nobody is told anything. -/
theorem onlyLooks_push {c : Coordinator} {b : OpenBatch} (ht : c.transaction = some b) :
    c.push.OnlyLooks := by
  unfold push
  rw [ht]
  exact .bind (c.log.onlyLooks_stageAll ..) fun r => by cases r <;> exact .pure _

variable {σ : Type} {others : σ → σ → Prop} {answers : (q : Request) → σ → q.Answer → σ → Prop}
  {s s' : σ} {xs : List (Exchange σ)}

/-- A coordinator that has stored what it tracks has staged it before. -/
theorem led_settle_ok {c c' : Coordinator} {b : OpenBatch} {n : Nat}
    (led : (c.settle b).Led others answers s xs (.ok n, c') s') :
    ∃ k b₁ ys s₁ zs, (c.log.stageAll c.tracked b).Led others answers s ys (.ok (k, b₁)) s₁ ∧
      (c.finish b₁).Led others answers s₁ zs (.ok n, c') s' ∧ xs = ys ++ zs := by
  obtain ⟨ys, r, s₁, zs, hstage, hrest, rfl⟩ := led.of_bind
  cases r with
  | error e => exact absurd (congrArg Prod.fst hrest.of_pure.1) (by simp)
  | ok r => exact ⟨r.1, r.2, ys, s₁, zs, hstage, hrest, rfl⟩

end Coordinator

end TransferLedger

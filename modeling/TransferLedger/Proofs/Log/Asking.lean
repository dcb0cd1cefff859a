import TransferLedger.Coordinator
import TransferLedger.Proofs.Dialogue.Asking
import TransferLedger.Proofs.Rebuild.Taking

/-!
# What the log asks for

Each part of the log asks for few kinds of requests: a batch is collected by looking at heads, at
copies and at the clock, stored by one request for it, and confirmed to the copies that it has
moved; a reader asks for pages and heads.  The lemmas say so for any predicate of requests that
holds of these kinds, so that each use picks the one that it is about.
-/

set_option autoImplicit false

namespace TransferLedger

variable {ok : Request → Prop}

namespace Log

/-! ## Collecting and storing a batch -/

theorem asks_stage (heads : ∀ stream, ok (.head stream)) (log : Log) (b : Batch) (stream : String)
    (entries : List Entry) (expected : Nat) : (log.stage b stream entries expected).Asks ok := by
  refine .bind ?_ fun r => ?_
  · unfold headBehind
    cases b.head? stream with
    | some h => exact .pure _
    | none => exact ⟨heads stream, fun _ => trivial⟩
  · cases r <;> exact .pure _

theorem asks_entries (time : ok .time) (es : List Event) : (Dialogue.entries es).Asks ok := by
  have asked : Dialogue.time.Asks ok := ⟨time, fun _ => trivial⟩
  induction es with
  | nil => exact .pure _
  | cons e rest ih => exact asked.bind fun _ => ih.bind fun _ => .pure _

theorem ends_entries (es : List Event) :
    (Dialogue.entries es).Ends fun xs => List.Forall₂ Entry.Carries xs es := by
  induction es with
  | nil => exact .nil
  | cons e rest ih => exact fun now => ih.bind fun xs hxs => .cons ⟨now, rfl⟩ hxs

theorem asks_stageCopy (heads : ∀ stream, ok (.head stream)) (looks : ∀ h, ok (.look h))
    (time : ok .time) (log : Log) (h : HandleId) (b : OpenBatch) : (log.stageCopy h b).Asks ok := by
  refine .bind ⟨looks h, fun _ => trivial⟩ fun c => ?_
  cases c with
  | none => exact .pure _
  | some c =>
    by_cases hle : c.pending.length ≤ b.stagedFor h
    · simp only [if_pos hle]
      exact .pure _
    · simp only [if_neg hle]
      refine .bind (asks_entries time _) fun xs => .bind (log.asks_stage heads ..) fun r => ?_
      cases r <;> exact .pure _

theorem asks_stageAll (heads : ∀ stream, ok (.head stream)) (looks : ∀ h, ok (.look h))
    (time : ok .time) (log : Log) (hs : List HandleId) (b : OpenBatch) :
    (log.stageAll hs b).Asks ok := by
  induction hs generalizing b with
  | nil => exact .pure _
  | cons h rest ih =>
    refine .bind (log.asks_stageCopy heads looks time h b) fun r => ?_
    cases r with
    | error e => exact .pure _
    | ok r =>
      refine .bind (ih r.2) fun r => ?_
      cases r <;> exact .pure _

theorem asks_commit (commits : ∀ allowed appends, ok (.commit allowed appends)) (log : Log)
    (b : Batch) : (log.commit b).Asks ok := by
  unfold commit
  by_cases hz : b.size = 0
  · rw [if_pos hz]
    exact .pure _
  · rw [if_neg hz]
    exact ⟨commits .., fun reply => by cases reply <;> exact trivial⟩

theorem onlyLooks_stageCopy (log : Log) (h : HandleId) (b : OpenBatch) :
    (log.stageCopy h b).OnlyLooks := by
  refine log.asks_stageCopy ?_ ?_ ?_ h b
  all_goals simp [Request.looks]

/-- While a batch is collected nothing is done but to look. -/
theorem onlyLooks_stageAll (log : Log) (hs : List HandleId) (b : OpenBatch) :
    (log.stageAll hs b).OnlyLooks := by
  refine log.asks_stageAll ?_ ?_ ?_ hs b
  all_goals simp [Request.looks]

end Log

/-! ## Confirming and saving -/

namespace Coordinator

variable (time : ok .time) (saves : ∀ x, ok (.save x))

include time saves

theorem asks_confirm (c : Coordinator) {m : Movement}
    (confirms : ok (.confirm m.handle m.staged)) : (c.confirm m).Asks ok := by
  refine .bind ⟨confirms, fun _ => trivial⟩ fun copy? => ?_
  cases copy? with
  | none => exact .pure _
  | some copy =>
    dsimp only
    split
    · exact ⟨time, fun now => ⟨saves _, fun _ => trivial⟩⟩
    · exact .pure _

theorem asks_confirmAll (c : Coordinator) {ms : List Movement}
    (confirms : ∀ m ∈ ms, m.handle ∈ c.tracked → ok (.confirm m.handle m.staged)) :
    (c.confirmAll ms).Asks ok := by
  induction ms with
  | nil => exact .pure _
  | cons m rest ih =>
    have hrest := ih fun x hx => confirms x (List.mem_cons_of_mem m hx)
    unfold confirmAll
    by_cases ht : m.handle ∈ c.tracked
    · rw [if_pos ht]
      exact .bind (c.asks_confirm time saves (confirms m List.mem_cons_self ht)) fun _ => hrest
    · rw [if_neg ht]
      exact hrest

theorem asks_finish (commits : ∀ allowed appends, ok (.commit allowed appends)) (c : Coordinator)
    (b : OpenBatch)
    (confirms : ∀ m ∈ b.moved, m.handle ∈ c.tracked → ok (.confirm m.handle m.staged)) :
    (c.finish b).Asks ok := by
  refine .bind (c.log.asks_commit commits b.batch) fun r => ?_
  cases r with
  | error e => exact .pure _
  | ok n => exact .bind (c.asks_confirmAll time saves confirms) fun _ => .pure _

end Coordinator

/-! ## Reading -/

namespace Reader

variable (heads : ∀ stream, ok (.head stream))
  (pages : ∀ stream start limit, ok (.page stream start limit))

include heads pages

theorem asks_findAnchor (s : Sealer) (stream : String) (boundary : Nat) :
    (findAnchor s stream boundary).Asks ok := by
  refine .bind ⟨pages .., fun _ => trivial⟩ fun found => ?_
  rcases found with e | rs
  · exact .pure _
  cases rs with
  | cons p rest =>
    dsimp only
    cases anchor s stream boundary p <;> exact .pure _
  | nil =>
    refine .bind ⟨heads _, fun _ => trivial⟩ fun h => ?_
    cases h with
    | error e => exact .pure _
    | ok h =>
      dsimp only
      split <;> exact .pure _

theorem asks_prime (r : Reader) : r.prime.Asks ok := by
  unfold prime
  split
  · split
    · exact .pure _
    · refine .bind (asks_findAnchor heads pages ..) fun found => ?_
      rcases found with e | c?
      · exact .pure _
      · cases c? <;> exact .pure _
  · exact .pure _

omit heads in
theorem asks_fill (r : Reader) : r.fill.Asks ok := by
  unfold fill
  split
  · refine .bind ⟨pages .., fun _ => trivial⟩ fun found => ?_
    cases found <;> exact .pure _
  · exact .pure _

theorem asks_step (r : Reader) : r.step.Asks ok := by
  unfold step
  split
  · exact .pure _
  · refine .bind (r.asks_prime heads pages) fun found => ?_
    rcases found with e | r?
    · exact .pure _
    cases r? with
    | none => exact .pure _
    | some r =>
      refine .bind (r.asks_fill pages) fun filled => ?_
      cases filled <;> exact .pure _

/-- A reader asks for pages and heads, whatever is made of what it hands out. -/
theorem asks_runWithin {σ ε : Type} (take : σ → Record → Except ε σ) (bound : Nat) (s : σ)
    (r : Reader) : (runWithin take bound s r).Asks ok := by
  induction bound generalizing s r with
  | zero => exact .pure _
  | succ bound ih =>
    refine .bind (r.asks_step heads pages) fun handed => ?_
    obtain ⟨item, r⟩ := handed
    cases item with
    | ended => exact .pure _
    | failed e => exact .pure _
    | record x =>
      dsimp only
      cases take s x with
      | error e => exact .pure _
      | ok s => exact ih s r

end Reader

theorem Log.asks_replayFrom (heads : ∀ stream, ok (.head stream))
    (pages : ∀ stream start limit, ok (.page stream start limit)) (log : Log) (stream : String)
    (start : Option WorkingCopy) : (log.replayFrom stream start).Asks ok := by
  refine .bind (Reader.asks_runWithin heads pages ..) fun res => ?_
  obtain ⟨b, stop⟩ := res
  cases stop with
  | failed e => exact .pure _
  | refused e => exact .pure _
  | ended =>
    dsimp only
    split <;> exact .pure _

/-- A rebuild only looks. -/
theorem Log.onlyLooks_rebuild (log : Log) (snapshots : Bool) (stream : String) :
    (log.rebuild snapshots stream).OnlyLooks := by
  refine .bind ?_ fun from? => log.asks_replayFrom (fun _ => rfl) (fun _ _ _ => rfl) stream from?
  unfold startingPoint
  split
  · refine .bind ⟨rfl, fun _ => trivial⟩ fun found => ?_
    rcases found with e | x?
    · exact .pure _
    · cases x? <;> exact .pure _
  · exact .pure _

end TransferLedger

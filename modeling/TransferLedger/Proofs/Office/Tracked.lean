import TransferLedger.Proofs.Batch.Matching
import TransferLedger.Proofs.Dialogue.Asking
import TransferLedger.Proofs.Office.Sound

/-!
# What a batch moves is tracked

A coordinator confirms a batch only to the copies that it still tracks.  A batch that moved a copy
which the coordinator has forgotten would leave that copy untold.  It never comes to that: a
coordinator forgets its copies only together with its transaction, so what its batch moves is
always tracked (`Coordinator.Kempt`).  That depends on nothing that a coordinator is answered, and
holds of every desk in the office (`Office.Kempt.step`).
-/

set_option autoImplicit false

namespace TransferLedger

/-- The batch moves no copies but these. -/
def OpenBatch.MovesOnly (hs : List HandleId) (b : OpenBatch) : Prop :=
  ∀ m ∈ b.moved, m.handle ∈ hs

theorem OpenBatch.movesOnly_empty (hs : List HandleId) : OpenBatch.empty.MovesOnly hs := by
  simp [MovesOnly, empty]

theorem OpenBatch.MovesOnly.note {hs : List HandleId} {b : OpenBatch} (hb : b.MovesOnly hs)
    {h : HandleId} (hh : h ∈ hs) (batch : Batch) (d v : Nat) :
    OpenBatch.MovesOnly hs ⟨batch, OpenBatch.note h d v b.moved⟩ := by
  intro m hm
  rcases OpenBatch.mem_handles_note.1 (List.mem_map_of_mem hm) with he | hmem
  · exact he ▸ hh
  · obtain ⟨m', hm', he⟩ := List.mem_map.1 hmem
    exact he ▸ hb m' hm'

/-! ## Coordinators -/

namespace Log

theorem ends_stageCopy (log : Log) {hs : List HandleId} {h : HandleId} (hh : h ∈ hs)
    {b : OpenBatch} (hb : b.MovesOnly hs) :
    (log.stageCopy h b).Ends fun r => ∀ n b', r = .ok (n, b') → b'.MovesOnly hs := by
  refine .bind (Dialogue.Ends.anything _) fun c? _ => ?_
  cases c? with
  | none =>
    refine .pure fun n b' hr => ?_
    obtain ⟨-, rfl⟩ := Prod.mk.inj (Except.ok.inj hr)
    exact hb
  | some c =>
    by_cases hle : c.pending.length ≤ b.stagedFor h
    · simp only [if_pos hle]
      refine .pure fun n b' hr => ?_
      obtain ⟨-, rfl⟩ := Prod.mk.inj (Except.ok.inj hr)
      exact hb
    · simp only [if_neg hle]
      refine .bind (Dialogue.Ends.anything _) fun now _ => ?_
      refine .bind (Dialogue.Ends.anything _) fun r _ => ?_
      cases r with
      | error e => exact .pure fun n b' hr => by simp at hr
      | ok r =>
        refine .pure fun n b' hr => ?_
        obtain ⟨-, rfl⟩ := Prod.mk.inj (Except.ok.inj hr)
        exact hb.note hh _ _ _

theorem ends_stageAll (log : Log) {hs : List HandleId} (todo : List HandleId)
    (within : ∀ h ∈ todo, h ∈ hs) {b : OpenBatch} (hb : b.MovesOnly hs) :
    (log.stageAll todo b).Ends fun r => ∀ n b', r = .ok (n, b') → b'.MovesOnly hs := by
  induction todo generalizing b with
  | nil =>
    intro n b' hr
    obtain ⟨-, rfl⟩ := Prod.mk.inj (Except.ok.inj hr)
    exact hb
  | cons h rest ih =>
    refine .bind (log.ends_stageCopy (within h List.mem_cons_self) hb) fun r hr => ?_
    cases r with
    | error e => exact fun n b' hr => by simp at hr
    | ok r =>
      have hrest := ih (fun x hx => within x (List.mem_cons_of_mem h hx)) (hr r.1 r.2 rfl)
      refine .bind hrest fun r hr => ?_
      cases r with
      | error e => exact fun n b' hr => by simp at hr
      | ok r =>
        intro n b' hr'
        obtain ⟨-, rfl⟩ := Prod.mk.inj (Except.ok.inj hr')
        exact hr r.1 r.2 rfl

end Log

namespace Coordinator

/-- Whatever its transaction moves, the coordinator tracks. -/
def Kempt (c : Coordinator) : Prop :=
  ∀ b, c.transaction = some b → b.MovesOnly c.tracked

theorem Kempt.closed {c : Coordinator} (hc : c.transaction = none) : c.Kempt := by
  intro b hb
  rw [hc] at hb
  exact absurd hb (by simp)

theorem Kempt.track {c : Coordinator} (hc : c.Kempt) (h : HandleId) : (c.track h).Kempt := by
  unfold Coordinator.track
  split
  · exact hc
  · exact fun b hb m hm => List.mem_append_left _ (hc b hb m hm)

theorem Kempt.begin {c c' : Coordinator} (h : c.begin = .ok c') : c'.Kempt := by
  unfold Coordinator.begin at h
  split at h
  · simp at h
  · obtain rfl := Except.ok.inj h
    intro b hb
    obtain rfl := Option.some.inj hb
    exact OpenBatch.movesOnly_empty _

theorem Kempt.rollback {c c' : Coordinator} {n : Nat} (h : c.rollback = .ok (n, c')) :
    c'.Kempt := by
  unfold Coordinator.rollback at h
  split at h
  · simp at h
  · obtain ⟨-, rfl⟩ := Prod.mk.inj (Except.ok.inj h)
    exact .closed rfl

/-- Once a batch is on its way to the medium there is no transaction any more. -/
theorem ends_settle {c : Coordinator} (hc : c.transaction = none) (b : OpenBatch) :
    (c.settle b).Ends fun r => r.2.Kempt := by
  refine .bind (Dialogue.Ends.anything _) fun r _ => ?_
  cases r with
  | error e => exact Kempt.closed hc
  | ok r =>
    refine .bind (Dialogue.Ends.anything _) fun r _ => ?_
    cases r with
    | error e => exact Kempt.closed hc
    | ok n =>
      have hleft : ({ c with tracked := [] } : Coordinator).Kempt := .closed hc
      exact .bind (Dialogue.Ends.anything _) fun _ _ => hleft

theorem ends_push {c : Coordinator} (hc : c.Kempt) : c.push.Ends fun r => r.2.Kempt := by
  unfold push
  cases ht : c.transaction with
  | none => exact ends_settle ht .empty
  | some b =>
    refine .bind (c.log.ends_stageAll c.tracked (fun _ hh => hh) (hc b ht)) fun r hr => ?_
    cases r with
    | error e => exact Kempt.closed (c := { c with transaction := none }) rfl
    | ok r =>
      intro b' hb'
      obtain rfl := Option.some.inj hb'
      exact hr r.1 r.2 rfl

theorem ends_commit {c : Coordinator} (hc : c.Kempt) : c.commit.Ends fun r => r.2.Kempt := by
  unfold commit
  cases ht : c.transaction with
  | none => exact hc
  | some b => exact ends_settle (c := { c with transaction := none }) rfl b

end Coordinator

/-! ## Desks -/

def Desk.Kempt (d : Desk) : Prop :=
  ∀ k c, d.coordinators k = some c → c.Kempt

theorem Desk.kempt_bare : Desk.bare.Kempt :=
  fun _ _ h => absurd h (by simp [Desk.bare])

theorem Desk.Kempt.setCoordinator {d : Desk} (hd : d.Kempt) (k : Nat) {c : Coordinator}
    (hc : c.Kempt) : (d.setCoordinator k c).Kempt := by
  intro k' c' h
  have h' : Keyed.set d.coordinators k (some c) k' = some c' := h
  by_cases hk : k' = k
  · subst hk
    rw [Keyed.set_same] at h'
    exact Option.some.inj h' ▸ hc
  · rw [Keyed.set_other _ _ hk] at h'
    exact hd k' c' h'

/-- Whatever the work is, the desk is left as it was. -/
theorem Desk.Kempt.aside {d : Desk} (hd : d.Kempt) {α : Type} (t : Dialogue α) :
    (t >>= fun _ => pure d).Ends Desk.Kempt :=
  .bind (Dialogue.Ends.anything t) fun _ _ => hd

theorem Desk.Kempt.after {d : Desk} (hd : d.Kempt) (k : Nat)
    {work : Dialogue (Except CommitError Nat × Coordinator)}
    (hw : work.Ends fun r => r.2.Kempt) : (d.after k work).Ends Desk.Kempt :=
  .bind hw fun _ hr => hd.setCoordinator k hr

theorem Errand.ends_work {d : Desk} (hd : d.Kempt) (e : Errand) : (e.work d).Ends Desk.Kempt := by
  cases e with
  | append | start | perform | handle | audit => exact hd.aside _
  | openBatch | discard => exact hd
  | stage k stream entries expected =>
    simp only [Errand.work]
    cases d.batches k with
    | none => exact hd
    | some x =>
      refine .bind (Dialogue.Ends.anything _) fun r _ => ?_
      cases r <;> exact hd
  | store k =>
    simp only [Errand.work]
    cases d.batches k with
    | none => exact hd
    | some x => exact .bind (Dialogue.Ends.anything _) fun _ _ => hd
  | rebuild log snapshots stream =>
    refine .bind (Dialogue.Ends.anything _) fun r _ => ?_
    cases r with
    | ok b => exact hd.aside _
    | error e => exact hd
  | hire k log snapshots policy =>
    exact hd.setCoordinator k (Coordinator.Kempt.closed (c := { Coordinator.idle log snapshots with
      policy := policy }) rfl)
  | track k h =>
    simp only [Errand.work]
    cases hc : d.coordinators k with
    | none => exact hd
    | some c => exact hd.setCoordinator k ((hd k c hc).track h)
  | begin k =>
    simp only [Errand.work]
    cases d.coordinators k with
    | none => exact hd
    | some c =>
      cases hb : c.begin with
      | error e => simpa only [hb] using Dialogue.Ends.pure hd
      | ok c' => simpa only [hb] using Dialogue.Ends.pure (hd.setCoordinator k (.begin hb))
  | push k =>
    simp only [Errand.work]
    cases hc : d.coordinators k with
    | none => exact hd
    | some c => exact hd.after k (Coordinator.ends_push (hd k c hc))
  | commit k =>
    simp only [Errand.work]
    cases hc : d.coordinators k with
    | none => exact hd
    | some c => exact hd.after k (Coordinator.ends_commit (hd k c hc))
  | rollback k =>
    simp only [Errand.work]
    cases d.coordinators k with
    | none => exact hd
    | some c =>
      cases hb : c.rollback with
      | error e => simpa only [hb] using Dialogue.Ends.pure hd
      | ok r => simpa only [hb] using Dialogue.Ends.pure (hd.setCoordinator k (.rollback hb))

/-! ## The office -/

namespace Office

/-- Whatever the clerks are still answered, their desks will be kempt. -/
def Kempt (o : Office) : Prop :=
  ∀ p, (o.clerks p).Ends Desk.Kempt

theorem kempt_opening (clock : Instant) (shelf : Shelf) : (opening clock shelf).Kempt :=
  fun _ => Desk.kempt_bare

theorem Kempt.set {o : Office} (h : o.Kempt) (scene : Scene) (p : ClerkId) {t : Dialogue Desk}
    (ht : t.Ends Desk.Kempt) : Kempt ⟨scene, Keyed.set o.clerks p t⟩ := by
  intro p'
  show (Keyed.set o.clerks p t p').Ends Desk.Kempt
  by_cases hp : p' = p
  · subst hp
    rwa [Keyed.set_same]
  · rw [Keyed.set_other _ _ hp]
    exact h p'

theorem Kempt.step {allowed : Errand → Prop} {o o' : Office} (h : o.Kempt)
    (hs : Step allowed o o') : o'.Kempt := by
  cases hs with
  | @begins p d e idle may =>
    have hd := h p
    rw [idle] at hd
    exact h.set o.scene p (Errand.ends_work hd e)
  | @asks p q next a s busy answered =>
    have hp := h p
    rw [busy] at hp
    exact h.set s p (hp a)
  | medium available => exact h
  | clock now => exact h

end Office

end TransferLedger

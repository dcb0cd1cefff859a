import TransferLedger.Proofs.Dialogue.Asking
import TransferLedger.Proofs.Rebuild.Taking
import TransferLedger.Proofs.Transfer.Performing

/-!
# The buffer

The story of a working copy is how it was put down and which facts it has emitted since.  It
explains what the copy is now, up to one number: how many of those facts are known to be stored
(`Story.Explains`).  An operation adds to the facts, a commit adds to the number, and whichever
comes first the buffer is what lies between the two.

A copy is handled fairly if it was blank or has been rebuilt, and then only operations are asked of
it and commits reported of what it holds (`WorkingCopy.Handled`).  Of such a copy the buffer is the
difference between what is stored and what it is (`WorkingCopy.buffer_of_handled`).
-/

set_option autoImplicit false

namespace TransferLedger

open Rehearsal

/-! ## Stories -/

/-- What a story says of a copy of which `n` facts are known to be stored. -/
structure Story.Explains (y : Story) (c : WorkingCopy) (n : Nat) : Prop where
  stored_le : n ≤ y.emitted.length
  durable_eq : c.durable = y.start.durable + n
  version_eq : c.version = y.start.durable + y.emitted.length
  pending_eq : c.pending = y.emitted.drop n
  transfer_eq : y.start.transfer.applyAll y.emitted = .ok c.transfer

/-- What becomes of the story of a copy that is asked to perform an operation. -/
def Story.asked (y : Story) (c : WorkingCopy) (now : Instant) (o : Operation) : Story :=
  match c.transfer.decide now o with
  | .ok e => y.emit e
  | .error _ => y

theorem Story.start_asked (y : Story) (c : WorkingCopy) (now : Instant) (o : Operation) :
    (y.asked c now o).start = y.start := by
  unfold asked
  split <;> rfl

namespace Story.Explains

variable {y : Story} {c : WorkingCopy} {n : Nat}

theorem stream_eq (h : y.Explains c n) : c.stream = y.start.stream :=
  Transfer.id_of_applyAll h.transfer_eq

/-- The buffer is what is missing to the version. -/
theorem version_eq_durable (h : y.Explains c n) :
    c.version = c.durable + c.pending.length := by
  have := h.stored_le
  rw [h.version_eq, h.durable_eq, h.pending_eq, List.length_drop]
  omega

/-- The stored facts make some state of the start, and the buffer makes the present one of that. -/
theorem halves (h : y.Explains c n) :
    ∃ t, y.start.transfer.applyAll (y.emitted.take n) = .ok t ∧
      t.applyAll c.pending = .ok c.transfer := by
  have all := h.transfer_eq
  rw [← List.take_append_drop n y.emitted, Transfer.applyAll_append, ← h.pending_eq] at all
  cases ht : y.start.transfer.applyAll (y.emitted.take n) with
  | error x => rw [ht] at all; simp at all
  | ok t =>
    rw [ht] at all
    exact ⟨t, rfl, all⟩

/-- A copy that has been put down has no story yet. -/
theorem begun (hc : c.Settled) : (⟨c, []⟩ : Story).Explains c 0 where
  stored_le := Nat.le_refl 0
  durable_eq := rfl
  version_eq := hc.2
  pending_eq := hc.1
  transfer_eq := rfl

theorem emit (h : y.Explains c n) {e : Event} {t : Transfer} (ha : c.transfer.apply e = .ok t) :
    (y.emit e).Explains
      { c with transfer := t, version := c.version + 1, pending := c.pending ++ [e] } n where
  stored_le := by simp only [Story.emit, List.length_append]; have := h.stored_le; omega
  durable_eq := h.durable_eq
  version_eq := by
    show c.version + 1 = y.start.durable + (y.emitted ++ [e]).length
    rw [h.version_eq, List.length_append]
    rfl
  pending_eq := by
    show c.pending ++ [e] = (y.emitted ++ [e]).drop n
    rw [List.drop_append_of_le_length h.stored_le, h.pending_eq]
  transfer_eq := Transfer.applyAll_snoc h.transfer_eq ha

/-- An operation that is accepted goes on with the story, and one that is refused leaves no trace in
it. -/
theorem asked (h : y.Explains c n) (now : Instant) (o : Operation) :
    (y.asked c now o).Explains ((Call.perform o).run now c).2 n := by
  unfold Story.asked
  cases hd : c.transfer.decide now o with
  | error x =>
    rw [WorkingCopy.run_perform_of_error (WorkingCopy.perform_of_decide_error hd)]
    exact h
  | ok e =>
    obtain ⟨t, ha, hp⟩ := WorkingCopy.perform_of_decide hd
    rw [WorkingCopy.run_perform_of_ok hp]
    exact h.emit ha

theorem confirm (h : y.Explains c n) {v : Nat} (from_durable : c.durable ≤ v)
    (held : v ≤ c.durable + c.pending.length) :
    y.Explains (c.markCommitted v) (n + (v - c.durable)) where
  stored_le := by
    have := h.stored_le
    rw [h.pending_eq, List.length_drop] at held
    omega
  durable_eq := by
    show v = _
    have := h.durable_eq
    omega
  version_eq := by
    show max c.version v = _
    rw [Nat.max_eq_left]
    · exact h.version_eq
    · rw [h.version_eq_durable]
      exact held
  pending_eq := by
    show c.pending.drop (v - c.durable) = _
    rw [h.pending_eq, List.drop_drop]
  transfer_eq := h.transfer_eq

end Story.Explains

/-! ## What a rebuild comes to -/

/-- A run along a stream leaves what some records have made of its state. -/
theorem Reader.ends_runWithin {σ ε : Type} (take : σ → Record → Except ε σ) (bound : Nat) (s : σ)
    (r : Reader) :
    (runWithin take bound s r).Ends fun res =>
      ∃ rs : List Record, rs.foldlM take s = .ok res.1 := by
  induction bound generalizing s r with
  | zero => exact .pure ⟨[], rfl⟩
  | succ bound ih =>
    refine .bind (Dialogue.Ends.anything _) fun found _ => ?_
    obtain ⟨item, r'⟩ := found
    cases item with
    | ended => exact .pure ⟨[], rfl⟩
    | failed e => exact .pure ⟨[], rfl⟩
    | record x =>
      dsimp only
      cases ht : take s x with
      | error e => exact .pure ⟨[], rfl⟩
      | ok s' =>
        refine (ih s' r').mono fun res ⟨rs, hrs⟩ => ⟨x :: rs, ?_⟩
        rw [List.foldlM_cons, ht]
        exact hrs

namespace Log

theorem ends_startingPoint (log : Log) (snapshots : Bool) (stream : String) :
    (log.startingPoint snapshots stream).Ends fun from? =>
      ∀ c, from? = some c → ∃ x : Snapshot, x.restore stream = .ok c := by
  unfold startingPoint
  split
  · refine .bind (Dialogue.Ends.anything _) fun loaded _ => ?_
    split
    · next x =>
      refine .pure fun c hc => ⟨x, ?_⟩
      cases hr : x.restore stream with
      | error e => simp [hr, Except.toOption] at hc
      | ok c' =>
        obtain rfl : c' = c := by simpa [hr, Except.toOption] using hc
        rfl
    · exact .pure fun _ h => by simp at h
    · exact .pure fun _ h => by simp at h
  · exact .pure fun _ h => by simp at h

/-- A rebuild that succeeds has taken some records, from a blank copy or a restored one on. -/
theorem ends_rebuild (log : Log) (snapshots : Bool) (stream : String) :
    (log.rebuild snapshots stream).Ends fun res => ∀ b, res = .ok b → ∃ from? rs,
      (∀ c, from? = some c → ∃ x : Snapshot, x.restore stream = .ok c) ∧
      (Rebuilt.startingFrom stream from?).takeAll stream rs = .ok b := by
  refine .bind (log.ends_startingPoint snapshots stream) fun from? hfrom => ?_
  refine .bind (Reader.ends_runWithin ..) fun res ⟨rs, hrs⟩ => ?_
  rw [← Rebuilt.takeAll_eq_foldlM] at hrs
  obtain ⟨b, stop⟩ := res
  cases stop with
  | failed e => exact .pure fun _ h => by simp at h
  | refused e => exact .pure fun _ h => by simp at h
  | ended =>
    dsimp only
    split
    · exact .pure fun _ h => by simp at h
    · refine .pure fun b' hb => ⟨from?, rs, hfrom, ?_⟩
      obtain rfl := Except.ok.inj hb
      exact hrs

end Log

/-! ## Working copies that are handled fairly -/

namespace WorkingCopy

/-- The working copies to begin with: blank ones, and what a rebuild comes to, with whatever
snapshots and answers. -/
inductive Opened : WorkingCopy → Prop
  | blank (stream : String) : Opened (.blank stream)
  | rebuilt {σ : Type} {others : σ → σ → Prop} {answers : (q : Request) → σ → q.Answer → σ → Prop}
      {s s' : σ} {xs : List (Exchange σ)} {log : Log} {snapshots : Bool} {stream : String}
      {b : Rebuilt}
      (led : (log.rebuild snapshots stream).Led others answers s xs (.ok b) s') : Opened b.copy

theorem Opened.settled {c : WorkingCopy} (h : c.Opened) : c.Settled := by
  cases h with
  | blank stream => exact settled_replayed ..
  | rebuilt led =>
    obtain ⟨from?, rs, hfrom, took⟩ := (Log.ends_rebuild ..).of_led led _ rfl
    exact (Rebuilt.settled_of_takeAll took (Rebuilt.settled_startingFrom hfrom).1).1

/-- What has been done to a working copy since it was opened, with its story: operations were asked
of it, and commits reported of facts that it holds. -/
inductive Handled : Story → WorkingCopy → Prop
  | opened {c : WorkingCopy} (start : c.Opened) : Handled ⟨c, []⟩ c
  | asked {y : Story} {c : WorkingCopy} (now : Instant) (o : Operation) (before : Handled y c) :
      Handled (y.asked c now o) ((Call.perform o).run now c).2
  | committed {y : Story} {c : WorkingCopy} {v : Nat} (before : Handled y c)
      (from_durable : c.durable ≤ v) (to_version : v ≤ c.version) :
      Handled y (c.markCommitted v)

theorem Handled.explained {y : Story} {c : WorkingCopy} (h : Handled y c) :
    y.start.Settled ∧ ∃ n, y.Explains c n := by
  induction h with
  | opened start => exact ⟨start.settled, 0, .begun start.settled⟩
  | asked now o before ih =>
    obtain ⟨settled, n, told⟩ := ih
    rw [Story.start_asked]
    exact ⟨settled, n, told.asked now o⟩
  | committed before from_durable to_version ih =>
    obtain ⟨settled, n, told⟩ := ih
    rw [told.version_eq_durable] at to_version
    exact ⟨settled, _, told.confirm from_durable to_version⟩

end WorkingCopy

end TransferLedger

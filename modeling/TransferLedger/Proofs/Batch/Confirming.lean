import Mathlib.Data.List.Nodup
import TransferLedger.Proofs.Batch.Gathering
import TransferLedger.Proofs.Snapshot.Saving

/-!
# Confirming in any order

A confirmation changes one copy and, if a snapshot is due, what the shelf has for the stream of that
copy (`Coordinator.told`).  Two of them, of copies that have different streams, can change places
(`Coordinator.told_comm`), so a batch may be confirmed to its copies in any order that leaves those
of each stream as they are (`Coordinator.run_confirmAll_congr`).
-/

set_option autoImplicit false

namespace TransferLedger

/-! ## One confirmation -/

namespace Coordinator

variable {c : Coordinator} {m m' : Movement} {w w' : InMemory} {x y : WorkingCopy}
  {ms ms' : List Movement}

/-- The shelf when a copy has been told how far it has been stored. -/
def shelved (c : Coordinator) (m : Movement) (x : WorkingCopy) (now : Instant) (s : Shelf) :
    Shelf :=
  if c.captures m && (x.markCommitted m.staged).version == m.staged then
    s.save ((x.markCommitted m.staged).snapshot now)
  else s

theorem shelved_comm (apart : x.stream ≠ y.stream) (now : Instant) (s : Shelf) :
    c.shelved m' y now (c.shelved m x now s) = c.shelved m x now (c.shelved m' y now s) := by
  have apart' : ((x.markCommitted m.staged).snapshot now).stream ≠
      ((y.markCommitted m'.staged).snapshot now).stream := apart
  unfold shelved
  split <;> split <;> first | rfl | exact s.save_comm apart'

/-- The surroundings when a copy has been told how far it has been stored. -/
def told (c : Coordinator) (m : Movement) (w : InMemory) : InMemory :=
  match w.copies[m.handle]? with
  | none => w
  | some x => { w with
      copies := w.copies.set m.handle (x.markCommitted m.staged)
      shelf := c.shelved m x w.clock w.shelf }

theorem told_of_none (hx : w.copies[m.handle]? = none) : c.told m w = w := by
  rw [told, hx]

theorem told_of_some (hx : w.copies[m.handle]? = some x) :
    c.told m w = { w with
      copies := w.copies.set m.handle (x.markCommitted m.staged)
      shelf := c.shelved m x w.clock w.shelf } := by
  rw [told, hx]

theorem copies_told_other {i : HandleId} (h : i ≠ m.handle) :
    (c.told m w).copies[i]? = w.copies[i]? := by
  cases hx : w.copies[m.handle]? with
  | none => rw [told_of_none hx]
  | some x => rw [told_of_some hx, List.getElem?_set_ne h.symm]

theorem run_confirm (c : Coordinator) (m : Movement) (w : InMemory) :
    (c.confirm m).run w = ((), c.told m w) := by
  have hconfirm : (Dialogue.confirm m.handle m.staged).run w =
      (w.copies[m.handle]?.map (·.markCommitted m.staged),
        { w with copies := w.copies.modify m.handle (·.markCommitted m.staged) }) := rfl
  rw [confirm, Dialogue.run_bind_of hconfirm]
  cases hx : w.copies[m.handle]? with
  | none =>
    rw [told_of_none hx, List.modify_eq_set_getElem?, hx]
    rfl
  | some x =>
    rw [told_of_some hx, List.modify_eq_set_getElem?, hx, shelved]
    by_cases due : (c.captures m && (x.markCommitted m.staged).version == m.staged) = true
    · simp only [Option.map_some, if_pos due]
      rfl
    · simp only [Option.map_some, if_neg due]
      rfl

/-- Confirmations to different copies of different streams can change places. -/
theorem told_comm (apart : m.handle ≠ m'.handle)
    (streams : ∀ x y, w.copies[m.handle]? = some x → w.copies[m'.handle]? = some y →
      x.stream ≠ y.stream) :
    c.told m' (c.told m w) = c.told m (c.told m' w) := by
  have hm : (c.told m' w).copies[m.handle]? = w.copies[m.handle]? := copies_told_other apart
  have hm' : (c.told m w).copies[m'.handle]? = w.copies[m'.handle]? := copies_told_other apart.symm
  cases hx : w.copies[m.handle]? with
  | none => rw [told_of_none hx, told_of_none (hm.trans hx)]
  | some x =>
    cases hy : w.copies[m'.handle]? with
    | none => rw [told_of_none hy, told_of_none (hm'.trans hy)]
    | some y =>
      rw [told_of_some (hm'.trans hy), told_of_some (hm.trans hx), told_of_some hx, told_of_some hy]
      simp only [List.set_comm _ _ apart, shelved_comm (streams x y hx hy)]

/-! ## All of them -/

theorem run_confirmAll (c : Coordinator) (ms : List Movement) (w : InMemory) :
    (c.confirmAll ms).run w =
      ((), (ms.filter (·.handle ∈ c.tracked)).foldl (fun w m => c.told m w) w) := by
  induction ms generalizing w with
  | nil => rfl
  | cons m rest ih =>
    unfold confirmAll
    by_cases ht : m.handle ∈ c.tracked
    · rw [if_pos ht, Dialogue.run_bind_of (c.run_confirm m w),
        List.filter_cons_of_pos (by simpa using ht), List.foldl_cons]
      exact ih _
    · rw [if_neg ht, List.filter_cons_of_neg (by simpa using ht)]
      exact ih w

theorem stream?_told (c : Coordinator) (m : Movement) (w : InMemory) (i : HandleId) :
    (c.told m w).stream? i = w.stream? i := by
  by_cases hi : i = m.handle
  · subst hi
    cases hx : w.copies[m.handle]? with
    | none => rw [told_of_none hx]
    | some x =>
      have hset : (c.told m w).copies[m.handle]? = some (x.markCommitted m.staged) := by
        rw [told_of_some hx]
        exact List.getElem?_set_self (List.getElem?_eq_some_iff.1 hx).1
      exact (InMemory.stream?_of_copy hset).trans (InMemory.stream?_of_copy hx).symm
  · rw [InMemory.stream?, InMemory.stream?, copies_told_other hi]

theorem copy_told {i : HandleId} (placed : ∃ x, w.copies[i]? = some x) :
    ∃ x, (c.told m w).copies[i]? = some x := by
  obtain ⟨x, hx⟩ := placed
  have hs := (c.stream?_told m w i).trans (InMemory.stream?_of_copy hx)
  exact (Option.map_eq_some_iff.1 hs).imp fun _ h => h.1

theorem onStream_told (stream : String) (ms : List Movement) :
    (c.told m w).onStream stream ms = w.onStream stream ms :=
  InMemory.onStream_congr fun m' _ => c.stream?_told m w m'.handle

/-- A confirmation can be made before others of other streams. -/
theorem foldl_told_comm (apart : ∀ m' ∈ ms, w.stream? m'.handle ≠ w.stream? m.handle) :
    ms.foldl (fun w m => c.told m w) (c.told m w) =
      c.told m (ms.foldl (fun w m => c.told m w) w) := by
  induction ms generalizing w with
  | nil => rfl
  | cons m' rest ih =>
    have hne := apart m' List.mem_cons_self
    have hcomm : c.told m' (c.told m w) = c.told m (c.told m' w) := by
      refine told_comm (fun he => hne (he ▸ rfl)) fun x y hx hy he => hne ?_
      rw [InMemory.stream?_of_copy hx, InMemory.stream?_of_copy hy, he]
    rw [List.foldl_cons, List.foldl_cons, hcomm]
    refine ih fun x hx => ?_
    rw [stream?_told, stream?_told]
    exact apart x (List.mem_cons_of_mem m' hx)

/-- Only the order of the confirmations of each stream makes a difference. -/
theorem foldl_told_congr (placed : ∀ m ∈ ms, ∃ x, w.copies[m.handle]? = some x)
    (placed' : ∀ m ∈ ms', ∃ x, w.copies[m.handle]? = some x)
    (same : ∀ stream, w.onStream stream ms = w.onStream stream ms') :
    ms.foldl (fun w m => c.told m w) w = ms'.foldl (fun w m => c.told m w) w := by
  induction ms generalizing ms' w with
  | nil =>
    have hnil : ms' = [] := List.eq_nil_iff_forall_not_mem.2 fun m hm => by
      obtain ⟨x, hx⟩ := placed' m hm
      have hon := InMemory.mem_onStream.2 ⟨hm, InMemory.stream?_of_copy hx⟩
      rw [← same] at hon
      exact absurd hon (by simp [InMemory.onStream])
    rw [hnil]
  | cons m rest ih =>
    obtain ⟨x, hx⟩ := placed m List.mem_cons_self
    have hs := InMemory.stream?_of_copy hx
    have hon := same x.stream
    rw [InMemory.onStream_cons_of_eq hs] at hon
    -- In front of it the other list has confirmations of other streams only.
    obtain ⟨front, back, rfl, hfront, -, hback⟩ := List.filter_eq_cons_iff.1 hon.symm
    have hother : ∀ m' ∈ front, w.stream? m'.handle ≠ w.stream? m.handle := fun m' hm' he =>
      hfront m' hm' (by rw [he, hs]; simp)
    have hmid : (front ++ m :: back).foldl (fun w m => c.told m w) w =
        (front ++ back).foldl (fun w m => c.told m w) (c.told m w) := by
      rw [List.foldl_append, List.foldl_cons, List.foldl_append, foldl_told_comm hother]
    rw [List.foldl_cons, hmid]
    refine ih (fun m' hm' => ?_) (fun m' hm' => ?_) fun stream => ?_
    · exact copy_told (placed m' (List.mem_cons_of_mem m hm'))
    · exact copy_told (placed' m' (by
        rcases List.mem_append.1 hm' with h | h <;> simp [h]))
    · rw [onStream_told, onStream_told]
      have hsame := same stream
      rw [InMemory.onStream_append] at hsame ⊢
      by_cases hstream : stream = x.stream
      · subst hstream
        rw [InMemory.onStream_cons_of_eq hs, InMemory.onStream_cons_of_eq hs] at hsame
        have hnone : w.onStream x.stream front = [] :=
          List.filter_eq_nil_iff.2 fun m' hm' => hfront m' hm'
        rw [hnone, List.nil_append] at hsame ⊢
        exact (List.cons.inj hsame).2
      · have hne : w.stream? m.handle ≠ some stream := by
          rw [hs]
          exact fun he => hstream (Option.some.inj he).symm
        rwa [InMemory.onStream_cons_of_ne hne, InMemory.onStream_cons_of_ne hne] at hsame

/-- It makes no difference in which order a batch is confirmed to copies of different streams. -/
theorem run_confirmAll_congr (placed : ∀ m ∈ ms, ∃ x, w.copies[m.handle]? = some x)
    (placed' : ∀ m ∈ ms', ∃ x, w.copies[m.handle]? = some x)
    (same : ∀ stream, w.onStream stream ms = w.onStream stream ms') :
    (c.confirmAll ms).run w = (c.confirmAll ms').run w := by
  have hsub {ms : List Movement} {m : Movement} (hm : m ∈ ms.filter (·.handle ∈ c.tracked)) :
      m ∈ ms := List.mem_of_mem_filter hm
  rw [run_confirmAll, run_confirmAll, foldl_told_congr (fun m hm => placed m (hsub hm))
    (fun m hm => placed' m (hsub hm)) fun stream => ?_]
  unfold InMemory.onStream at same ⊢
  rw [List.filter_comm, same, List.filter_comm]

end Coordinator

end TransferLedger

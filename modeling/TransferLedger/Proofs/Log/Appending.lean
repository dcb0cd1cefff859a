import TransferLedger.Proofs.Chain.Following
import TransferLedger.Proofs.Dialogue.Quiet
import TransferLedger.Proofs.Log.Staging

/-!
# Appending in peace

An append that succeeds puts the chain of its entries behind what its stream held
(`Log.records_of_append`).  So a stream to which nothing has come but by appends is linked and
sealed, whatever has been done elsewhere in the meantime (`Log.Honest.linked`).
-/

set_option autoImplicit false

namespace TransferLedger

/-- A sealer that is quickly computed: it looks at the first byte alone. -/
def Sealer.quick : Sealer :=
  ⟨fun bytes => ⟨Vector.replicate 32 (bytes.headD 0)⟩⟩

def Log.quick : Log :=
  ⟨.quick, .default⟩

namespace Log

variable {log : Log} {stream : String} {w w' : InMemory} {entries : List Entry} {expected v : Nat}

theorem run_stage_empty (log : Log) (stream : String) (entries : List Entry) (expected : Nat)
    (w : InMemory) : (log.stage .empty stream entries expected).run w =
      ((w.medium.readHead stream).bind (log.stageBehind .empty stream entries expected), w) := by
  have hhead : (headBehind .empty stream).run w = (w.medium.readHead stream, w) := rfl
  rw [stage, Dialogue.run_bind_of hhead]
  cases w.medium.readHead stream <;> rfl

/-- A commit that succeeds has stored all of the batch, or there was nothing to store. -/
theorem run_commit_ok {b : Batch} {n : Nat} (done : (log.commit b).run w = (.ok n, w')) :
    (b.size = 0 ∧ w' = w) ∨
      ∃ m, w.medium.commit b.staged = .ok m ∧ w' = { w with medium := m } := by
  unfold commit at done
  by_cases hz : b.size = 0
  · rw [if_pos hz] at done
    exact .inl ⟨hz, (Prod.mk.inj done).2.symm⟩
  rw [if_neg hz] at done
  have hcommit : (Dialogue.commit log.config.timeout b.staged).run w =
      ((w.medium.reply b.staged).1, { w with medium := (w.medium.reply b.staged).2 }) := rfl
  rw [Dialogue.run_bind_of hcommit] at done
  unfold Memory.reply at done
  cases hm : w.medium.commit b.staged with
  | error e =>
    rw [hm] at done
    exact absurd (Prod.mk.inj done).1 (by simp)
  | ok m =>
    rw [hm] at done
    exact .inr ⟨m, rfl, (Prod.mk.inj done).2.symm⟩

/-- An append that succeeds has put the chain of its entries behind the stream. -/
theorem records_of_append
    (done : (log.append stream entries expected).run w = (.ok v, w')) :
    w'.medium.records stream = w.medium.records stream ++
      log.sealer.chain stream (w.medium.head stream) entries := by
  unfold append at done
  rw [Dialogue.run_bind_of (run_stage_empty ..)] at done
  cases hh : w.medium.readHead stream with
  | error e =>
    rw [hh] at done
    exact absurd (Prod.mk.inj done).1 (by simp)
  | ok h =>
    obtain rfl : h = w.medium.head stream := by
      unfold Memory.readHead at hh
      split at hh
      · exact (Except.ok.inj hh).symm
      · simp at hh
    rw [hh] at done
    simp only [Except.bind] at done
    cases hb : log.stageBehind .empty stream entries expected (w.medium.head stream) with
    | error e =>
      rw [hb] at done
      exact absurd (Prod.mk.inj done).1 (by simp)
    | ok res =>
      obtain ⟨version, b⟩ := res
      rw [hb] at done
      obtain ⟨-, -, hstaged⟩ := stageBehind_eq_ok hb
      simp only [Dialogue.run_bind] at done
      cases hc : ((log.commit b).run w).1 with
      | error e =>
        rw [hc] at done
        exact absurd (Prod.mk.inj done).1 (by simp)
      | ok n =>
        rw [hc] at done
        have hw : ((log.commit b).run w).2 = w' := (Prod.mk.inj done).2
        rcases run_commit_ok (Prod.ext hc hw) with ⟨hz, rfl⟩ | ⟨m, hm, rfl⟩
        · -- A batch of no records comes from an append of no entries.
          cases entries with
          | nil => simp [Sealer.chain]
          | cons e rest =>
            rw [Batch.size, Batch.records, hstaged] at hz
            simp [Batch.empty, Sealer.length_chain] at hz
        · show m.records stream = _
          rw [Memory.records_commit hm, hstaged]
          by_cases he : entries = []
          · simp [he, Batch.empty, Sealer.chain]
          · simp [he, Batch.empty, Append.onto]

/-- The stream holds what logs with this sealer have appended to it, and nothing else; the rest of
the surroundings may be anything. -/
inductive Honest (s : Sealer) (stream : String) : InMemory → Prop
  | empty {w : InMemory} (nothing : w.medium.records stream = []) : Honest s stream w
  | append {log : Log} {w w' : InMemory} {entries : List Entry} {expected version : Nat}
      (before : Honest s stream w) (sealer : log.sealer = s)
      (done : (log.append stream entries expected).run w = (.ok version, w')) :
      Honest s stream w'
  | elsewhere {w w' : InMemory} (before : Honest s stream w)
      (same : w'.medium.records stream = w.medium.records stream) : Honest s stream w'

/-- Whatever is appended honestly is linked and sealed. -/
theorem Honest.linked {s : Sealer} (h : Honest s stream w) :
    s.Linked stream .empty (w.medium.records stream) := by
  induction h with
  | empty nothing =>
    rw [nothing]
    exact trivial
  | append before sealer done ih =>
    rw [records_of_append done, sealer, Sealer.Linked.append_iff]
    exact ⟨ih, Sealer.linked_chain ..⟩
  | elsewhere before same ih =>
    rw [same]
    exact ih

theorem Honest.appended {s : Sealer} (before : Honest s stream w) (sealer : log.sealer = s)
    (succeeds : ((log.append stream entries expected).run w).1.toOption.isSome = true) :
    Honest s stream ((log.append stream entries expected).run w).2 := by
  rcases hrun : (log.append stream entries expected).run w with ⟨res, w'⟩
  rw [hrun] at succeeds
  cases res with
  | error e => exact absurd succeeds (by simp [Except.toOption])
  | ok v => exact before.append sealer hrun

end Log

end TransferLedger

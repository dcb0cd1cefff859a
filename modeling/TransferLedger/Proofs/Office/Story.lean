import TransferLedger.Proofs.Chain.Medium
import TransferLedger.Proofs.Transfer.Buffer

/-!
# What a story tells of a working copy

A story explains a copy by the facts that it has emitted and by how many of them are known to be
stored (`Story.Explains`).  It tells what the copy is if that is so: the stored facts stand in the
stream, one behind the other from where the copy was put down.

Three things happen to a copy.  The medium grows under it (`Tells.within`), an operation emits a
fact (`Tells.emit`), and somebody confirms that facts are stored (`Tells.confirm`).  The last may
only happen if they are (`Memory.Stores`).  So the stored facts of a story are what a replay of the
stream would find (`Tells.facts`).
-/

set_option autoImplicit false

namespace TransferLedger

/-- The oldest facts in the buffer of a copy, up to a version, stand in its stream where they
belong. -/
structure Memory.Stores (m : Memory) (c : WorkingCopy) (version : Nat) : Prop where
  durable_le : c.durable ≤ version
  le_pending : version ≤ c.durable + c.pending.length
  carried : ∀ i e, i < version - c.durable → c.pending[i]? = some e →
    ∃ r, (m.records c.stream)[c.durable + i]? = some r ∧ r.Carries e

/-- What a story tells of a copy of which `n` facts are known to be stored. -/
structure Story.Tells (y : Story) (m : Memory) (c : WorkingCopy) (n : Nat) : Prop
    extends y.Explains c n where
  carried : ∀ i e, i < n → y.emitted[i]? = some e →
    ∃ r, (m.records c.stream)[y.start.durable + i]? = some r ∧ r.Carries e

/-- Where facts may be confirmed the stream is as long as that. -/
theorem Memory.Stores.le_length {m : Memory} {c : WorkingCopy} {v : Nat} (h : m.Stores c v)
    (hv : c.durable < v) : v ≤ (m.records c.stream).length := by
  have hlt : v - c.durable - 1 < c.pending.length := by have := h.le_pending; omega
  obtain ⟨r, hr, -⟩ := h.carried _ _ (by omega) (List.getElem?_eq_getElem hlt)
  have := (List.getElem?_eq_some_iff.1 hr).1
  omega

namespace Story.Tells

variable {y : Story} {m m' : Memory} {c : WorkingCopy} {n : Nat}

/-- A copy that has been put down has no story yet. -/
theorem begun {c : WorkingCopy} (hc : c.Settled) (m : Memory) : (⟨c, []⟩ : Story).Tells m c 0 where
  toExplains := .begun hc
  carried := fun i _ hi => absurd hi (Nat.not_lt_zero i)

theorem within (h : y.Tells m c n) (hm : m.Within m') : y.Tells m' c n := by
  refine { h with carried := fun i e hi he => ?_ }
  obtain ⟨r, hr, hc⟩ := h.carried i e hi he
  exact ⟨r, hm.getElem? hr, hc⟩

theorem emit (h : y.Tells m c n) {e : Event} {t : Transfer} (ha : c.transfer.apply e = .ok t) :
    (y.emit e).Tells m
      { c with transfer := t, version := c.version + 1, pending := c.pending ++ [e] } n where
  toExplains := h.toExplains.emit ha
  carried := by
    intro i x hi hx
    -- The new fact is behind all that are stored.
    have hi' : i < y.emitted.length := Nat.lt_of_lt_of_le hi h.stored_le
    rw [show (y.emit e).emitted = y.emitted ++ [e] from rfl,
      List.getElem?_append_left hi'] at hx
    have hid : t.id = c.transfer.id := Transfer.id_of_apply ha
    obtain ⟨r, hr, hc⟩ := h.carried i x hi hx
    refine ⟨r, ?_, hc⟩
    show (m.records t.id)[y.start.durable + i]? = some r
    rw [hid]
    exact hr

theorem confirm (h : y.Tells m c n) {v : Nat} (hs : m.Stores c v) :
    y.Tells m (c.markCommitted v) (n + (v - c.durable)) where
  toExplains := h.toExplains.confirm hs.durable_le hs.le_pending
  carried := by
    intro i e hi he
    show ∃ r, (m.records c.stream)[y.start.durable + i]? = some r ∧ r.Carries e
    -- Either the fact was stored before, or it is among those that are confirmed now.
    by_cases hn : i < n
    · exact h.carried i e hn he
    · have hp : c.pending[i - n]? = some e := by
        rw [h.pending_eq, List.getElem?_drop, show n + (i - n) = i by omega]
        exact he
      obtain ⟨r, hr, hc⟩ := hs.carried (i - n) e (by omega) hp
      refine ⟨r, ?_, hc⟩
      rw [← hr, h.durable_eq]
      congr 1
      omega

/-- The stored facts of a story are what its stream holds from the start on, in order. -/
theorem facts (h : y.Tells m c n) :
    (((m.records c.stream).drop y.start.durable).take n).map Record.event =
      (y.emitted.take n).map .ok := by
  refine List.ext_getElem? fun i => ?_
  rw [List.getElem?_map, List.getElem?_map]
  by_cases hi : i < n
  · have he := List.getElem?_eq_getElem (Nat.lt_of_lt_of_le hi h.stored_le)
    obtain ⟨r, hr, hc⟩ := h.carried i _ hi he
    rw [List.getElem?_take_of_lt hi, List.getElem?_take_of_lt hi, List.getElem?_drop, hr, he,
      Option.map_some, Record.event_of_carries hc]
    rfl
  · rw [List.getElem?_take_eq_none (Nat.le_of_not_lt hi),
      List.getElem?_take_eq_none (Nat.le_of_not_lt hi)]
    rfl

end Story.Tells

end TransferLedger

import TransferLedger.Proofs.Office.Rebuilding
import TransferLedger.Proofs.Office.Story

/-!
# Faithful copies

A settled copy is faithful if it is what its stream makes of a blank one.  That every copy that is
put down is faithful, and every snapshot restores a faithful one, is a law that nobody breaks who
sticks to the rules (`Law.faithful`): what a rebuild takes behind a faithful snapshot are the
facts that come next, and what a coordinator saves is a copy with nothing in its buffer.
-/

set_option autoImplicit false

namespace TransferLedger

/-! ## Faithful copies -/

/-- The stream holds as many facts as the version of the copy says, and they make its state. -/
def WorkingCopy.Faithful (c : WorkingCopy) (m : Memory) : Prop :=
  ∃ es, ((m.records c.stream).take c.version).map Record.event = es.map .ok ∧
    es.length = c.version ∧ (Transfer.blank c.stream).applyAll es = .ok c.transfer

namespace WorkingCopy.Faithful

variable {c : WorkingCopy} {m m' : Memory}

theorem version_le (h : c.Faithful m) : c.version ≤ (m.records c.stream).length := by
  obtain ⟨es, hes, hl, -⟩ := h
  have := congrArg List.length hes
  rw [List.length_map, List.length_map, List.length_take, hl] at this
  omega

theorem within (h : c.Faithful m) (hm : m.Within m') : c.Faithful m' := by
  have hle := h.version_le
  obtain ⟨es, hes, hl, ha⟩ := h
  refine ⟨es, ?_, hl, ha⟩
  rw [hm.take hle]
  exact hes

theorem blank (stream : String) (m : Memory) : (WorkingCopy.blank stream).Faithful m :=
  ⟨[], rfl, rfl, rfl⟩

/-- Facts that come next take a faithful copy to a faithful one. -/
theorem append {c' : WorkingCopy} {fs : List Event} (h : c.Faithful m) (hs : c'.stream = c.stream)
    (hfs : (((m.records c.stream).drop c.version).take fs.length).map Record.event = fs.map .ok)
    (hv : c'.version = c.version + fs.length)
    (ha : c.transfer.applyAll fs = .ok c'.transfer) : c'.Faithful m := by
  obtain ⟨es, hes, hl, happ⟩ := h
  refine ⟨es ++ fs, ?_, by rw [List.length_append, hl, hv], ?_⟩
  · rw [hs, hv, List.take_add, List.map_append, List.map_append, hes, hfs]
  · rw [hs, Transfer.applyAll_append, happ]
    exact ha

/-- A settled copy that is faithful is what a replay of the stream up to its version hands back. -/
theorem replay (h : c.Faithful m) (ho : m.Orderly) (hc : c.Settled) :
    ∃ b, (Rebuilt.blank c.stream).takeAll c.stream ((m.records c.stream).take c.version) = .ok b ∧
      b.copy = c := by
  have hle := h.version_le
  obtain ⟨es, hes, hl, ha⟩ := h
  obtain ⟨b, hb, ht⟩ := Rebuilt.takeAll_of_facts (b := .blank c.stream) c.stream hes ha
  refine ⟨b, hb, ?_⟩
  have hcont : Continues c.stream .empty ((m.records c.stream).take c.version) := by
    have := ho c.stream
    rw [← List.take_append_drop c.version (m.records c.stream), Continues.append_iff] at this
    exact this.1
  have hv := Rebuilt.version_of_takeAll hcont rfl hb
  rw [List.length_take, Nat.min_eq_left hle] at hv
  have hv' : b.copy.version = c.version := hv.trans (Nat.zero_add _)
  obtain ⟨hset, -⟩ := Rebuilt.settled_of_takeAll hb (WorkingCopy.settled_replayed ..)
  -- State and version agree, and being settled says what the rest is.
  rw [hset.eq_replayed, hc.eq_replayed, ht, hv']

end WorkingCopy.Faithful

/-! ## The law -/

/-- The snapshot is intact, and what it holds is what its stream makes of a blank transfer up to its
version. -/
structure Snapshot.Faithful (x : Snapshot) (m : Memory) : Prop where
  type_eq : x.type = Transfer.snapshotType
  intact : x.isIntact = true
  state : ∃ t, Transfer.ofJson? x.state = some t ∧ t.id = x.stream ∧
    (WorkingCopy.replayed t x.version).Faithful m

theorem Snapshot.Faithful.restored {x : Snapshot} {m : Memory} {stream : String} {c : WorkingCopy}
    (h : x.Faithful m) (hc : x.restore stream = .ok c) : c.Faithful m := by
  obtain ⟨t, ht, -, hf⟩ := h.state
  obtain ⟨t', ht', -, rfl⟩ := Snapshot.of_restore hc
  obtain rfl : t = t' := Option.some.inj (ht.symm.trans ht')
  exact hf

theorem Snapshot.Faithful.within {x : Snapshot} {m m' : Memory} (h : x.Faithful m)
    (hm : m.Within m') : x.Faithful m' :=
  { h with state := h.state.imp fun _ ht => ⟨ht.1, ht.2.1, ht.2.2.within hm⟩ }

/-- A stretch of the stream behind a faithful copy makes a faithful copy. -/
theorem Rebuilt.faithful_of_takeAll {m : Memory} {b b' : Rebuilt} {stream : String} {k : Nat}
    (ho : m.Orderly) (hf : b.copy.Faithful m) (hset : b.copy.Settled) (hs : b.copy.stream = stream)
    (h : b.takeAll stream (((m.records stream).drop b.copy.version).take k) = .ok b') :
    b'.copy.Faithful m := by
  obtain ⟨fs, hfs, happ⟩ := facts_of_takeAll h
  obtain ⟨-, hs'⟩ := settled_of_takeAll h hset
  have hlen : (((m.records stream).drop b.copy.version).take k).length = fs.length := by
    simpa using congrArg List.length hfs
  refine hf.append hs' ?_ ?_ happ
  · rw [hs, ← hfs, ← hlen, List.length_take, ← List.take_eq_take_min]
  · rw [version_of_stretch ho (hs ▸ hf.version_le) (List.take_prefix ..) h, hlen]

/-- Of a faithful start, what the stored facts of a copy make is faithful, whatever has become of
the copy since. -/
theorem Story.Tells.faithful {y : Story} {m : Memory} {c : WorkingCopy} {n : Nat}
    (h : y.Tells m c n) (hset : y.start.Settled) (hf : y.start.Faithful m) :
    ∃ t, t.id = c.stream ∧ (WorkingCopy.replayed t c.durable).Faithful m ∧
      (c.pending = [] → t = c.transfer) := by
  have hlen : (y.emitted.take n).length = n := List.length_take_of_le h.stored_le
  obtain ⟨t, ht, hrest⟩ := h.halves
  have hid : t.id = y.start.stream := Transfer.id_of_applyAll ht
  have hfacts : (((m.records y.start.stream).drop y.start.version).take
      (y.emitted.take n).length).map Record.event = (y.emitted.take n).map .ok := by
    rw [hlen, hset.2, ← h.stream_eq]
    exact h.facts
  refine ⟨t, hid.trans h.stream_eq.symm, hf.append hid hfacts ?_ ht, fun hnil => ?_⟩
  · rw [hlen, hset.2]
    exact h.durable_eq
  · -- With nothing in the buffer there are no other facts.
    rw [hnil] at hrest
    exact Except.ok.inj hrest

/-- With nothing in its buffer a copy is what its stored facts make. -/
theorem Story.Tells.snapshot_faithful {y : Story} {m : Memory} {c : WorkingCopy} {n : Nat}
    (h : y.Tells m c n) (hset : y.start.Settled) (hf : y.start.Faithful m) (hnil : c.pending = [])
    (now : Instant) : (c.snapshot now).Faithful m := by
  obtain ⟨t, -, hft, hcur⟩ := h.faithful hset hf
  obtain rfl := hcur hnil
  have hv : c.version = c.durable := by
    rw [h.version_eq_durable, hnil]
    rfl
  refine ⟨rfl, Snapshot.isIntact_capture .., c.transfer, Transfer.ofJson?_canonical c.transfer, rfl,
    ?_⟩
  show (WorkingCopy.replayed c.transfer c.version).Faithful m
  rw [hv]
  exact hft

/-- The law that copies are put down faithful. -/
def Law.faithful : Law where
  record := fun _ => True
  start := fun m c => c.Faithful m
  snapshot := fun m x => x.Faithful m
  whole := fun _ _ => True
  start_within := fun hm h => h.within hm
  snapshot_within := fun hm h => h.within hm
  rebuilt := fun {m stream from? k b} ho hb h => by
    cases from? with
    | none =>
      exact Rebuilt.faithful_of_takeAll (b := .blank stream) ho (.blank stream m)
        (WorkingCopy.settled_replayed ..) rfl h
    | some c =>
      obtain ⟨x, hx, hc⟩ := hb c rfl
      obtain ⟨t, -, hid, hct⟩ := Snapshot.of_restore hc
      have hset : c.Settled := hct ▸ WorkingCopy.settled_replayed t x.version
      have hs : c.stream = stream := hct ▸ hid
      exact Rebuilt.faithful_of_takeAll (b := .startingFrom stream (some c)) ho (hx.restored hc)
        hset hs h
  captured := fun _ hset hf ht hnil => ht.snapshot_faithful hset hf hnil _
  whole_nil := fun _ => trivial
  whole_told := fun _ _ _ _ _ => trivial

theorem Law.faithful_grounded : Law.faithful.Grounded :=
  fun _ _ h => h.version_le

end TransferLedger

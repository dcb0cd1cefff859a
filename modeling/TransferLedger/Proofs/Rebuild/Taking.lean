import Mathlib.Data.List.Forall2
import TransferLedger.Proofs.Chain.Continues
import TransferLedger.Proofs.Transfer.Documents
import TransferLedger.Rebuild

/-!
# Taking facts

What becomes of a copy that takes the facts of records one after the other.  It stays settled
(`Rebuilt.settled_of_takeAll`), its state is what the facts make of it (`Rebuilt.facts_of_takeAll`,
`Rebuilt.takeAll_of_facts`), and records that continue a stream take it as far as they go
(`Rebuilt.version_of_takeAll`).  How it came to be where it started makes no difference
(`Rebuilt.takeAll_of_copy`), and a copy that is put aside is restored as it was
(`WorkingCopy.restore_snapshot`).
-/

set_option autoImplicit false

namespace TransferLedger

/-- Nothing is buffered, and all that the copy stands for is stored. -/
def WorkingCopy.Settled (c : WorkingCopy) : Prop :=
  c.pending = [] ∧ c.version = c.durable

theorem WorkingCopy.settled_replayed (t : Transfer) (version : Nat) :
    (WorkingCopy.replayed t version).Settled :=
  ⟨rfl, rfl⟩

theorem WorkingCopy.Settled.eq_replayed {c : WorkingCopy} (h : c.Settled) :
    c = .replayed c.transfer c.version := by
  obtain ⟨t, v, d, ps⟩ := c
  obtain ⟨hnil, hdur⟩ := h
  simp only at hnil hdur
  subst hnil hdur
  rfl

/-! ## Records and the facts that they hold -/

def Record.Carries (r : Record) (e : Event) : Prop :=
  r.kind = e.kind ∧ r.payload = e.text

theorem Record.carries_entry {r : Record} {e : Event} {now : Instant}
    (h : r.entry = e.entry now) : r.Carries e :=
  ⟨congrArg Entry.kind h, congrArg Entry.payload h⟩

/-- The entry is of this fact, made ready to be stored at some time. -/
def Entry.Carries (x : Entry) (e : Event) : Prop :=
  ∃ now, x = e.entry now

/-- The records that entries become carry the facts of the entries, one each and in order. -/
theorem Sealer.forall₂_chain (sealer : Sealer) (stream : String) (h : Head) {xs : List Entry}
    {es : List Event} (hx : List.Forall₂ Entry.Carries xs es) :
    List.Forall₂ Record.Carries (sealer.chain stream h xs) es := by
  induction hx generalizing h with
  | nil => exact .nil
  | @cons x e _ _ first _ ih =>
    obtain ⟨now, rfl⟩ := first
    have hentry : (sealer.record stream h (e.entry now)).entry = e.entry now := rfl
    exact .cons (Record.carries_entry hentry) (ih _)

theorem Sealer.chain_carries (sealer : Sealer) (stream : String) (h : Head) {xs : List Entry}
    {es : List Event} (hx : List.Forall₂ Entry.Carries xs es) {i : Nat} {e : Event}
    (hi : es[i]? = some e) :
    ∃ r ∈ sealer.chain stream h xs,
      r.stream = stream ∧ r.sequence = h.version + i + 1 ∧ r.Carries e := by
  obtain ⟨hlength, hcarries⟩ := List.forall₂_iff_get.1 (sealer.forall₂_chain stream h hx)
  obtain ⟨hlt, rfl⟩ := List.getElem?_eq_some_iff.1 hi
  have hlt' : i < (sealer.chain stream h xs).length := hlength ▸ hlt
  obtain ⟨h1, h2, -⟩ :=
    (sealer.continues_chain stream h xs).getElem? (List.getElem?_eq_getElem hlt')
  exact ⟨_, List.getElem_mem hlt', h1, by omega, hcarries i hlt' hlt⟩

theorem Record.event_of_carries {r : Record} {e : Event} (h : r.Carries e) : r.event = .ok e := by
  have he : Event.ofText? r.payload = some e := by
    rw [h.2]
    exact Event.ofText?_text e
  rw [event, he]
  exact if_pos h.1.symm

theorem Record.events_of_carried {rs : List Record} {es : List Event}
    (h : rs.map (fun r => (r.kind, r.payload)) = es.map fun e => (e.kind, e.text)) :
    rs.map Record.event = es.map .ok := by
  induction rs generalizing es with
  | nil =>
    obtain rfl := List.map_eq_nil_iff.1 h.symm
    rfl
  | cons r rest ih =>
    cases es with
    | nil => exact absurd h (by simp)
    | cons e es =>
      obtain ⟨hr, hrest⟩ := List.cons.inj h
      rw [List.map_cons, List.map_cons, ih hrest,
        Record.event_of_carries ⟨congrArg Prod.fst hr, congrArg Prod.snd hr⟩]

/-! ## One record after the other -/

namespace Rebuilt

theorem takeAll_eq_foldlM (stream : String) (b : Rebuilt) (rs : List Record) :
    b.takeAll stream rs = rs.foldlM (Rebuilt.take stream) b := by
  induction rs generalizing b with
  | nil => rfl
  | cons r rest ih =>
    rw [List.foldlM_cons, takeAll]
    cases b.take stream r with
    | error e => rfl
    | ok b' => exact ih b'

/-- What a fact leaves behind, if the record of it has made `t` of the state. -/
def taken (b : Rebuilt) (r : Record) (t : Transfer) : Rebuilt :=
  { b with
    copy := { b.copy with transfer := t, version := r.sequence, durable := r.sequence }
    applied := b.applied + 1 }

theorem take_of_apply {b : Rebuilt} (stream : String) {r : Record} {e : Event} {t : Transfer}
    (he : r.event = .ok e) (ha : b.copy.transfer.apply e = .ok t) :
    b.take stream r = .ok (b.taken r t) := by
  simp only [take, he, WorkingCopy.apply, ha]
  rfl

/-- A record that is refused has been found. -/
theorem isNotFound_of_take {stream : String} {b : Rebuilt} {r : Record} {x : ReplayError}
    (h : b.take stream r = .error x) : x.isNotFound = false := by
  unfold take at h
  cases he : r.event with
  | error e =>
    rw [he] at h
    obtain rfl : e = x := Except.error.inj h
    unfold Record.event at he
    split at he
    · exact Except.error.inj he ▸ rfl
    · split at he
      · simp at he
      · exact Except.error.inj he ▸ rfl
  | ok e =>
    rw [he] at h
    dsimp only at h
    split at h
    · exact Except.error.inj h ▸ rfl
    · simp at h

theorem take_eq_ok {stream : String} {b b' : Rebuilt} {r : Record}
    (h : b.take stream r = .ok b') :
    ∃ e t, r.event = .ok e ∧ b.copy.transfer.apply e = .ok t ∧ b' = b.taken r t := by
  cases he : r.event with
  | error x => simp [take, he] at h
  | ok e =>
    cases ha : b.copy.transfer.apply e with
    | error x => simp [take, he, WorkingCopy.apply, ha] at h
    | ok t =>
      rw [take_of_apply stream he ha] at h
      exact ⟨e, t, rfl, ha, (Except.ok.inj h).symm⟩

theorem takeAll_cons_eq_ok {stream : String} {b b' : Rebuilt} {r : Record} {rest : List Record} :
    b.takeAll stream (r :: rest) = .ok b' ↔
      ∃ b₁, b.take stream r = .ok b₁ ∧ b₁.takeAll stream rest = .ok b' := by
  simp only [takeAll]
  cases b.take stream r with
  | ok b₁ => simp
  | error e => simp

/-- A copy that facts are taken into stays settled, and stays the copy of its stream. -/
theorem settled_of_takeAll {stream : String} {b b' : Rebuilt} {rs : List Record}
    (h : b.takeAll stream rs = .ok b') (hb : b.copy.Settled) :
    b'.copy.Settled ∧ b'.copy.stream = b.copy.stream := by
  induction rs generalizing b with
  | nil =>
    obtain rfl := Except.ok.inj h
    exact ⟨hb, rfl⟩
  | cons r rest ih =>
    obtain ⟨b₁, ht, h⟩ := takeAll_cons_eq_ok.1 h
    obtain ⟨e, t, -, ha, rfl⟩ := take_eq_ok ht
    obtain ⟨h1, h2⟩ := ih h ⟨hb.1, rfl⟩
    exact ⟨h1, h2.trans (Transfer.id_of_apply ha)⟩

/-- Taking records is taking the facts that they hold. -/
theorem facts_of_takeAll {stream : String} {b b' : Rebuilt} {rs : List Record}
    (h : b.takeAll stream rs = .ok b') : ∃ es, rs.map Record.event = es.map .ok ∧
      b.copy.transfer.applyAll es = .ok b'.copy.transfer := by
  induction rs generalizing b with
  | nil =>
    obtain rfl := Except.ok.inj h
    exact ⟨[], rfl, rfl⟩
  | cons r rest ih =>
    obtain ⟨b₁, ht, h⟩ := takeAll_cons_eq_ok.1 h
    obtain ⟨e, t, he, ha, rfl⟩ := take_eq_ok ht
    obtain ⟨es, hes, happ⟩ := ih h
    exact ⟨e :: es, by rw [List.map_cons, List.map_cons, he, hes],
      Transfer.applyAll_cons_eq_ok.2 ⟨t, ha, happ⟩⟩

theorem takeAll_of_facts {b : Rebuilt} (stream : String) {rs : List Record} {es : List Event}
    {t : Transfer} (hes : rs.map Record.event = es.map .ok)
    (ha : b.copy.transfer.applyAll es = .ok t) :
    ∃ b', b.takeAll stream rs = .ok b' ∧ b'.copy.transfer = t := by
  induction rs generalizing b es with
  | nil =>
    obtain rfl : es = [] := by simpa using hes.symm
    exact ⟨b, rfl, Except.ok.inj ha⟩
  | cons r rest ih =>
    cases es with
    | nil => exact absurd hes (by simp)
    | cons e es =>
      obtain ⟨he, hes⟩ := List.cons.inj hes
      obtain ⟨u, hu, ha⟩ := Transfer.applyAll_cons_eq_ok.1 ha
      obtain ⟨b', hb', hte⟩ := ih (b := b.taken r u) hes ha
      exact ⟨b', takeAll_cons_eq_ok.2 ⟨_, take_of_apply stream he hu, hb'⟩, hte⟩

/-- Records that continue the stream take a copy as far as they go. -/
theorem version_of_takeAll {stream stream' : String} {b b' : Rebuilt} {rs : List Record}
    {head : Head} (hc : Continues stream' head rs) (hv : b.copy.version = head.version)
    (h : b.takeAll stream rs = .ok b') : b'.copy.version = head.version + rs.length := by
  induction rs generalizing b head with
  | nil =>
    obtain rfl := Except.ok.inj h
    exact hv
  | cons r rest ih =>
    obtain ⟨-, hs, -, hr⟩ := hc
    obtain ⟨b₁, ht, h⟩ := takeAll_cons_eq_ok.1 h
    obtain ⟨e, t, -, -, rfl⟩ := take_eq_ok ht
    rw [ih hr rfl h, List.length_cons]
    show r.sequence + rest.length = _
    omega

theorem takeAll_append {stream : String} {b : Rebuilt} {rs ss : List Record} :
    b.takeAll stream (rs ++ ss) = (b.takeAll stream rs).bind (·.takeAll stream ss) := by
  simp only [takeAll_eq_foldlM, List.foldlM_append]
  rfl

/-- All records are counted, and how the start came about is not forgotten. -/
theorem counted_of_takeAll {stream : String} {b b' : Rebuilt} {rs : List Record}
    (h : b.takeAll stream rs = .ok b') :
    b'.snapshotVersion = b.snapshotVersion ∧ b'.applied = b.applied + rs.length := by
  induction rs generalizing b with
  | nil =>
    obtain rfl := Except.ok.inj h
    exact ⟨rfl, rfl⟩
  | cons r rest ih =>
    obtain ⟨b₁, ht, h⟩ := takeAll_cons_eq_ok.1 h
    obtain ⟨e, t, -, -, rfl⟩ := take_eq_ok ht
    obtain ⟨h1, h2⟩ := ih h
    refine ⟨h1, h2.trans ?_⟩
    rw [List.length_cons]
    show b.applied + 1 + rest.length = _
    omega

/-- What is taken depends on the copy alone. -/
theorem takeAll_of_copy {stream : String} {b b' b₁ : Rebuilt} {rs : List Record}
    (h : b.takeAll stream rs = .ok b') (same : b₁.copy = b.copy) :
    b₁.takeAll stream rs = .ok ⟨b'.copy, b₁.snapshotVersion, b₁.applied + rs.length⟩ := by
  induction rs generalizing b b₁ with
  | nil =>
    obtain rfl := Except.ok.inj h
    rw [← same]
    rfl
  | cons r rest ih =>
    obtain ⟨b₂, ht, h⟩ := takeAll_cons_eq_ok.1 h
    obtain ⟨e, t, he, ha, rfl⟩ := take_eq_ok ht
    have ht₁ : b₁.take stream r = .ok (b₁.taken r t) :=
      take_of_apply stream he (by rw [same, ha])
    have hrest := @ih _ (b₁.taken r t) h (by simp only [taken, same])
    rw [takeAll, ht₁, List.length_cons, Nat.add_comm rest.length, ← Nat.add_assoc]
    exact hrest

/-- What a stream makes of a blank copy stands for all of it, and nothing is buffered. -/
theorem of_blank {stream stream' : String} {b : Rebuilt} {rs : List Record}
    (hc : Continues stream' .empty rs) (h : (blank stream).takeAll stream rs = .ok b) :
    b = ⟨.replayed b.copy.transfer rs.length, none, rs.length⟩ ∧ b.copy.stream = stream := by
  obtain ⟨hset, hs⟩ := settled_of_takeAll h (WorkingCopy.settled_replayed ..)
  obtain ⟨hsnap, happ⟩ := counted_of_takeAll h
  have hv : b.copy.version = rs.length :=
    (version_of_takeAll hc rfl h).trans (Nat.zero_add _)
  have hcopy := hset.eq_replayed
  rw [hv] at hcopy
  refine ⟨?_, hs⟩
  have happ' : b.applied = rs.length := happ.trans (Nat.zero_add _)
  rw [← hcopy, ← happ', show none = b.snapshotVersion from hsnap.symm]

end Rebuilt

/-! ## Snapshots -/

theorem Snapshot.of_restore {x : Snapshot} {stream : String} {c : WorkingCopy}
    (h : x.restore stream = .ok c) :
    ∃ t, Transfer.ofJson? x.state = some t ∧ t.id = stream ∧ c = .replayed t x.version := by
  unfold restore at h
  split at h
  · simp at h
  · split at h
    · simp at h
    · next t ht =>
      split at h
      · simp at h
      · next hid => exact ⟨t, ht, by simpa using hid, (Except.ok.inj h).symm⟩

/-- Whatever snapshot a rebuild starts from, nothing is buffered at first. -/
theorem Rebuilt.settled_startingFrom {stream : String} {from? : Option WorkingCopy}
    (h : ∀ c, from? = some c → ∃ x : Snapshot, x.restore stream = .ok c) :
    (startingFrom stream from?).copy.Settled ∧
      (startingFrom stream from?).copy.stream = stream := by
  cases from? with
  | none => exact ⟨WorkingCopy.settled_replayed .., rfl⟩
  | some c =>
    obtain ⟨x, hx⟩ := h c rfl
    obtain ⟨t, -, hid, rfl⟩ := Snapshot.of_restore hx
    exact ⟨WorkingCopy.settled_replayed .., hid⟩

/-- A state that is put aside is restored, whatever version it is said to stand for. -/
theorem Transfer.restore_capture (t : Transfer) (version : Nat) (now : Instant) :
    (Snapshot.capture now t.id snapshotType version t.toJson).restore t.id =
      .ok (.replayed t version) := by
  have ht : ofJson? (Snapshot.capture now t.id snapshotType version t.toJson).state = some t :=
    ofJson?_canonical t
  have right : ¬ (t.id ≠ t.id ∨ snapshotType ≠ snapshotType) := by simp
  rw [Snapshot.restore]
  simp only [ht]
  exact (if_neg right).trans (if_neg fun h => h rfl)

/-- What is put aside of a copy is restored, without what is buffered. -/
theorem WorkingCopy.restore_snapshot (c : WorkingCopy) (now : Instant) :
    (c.snapshot now).restore c.stream = .ok (.replayed c.transfer c.version) :=
  c.transfer.restore_capture c.version now

end TransferLedger

import Mathlib.Data.List.Forall2
import Mathlib.Data.List.Nodup
import TransferLedger.Proofs.Batch.Meanwhile
import TransferLedger.Proofs.Office.Movements

/-!
# A batch that matches its copies

What a coordinator has staged for a copy is a number of records on the stream of the copy, and
nothing else in the batch is on that stream.  As long as nobody confirms anything to the copy, the
records carry the oldest facts in its buffer, one each and in order; once somebody does, the
stream has grown past the version that the batch expects, and the batch cannot land any more.
That is `Movement.Matches` for one copy and `OpenBatch.Tidy` for all of them.

Time does no harm to it (`OpenBatch.Tidy.later`), and staging what else a copy has buffered keeps it
(`OpenBatch.Tidy.staged`), provided that no two of the copies have the same stream.
-/

set_option autoImplicit false

namespace TransferLedger

/-! ## Notes -/

namespace OpenBatch

theorem mem_handles_note {h i : HandleId} {d v : Nat} {ms : List Movement} :
    i ∈ (note h d v ms).map Movement.handle ↔ i = h ∨ i ∈ ms.map Movement.handle := by
  rw [handles_note]
  by_cases hm : h ∈ ms.map Movement.handle
  · rw [if_pos hm]
    exact ⟨.inr, fun hi => hi.elim (fun e => e ▸ hm) id⟩
  · rw [if_neg hm, List.mem_append, List.mem_singleton, or_comm]

theorem find?_note_other {h i : HandleId} {d v : Nat} {ms : List Movement} (hne : i ≠ h) :
    ((note h d v ms).find? fun m => m.handle == i) = ms.find? fun m => m.handle == i := by
  induction ms with
  | nil => simp [note, Ne.symm hne]
  | cons m rest ih =>
    unfold note
    by_cases he : m.handle = h
    · rw [if_pos he, List.find?_cons_of_neg (by simpa [he] using Ne.symm hne),
        List.find?_cons_of_neg (by simpa [he] using Ne.symm hne)]
    · rw [if_neg he, List.find?_cons, List.find?_cons, ih]

theorem stagedFor_note_other {b : OpenBatch} {batch : Batch} {h i : HandleId} {d v : Nat}
    (hne : i ≠ h) : (⟨batch, note h d v b.moved⟩ : OpenBatch).stagedFor i = b.stagedFor i := by
  unfold stagedFor
  rw [find?_note_other hne]

theorem stagedFor_of_mem {b : OpenBatch} (hn : (b.moved.map Movement.handle).Nodup) {m : Movement}
    (hm : m ∈ b.moved) : b.stagedFor m.handle = m.staged - m.durable := by
  unfold stagedFor
  cases hf : b.moved.find? fun x => x.handle == m.handle with
  | none => exact absurd (List.find?_eq_none.1 hf m hm) (by simp)
  | some m' =>
    have hh : m'.handle = m.handle := by simpa using List.find?_some hf
    rw [List.inj_on_of_nodup_map hn (List.mem_of_find?_eq_some hf) hm hh]

theorem stagedFor_of_not_mem {b : OpenBatch} {i : HandleId}
    (hi : i ∉ b.moved.map Movement.handle) : b.stagedFor i = 0 := by
  have hnone : (b.moved.find? fun m => m.handle == i) = none := by
    refine List.find?_eq_none.2 fun m hm he => hi ?_
    exact List.mem_map.2 ⟨m, hm, by simpa using he⟩
  rw [stagedFor, hnone]

end OpenBatch

/-! ## What a batch expects -/

theorem Append.onto_eq_nil {stream : String} {as : List Append} (h : ∀ a ∈ as, a.stream ≠ stream) :
    Append.onto stream as = [] := by
  have : as.filter (fun a => a.stream == stream) = [] :=
    List.filter_eq_nil_iff.2 fun a ha => by simpa using h a ha
  rw [Append.onto, this, List.flatMap_nil]

/-- Of all that a batch has for a stream, the first append expects this version, and it has
records. -/
def Batch.Expects (b : Batch) (stream : String) (version : Nat) : Prop :=
  ∃ pre a post, b.staged = pre ++ a :: post ∧ (∀ x ∈ pre, x.stream ≠ stream) ∧ a.stream = stream ∧
    a.expected = version ∧ a.records ≠ []

namespace Batch.Expects

variable {b b' : Batch} {stream : String} {version : Nat}

theorem extend (h : b.Expects stream version) {as : List Append}
    (hb : b'.staged = b.staged ++ as) : b'.Expects stream version := by
  obtain ⟨pre, a, post, hs, h'⟩ := h
  exact ⟨pre, a, post ++ as, by rw [hb, hs, List.append_assoc, List.cons_append], h'⟩

theorem first {a : Append} (hnone : ∀ x ∈ b.staged, x.stream ≠ a.stream) (hr : a.records ≠ [])
    (hb : b'.staged = b.staged ++ [a]) : b'.Expects a.stream a.expected :=
  ⟨b.staged, a, [], hb, hnone, rfl, rfl, hr⟩

end Batch.Expects

/-! ## Copies that match -/

/-- No two of the copies have the same stream. -/
def InMemory.Apart (hs : List HandleId) (w : InMemory) : Prop :=
  ∀ i ∈ hs, ∀ j ∈ hs, ∀ x y, w.copies[i]? = some x → w.copies[j]? = some y →
    x.stream = y.stream → i = j

/-- What a batch has for one copy. -/
structure Movement.Matches (m : Movement) (b : Batch) (w : InMemory) (x : WorkingCopy) : Prop where
  copy : w.copies[m.handle]? = some x
  durable_lt : m.durable < m.staged
  expects : b.Expects x.stream m.durable
  alive : x.durable = m.durable → m.staged ≤ m.durable + x.pending.length ∧
    List.Forall₂ Record.Carries (Append.onto x.stream b.staged)
      (x.pending.take (m.staged - m.durable))
  dead : x.durable ≠ m.durable →
    m.durable < x.durable ∧ x.durable ≤ (w.medium.head x.stream).version

/-- What a batch has for all copies, and it has nothing but that. -/
structure OpenBatch.Tidy (hs : List HandleId) (b : OpenBatch) (w : InMemory) : Prop where
  nodup : (b.moved.map Movement.handle).Nodup
  among : ∀ i ∈ b.moved.map Movement.handle, i ∈ hs
  moved : ∀ m ∈ b.moved, ∃ x, m.Matches b.batch w x
  covered : ∀ a ∈ b.batch.staged, ∃ i ∈ b.moved.map Movement.handle, ∃ x,
    w.copies[i]? = some x ∧ x.stream = a.stream

variable {hs hs' : List HandleId} {b : OpenBatch} {w w' : InMemory}

theorem InMemory.Apart.subset (h : InMemory.Apart hs' w) (hsub : ∀ i ∈ hs, i ∈ hs') :
    InMemory.Apart hs w :=
  fun i hi j hj => h i (hsub i hi) j (hsub j hj)

theorem InMemory.Apart.earlier (h : InMemory.Apart hs w') (hl : InMemory.Later w w') :
    InMemory.Apart hs w := by
  intro i hi j hj x y hx hy he
  obtain ⟨x', hx', hxa⟩ := hl.copies i x hx
  obtain ⟨y', hy', hya⟩ := hl.copies j y hy
  exact h i hi j hj x' y' hx' hy' (by rw [hxa.stream_eq, hya.stream_eq, he])

namespace Movement.Matches

variable {m : Movement} {batch : Batch} {x : WorkingCopy}

theorem durable_le (h : m.Matches batch w x) : m.durable ≤ x.durable := by
  by_cases he : x.durable = m.durable
  · exact Nat.le_of_eq he.symm
  · exact Nat.le_of_lt (h.dead he).1

theorem later (h : m.Matches batch w x) (hl : InMemory.Later w w') :
    ∃ x', m.Matches batch w' x' := by
  obtain ⟨x', hx', ha⟩ := hl.copies _ _ h.copy
  have hle := h.durable_le
  have hle' := ha.durable_le
  refine ⟨x', hx', h.durable_lt, by rw [ha.stream_eq]; exact h.expects, fun heq => ?_,
    fun hne => ?_⟩
  · -- Alive now is alive before: the oldest facts in the buffer are the same.
    obtain ⟨hstaged, hcarries⟩ := h.alive (by omega)
    obtain ⟨more, hmore⟩ := ha.pending (by omega)
    rw [ha.stream_eq, ← hmore, List.take_append_of_le_length (by omega), List.length_append]
    exact ⟨by omega, hcarries⟩
  · rw [ha.stream_eq]
    refine ⟨by omega, ?_⟩
    by_cases heq : x.durable = x'.durable
    · have := (h.dead (by omega)).2
      have := hl.head_le x.stream
      omega
    · exact ha.stored (by omega)

end Movement.Matches

namespace OpenBatch.Tidy

theorem empty (hs : List HandleId) (w : InMemory) : OpenBatch.empty.Tidy hs w where
  nodup := List.nodup_nil
  among := fun _ hi => absurd hi (by simp [OpenBatch.empty])
  moved := fun _ hm => absurd hm (by simp [OpenBatch.empty])
  covered := fun _ ha => absurd ha (by simp [OpenBatch.empty, Batch.empty])

theorem subset (h : b.Tidy hs w) (hsub : ∀ i ∈ hs, i ∈ hs') : b.Tidy hs' w :=
  { h with among := fun i hi => hsub i (h.among i hi) }

theorem later (h : b.Tidy hs w) (hl : InMemory.Later w w') : b.Tidy hs w' where
  nodup := h.nodup
  among := h.among
  moved := by
    intro m hm
    obtain ⟨x, hx⟩ := h.moved m hm
    exact hx.later hl
  covered := by
    intro a ha
    obtain ⟨i, hi, x, hx, hs⟩ := h.covered a ha
    obtain ⟨x', hx', hadv⟩ := hl.copies i x hx
    exact ⟨i, hi, x', hx', hadv.stream_eq.trans hs⟩

/-- Where nothing is staged for a copy the batch has nothing on its stream. -/
theorem not_on_stream (h : b.Tidy hs w) (apart : InMemory.Apart hs w) {i : HandleId} (hi : i ∈ hs)
    {x : WorkingCopy} (hx : w.copies[i]? = some x) (hnone : i ∉ b.moved.map Movement.handle) :
    ∀ a ∈ b.batch.staged, a.stream ≠ x.stream := by
  intro a ha he
  obtain ⟨j, hj, y, hy, hs⟩ := h.covered a ha
  exact hnone (apart i hi j (h.among j hj) x y hx hy (he.symm.trans hs.symm) ▸ hj)

end OpenBatch.Tidy

/-! ## Staging -/

namespace Movement.Matches

variable {m m₀ : Movement} {batch batch' : Batch} {x : WorkingCopy} {rs : List Record}

theorem extended (h : m.Matches batch w x) {a : Append} (hs : a.stream ≠ x.stream)
    (hb : batch'.staged = batch.staged ++ [a]) : m.Matches batch' w x := by
  have hon : Append.onto x.stream batch'.staged = Append.onto x.stream batch.staged := by
    rw [hb, Append.onto_append, Append.onto_eq_nil (List.forall_mem_singleton.2 hs),
      List.append_nil]
  refine { h with expects := h.expects.extend hb, alive := ?_ }
  rw [hon]
  exact h.alive

/-- All that a copy has buffered is staged, and nothing was staged for it before. -/
theorem first (hx : w.copies[m.handle]? = some x) (hp : 0 < x.pending.length)
    (hd : m.durable = x.durable) (hv : m.staged = x.durable + x.pending.length)
    (hon : ∀ a ∈ batch.staged, a.stream ≠ x.stream)
    (carries : List.Forall₂ Record.Carries rs x.pending)
    (hb : batch'.staged = batch.staged ++ [⟨x.stream, x.durable, rs⟩]) : m.Matches batch' w x where
  copy := hx
  durable_lt := by omega
  expects := by
    have hr : rs ≠ [] := List.ne_nil_of_length_pos (carries.length_eq ▸ hp)
    rw [hd]
    exact Batch.Expects.first hon hr hb
  alive := fun _ => by
    refine ⟨by omega, ?_⟩
    rw [hb, Append.onto_append, Append.onto_eq_nil hon, List.take_of_length_le (by omega)]
    simpa [Append.onto_cons] using carries
  dead := fun hne => absurd hd.symm hne

/-- The rest of what a copy has buffered is staged behind what was staged before. -/
theorem again (h : m₀.Matches batch w x) (hh : m.handle = m₀.handle) (hd : m.durable = m₀.durable)
    (hv : m.staged = x.durable + x.pending.length)
    (hmore : m₀.staged - m₀.durable < x.pending.length) {expected : Nat}
    (carries : List.Forall₂ Record.Carries rs (x.pending.drop (m₀.staged - m₀.durable)))
    (hb : batch'.staged = batch.staged ++ [⟨x.stream, expected, rs⟩]) : m.Matches batch' w x := by
  have hle := h.durable_le
  refine ⟨hh ▸ h.copy, by omega, hd ▸ h.expects.extend hb, fun heq => ⟨by omega, ?_⟩, fun hne => ?_⟩
  · obtain ⟨-, before⟩ := h.alive (by omega)
    rw [hb, Append.onto_append, List.take_of_length_le (by omega),
      ← List.take_append_drop (m₀.staged - m₀.durable) x.pending]
    refine List.rel_append before ?_
    simpa [Append.onto_cons] using carries
  · rw [hd] at hne ⊢
    exact h.dead hne

end Movement.Matches

/-- Staging what else a copy has buffered leaves every movement with what the batch has for it, and
the one of the copy with all of it. -/
theorem OpenBatch.Tidy.matches_note (tidy : b.Tidy hs w) (apart : InMemory.Apart hs w)
    {h : HandleId} (hmem : h ∈ hs) {x : WorkingCopy} (hx : w.copies[h]? = some x)
    (hmore : b.stagedFor h < x.pending.length) {batch : Batch} {rs : List Record}
    (carries : List.Forall₂ Record.Carries rs (x.pending.drop (b.stagedFor h)))
    (hb : batch.staged = b.batch.staged ++ [⟨x.stream, x.durable + b.stagedFor h, rs⟩])
    {m : Movement} (hm : m ∈ note h x.durable (x.durable + x.pending.length) b.moved) :
    (∃ y, m.Matches batch w y) ∧ (m.handle = h → x.pending.length ≤ m.staged - m.durable) := by
  rcases of_mem_note tidy.nodup hm with ⟨hm, hmh⟩ | ⟨hh, hstaged, hnew | hold⟩
  · -- A movement of another copy: the batch has nothing more on its stream.
    obtain ⟨y, hy⟩ := tidy.moved m hm
    have hi := tidy.among m.handle (List.mem_map_of_mem hm)
    have hys : x.stream ≠ y.stream := fun he =>
      hmh (apart m.handle hi h hmem y x hy.copy hx he.symm)
    exact ⟨⟨y, hy.extended hys hb⟩, fun hh => absurd hh hmh⟩
  · -- The copy is staged for the first time.
    obtain ⟨hnone, hd⟩ := hnew
    have hi : h ∉ b.moved.map Movement.handle := by
      intro hi
      obtain ⟨m', hm', he⟩ := List.mem_map.1 hi
      exact List.find?_eq_none.1 hnone m' hm' (by simpa using he)
    rw [stagedFor_of_not_mem hi] at hmore carries hb
    have hon := tidy.not_on_stream apart hmem hx hi
    exact ⟨⟨x, .first (hh ▸ hx) hmore hd hstaged hon carries hb⟩, fun _ => by omega⟩
  · -- It has been staged before: the batch goes on where it had stopped.
    obtain ⟨m₀, hm₀, -, hh₀, hd⟩ := hold
    obtain ⟨y, hy⟩ := tidy.moved m₀ hm₀
    obtain rfl : x = y := Option.some.inj (hx ▸ hh₀ ▸ hy.copy)
    have hskip := stagedFor_of_mem tidy.nodup hm₀
    rw [hh₀] at hskip
    rw [hskip] at hmore carries hb
    have hle := hy.durable_le
    exact ⟨⟨x, hy.again (hh.trans hh₀.symm) hd hstaged hmore carries hb⟩, fun _ => by omega⟩

/-- The batch with what else a copy has buffered. -/
theorem OpenBatch.Tidy.staged (tidy : b.Tidy hs w) (apart : InMemory.Apart hs w) {h : HandleId}
    (hmem : h ∈ hs) {x : WorkingCopy} (hx : w.copies[h]? = some x)
    (hmore : b.stagedFor h < x.pending.length) {log : Log} {entries : List Entry} {head : Head}
    {v : Nat} {batch : Batch}
    (ready : List.Forall₂ Entry.Carries entries (x.pending.drop (b.stagedFor h)))
    (hstage : log.stageBehind b.batch x.stream entries (x.durable + b.stagedFor h) head =
      .ok (v, batch)) :
    (⟨batch, note h x.durable v b.moved⟩ : OpenBatch).Tidy hs w ∧
      x.pending.length ≤ (⟨batch, note h x.durable v b.moved⟩ : OpenBatch).stagedFor h := by
  obtain ⟨-, hv, hst⟩ := Log.stageBehind_eq_ok hstage
  have hlen : entries.length = x.pending.length - b.stagedFor h := by
    rw [ready.length_eq, List.length_drop]
  obtain rfl : v = x.durable + x.pending.length := by omega
  rw [if_neg (List.ne_nil_of_length_pos (by omega))] at hst
  have carries := log.sealer.forall₂_chain x.stream head ready
  have matches_note {m : Movement} (hm : m ∈ note h x.durable _ b.moved) :=
    tidy.matches_note apart hmem hx hmore carries hst hm
  have hcovered : h ∈ (note h x.durable (x.durable + x.pending.length) b.moved).map
      Movement.handle := mem_handles_note.2 (.inl rfl)
  refine ⟨⟨nodup_note tidy.nodup, fun i hi => ?_, fun m hm => (matches_note hm).1,
    fun a ha => ?_⟩, ?_⟩
  · rcases mem_handles_note.1 hi with rfl | hi
    · exact hmem
    · exact tidy.among i hi
  · rw [hst] at ha
    rcases List.mem_append.1 ha with ha | ha
    · obtain ⟨i, hi, y, hy⟩ := tidy.covered a ha
      exact ⟨i, mem_handles_note.2 (.inr hi), y, hy⟩
    · obtain rfl := List.mem_singleton.1 ha
      exact ⟨h, hcovered, x, hx, rfl⟩
  · obtain ⟨m, hm, hh⟩ := List.mem_map.1 hcovered
    have hstaged := stagedFor_of_mem
      (b := ⟨batch, note h x.durable (x.durable + x.pending.length) b.moved⟩)
      (nodup_note tidy.nodup) hm
    rw [hh] at hstaged
    rw [hstaged]
    exact (matches_note hm).2 hh

end TransferLedger

import Mathlib.Data.List.Nodup
import TransferLedger.Coordinator
import TransferLedger.Proofs.Log.Staging
import TransferLedger.Proofs.Office.Requests

/-!
# Movements that keep step

A coordinator's batch notes how far it takes each working copy, and three counters have to agree:
the durable version of the copy, the durable version that was noted, and the version noted as
staged. Others may confirm facts to the copy in the meantime, so they need not agree for ever.
What holds instead is that a movement is either alive or dead (`InStep`).  While it is alive the
durable versions are the same and the batch has a record for each fact staged; once it is dead the
stream has grown past the first record that the batch has for it.  A batch with a dead movement
cannot land (`AllDue.of_landed`): so when it does land, every movement is due to be confirmed, by
the party that has stored its records and by nobody else.

Several copies may stand for one stream, and a batch has records of each that it has staged.  But
each record of the batch is within a movement on its stream, so when the batch lands it is one of
the facts that a copy had in its buffer (`Follows.due_of_new`).  What the batch has for a stream ends
where the movement of one copy ends, and no two movements on a stream begin at the same version.  So
there is a copy then that stands for all that the stream holds (`Follows.reaches_end`).
-/

set_option autoImplicit false

namespace TransferLedger

/-! ## Notes -/

namespace OpenBatch

theorem handles_note (h : HandleId) (d v : Nat) (ms : List Movement) :
    (note h d v ms).map Movement.handle =
      if h ∈ ms.map Movement.handle then ms.map Movement.handle
      else ms.map Movement.handle ++ [h] := by
  induction ms with
  | nil => rfl
  | cons m rest ih =>
    unfold note
    by_cases he : m.handle = h
    · rw [if_pos he]
      simp [he]
    · rw [if_neg he, List.map_cons, ih, List.map_cons]
      by_cases hr : h ∈ rest.map Movement.handle
      · rw [if_pos hr, if_pos (List.mem_cons_of_mem _ hr)]
      · rw [if_neg hr, if_neg (by simpa [Ne.symm he] using hr), List.cons_append]

theorem nodup_note {h : HandleId} {d v : Nat} {ms : List Movement}
    (hn : (ms.map Movement.handle).Nodup) : ((note h d v ms).map Movement.handle).Nodup := by
  rw [handles_note]
  by_cases hm : h ∈ ms.map Movement.handle
  · rwa [if_pos hm]
  · rw [if_neg hm]
    refine List.nodup_append.2 ⟨hn, by simp, ?_⟩
    intro a ha b hb
    obtain rfl := List.mem_singleton.1 hb
    exact fun e => hm (e ▸ ha)

/-- A noted movement is one of another copy, or it is the one of this copy with a new version. -/
theorem of_mem_note {h : HandleId} {d v : Nat} {ms : List Movement} {m : Movement}
    (hn : (ms.map Movement.handle).Nodup) (hm : m ∈ note h d v ms) :
    (m ∈ ms ∧ m.handle ≠ h) ∨
      (m.handle = h ∧ m.staged = v ∧
        ((ms.find? fun x => x.handle == h) = none ∧ m.durable = d ∨
          ∃ m₀ ∈ ms, (ms.find? fun x => x.handle == h) = some m₀ ∧ m₀.handle = h ∧
            m.durable = m₀.durable)) := by
  induction ms with
  | nil =>
    obtain rfl : m = ⟨h, d, v⟩ := by simpa [note] using hm
    exact .inr ⟨rfl, rfl, .inl ⟨rfl, rfl⟩⟩
  | cons x rest ih =>
    rw [List.map_cons, List.nodup_cons] at hn
    unfold note at hm
    by_cases he : x.handle = h
    · rw [if_pos he] at hm
      rcases List.mem_cons.1 hm with rfl | hr
      · refine .inr ⟨he, rfl, .inr ⟨x, by simp, ?_, he, rfl⟩⟩
        simp [he]
      · -- There is one note on each copy, so this one is on another.
        refine .inl ⟨List.mem_cons_of_mem x hr, fun hx => hn.1 ?_⟩
        rw [he, ← hx]
        exact List.mem_map_of_mem hr
    · rw [if_neg he] at hm
      have hf : ((x :: rest).find? fun y => y.handle == h) = rest.find? fun y => y.handle == h := by
        rw [List.find?_cons_of_neg (by simpa using he)]
      rcases List.mem_cons.1 hm with rfl | hr
      · exact .inl ⟨List.mem_cons_self, he⟩
      · rw [hf]
        rcases ih hn.2 hr with ⟨h1, h2⟩ | ⟨h1, h2, h3 | ⟨m₀, hm₀, h3⟩⟩
        · exact .inl ⟨List.mem_cons_of_mem x h1, h2⟩
        · exact .inr ⟨h1, h2, .inl h3⟩
        · exact .inr ⟨h1, h2, .inr ⟨m₀, List.mem_cons_of_mem x hm₀, h3⟩⟩

theorem mem_note_other {h : HandleId} {d v : Nat} {ms : List Movement} {m : Movement} (hm : m ∈ ms)
    (hne : m.handle ≠ h) : m ∈ note h d v ms := by
  induction ms with
  | nil => exact absurd hm (by simp)
  | cons x rest ih =>
    unfold note
    rcases List.mem_cons.1 hm with rfl | hr
    · rw [if_neg hne]
      exact List.mem_cons_self
    · split
      · exact List.mem_cons_of_mem _ hr
      · exact List.mem_cons_of_mem _ (ih hr)

theorem exists_mem_note (h : HandleId) (d v : Nat) (ms : List Movement) :
    ∃ m ∈ note h d v ms, m.handle = h ∧ m.staged = v := by
  induction ms with
  | nil => exact ⟨⟨h, d, v⟩, List.mem_singleton_self _, rfl, rfl⟩
  | cons x rest ih =>
    unfold note
    by_cases he : x.handle = h
    · rw [if_pos he]
      exact ⟨_, List.mem_cons_self, he, rfl⟩
    · rw [if_neg he]
      obtain ⟨m, hm, hms⟩ := ih
      exact ⟨m, List.mem_cons_of_mem x hm, hms⟩

end OpenBatch

/-! ## In step -/

/-- Some record of a batch has a given position of a stream and holds a given fact. -/
def Batch.Holds (b : Batch) (stream : String) (sequence : Nat) (e : Event) : Prop :=
  ∃ r ∈ b.records, r.stream = stream ∧ r.sequence = sequence ∧ r.Carries e

namespace Chronicle

/-- The movement keeps step with its copy: it has a first record, and it is alive or dead. -/
structure InStep (s : Chronicle) (b : Batch) (m : Movement) (c : WorkingCopy) : Prop where
  copy : s.copies[m.handle]? = some c
  durable_lt : m.durable < m.staged
  first : ∃ e, b.Holds c.stream (m.durable + 1) e
  alive : c.durable = m.durable → m.staged ≤ m.durable + c.pending.length ∧
    ∀ i e, i < m.staged - m.durable → c.pending[i]? = some e →
      b.Holds c.stream (m.durable + i + 1) e
  dead : c.durable ≠ m.durable →
    m.durable < c.durable ∧ c.durable ≤ (s.medium.records c.stream).length

/-- The stream of the copy with a handle. -/
def stream? (s : Chronicle) (h : HandleId) : Option String :=
  s.copies[h]?.map WorkingCopy.stream

/-- An open batch is in order: its records are lawful, its movements keep step, and on each stream
they go up to its end. -/
structure Follows (L : Law) (b : OpenBatch) (s : Chronicle) : Prop where
  lawful : ∀ r ∈ b.batch.records, L.record r
  nodup : (b.moved.map Movement.handle).Nodup
  moved : ∀ m ∈ b.moved, ∃ c, s.InStep b.batch m c
  topped : b.batch.Topped
  covered : ∀ r ∈ b.batch.records, ∃ m ∈ b.moved, s.stream? m.handle = some r.stream ∧
    m.durable < r.sequence ∧ r.sequence ≤ m.staged
  ends : ∀ stream g, b.batch.head? stream = some g →
    ∃ m ∈ b.moved, s.stream? m.handle = some stream ∧ m.staged = g.version
  /-- Two movements on one stream do not begin at the same version. -/
  apart : ∀ m ∈ b.moved, ∀ m' ∈ b.moved, s.stream? m.handle = s.stream? m'.handle →
    m.durable = m'.durable → m = m'

/-- The facts of a movement are stored by a party and not confirmed yet. -/
structure Due (p : Party) (s : Chronicle) (m : Movement) (c : WorkingCopy) : Prop where
  copy : s.copies[m.handle]? = some c
  durable_lt : c.durable < m.staged
  stores : s.medium.Stores c m.staged
  author : (s.authors c.stream)[c.durable]? = some p

variable {L : Law} {p : Party} {s s' : Chronicle}

theorem stream?_eq {h : HandleId} {c : WorkingCopy} (hc : s.copies[h]? = some c) :
    s.stream? h = some c.stream := by
  rw [stream?, hc]
  rfl

/-- A copy stays one of its stream. -/
theorem Rely.stream?_eq (hr : Rely p s s') {h : HandleId} {c : WorkingCopy}
    (hc : s.copies[h]? = some c) : s'.stream? h = s.stream? h := by
  obtain ⟨c', hc', he⟩ := hr.copies h c hc
  rw [Chronicle.stream?_eq hc', Chronicle.stream?_eq hc, he.stream_eq]

theorem InStep.durable_le {b : Batch} {m : Movement} {c : WorkingCopy} (h : s.InStep b m c) :
    m.durable ≤ c.durable := by
  by_cases he : c.durable = m.durable
  · exact Nat.le_of_eq he.symm
  · exact Nat.le_of_lt (h.dead he).1

/-- Whatever the others make of the copy, the movement keeps step. -/
theorem InStep.later {b : Batch} {m : Movement} {c : WorkingCopy} (h : s.InStep b m c)
    (hr : Rely p s s') : ∃ c', s'.InStep b m c' := by
  obtain ⟨c', hc', he⟩ := hr.copies _ _ h.copy
  refine ⟨c', hc', h.durable_lt, ?_, fun hd => ?_, fun hd => ?_⟩
  · rw [he.stream_eq]
    exact h.first
  · -- Alive now is alive before: the buffer has only grown.
    have := h.durable_le
    have := he.durable_le
    obtain ⟨h1, h2⟩ := h.alive (by omega)
    have hpre := he.pending (by omega)
    refine ⟨Nat.le_trans h1 (Nat.add_le_add_left hpre.length_le _), fun i e hi hpe => ?_⟩
    obtain ⟨more, hmore⟩ := hpre
    rw [he.stream_eq]
    refine h2 i e hi ?_
    rwa [← hmore, List.getElem?_append_left (by omega)] at hpe
  · -- Dead now: it was dead before, or somebody has confirmed facts since.
    have := he.durable_le
    have := h.durable_le
    rw [he.stream_eq]
    refine ⟨by omega, ?_⟩
    by_cases heq : c.durable = c'.durable
    · have := (h.dead (by omega)).2
      have := hr.within.length_le c.stream
      omega
    · exact he.stored (by omega)

theorem Follows.stable (b : OpenBatch) : (officeRules L p).Stable (Follows L b) := by
  intro s s' h hr _
  have same (m : Movement) (hm : m ∈ b.moved) : s'.stream? m.handle = s.stream? m.handle := by
    obtain ⟨c, hc⟩ := h.moved m hm
    exact hr.stream?_eq hc.copy
  refine ⟨h.lawful, h.nodup, fun m hm => ?_, h.topped, fun r hmem => ?_, fun stream g hg => ?_,
    fun m hm m' hm' => ?_⟩
  · obtain ⟨c, hc⟩ := h.moved m hm
    exact hc.later hr
  · obtain ⟨m, hm, hs, hin⟩ := h.covered r hmem
    exact ⟨m, hm, (same m hm).trans hs, hin⟩
  · obtain ⟨m, hm, hs, hv⟩ := h.ends stream g hg
    exact ⟨m, hm, (same m hm).trans hs, hv⟩
  · rw [same m hm, same m' hm']
    exact h.apart m hm m' hm'

theorem Follows.empty (L : Law) (s : Chronicle) : Follows L .empty s where
  lawful := by simp [OpenBatch.empty, Batch.empty, Batch.records]
  nodup := by simp [OpenBatch.empty]
  moved := by simp [OpenBatch.empty]
  topped := by simp [Batch.Topped, OpenBatch.empty, Batch.empty, Batch.records]
  covered := by simp [OpenBatch.empty, Batch.empty, Batch.records]
  ends := by simp [OpenBatch.empty, Batch.empty, Batch.records, Batch.head?]
  apart := by simp [OpenBatch.empty]

/-- What is due to a party stays due until it has confirmed it itself. -/
theorem Due.later {m : Movement} {c : WorkingCopy} (h : Due p s m c) (hr : Rely p s s') :
    ∃ c', Due p s' m c' := by
  obtain ⟨c', hc', he⟩ := hr.copies _ _ h.copy
  have hau := hr.author h.author
  -- The first of the facts has the party's name on it, so nobody else may confirm it.
  have heq : c.durable = c'.durable :=
    Nat.le_antisymm he.durable_le (Nat.le_of_not_lt fun hlt => he.author hlt hau)
  have hpre := he.pending heq
  refine ⟨c', hc', heq ▸ h.durable_lt, ⟨heq ▸ h.stores.durable_le, ?_, fun i e hi hpe => ?_⟩, ?_⟩
  · have := h.stores.le_pending
    have := hpre.length_le
    omega
  · obtain ⟨more, hmore⟩ := hpre
    have hle := h.stores.le_pending
    rw [← heq] at hi ⊢
    rw [← hmore, List.getElem?_append_left (by omega)] at hpe
    obtain ⟨r, hrec, hcar⟩ := h.stores.carried i e hi hpe
    refine ⟨r, ?_, hcar⟩
    rw [he.stream_eq]
    exact hr.within.getElem? hrec
  · rw [he.stream_eq, ← heq]
    exact hau

/-- Everything that a batch was to move is due to a party. -/
def AllDue (p : Party) (ms : List Movement) (s : Chronicle) : Prop :=
  (ms.map Movement.handle).Nodup ∧ ∀ m ∈ ms, ∃ c, Due p s m c

theorem AllDue.stable (ms : List Movement) : (officeRules L p).Stable (AllDue p ms) := by
  rintro s s' ⟨hn, hd⟩ hr -
  refine ⟨hn, fun m hm => ?_⟩
  obtain ⟨c, hc⟩ := hd m hm
  exact hc.later hr

/-! ## Landing -/

/-- A record of a batch that lands stands where its position says. -/
theorem landed_of_mem {b : Batch} {m : Memory} (ho : s.medium.Orderly)
    (hm : s.medium.commit b.staged = .ok m) {r : Record} (hr : r ∈ b.records) :
    (s.medium.records r.stream).length < r.sequence ∧
      (m.records r.stream)[r.sequence - 1]? = some r := by
  obtain ⟨a, ha, hra⟩ := List.mem_flatMap.1 hr
  have hon : r ∈ Append.onto a.stream b.staged :=
    List.mem_flatMap.2 ⟨a, List.mem_filter.2 ⟨ha, by simp⟩, hra⟩
  obtain ⟨h1, h2, h3⟩ := ho.landed hm hon
  rw [h1]
  exact ⟨h2, h3⟩

/-- A batch that lands has no dead movement: it would have its first record where the stream has one
already. -/
theorem InStep.alive_of_landed {b : Batch} {m : Memory} {mv : Movement} {c : WorkingCopy}
    (h : s.InStep b mv c) (ho : s.medium.Orderly) (hm : s.medium.commit b.staged = .ok m) :
    c.durable = mv.durable ∧ (s.medium.records c.stream).length ≤ mv.durable ∧
      mv.durable < (m.records c.stream).length := by
  obtain ⟨e, r, hr, hst, hseq, -⟩ := h.first
  obtain ⟨hlen, hat⟩ := landed_of_mem ho hm hr
  rw [hst, hseq] at hlen hat
  refine ⟨Decidable.byContradiction fun hne => ?_, by omega, ?_⟩
  · have := h.dead hne
    omega
  · exact (List.getElem?_eq_some_iff.1 hat).1

/-- All that a batch moves is due, once it has landed, to the party that has stored it. -/
theorem AllDue.of_landed {b : OpenBatch} {m : Memory} (hs : Holds L s) (hb : Follows L b s)
    (hm : s.medium.commit b.batch.staged = .ok m) :
    AllDue p b.moved (s.after p (s.landed m)) := by
  refine ⟨hb.nodup, fun mv hmv => ?_⟩
  obtain ⟨c, hc⟩ := hb.moved mv hmv
  obtain ⟨heq, hlen, hnew⟩ := hc.alive_of_landed hs.orderly hm
  obtain ⟨hle, hheld⟩ := hc.alive heq
  have hlt := hc.durable_lt
  refine ⟨c, hc.copy, by omega, ⟨by omega, by omega, fun i e hi hpe => ?_⟩, ?_⟩
  · rw [heq] at hi ⊢
    obtain ⟨r, hr, hst, hseq, hcar⟩ := hheld i e hi hpe
    obtain ⟨-, hat⟩ := landed_of_mem hs.orderly hm hr
    rw [hst, hseq] at hat
    exact ⟨r, hat, hcar⟩
  · rw [authors_after_landed hm, heq, List.getElem?_append_right (by rw [hs.noted]; omega)]
    rw [Memory.records_commit hm, List.length_append] at hnew
    rw [hs.noted, List.getElem?_replicate, if_pos (by omega)]

/-- Every record that a batch adds when it lands is within a movement that is due then. -/
theorem Follows.due_of_new {b : OpenBatch} {m : Memory} (hs : Holds L s) (hb : Follows L b s)
    (hm : s.medium.commit b.batch.staged = .ok m) {stream : String} {i : Nat}
    (old : (s.medium.records stream).length ≤ i) (new : i < (m.records stream).length) :
    ∃ mv ∈ b.moved, ∃ c, Due p (s.after p (s.landed m)) mv c ∧ s.copies[mv.handle]? = some c ∧
      c.stream = stream ∧ (s.medium.records stream).length ≤ c.durable ∧ c.durable ≤ i ∧
      i < mv.staged := by
  obtain ⟨r, hr⟩ : ∃ r, (m.records stream)[i]? = some r := ⟨_, List.getElem?_eq_getElem new⟩
  obtain ⟨hrs, hseq⟩ := (hs.orderly.commit hm).sequence hr
  rw [Memory.records_commit hm, List.getElem?_append_right old] at hr
  obtain ⟨a, ha, hra⟩ := Append.mem_of_mem_onto (List.mem_of_getElem? hr)
  obtain ⟨mv, hmv, hst, hlt, hle⟩ := hb.covered r (List.mem_flatMap.2 ⟨a, ha, hra⟩)
  obtain ⟨c, hdue⟩ := (AllDue.of_landed (p := p) hs hb hm).2 mv hmv
  have hcs : c.stream = stream :=
    (Option.some.inj ((stream?_eq hdue.copy).symm.trans hst)).trans hrs
  obtain ⟨c', hstep⟩ := hb.moved mv hmv
  obtain rfl : c = c' := Option.some.inj (hdue.copy.symm.trans hstep.copy)
  obtain ⟨hd, hfrom, -⟩ := hstep.alive_of_landed hs.orderly hm
  rw [hcs] at hfrom
  exact ⟨mv, hmv, c, hdue, hstep.copy, hcs, by omega, by omega, by omega⟩

/-- Where a batch that lands has added to a stream, one of its movements goes up to the end that the
stream has then. -/
theorem Follows.reaches_end {b : OpenBatch} {m : Memory} (hs : Holds L s) (hb : Follows L b s)
    (hm : s.medium.commit b.batch.staged = .ok m) {stream : String}
    (grown : Append.onto stream b.batch.staged ≠ []) :
    ∃ mv ∈ b.moved, ∃ c, Due p (s.after p (s.landed m)) mv c ∧ c.stream = stream ∧
      mv.staged = (m.records stream).length := by
  -- The last record of the stream is one of the batch.
  obtain ⟨r, hr⟩ := Option.isSome_iff_exists.1 (List.getLast?_isSome.2 grown)
  have hmem := List.mem_of_getLast? hr
  obtain ⟨hrs, -, -⟩ := hs.orderly.landed hm hmem
  have hseq : r.sequence = (m.records stream).length := by
    rw [← (hs.orderly.commit hm).version_head, Memory.head, Memory.records_commit hm,
      Head.after_append, Head.after_of_getLast? hr]
    rfl
  obtain ⟨g, hg, hle⟩ := hb.topped r (by
    obtain ⟨a, ha, hra⟩ := Append.mem_of_mem_onto hmem
    exact List.mem_flatMap.2 ⟨a, ha, hra⟩)
  rw [hrs] at hg
  obtain ⟨mv, hmv, hst, hend⟩ := hb.ends stream g hg
  obtain ⟨c, hdue⟩ := (AllDue.of_landed (p := p) hs hb hm).2 mv hmv
  have hcs : c.stream = stream := Option.some.inj ((stream?_eq hdue.copy).symm.trans hst)
  have hlen := hdue.stores.le_length hdue.durable_lt
  rw [hcs] at hlen
  have hlen' : mv.staged ≤ (m.records stream).length := hlen
  exact ⟨mv, hmv, c, hdue, hcs, by omega⟩

/-- Where a batch that lands has added to a stream, the story of one of its copies tells of all that
the stream holds then. -/
theorem Follows.told_end {b : OpenBatch} {m : Memory} (hs : Holds L s) (hb : Follows L b s)
    (hm : s.medium.commit b.batch.staged = .ok m) {stream : String}
    (grown : Append.onto stream b.batch.staged ≠ []) :
    ∃ (y : Story) (c : WorkingCopy) (n : Nat), y.start.Settled ∧ L.start m y.start ∧
      y.Tells m c n ∧ c.stream = stream ∧ c.durable = (m.records stream).length := by
  obtain ⟨mv, -, c, hdue, hst, hend⟩ := hb.reaches_end (p := none) hs hm grown
  obtain ⟨y, hset, hstart, n, ht⟩ := hs.story hdue.copy
  have hw := Memory.within_commit hm
  -- Once the movement is confirmed, the copy knows of all that the stream holds.
  exact ⟨y, c.markCommitted mv.staged, _, hset, L.start_within hw hstart,
    (ht.within hw).confirm hdue.stores, hst, hend⟩

/-- A batch that lands leaves every stream as the law wants it. -/
theorem Follows.whole {b : OpenBatch} {m : Memory} (hs : Holds L s) (hb : Follows L b s)
    (hm : s.medium.commit b.batch.staged = .ok m) (stream : String) :
    L.whole stream (m.records stream) := by
  by_cases hon : Append.onto stream b.batch.staged = []
  · rw [Memory.records_commit hm, hon, List.append_nil]
    exact hs.whole stream
  · obtain ⟨y, c, n, hset, hstart, ht, rfl, hend⟩ := hb.told_end hs hm hon
    exact L.whole_told (hs.orderly.commit hm) hset hstart ht hend

end Chronicle

end TransferLedger

import Mathlib.Algebra.Ring.Nat
import TransferLedger.Proofs.Batch.Leading
import TransferLedger.Proofs.Log.Asking
import TransferLedger.Proofs.Log.Fitting

/-!
# A batch that gathers what copies have buffered

Where nobody else writes, what a coordinator has staged can be said outright.  For each copy that
its batch moves it has the oldest facts in the buffer; on each stream the movements lead from the
end that the medium has to the one that the batch leaves; and the batch has nothing else
(`OpenBatch.Gathers`).  Staging keeps that, in however many goes a buffer is staged
(`OpenBatch.Gathers.of_run_stageAll`).

So of a batch that has gathered all that some copies have buffered nothing is left of how that was
done: it leaves the same medium as any other such batch, and on each stream it moves the same copies
in the same order (`OpenBatch.Gathers.agree`).  If no two copies that it moves have the same stream,
there is no order to find, and staging everything at once succeeds
(`OpenBatch.Gathers.run_stageAll`).
-/

set_option autoImplicit false

namespace TransferLedger

variable {log : Log} {hs hs' : List HandleId} {b b' : OpenBatch} {w w' : InMemory} {h i : HandleId}
  {x y : WorkingCopy} {m : Movement} {stream : String}

/-- The oldest facts that a copy has buffered, ready to be stored. -/
def WorkingCopy.oldest (c : WorkingCopy) (now : Instant) (n : Nat) : List Entry :=
  (c.pending.take n).map (Event.entry now)

/-- The facts behind so many of them, ready to be stored. -/
def WorkingCopy.unstaged (c : WorkingCopy) (now : Instant) (n : Nat) : List Entry :=
  (c.pending.drop n).map (Event.entry now)

theorem WorkingCopy.oldest_append_unstaged (c : WorkingCopy) (now : Instant) (n : Nat) :
    c.oldest now n ++ c.unstaged now n = c.oldest now c.pending.length := by
  rw [oldest, unstaged, oldest, ← List.map_append, List.take_append_drop, List.take_length]

theorem WorkingCopy.length_unstaged (c : WorkingCopy) (now : Instant) (n : Nat) :
    (c.unstaged now n).length = c.pending.length - n := by
  rw [unstaged, List.length_map, List.length_drop]

/-- What is stored on one stream depends on that stream alone. -/
theorem Log.records_stored_of_eq {m m' : Memory} {es fs : List Entry}
    (same : m'.records stream = (log.stored stream es m).records stream) :
    (log.stored stream fs m').records stream = (log.stored stream (es ++ fs) m).records stream := by
  rw [← stored_append, records_stored, records_stored, same, Memory.head_congr same]

/-! ## What a batch has -/

/-- The number of facts that a batch has for a copy. -/
def Movement.gain (m : Movement) : Nat :=
  m.staged - m.durable

/-- A movement of a copy from where it stands, by no more than it has buffered. -/
structure Movement.Fills (m : Movement) (w : InMemory) (x : WorkingCopy) : Prop where
  copy : w.copies[m.handle]? = some x
  durable_eq : m.durable = x.durable
  durable_lt : m.durable < m.staged
  staged_le : m.staged ≤ m.durable + x.pending.length

/-- The facts that a movement stands for. -/
def InMemory.facts (w : InMemory) (m : Movement) : List Entry :=
  match w.copies[m.handle]? with
  | none => []
  | some x => x.oldest w.clock m.gain

theorem InMemory.facts_of_copy (hx : w.copies[m.handle]? = some x) :
    w.facts m = x.oldest w.clock m.gain := by
  rw [facts, hx]

theorem Movement.Fills.pending_ne_nil (hm : m.Fills w x) : x.pending ≠ [] := by
  have := hm.durable_lt
  have := hm.staged_le
  exact List.ne_nil_of_length_pos (by omega)

namespace OpenBatch

/-- The number of facts that a copy has buffered and that have not been staged. -/
def waiting (b : OpenBatch) (w : InMemory) (h : HandleId) : Nat :=
  match w.copies[h]? with
  | some x => x.pending.length - b.stagedFor h
  | none => 0

/-- The batch has for each copy that it moves the oldest facts in its buffer, and nothing else. -/
structure Gathers (log : Log) (hs : List HandleId) (b : OpenBatch) (w : InMemory) : Prop where
  fits : b.batch.Fits w.medium
  nodup : (b.moved.map Movement.handle).Nodup
  among : ∀ i ∈ b.moved.map Movement.handle, i ∈ hs
  moved : ∀ m ∈ b.moved, ∃ x, m.Fills w x
  leads (stream : String) : Movement.Leads (w.medium.head stream).version
    (w.onStream stream b.moved) ((b.batch.landed w.medium).head stream).version
  landed (stream : String) : (b.batch.landed w.medium).records stream =
    (log.stored stream ((w.onStream stream b.moved).flatMap w.facts) w.medium).records stream
  size : b.batch.size = (b.moved.map Movement.gain).sum

theorem waiting_of_copy (hx : w.copies[h]? = some x) :
    b.waiting w h = x.pending.length - b.stagedFor h := by
  rw [waiting, hx]

end OpenBatch

/-- Facts have been buffered, and copies put down.  Everything else is as it was. -/
structure InMemory.Buffers (w w' : InMemory) : Prop where
  medium : w'.medium = w.medium
  clock : w'.clock = w.clock
  copies (i : HandleId) (x : WorkingCopy) : w.copies[i]? = some x → ∃ x', w'.copies[i]? = some x' ∧
    x'.stream = x.stream ∧ x'.durable = x.durable ∧ x.pending <+: x'.pending

theorem Movement.Fills.later (hm : m.Fills w x) (hw : w.Buffers w') :
    (∃ x', m.Fills w' x') ∧ w'.stream? m.handle = w.stream? m.handle ∧ w'.facts m = w.facts m := by
  obtain ⟨x', hx', hstream, hdurable, more, hmore⟩ := hw.copies _ _ hm.copy
  have hle := hm.staged_le
  have hlen : m.gain ≤ x.pending.length := by
    unfold Movement.gain
    omega
  refine ⟨⟨x', hx', hm.durable_eq.trans hdurable.symm, hm.durable_lt, ?_⟩, ?_, ?_⟩
  · rw [← hmore, List.length_append]
    omega
  · rw [InMemory.stream?_of_copy hx', InMemory.stream?_of_copy hm.copy, hstream]
  · rw [InMemory.facts_of_copy hx', InMemory.facts_of_copy hm.copy, WorkingCopy.oldest, ← hmore,
      List.take_append_of_le_length hlen, hw.clock]
    rfl

namespace OpenBatch.Gathers

theorem empty (log : Log) (hs : List HandleId) (w : InMemory) :
    OpenBatch.empty.Gathers log hs w where
  fits := .empty w.medium
  nodup := List.nodup_nil
  among := fun _ hi => absurd hi (by simp [OpenBatch.empty])
  moved := fun _ hm => absurd hm (by simp [OpenBatch.empty])
  leads := fun _ => rfl
  landed := fun stream => by
    rw [show w.onStream stream OpenBatch.empty.moved = [] from rfl, List.flatMap_nil,
      Log.stored_nil]
    rfl
  size := rfl

theorem subset (hb : b.Gathers log hs w) (hsub : ∀ i ∈ hs, i ∈ hs') : b.Gathers log hs' w :=
  { hb with among := fun i hi => hsub i (hb.among i hi) }

theorem exists_copy (hb : b.Gathers log hs w) (hi : i ∈ b.moved.map Movement.handle) :
    ∃ m ∈ b.moved, m.handle = i ∧ ∃ x, m.Fills w x := by
  obtain ⟨m, hm, rfl⟩ := List.mem_map.1 hi
  exact ⟨m, hm, rfl, hb.moved m hm⟩

/-- What is buffered and put down later makes no difference. -/
theorem later (hb : b.Gathers log hs w) (hw : w.Buffers w') : b.Gathers log hs w' := by
  have same {m : Movement} (hm : m ∈ b.moved) := (hb.moved m hm).elim fun _ hx => hx.later hw
  have hon (stream : String) : w'.onStream stream b.moved = w.onStream stream b.moved :=
    InMemory.onStream_congr fun m hm => (same hm).2.1
  refine ⟨?_, hb.nodup, hb.among, fun m hm => (same hm).1, fun stream => ?_, fun stream => ?_,
    hb.size⟩
  · rw [hw.medium]
    exact hb.fits
  · rw [hw.medium, hon]
    exact hb.leads stream
  · have hfacts : (w.onStream stream b.moved).flatMap w'.facts =
        (w.onStream stream b.moved).flatMap w.facts :=
      List.flatMap_congr fun m hm => (same (InMemory.mem_onStream.1 hm).1).2.2
    rw [hw.medium, hon, hfacts]
    exact hb.landed stream

/-- A movement on a stream where no other copy is moved has the stream for itself. -/
theorem alone (hb : b.Gathers log hs w) (hm : m ∈ b.moved) (hx : m.Fills w x)
    (apart : InMemory.Apart (b.moved.map Movement.handle) w) :
    w.onStream x.stream b.moved = [m] := by
  have hmem : m ∈ w.onStream x.stream b.moved :=
    InMemory.mem_onStream.2 ⟨hm, InMemory.stream?_of_copy hx.copy⟩
  have honly : ∀ m' ∈ w.onStream x.stream b.moved, m'.handle = m.handle := by
    intro m' hm'
    obtain ⟨hm', hs⟩ := InMemory.mem_onStream.1 hm'
    obtain ⟨x', hx'⟩ := hb.moved m' hm'
    rw [InMemory.stream?_of_copy hx'.copy] at hs
    exact apart _ (List.mem_map_of_mem hm') _ (List.mem_map_of_mem hm) x' x hx'.copy hx.copy
      (Option.some.inj hs)
  rcases InMemory.onStream_of_alone hb.nodup honly with hnil | ⟨m', -, -, hone⟩
  · rw [hnil] at hmem
    exact absurd hmem (by simp)
  · rw [hone] at hmem ⊢
    rw [List.mem_singleton.1 hmem]

/-! ## Staging one copy -/

/-- If its stream, as the batch would leave it, is at the version that staging a copy expects, then
the copy is the last one that the batch moves on the stream, or none of its facts has been staged
yet.  In front of it are the movements of other copies. -/
theorem exists_front (hb : b.Gathers log hs w) (hx : w.copies[h]? = some x)
    (hv : ((b.batch.landed w.medium).head x.stream).version = x.durable + b.stagedFor h) :
    ∃ front, (∀ v, w.onStream x.stream (note h x.durable v b.moved) =
        front ++ [⟨h, x.durable, v⟩]) ∧
      Movement.Leads (w.medium.head x.stream).version front x.durable ∧
      (b.batch.landed w.medium).records x.stream =
        (log.stored x.stream (front.flatMap w.facts ++ x.oldest w.clock (b.stagedFor h))
          w.medium).records x.stream := by
  have hs := InMemory.stream?_of_copy hx
  have hlead := hb.leads x.stream
  have hland := hb.landed x.stream
  rw [hv] at hlead
  by_cases hh : h ∈ b.moved.map Movement.handle
  · obtain ⟨m, hm, rfl, x', hfill⟩ := hb.exists_copy hh
    obtain rfl := Option.some.inj (hx.symm.trans hfill.copy)
    have hfor := stagedFor_of_mem hb.nodup hm
    have hd := hfill.durable_eq
    have hlt := hfill.durable_lt
    obtain ⟨ms, ns, hsplit⟩ := List.append_of_mem hm
    have hfresh : m.handle ∉ ms.map Movement.handle := by
      have hn := hb.nodup
      rw [hsplit, List.map_append, List.map_cons] at hn
      exact fun hmem => (List.nodup_append.1 hn).2.2 _ hmem _ List.mem_cons_self rfl
    rw [hsplit, InMemory.onStream_append, InMemory.onStream_cons_of_eq hs] at hlead hland
    -- The others behind it would begin where the batch is already.
    obtain ⟨t, hfront, ht, -, hback⟩ := Movement.leads_append.1 hlead
    have hnil : w.onStream x.stream ns = [] := by
      refine Movement.Leads.eq_nil (v := m.staged) ?_
      rwa [hfor, ← hd, show m.durable + (m.staged - m.durable) = m.staged by omega] at hback
    refine ⟨w.onStream x.stream ms, fun v => ?_, ?_, ?_⟩
    · rw [hsplit, note_middle hfresh, InMemory.onStream_append,
        InMemory.onStream_cons_of_eq (m := ⟨m.handle, m.durable, v⟩) hs, hnil, ← hd]
    · rwa [← hd, ht]
    · rw [hland, hnil, List.flatMap_append, List.flatMap_singleton, InMemory.facts_of_copy hx, hfor]
      rfl
  · rw [stagedFor_of_not_mem hh] at hlead ⊢
    refine ⟨w.onStream x.stream b.moved, fun v => ?_, hlead, ?_⟩
    · rw [note_of_not_mem hh, InMemory.onStream_append, InMemory.onStream_cons_of_eq hs]
      rfl
    · rw [hland]
      simp [WorkingCopy.oldest]

/-- Noting how far a copy has been staged counts what has been staged since. -/
theorem sum_note (batch : Batch) (h : HandleId) (d v : Nat) {ms : List Movement}
    (hd : ∀ m ∈ ms, m.handle = h → m.durable = d) :
    ((note h d v ms).map Movement.gain).sum + (⟨batch, ms⟩ : OpenBatch).stagedFor h =
      (ms.map Movement.gain).sum + (v - d) := by
  induction ms with
  | nil => simp [note, stagedFor, Movement.gain]
  | cons m rest ih =>
    by_cases he : m.handle = h
    · have hm := hd m List.mem_cons_self he
      simp [note, stagedFor, he, Movement.gain, hm]
      omega
    · have hfor : (⟨batch, m :: rest⟩ : OpenBatch).stagedFor h =
          (⟨batch, rest⟩ : OpenBatch).stagedFor h := by
        simp [stagedFor, he]
      have := ih fun m hm => hd m (List.mem_cons_of_mem _ hm)
      rw [hfor, note, if_neg he, List.map_cons, List.map_cons, List.sum_cons, List.sum_cons]
      omega

/-- The batch with what else a copy has buffered. -/
theorem staged (hb : b.Gathers log hs w) (hh : h ∈ hs) (hx : w.copies[h]? = some x)
    (more : b.stagedFor h < x.pending.length)
    (hv : ((b.batch.landed w.medium).head x.stream).version = x.durable + b.stagedFor h)
    {batch : Batch} (hbatch : Batch.Fits.Extended log w.medium x.stream
      (x.unstaged w.clock (b.stagedFor h)) b.batch batch) :
    OpenBatch.Gathers log hs
      ⟨batch, note h x.durable (x.durable + x.pending.length) b.moved⟩ w := by
  obtain ⟨front, hnote, hfront, hland⟩ := hb.exists_front hx hv
  have hdurable : ∀ m ∈ b.moved, m.handle = h → m.durable = x.durable := by
    intro m hm he
    obtain ⟨x', hfill⟩ := hb.moved m hm
    obtain rfl := Option.some.inj (hx.symm.trans (he ▸ hfill.copy))
    exact hfill.durable_eq
  have hother {stream : String} (hne : stream ≠ x.stream) :
      w.onStream stream (note h x.durable (x.durable + x.pending.length) b.moved) =
        w.onStream stream b.moved := by
    refine onStream_note_other ?_
    rw [InMemory.stream?_of_copy hx]
    exact fun he => hne (Option.some.inj he).symm
  refine ⟨hbatch.fits, nodup_note hb.nodup, fun i hi => ?_, fun m hm => ?_, fun stream => ?_,
    fun stream => ?_, ?_⟩
  · rcases mem_handles_note.1 hi with rfl | hi
    · exact hh
    · exact hb.among i hi
  · rcases of_mem_note hb.nodup hm with ⟨hm, -⟩ | ⟨rfl, hstaged, hd⟩
    · exact hb.moved m hm
    · have hd : m.durable = x.durable := by
        rcases hd with ⟨-, hd⟩ | ⟨m₀, hm₀, -, hh₀, hd⟩
        · exact hd
        · exact hd.trans (hdurable m₀ hm₀ hh₀)
      exact ⟨x, hx, hd, by omega, by omega⟩
  · show Movement.Leads _ (w.onStream stream (note h x.durable _ b.moved))
      ((batch.landed w.medium).head stream).version
    rw [hbatch.landed]
    by_cases hs : stream = x.stream
    · subst hs
      rw [hnote, Log.version_stored, hv, WorkingCopy.length_unstaged]
      exact Movement.leads_append.2 ⟨x.durable, hfront,
        Movement.leads_singleton.2 ⟨rfl, by simp only; omega, by simp only; omega⟩⟩
    · rw [hother hs, Log.head_stored_other hs]
      exact hb.leads stream
  · show (batch.landed w.medium).records stream = (log.stored stream
      ((w.onStream stream (note h x.durable _ b.moved)).flatMap w.facts) w.medium).records stream
    rw [hbatch.landed]
    by_cases hs : stream = x.stream
    · subst hs
      rw [hnote, Log.records_stored_of_eq hland, List.append_assoc,
        WorkingCopy.oldest_append_unstaged, List.flatMap_append, List.flatMap_singleton,
        InMemory.facts_of_copy (x := x) hx, Movement.gain, Nat.add_sub_cancel_left]
    · rw [hother hs, Log.records_stored_other hs]
      exact hb.landed stream
  · have hsum := sum_note b.batch h x.durable (x.durable + x.pending.length) hdurable
    have hsize := hbatch.size
    rw [hb.size, WorkingCopy.length_unstaged] at hsize
    rw [show (⟨b.batch, b.moved⟩ : OpenBatch).stagedFor h = b.stagedFor h from rfl] at hsum
    show batch.size = ((note h x.durable _ b.moved).map Movement.gain).sum
    omega

end OpenBatch.Gathers

/-! ## Staging in peace -/

namespace Log

/-- While nothing else happens the clock stands still. -/
theorem run_entries (es : List Event) (w : InMemory) :
    (Dialogue.entries es).run w = (es.map (Event.entry w.clock), w) := by
  have htime : Dialogue.time.run w = (w.clock, w) := rfl
  induction es with
  | nil => rfl
  | cons e rest ih =>
    rw [Dialogue.entries, Dialogue.run_bind_of htime, Dialogue.run_bind_of ih]
    rfl

theorem run_stageCopy_of_none (hx : w.copies[h]? = none) :
    (log.stageCopy h b).run w = (.ok (0, b), w) := by
  have hlook : (Dialogue.look h).run w = (none, w) := congrArg (·, w) hx
  rw [stageCopy, Dialogue.run_bind_of hlook]
  rfl

theorem run_stageCopy_of_le (hx : w.copies[h]? = some x) (all : x.pending.length ≤ b.stagedFor h) :
    (log.stageCopy h b).run w = (.ok (0, b), w) := by
  have hlook : (Dialogue.look h).run w = (some x, w) := congrArg (·, w) hx
  rw [stageCopy, Dialogue.run_bind_of hlook]
  simp only [if_pos all]
  rfl

theorem run_stageCopy_of_lt (hx : w.copies[h]? = some x) (more : b.stagedFor h < x.pending.length) :
    (log.stageCopy h b).run w =
      match (log.stage b.batch x.stream (x.unstaged w.clock (b.stagedFor h))
        (x.durable + b.stagedFor h)).run w with
      | (.error e, w') => (.error e, w')
      | (.ok (v, batch), w') =>
        (.ok (x.pending.length - b.stagedFor h, ⟨batch, OpenBatch.note h x.durable v b.moved⟩),
          w') := by
  have hlook : (Dialogue.look h).run w = (some x, w) := congrArg (·, w) hx
  have hready : (Dialogue.entries (x.pending.drop (b.stagedFor h))).run w =
      (x.unstaged w.clock (b.stagedFor h), w) := run_entries ..
  have hlen := x.length_unstaged w.clock (b.stagedFor h)
  rw [stageCopy, Dialogue.run_bind_of hlook]
  simp only [if_neg (Nat.not_le.2 more)]
  rw [Dialogue.run_bind_of hready, Dialogue.run_bind]
  rcases (log.stage b.batch x.stream (x.unstaged w.clock (b.stagedFor h))
    (x.durable + b.stagedFor h)).run w with ⟨e | ⟨v, batch⟩, w'⟩
  · rfl
  · simp only [hlen]
    rfl

end Log

namespace OpenBatch

/-- What a batch has become when what some copies had buffered has been staged. -/
structure Stages (log : Log) (hs : List HandleId) (w : InMemory) (is : List HandleId) (n : Nat)
    (b b' : OpenBatch) : Prop where
  gathers : b'.Gathers log hs w
  count : n = (is.map (b.waiting w)).sum
  size : b'.batch.size = b.batch.size + n
  all : ∀ i ∈ is, b'.waiting w i = 0
  others : ∀ i ∉ is, b'.waiting w i = b.waiting w i

/-- With the rest of a buffer a copy has nothing waiting, and the others have what they had. -/
theorem Gathers.stages_staged (hb : b.Gathers log hs w) (hh : h ∈ hs) (hx : w.copies[h]? = some x)
    (more : b.stagedFor h < x.pending.length)
    (hv : ((b.batch.landed w.medium).head x.stream).version = x.durable + b.stagedFor h)
    {batch : Batch} (hbatch : Batch.Fits.Extended log w.medium x.stream
      (x.unstaged w.clock (b.stagedFor h)) b.batch batch) :
    Stages log hs w [h] (x.pending.length - b.stagedFor h) b
      ⟨batch, note h x.durable (x.durable + x.pending.length) b.moved⟩ := by
  have hgathers := hb.staged hh hx more hv hbatch
  refine ⟨hgathers, ?_, ?_, fun i hi => ?_, fun i hi => ?_⟩
  · rw [List.map_singleton, List.sum_singleton, waiting_of_copy hx]
  · rw [hbatch.size, WorkingCopy.length_unstaged]
  · obtain rfl := List.mem_singleton.1 hi
    obtain ⟨m, hm, hmh, x', hfill⟩ := hgathers.exists_copy (mem_handles_note.2 (.inl rfl))
    obtain ⟨m', hm', hmh', hstaged⟩ :=
      exists_mem_note i x.durable (x.durable + x.pending.length) b.moved
    obtain rfl : m' = m := List.inj_on_of_nodup_map hgathers.nodup hm' hm (hmh'.trans hmh.symm)
    obtain rfl := Option.some.inj (hx.symm.trans (hmh ▸ hfill.copy))
    have hfor := stagedFor_of_mem hgathers.nodup hm
    have hd := hfill.durable_eq
    rw [hmh] at hfor
    rw [waiting_of_copy hx, hfor]
    omega
  · rw [waiting, waiting, stagedFor_note_other (List.ne_of_not_mem_cons hi)]

theorem Stages.cons {is : List HandleId} {n k : Nat} {b₁ : OpenBatch}
    (first : Stages log hs w [h] n b b₁)
    (rest : Stages log hs w is k b₁ b') (apart : h ∉ is) :
    Stages log hs w (h :: is) (n + k) b b' where
  gathers := rest.gathers
  count := by
    have hsame : is.map (b₁.waiting w) = is.map (b.waiting w) :=
      List.map_congr_left fun i hi => first.others i fun he => apart (List.mem_singleton.1 he ▸ hi)
    rw [rest.count, first.count, hsame]
    simp
  size := by rw [rest.size, first.size, Nat.add_assoc]
  all := by
    intro i hi
    -- What has been staged of the first copy is not touched when the others are.
    by_cases hr : i ∈ is
    · exact rest.all i hr
    · rw [rest.others i hr, first.all i (by simpa [hr] using hi)]
  others := by
    intro i hi
    obtain ⟨hne, hr⟩ := not_or.1 (mt List.mem_cons.2 hi)
    rw [rest.others i hr, first.others i (by simpa using hne)]

theorem Gathers.stages_nil (hb : b.Gathers log hs w) : Stages log hs w [] 0 b b :=
  ⟨hb, rfl, rfl, fun _ hi => absurd hi (by simp), fun _ _ => rfl⟩

theorem Gathers.stages_nothing (hb : b.Gathers log hs w) (nothing : b.waiting w h = 0) :
    Stages log hs w [h] 0 b b :=
  ⟨hb, by simp [nothing], rfl, fun i hi => by rwa [List.mem_singleton.1 hi], fun _ _ => rfl⟩

/-- A copy that has been staged has been staged as far as it goes. -/
theorem Gathers.of_run_stageCopy {n : Nat} (hb : b.Gathers log hs w) (hh : h ∈ hs)
    (done : (log.stageCopy h b).run w = (.ok (n, b'), w')) :
    w' = w ∧ Stages log hs w [h] n b b' := by
  cases hx : w.copies[h]? with
  | none =>
    rw [Log.run_stageCopy_of_none hx] at done
    obtain ⟨he, rfl⟩ := Prod.mk.inj done
    obtain ⟨rfl, rfl⟩ := Prod.mk.inj (Except.ok.inj he)
    exact ⟨rfl, hb.stages_nothing (by rw [waiting, hx])⟩
  | some x =>
    by_cases all : x.pending.length ≤ b.stagedFor h
    · rw [Log.run_stageCopy_of_le hx all] at done
      obtain ⟨he, rfl⟩ := Prod.mk.inj done
      obtain ⟨rfl, rfl⟩ := Prod.mk.inj (Except.ok.inj he)
      refine ⟨rfl, hb.stages_nothing ?_⟩
      rw [waiting_of_copy hx]
      omega
    · have more := Nat.lt_of_not_le all
      rw [Log.run_stageCopy_of_lt hx more] at done
      rcases hstage : (log.stage b.batch x.stream (x.unstaged w.clock (b.stagedFor h))
        (x.durable + b.stagedFor h)).run w with ⟨e | ⟨v, batch⟩, w₁⟩
      · rw [hstage] at done
        exact absurd (Prod.mk.inj done).1 (by simp)
      · rw [hstage] at done
        obtain ⟨he, rfl⟩ := Prod.mk.inj done
        obtain ⟨rfl, rfl⟩ := Prod.mk.inj (Except.ok.inj he)
        obtain ⟨rfl, hv, rfl, hbatch⟩ := hb.fits.of_run_stage hstage
        rw [WorkingCopy.length_unstaged,
          show x.durable + b.stagedFor h + (x.pending.length - b.stagedFor h) =
            x.durable + x.pending.length by omega]
        exact ⟨rfl, hb.stages_staged hh hx more hv hbatch⟩

theorem Gathers.of_run_stageAll {n : Nat} {is : List HandleId} (hb : b.Gathers log hs w)
    (nodup : is.Nodup) (among : ∀ i ∈ is, i ∈ hs)
    (done : (log.stageAll is b).run w = (.ok (n, b'), w')) :
    w' = w ∧ Stages log hs w is n b b' := by
  induction is generalizing b b' w' n with
  | nil =>
    obtain ⟨he, rfl⟩ := Prod.mk.inj (show (Except.ok (0, b), w) = _ from done)
    obtain ⟨rfl, rfl⟩ := Prod.mk.inj (Except.ok.inj he)
    exact ⟨rfl, hb.stages_nil⟩
  | cons h rest ih =>
    obtain ⟨hfresh, nodup⟩ := List.nodup_cons.1 nodup
    rw [Log.stageAll, Dialogue.run_bind] at done
    rcases hfirst : (log.stageCopy h b).run w with ⟨e | ⟨n₁, b₁⟩, w₁⟩
    · rw [hfirst] at done
      exact absurd (Prod.mk.inj done).1 (by simp)
    obtain ⟨rfl, first⟩ := hb.of_run_stageCopy (among h List.mem_cons_self) hfirst
    rw [hfirst] at done
    simp only [Dialogue.run_bind] at done
    rcases hrest : (log.stageAll rest b₁).run w₁ with ⟨e | ⟨k, b₂⟩, w₂⟩
    · rw [hrest] at done
      exact absurd (Prod.mk.inj done).1 (by simp)
    obtain ⟨rfl, hstages⟩ := ih first.gathers nodup
      (fun i hi => among i (List.mem_cons_of_mem h hi)) hrest
    rw [hrest] at done
    obtain ⟨he, rfl⟩ := Prod.mk.inj done
    obtain ⟨rfl, rfl⟩ := Prod.mk.inj (Except.ok.inj he)
    exact ⟨rfl, first.cons hstages hfresh⟩

end OpenBatch

/-! ## All that there is -/

namespace OpenBatch.Gathers

variable (all : ∀ i ∈ hs, b.waiting w i = 0) (all' : ∀ i ∈ hs, b'.waiting w i = 0)

include all in
/-- A batch that has gathered everything moves the copies that have buffered anything, each to the
end of its buffer. -/
theorem mem_moved_iff (hb : b.Gathers log hs w) : m ∈ b.moved ↔ m.handle ∈ hs ∧
    ∃ x, w.copies[m.handle]? = some x ∧ x.pending ≠ [] ∧ m.durable = x.durable ∧
      m.staged = x.durable + x.pending.length := by
  have reaches {m : Movement} (hm : m ∈ b.moved) : m.handle ∈ hs ∧
      ∃ x, w.copies[m.handle]? = some x ∧ x.pending ≠ [] ∧ m.durable = x.durable ∧
        m.staged = x.durable + x.pending.length := by
    have hh := hb.among m.handle (List.mem_map_of_mem hm)
    obtain ⟨x, hfill⟩ := hb.moved m hm
    have hwait := all m.handle hh
    have hlt := hfill.durable_lt
    have hle := hfill.staged_le
    have hd := hfill.durable_eq
    rw [waiting_of_copy hfill.copy, stagedFor_of_mem hb.nodup hm] at hwait
    exact ⟨hh, x, hfill.copy, hfill.pending_ne_nil, hd, by omega⟩
  refine ⟨reaches, fun ⟨hh, x, hx, filled, hd, hv⟩ => ?_⟩
  have hpos := List.length_pos_iff.2 filled
  have hmoved : m.handle ∈ b.moved.map Movement.handle := by
    refine Decidable.byContradiction fun hn => ?_
    have hwait := all m.handle hh
    rw [waiting_of_copy hx, stagedFor_of_not_mem hn] at hwait
    omega
  obtain ⟨m', hm', he⟩ := List.mem_map.1 hmoved
  obtain ⟨-, x', hx', -, hd', hv'⟩ := reaches hm'
  obtain rfl := Option.some.inj (hx.symm.trans (he ▸ hx'))
  obtain rfl : m' = m := by
    cases m; cases m'
    simp_all
  exact hm'

include all all' in
/-- What is left of gathering everything does not depend on how that was done. -/
theorem agree (hb : b.Gathers log hs w) (hb' : b'.Gathers log hs w) :
    (∀ stream, w.onStream stream b.moved = w.onStream stream b'.moved) ∧
      b.batch.landed w.medium = b'.batch.landed w.medium ∧ b.batch.size = b'.batch.size := by
  have same (m : Movement) : m ∈ b.moved ↔ m ∈ b'.moved :=
    (hb.mem_moved_iff all).trans (hb'.mem_moved_iff all').symm
  have hon (stream : String) : w.onStream stream b.moved = w.onStream stream b'.moved := by
    refine (hb.leads stream).unique (hb'.leads stream) fun m => ?_
    rw [InMemory.mem_onStream, InMemory.mem_onStream, same]
  refine ⟨hon, ?_, ?_⟩
  · have hrecords : (b.batch.landed w.medium).records = (b'.batch.landed w.medium).records := by
      funext stream
      rw [hb.landed, hb'.landed, hon]
    have havailable : (b.batch.landed w.medium).available = (b'.batch.landed w.medium).available :=
      (b.batch.available_landed w.medium).trans (b'.batch.available_landed w.medium).symm
    exact congrArg₂ Memory.mk hrecords havailable
  · have perm : b.moved.Perm b'.moved :=
      (List.perm_ext_iff_of_nodup hb.nodup.of_map hb'.nodup.of_map).2 same
    rw [hb.size, hb'.size]
    exact (perm.map Movement.gain).sum_nat

/-- Where no copy knows more to be stored than its stream holds, no two copies that a batch moves
have the same stream: only one begins where the stream ends. -/
theorem apart_of_grounded (hb : b.Gathers log hs w) (grounded : ∀ i ∈ hs, ∀ x,
    w.copies[i]? = some x → x.durable ≤ (w.medium.head x.stream).version) :
    InMemory.Apart (b.moved.map Movement.handle) w := by
  have first {m : Movement} (hm : m ∈ b.moved) {x : WorkingCopy} (hx : m.Fills w x) :
      m ∈ w.onStream x.stream b.moved ∧ m.durable ≤ (w.medium.head x.stream).version := by
    refine ⟨InMemory.mem_onStream.2 ⟨hm, InMemory.stream?_of_copy hx.copy⟩, ?_⟩
    rw [hx.durable_eq]
    exact grounded _ (hb.among _ (List.mem_map_of_mem hm)) x hx.copy
  intro i hi j hj x y hx hy he
  obtain ⟨m, hm, rfl, x', hfill⟩ := hb.exists_copy hi
  obtain rfl := Option.some.inj (hx.symm.trans hfill.copy)
  obtain ⟨m', hm', rfl, y', hfill'⟩ := hb.exists_copy hj
  obtain rfl := Option.some.inj (hy.symm.trans hfill'.copy)
  obtain ⟨hon, hle⟩ := first hm hfill
  obtain ⟨hon', hle'⟩ := first hm' hfill'
  rw [← he] at hon' hle'
  have hlead := hb.leads x.stream
  cases hlist : w.onStream x.stream b.moved with
  | nil =>
    rw [hlist] at hon
    exact absurd hon (by simp)
  | cons m₀ rest =>
    rw [hlist] at hon hon' hlead
    rw [hlead.eq_first hon hle, hlead.eq_first hon' hle']

end OpenBatch.Gathers

/-- What some copies have buffered can be stored: the medium can be reached, their streams are where
they stand, and no two of those that have buffered anything have the same stream. -/
structure InMemory.Storable (hs : List HandleId) (w : InMemory) : Prop where
  available : ∀ i ∈ hs, ∀ x, w.copies[i]? = some x → x.pending ≠ [] → w.medium.available = true
  current : ∀ i ∈ hs, ∀ x, w.copies[i]? = some x → x.pending ≠ [] →
    (w.medium.head x.stream).version = x.durable
  apart : ∀ i ∈ hs, ∀ j ∈ hs, ∀ x y, w.copies[i]? = some x → w.copies[j]? = some y →
    x.pending ≠ [] → y.pending ≠ [] → x.stream = y.stream → i = j

namespace OpenBatch.Gathers

/-- Where everything has been gathered, and of different streams, all of it can be stored. -/
theorem storable (hb : b.Gathers log hs w) (all : ∀ i ∈ hs, b.waiting w i = 0)
    (apart : InMemory.Apart (b.moved.map Movement.handle) w)
    (reached : w.medium.available = true ∨ b.batch.size = 0) : w.Storable hs := by
  have moved {i : HandleId} (hi : i ∈ hs) {x : WorkingCopy} (hx : w.copies[i]? = some x)
      (filled : x.pending ≠ []) : ∃ m ∈ b.moved, m.handle = i :=
    ⟨⟨i, x.durable, x.durable + x.pending.length⟩,
      (hb.mem_moved_iff all).2 ⟨hi, x, hx, filled, rfl, rfl⟩, rfl⟩
  refine ⟨fun i hi x hx filled => ?_, fun i hi x hx filled => ?_,
    fun i hi j hj x y hx hy hxf hyf he => ?_⟩
  · obtain ⟨m, hm, -⟩ := moved hi hx filled
    obtain ⟨y, hfill⟩ := hb.moved m hm
    have hpos : 0 < (b.moved.map Movement.gain).sum :=
      List.sum_pos_iff_exists_pos_nat.2
        ⟨m.gain, List.mem_map_of_mem hm, Nat.sub_pos_of_lt hfill.durable_lt⟩
    rw [← hb.size] at hpos
    exact reached.resolve_right (Nat.ne_of_gt hpos)
  · obtain ⟨m, hm, rfl⟩ := moved hi hx filled
    obtain ⟨y, hfill⟩ := hb.moved m hm
    obtain rfl := Option.some.inj (hx.symm.trans hfill.copy)
    have hlead := hb.leads x.stream
    rw [hb.alone hm hfill apart] at hlead
    exact (Movement.leads_singleton.1 hlead).1.symm.trans hfill.durable_eq
  · obtain ⟨m, hm, rfl⟩ := moved hi hx hxf
    obtain ⟨m', hm', rfl⟩ := moved hj hy hyf
    exact apart _ (List.mem_map_of_mem hm) _ (List.mem_map_of_mem hm') x y hx hy he

theorem run_stageCopy (hb : b.Gathers log hs w) (storable : w.Storable hs) (hh : h ∈ hs) :
    ∃ n b', (log.stageCopy h b).run w = (.ok (n, b'), w) := by
  cases hx : w.copies[h]? with
  | none => exact ⟨0, b, Log.run_stageCopy_of_none hx⟩
  | some x =>
    by_cases all : x.pending.length ≤ b.stagedFor h
    · exact ⟨0, b, Log.run_stageCopy_of_le hx all⟩
    have more := Nat.lt_of_not_le all
    have filled : x.pending ≠ [] := List.ne_nil_of_length_pos (by omega)
    have hlead := hb.leads x.stream
    rw [storable.current h hh x hx filled] at hlead
    have honly : ∀ m ∈ w.onStream x.stream b.moved, m.handle = h := by
      intro m hm
      obtain ⟨hm, hs⟩ := InMemory.mem_onStream.1 hm
      obtain ⟨y, hfill⟩ := hb.moved m hm
      rw [InMemory.stream?_of_copy hfill.copy] at hs
      exact storable.apart _ (hb.among _ (List.mem_map_of_mem hm)) h hh y x hfill.copy hx
        hfill.pending_ne_nil filled (Option.some.inj hs)
    have hv : ((b.batch.landed w.medium).head x.stream).version = x.durable + b.stagedFor h := by
      rcases InMemory.onStream_of_alone hb.nodup honly with hnil | ⟨m, hm, rfl, hone⟩
      · have hh : h ∉ b.moved.map Movement.handle := by
          intro hmem
          obtain ⟨m, hm, rfl⟩ := List.mem_map.1 hmem
          have := InMemory.mem_onStream.2 ⟨hm, InMemory.stream?_of_copy hx⟩
          rw [hnil] at this
          exact absurd this (by simp)
        rw [hnil] at hlead
        rw [stagedFor_of_not_mem hh]
        exact hlead.symm
      · rw [hone] at hlead
        obtain ⟨hd, hlt, hu⟩ := Movement.leads_singleton.1 hlead
        rw [stagedFor_of_mem hb.nodup hm]
        omega
    obtain ⟨batch, hstage, -⟩ := hb.fits.run_stage (storable.available h hh x hx filled) log
      x.stream (x.unstaged w.clock (b.stagedFor h)) hv
    have hrun : (log.stageCopy h b).run w = _ := Log.run_stageCopy_of_lt hx more
    rw [hstage] at hrun
    exact ⟨_, _, hrun⟩

theorem run_stageAll {is : List HandleId} (hb : b.Gathers log hs w) (storable : w.Storable hs)
    (among : ∀ i ∈ is, i ∈ hs) : ∃ n b', (log.stageAll is b).run w = (.ok (n, b'), w) := by
  induction is generalizing b with
  | nil => exact ⟨0, b, rfl⟩
  | cons h rest ih =>
    obtain ⟨n, b₁, hfirst⟩ := hb.run_stageCopy storable (among h List.mem_cons_self)
    obtain ⟨-, first⟩ := hb.of_run_stageCopy (among h List.mem_cons_self) hfirst
    obtain ⟨k, b₂, hrest⟩ := ih first.gathers fun i hi => among i (List.mem_cons_of_mem h hi)
    refine ⟨n + k, b₂, ?_⟩
    rw [Log.stageAll, Dialogue.run_bind_of hfirst]
    show (log.stageAll rest b₁ >>= _).run w = _
    rw [Dialogue.run_bind_of hrest]
    rfl

end OpenBatch.Gathers

end TransferLedger

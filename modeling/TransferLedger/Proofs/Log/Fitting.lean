import TransferLedger.Proofs.Log.Appending

/-!
# A batch that fits

A batch fits a medium if the medium would store it, were it given the batch now (`Batch.Fits`).  The
log gets the end of a stream from three places: from the medium, from the batch that it is staging
on, and from the record that it has just sealed.  Behind a batch that fits they are one and the
same, the end that the stream has when the batch has been stored (`Batch.Fits.run_headBehind`).

So staging on a batch that fits comes to what storing it would come to (`Batch.Fits.run_stage`), in
which nothing is left of where the batch ends and an append begins: `Log.stored_append`.
-/

set_option autoImplicit false

namespace TransferLedger

/-! ## Entries that are stored -/

namespace Log

variable {log : Log} {m : Memory} {stream other : String} {es fs : List Entry}

/-- The medium with entries sealed and stored behind a stream. -/
def stored (log : Log) (stream : String) (es : List Entry) (m : Memory) : Memory :=
  m.store ⟨stream, (m.head stream).version, log.sealer.chain stream (m.head stream) es⟩

theorem records_stored (log : Log) (stream : String) (es : List Entry) (m : Memory) :
    (log.stored stream es m).records stream =
      m.records stream ++ log.sealer.chain stream (m.head stream) es :=
  m.records_store_same _

theorem records_stored_other (h : other ≠ stream) :
    (log.stored stream es m).records other = m.records other :=
  m.records_store_other _ h

theorem head_stored (log : Log) (stream : String) (es : List Entry) (m : Memory) :
    (log.stored stream es m).head stream =
      (m.head stream).after (log.sealer.chain stream (m.head stream) es) := by
  rw [stored, Memory.head_store, Keyed.set_same]

theorem head_stored_other (h : other ≠ stream) :
    (log.stored stream es m).head other = m.head other := by
  rw [stored, Memory.head_store, Keyed.set_other _ _ h]

theorem version_stored (log : Log) (stream : String) (es : List Entry) (m : Memory) :
    ((log.stored stream es m).head stream).version = (m.head stream).version + es.length := by
  rw [head_stored, (Sealer.continues_chain ..).version_after, Sealer.length_chain]

@[simp] theorem stored_nil (log : Log) (stream : String) (m : Memory) :
    log.stored stream [] m = m := by
  simp [stored, Memory.store, Sealer.chain]

/-- It makes no difference where entries are cut. -/
theorem stored_append (log : Log) (stream : String) (es fs : List Entry) (m : Memory) :
    log.stored stream fs (log.stored stream es m) = log.stored stream (es ++ fs) m := by
  have hhead := log.head_stored stream es m
  simp only [stored] at hhead
  simp only [stored, hhead, Sealer.chain_append]
  simp [Memory.store]

end Log

/-! ## Appends that fit -/

theorem Append.check_append (m : Memory) (as bs : List Append) :
    check m.head (as ++ bs) =
      (check m.head as).bind fun _ => check (as.foldl Memory.store m).head bs := by
  induction as generalizing m with
  | nil => rfl
  | cons a rest ih =>
    simp only [List.cons_append, List.foldl_cons, check]
    cases hfit : a.fit (m.head a.stream) with
    | error e => rfl
    | ok h =>
      obtain ⟨-, -, rfl⟩ := fit_eq_ok_iff.1 hfit
      simp only [← Memory.head_store]
      exact ih (m.store a)

/-- Where every record is one of the stream that its append is for, those of a stream are what the
appends bring to it. -/
theorem Append.filter_records {appends : List Append}
    (own : ∀ a ∈ appends, ∀ r ∈ a.records, r.stream = a.stream) (stream : String) :
    (appends.flatMap Append.records).filter (fun r => r.stream == stream) =
      onto stream appends := by
  induction appends with
  | nil => rfl
  | cons a rest ih =>
    rw [List.flatMap_cons, List.filter_append, onto_cons,
      ih fun b hb => own b (List.mem_cons_of_mem a hb)]
    congr 1
    have ha := own a List.mem_cons_self
    by_cases h : a.stream = stream
    · rw [if_pos h, List.filter_eq_self]
      exact fun r hr => by simpa [ha r hr] using h
    · rw [if_neg h, List.filter_eq_nil_iff]
      exact fun r hr => by simpa [ha r hr] using h

namespace Batch

/-- The medium when all of a batch has been stored. -/
def landed (b : Batch) (m : Memory) : Memory :=
  b.staged.foldl Memory.store m

/-- The medium would store the batch, if it can be reached. -/
def Fits (b : Batch) (m : Memory) : Prop :=
  Append.check m.head b.staged = .ok ()

@[simp] theorem landed_empty (m : Memory) : empty.landed m = m := rfl

theorem Fits.empty (m : Memory) : empty.Fits m := rfl

theorem landed_of_size {b : Batch} (h : b.size = 0) (m : Memory) : b.landed m = m := by
  obtain ⟨staged⟩ := b
  simp only [size, records, List.length_eq_zero_iff, List.flatMap_eq_nil_iff] at h
  unfold landed
  induction staged generalizing m with
  | nil => rfl
  | cons a rest ih =>
    have ha : m.store a = m := by simp [Memory.store, h a List.mem_cons_self]
    rw [List.foldl_cons, ha]
    exact ih m fun b hb => h b (List.mem_cons_of_mem a hb)

theorem landed_append (b : Batch) (as : List Append) (m : Memory) :
    (⟨b.staged ++ as⟩ : Batch).landed m = as.foldl Memory.store (b.landed m) :=
  List.foldl_append

theorem available_landed (b : Batch) (m : Memory) : (b.landed m).available = m.available :=
  Memory.available_foldl_store m b.staged

theorem head_landed (b : Batch) (m : Memory) (stream : String) :
    (b.landed m).head stream = (m.head stream).after (Append.onto stream b.staged) := by
  rw [Memory.head, landed, Memory.records_foldl_store, Head.after_append]
  rfl

namespace Fits

variable {b b' : Batch} {m : Memory} {w w' : InMemory} {log : Log} {stream : String}
  {entries : List Entry} {expected v : Nat}

theorem own (fits : b.Fits m) : ∀ a ∈ b.staged, ∀ r ∈ a.records, r.stream = a.stream := by
  intro a ha r hr
  refine ((Append.continues_of_check fits a.stream).of_mem ?_).1
  exact List.mem_flatMap.2 ⟨a, List.mem_filter.2 ⟨ha, beq_self_eq_true _⟩, hr⟩

/-- The end that a batch has for a stream is the one that it leaves there. -/
theorem head_landed (fits : b.Fits m) (stream : String) :
    (b.landed m).head stream = (b.head? stream).getD (m.head stream) := by
  rw [b.head_landed, head?, records, Append.filter_records fits.own]
  cases hlast : (Append.onto stream b.staged).getLast? with
  | none => rw [List.getLast?_eq_none_iff.1 hlast]; rfl
  | some r => exact Head.after_of_getLast? hlast

theorem append (fits : b.Fits m) {a : Append}
    (current : ((b.landed m).head a.stream).version = a.expected)
    (continues : Continues a.stream ((b.landed m).head a.stream) a.records) :
    (⟨b.staged ++ [a]⟩ : Batch).Fits m := by
  have hfit := Append.fit_eq_ok_iff.2 ⟨current, continues, rfl⟩
  show Append.check m.head (b.staged ++ [a]) = .ok ()
  rw [Append.check_append, show Append.check m.head b.staged = .ok () from fits]
  simp only [Except.bind, Append.check]
  rw [show a.fit ((b.staged.foldl Memory.store m).head a.stream) = _ from hfit]

/-! ## Staging -/

/-- What staging does to a batch that fits: it fits as before, and leaves the entries as well. -/
structure Extended (log : Log) (m : Memory) (stream : String) (entries : List Entry)
    (b b' : Batch) : Prop where
  fits : b'.Fits m
  landed : b'.landed m = log.stored stream entries (b.landed m)
  size : b'.size = b.size + entries.length

theorem stageBehind (fits : b.Fits m)
    (done : log.stageBehind b stream entries expected ((b.landed m).head stream) = .ok (v, b')) :
    Extended log m stream entries b b' := by
  obtain ⟨current, -, hstaged⟩ := Log.stageBehind_eq_ok done
  obtain ⟨-, -, hrecords⟩ := Log.records_of_stageBehind done
  have hsize : b'.size = b.size + entries.length := by
    rw [size, size, hrecords, List.length_append, Sealer.length_chain]
  obtain ⟨staged⟩ := b'
  obtain rfl : staged = _ := hstaged
  by_cases he : entries = []
  · subst he
    simp only [if_pos, List.append_nil] at hsize ⊢
    exact ⟨fits, (log.stored_nil stream _).symm, hsize⟩
  · simp only [if_neg he] at hsize ⊢
    refine ⟨fits.append current (Sealer.continues_chain ..), ?_, hsize⟩
    rw [landed_append, Log.stored, current]
    rfl

theorem run_headBehind (fits : b.Fits w.medium) (available : w.medium.available = true)
    (stream : String) :
    (Log.headBehind b stream).run w = (.ok ((b.landed w.medium).head stream), w) := by
  rw [fits.head_landed, Log.headBehind]
  cases b.head? stream with
  | some h => rfl
  | none =>
    show (w.medium.readHead stream, w) = _
    simp [Memory.readHead, available]

/-- Whatever the log takes for the end of a stream behind a batch, it is the one that the batch
leaves there. -/
theorem of_run_headBehind (fits : b.Fits w.medium) {h : Head}
    (done : (Log.headBehind b stream).run w = (.ok h, w')) :
    h = (b.landed w.medium).head stream ∧ w' = w := by
  rw [fits.head_landed]
  unfold Log.headBehind at done
  cases hb : b.head? stream with
  | some g =>
    rw [hb] at done
    obtain ⟨he, rfl⟩ := Prod.mk.inj done
    exact ⟨(Except.ok.inj he).symm, rfl⟩
  | none =>
    rw [hb] at done
    obtain ⟨he, rfl⟩ := Prod.mk.inj (show (w.medium.readHead stream, w) = _ from done)
    unfold Memory.readHead at he
    split at he
    · exact ⟨(Except.ok.inj he).symm, rfl⟩
    · simp at he

/-- Staging on a batch that fits succeeds if the stream, with the batch stored, is at the version
that is expected. -/
theorem run_stage (fits : b.Fits w.medium) (available : w.medium.available = true) (log : Log)
    (stream : String) (entries : List Entry)
    (current : ((b.landed w.medium).head stream).version = expected) :
    ∃ b', (log.stage b stream entries expected).run w = (.ok (expected + entries.length, b'), w) ∧
      Extended log w.medium stream entries b b' := by
  obtain ⟨b', hb'⟩ : ∃ b', log.stageBehind b stream entries expected
      ((b.landed w.medium).head stream) = .ok (expected + entries.length, b') := by
    rw [Log.stageBehind, if_neg (by simpa using current)]
    cases entries with
    | nil => exact ⟨b, rfl⟩
    | cons e rest => exact ⟨_, by simp [Append.version, Sealer.length_chain]; rfl⟩
  refine ⟨b', ?_, fits.stageBehind hb'⟩
  rw [Log.stage, Dialogue.run_bind_of (fits.run_headBehind available stream)]
  show (log.stageBehind b stream entries expected ((b.landed w.medium).head stream), w) = _
  rw [hb']

theorem of_run_stage (fits : b.Fits w.medium)
    (done : (log.stage b stream entries expected).run w = (.ok (v, b'), w')) :
    w' = w ∧ ((b.landed w.medium).head stream).version = expected ∧
      v = expected + entries.length ∧ Extended log w.medium stream entries b b' := by
  rw [Log.stage, Dialogue.run_bind] at done
  rcases hh : (Log.headBehind b stream).run w with ⟨e | h, w₁⟩
  · rw [hh] at done
    exact absurd (Prod.mk.inj done).1 (by simp)
  · rw [hh] at done
    obtain ⟨rfl, rfl⟩ := fits.of_run_headBehind hh
    obtain ⟨hb, rfl⟩ := Prod.mk.inj (show (log.stageBehind .., _) = _ from done)
    obtain ⟨current, hv, -⟩ := Log.stageBehind_eq_ok hb
    exact ⟨rfl, current, hv, fits.stageBehind hb⟩

/-! ## Storing -/

theorem run_commit (fits : b.Fits w.medium) (reached : w.medium.available = true ∨ b.size = 0)
    (log : Log) :
    (log.commit b).run w = (.ok b.size, { w with medium := b.landed w.medium }) := by
  unfold Log.commit
  by_cases hz : b.size = 0
  · rw [if_pos hz, b.landed_of_size hz, hz]
    rfl
  · have hreply : w.medium.reply b.staged = (.applied, b.landed w.medium) := by
      simp only [Memory.reply, Memory.commit, reached.resolve_right hz, Bool.true_eq_false,
        if_false]
      rw [show Append.check w.medium.head b.staged = .ok () from fits]
      rfl
    have hcommit : (Dialogue.commit log.config.timeout b.staged).run w =
        (.applied, { w with medium := b.landed w.medium }) := by
      show ((w.medium.reply b.staged).1, { w with medium := (w.medium.reply b.staged).2 }) = _
      rw [hreply]
    rw [if_neg hz, Dialogue.run_bind_of hcommit]
    rfl

end Fits

/-- A commit that succeeds has reached the medium, or had nothing to store. -/
theorem reached_of_commit {log : Log} {b : Batch} {w w' : InMemory} {n : Nat}
    (done : (log.commit b).run w = (.ok n, w')) : w.medium.available = true ∨ b.size = 0 := by
  rcases Log.run_commit_ok done with ⟨hz, -⟩ | ⟨m, hm, -⟩
  · exact .inr hz
  · exact .inl (Memory.commit_eq_ok hm).1

end Batch

end TransferLedger

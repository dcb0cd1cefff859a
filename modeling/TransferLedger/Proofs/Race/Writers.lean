import TransferLedger.Proofs.Log.Appending

/-!
# Writers

An append to one stream asks twice at most: it looks at the head of the stream, and then has what it
has staged behind that head stored (`Writer.work_eq`).  In between the stream may go on.

Streams only grow, so a stream that still has its version has its head as well
(`Memory.Forward.head_eq`).  What has been staged behind a head fits, hash and all, if the version
is found again, and is refused by the version alone if it is not.
-/

set_option autoImplicit false

namespace TransferLedger

/-! ## Streams that only grow -/

namespace Memory

variable {m m' m'' : Memory} {stream : String}

/-- Every stream is what it was, or it has gone on to a higher version. -/
structure Forward (m m' : Memory) : Prop where
  available : m'.available = m.available
  grown (stream : String) : m'.records stream = m.records stream ∨
    (m.head stream).version < (m'.head stream).version

namespace Forward

theorem refl (m : Memory) : m.Forward m :=
  ⟨rfl, fun _ => .inl rfl⟩

theorem version_le (h : m.Forward m') (stream : String) :
    (m.head stream).version ≤ (m'.head stream).version := by
  rcases h.grown stream with same | more
  · exact Nat.le_of_eq (congrArg Head.version (head_congr same).symm)
  · exact Nat.le_of_lt more

/-- A stream that has its version still is what it was. -/
theorem records_eq (h : m.Forward m') (hv : (m'.head stream).version = (m.head stream).version) :
    m'.records stream = m.records stream := by
  rcases h.grown stream with same | more
  · exact same
  · exact absurd hv.symm (Nat.ne_of_lt more)

theorem head_eq (h : m.Forward m') (hv : (m'.head stream).version = (m.head stream).version) :
    m'.head stream = m.head stream :=
  head_congr (h.records_eq hv)

theorem trans (h : m.Forward m') (h' : m'.Forward m'') : m.Forward m'' := by
  refine ⟨h'.available.trans h.available, fun stream => ?_⟩
  rcases h.grown stream with same | more
  · rcases h'.grown stream with same' | more'
    · exact .inl (same'.trans same)
    · exact .inr (by rwa [head_congr same] at more')
  · exact .inr (Nat.lt_of_lt_of_le more (h'.version_le stream))

end Forward

theorem head_commit {appends : List Append} (h : m.commit appends = .ok m') :
    m'.head stream = (m.head stream).after (Append.onto stream appends) := by
  show Head.empty.after (m'.records stream) = _
  rw [records_commit h stream, Head.after_append]
  rfl

theorem forward_of_commit {appends : List Append} (h : m.commit appends = .ok m') :
    m.Forward m' := by
  refine ⟨available_of_commit h, fun stream => ?_⟩
  have hv := (continues_of_commit h stream).version_after
  rw [← head_commit h] at hv
  cases hnew : Append.onto stream appends with
  | nil => exact .inl (by rw [records_commit h stream, hnew, List.append_nil])
  | cons r rest =>
    rw [hnew, List.length_cons] at hv
    exact .inr (by omega)

/-- An append that finds its stream at the version it expects, and continues it, lands. -/
theorem commit_of_current {a : Append} (available : m.available = true)
    (current : (m.head a.stream).version = a.expected)
    (continues : Continues a.stream (m.head a.stream) a.records) :
    m.commit [a] = .ok (m.store a) := by
  have hfit := Append.fit_eq_ok_iff.2 ⟨current, continues, rfl⟩
  simp [commit, available, Append.check, hfit]

/-- An append to a stream at another version is refused, whatever it would bring. -/
theorem commit_of_moved {a : Append} (available : m.available = true)
    (moved : (m.head a.stream).version ≠ a.expected) :
    m.commit [a] = .error (.conflict a.stream a.expected (m.head a.stream).version) := by
  simp [commit, available, Append.check, Append.fit, moved]

end Memory

/-- Whatever is asked, no stream goes back. -/
theorem InMemory.forward_answer (q : Request) (w : InMemory) :
    w.medium.Forward (w.answer q).2.medium := by
  cases q with
  | commit allowed appends =>
    show w.medium.Forward (w.medium.reply appends).2
    unfold Memory.reply
    cases hc : w.medium.commit appends with
    | error e => exact .refl _
    | ok m => exact Memory.forward_of_commit hc
  | perform h o =>
    show w.medium.Forward (InMemory.answer (.perform h o) w).2.medium
    unfold InMemory.answer
    dsimp only
    cases w.copies[h]? with
    | none => exact .refl _
    | some c =>
      dsimp only
      cases c.perform w.clock o <;> exact .refl _
  | head | page | save | load | time | look | confirm | place => exact .refl _

/-! ## Writers -/

/-- Somebody who is going to append to a stream, expecting it at a version. -/
structure Writer where
  log : Log
  stream : String
  expected : Nat
  entries : List Entry
  filled : entries ≠ []

namespace Writer

def work (x : Writer) : Dialogue (Except StoreError Nat) :=
  x.log.append x.stream x.entries x.expected

/-- What is staged behind a head. -/
def staged (x : Writer) (h : Head) : Append :=
  ⟨x.stream, x.expected, x.log.sealer.chain x.stream h x.entries⟩

def conflict (x : Writer) (current : Nat) : StoreError :=
  .conflict x.stream x.expected current

/-- What is left when something has been staged behind a head. -/
def committing (x : Writer) (h : Head) : Dialogue (Except StoreError Nat) :=
  .ask (.commit x.log.config.timeout [x.staged h]) fun
    | .applied => .done (.ok (x.expected + x.entries.length))
    | .refused e => .done (.error e)
    | .late => .done (.error (Log.tooLate x.log.config.timeout))

/-- What is left when the stream has been looked at. -/
def behind (x : Writer) : Except StoreError Head → Dialogue (Except StoreError Nat)
  | .ok h => if h.version = x.expected then x.committing h
    else .done (.error (x.conflict h.version))
  | .error e => .done (.error e)

theorem stageBehind_eq (x : Writer) {h : Head} (hv : h.version = x.expected) :
    x.log.stageBehind .empty x.stream x.entries x.expected h =
      .ok (x.expected + x.entries.length, ⟨[x.staged h]⟩) := by
  obtain ⟨e, rest, hx⟩ := List.exists_cons_of_ne_nil x.filled
  simp [Log.stageBehind, hv, hx, Batch.empty, staged, Append.version, Sealer.length_chain]

/-- What is staged behind a head makes the stream longer by as many records as there are entries. -/
theorem version_store (x : Writer) (m : Memory) :
    ((m.store (x.staged (m.head x.stream))).head x.stream).version =
      (m.head x.stream).version + x.entries.length := by
  have hrecords : (m.store (x.staged (m.head x.stream))).records x.stream =
      m.records x.stream ++ x.log.sealer.chain x.stream (m.head x.stream) x.entries :=
    m.records_store_same (x.staged (m.head x.stream))
  have hlen := (Sealer.continues_chain x.log.sealer x.stream (m.head x.stream)
    x.entries).version_after
  rw [Sealer.length_chain] at hlen
  rw [← hlen, Memory.head, hrecords, Head.after_append]
  rfl

/-- An append asks twice at most: for the head, and for what it has staged to be stored. -/
theorem work_eq (x : Writer) : x.work = .ask (.head x.stream) x.behind := by
  show Dialogue.ask (.head x.stream) _ = _
  congr 1
  funext found
  cases found with
  | error e => rfl
  | ok h =>
    show Dialogue.bind (.done (x.log.stageBehind .empty x.stream x.entries x.expected h)) _ = _
    by_cases hv : h.version = x.expected
    · have hsize : Batch.size ⟨[x.staged h]⟩ ≠ 0 := by
        have hlen : (x.staged h).records.length = x.entries.length := Sealer.length_chain ..
        simpa [Batch.size, Batch.records, ← List.length_eq_zero_iff, hlen] using x.filled
      rw [x.stageBehind_eq hv, behind, if_pos hv, committing]
      show Dialogue.bind (x.log.commit ⟨[x.staged h]⟩) _ = _
      rw [Log.commit, if_neg hsize]
      show Dialogue.ask _ _ = _
      congr 1
      funext reply
      cases reply <;> rfl
    · rw [behind, if_neg hv, Log.stageBehind, if_pos hv]
      rfl

end Writer

end TransferLedger

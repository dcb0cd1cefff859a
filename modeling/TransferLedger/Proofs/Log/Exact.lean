import Mathlib.Logic.Relation
import TransferLedger.Proofs.Log.Appending
import TransferLedger.Proofs.Log.Yielding

/-!
# Reading an intact stream

Of a stream that is linked a reader yields the records from its start on, and nothing else: wherever
it starts, however it is cut into pages, and whether it checks the chain or not
(`Log.reads_exactly`).  A start behind the end is no error.  A reader that checks finds no record to
take up the chain from, and sees that the stream ends before; one that does not finds an empty page.

A reader counts in words.  It adds one to the position of a record that it hands out, its cursor
adds one to the position that it has reached, and one is subtracted from the start.  On its way
along a linked stream none of this leaves the words (`Reader.InWords`): a reader that is ready stands no
further than behind the last record (`Reader.Ready.passes`).
-/

set_option autoImplicit false

namespace TransferLedger

open Relation

/-- Records that continue a stream are in the order of their positions, so those from a position on
are the last ones. -/
theorem Continues.filter_eq_drop {stream : String} {h : Head} {rs : List Record}
    (hc : Continues stream h rs) (start : Nat) :
    rs.filter (fun x => start ≤ x.sequence) = rs.drop (start - (h.version + 1)) :=
  hc.numbered.filter_eq_drop start

namespace Reader

variable {w : InMemory} {r r' : Reader} {x : Record} {rest : List Record}

/-- What a reader counts with stays within words: the position before its own, the one behind the
record that it is about to hand out, and the one that its cursor waits for. -/
structure InWords (r : Reader) : Prop where
  next_pos : 0 < r.next
  next : r.next < positions
  taken (x : Record) (rest : List Record) : r.buffer = x :: rest → x.sequence + 1 < positions
  followed : r.sealer?.isSome = true → ∀ c, r.cursor? = some c → c.version + 1 < positions

/-- The readers that a reader becomes on its way to the next item: when it has got its cursor, when
it has fetched a page, and when it has looked at the record. -/
inductive Passes (w : InMemory) (r : Reader) : Reader → Prop
  | primed {r₁ : Reader} (running : r.done = false) (prime : (r.prime.run w).1 = .ok (some r₁)) :
      Passes w r r₁
  | filled {r₁ r₂ : Reader} (running : r.done = false) (prime : (r.prime.run w).1 = .ok (some r₁))
      (fill : (r₁.fill.run w).1 = .ok r₂) : Passes w r r₂
  | stepped (running : r.done = false) : Passes w r (r.step.run w).1.2

/-- A reader of the stream that is ready, or at its end, and has not left the words. -/
structure Counts (stream : String) (m : Memory) (r : Reader) : Prop where
  stream : r.stream = stream
  inWords : r.InWords
  ready : r.done = false → r.Ready m

theorem InWords.finish (h : r.InWords) (m : Memory) : r.finish.Counts r.stream m :=
  ⟨rfl, ⟨h.next_pos, h.next, h.taken, h.followed⟩, nofun⟩

/-! ## One step -/

section ready

variable (ordered : Continues r.stream .empty (w.medium.records r.stream))
  (short : (w.medium.records r.stream).length + 1 < positions)

include ordered short

/-- A reader that is ready has fetched what its position says, and its cursor is there too. -/
theorem Ready.inWords (h : r.Ready w.medium) (next : r.next < positions) : r.InWords where
  next_pos := h.stands.next_pos
  next := next
  taken x rest hb := by
    have hx := h.stands.first hb
    have hlt := (List.getElem?_eq_some_iff.1 hx).1
    have hseq := ordered.sequence_eq hx
    omega
  followed checks c hc := by
    obtain ⟨g, hg, hn⟩ := h.primed checks
    obtain rfl : c = ⟨r.stream, g⟩ := Option.some.inj (hc.symm.trans hg)
    exact hn ▸ next

theorem Ready.take (h : r.Ready w.medium) (next : r.next < positions) :
    r.take.2.Counts r.stream w.medium := by
  have hwords := h.inWords ordered short next
  have hfinish := hwords.finish w.medium
  unfold Reader.take
  cases hb : r.buffer with
  | nil => exact hfinish
  | cons x rest =>
    cases hc : r.check x with
    | error e =>
      simp only [hc]
      exact hfinish
    | ok c =>
      simp only [hc]
      obtain ⟨hseq, hcur⟩ := h.check_ok hc
      have h' : Ready { r with buffer := rest, cursor? := c, next := x.sequence + 1 } w.medium :=
        ⟨h.stands.behind hb hseq c, fun checks => ⟨x.head, hcur checks, rfl⟩⟩
      exact ⟨rfl, h'.inWords ordered short (hwords.taken x rest hb), fun _ => h'⟩

theorem Ready.passes (available : w.medium.available = true) (h : r.Ready w.medium)
    (next : r.next < positions) (hp : r.Passes w r') : r'.Counts r.stream w.medium := by
  have primed {r₁ : Reader} (hr : (r.prime.run w).1 = .ok (some r₁)) : r₁ = r := by
    rw [h.run_prime] at hr
    exact (Option.some.inj (Except.ok.inj hr)).symm
  cases hp with
  | primed _ prime =>
    obtain rfl := primed prime
    exact ⟨rfl, h.inWords ordered short next, fun _ => h⟩
  | filled _ prime fill =>
    obtain rfl := primed prime
    obtain ⟨page, last, hfill, h', -⟩ := h.run_fill available
    rw [hfill] at fill
    obtain rfl := Except.ok.inj fill
    exact ⟨rfl, h'.inWords ordered short next, fun _ => h'⟩
  | stepped _ =>
    obtain ⟨page, last, hstep, h', -⟩ := h.run_step available
    rw [hstep]
    exact Ready.take (r := r.withPage page last) ordered short h' next

end ready

/-- A reader that has still to get its cursor goes the way of the one that has it. -/
theorem Ready.passes_of_prime (hp : r.prime.run w = (.ok (some r'), w)) (h : r'.Ready w.medium)
    {r₁ : Reader} (passes : r.Passes w r₁) : r'.Passes w r₁ := by
  have running := h.stands.running
  have primed : (r'.prime.run w).1 = .ok (some r') := congrArg Prod.fst h.run_prime
  cases passes with
  | primed _ prime =>
    rw [hp] at prime
    obtain rfl := Option.some.inj (Except.ok.inj prime)
    exact .primed running primed
  | filled _ prime fill =>
    rw [hp] at prime
    obtain rfl := Option.some.inj (Except.ok.inj prime)
    exact .filled running primed fill
  | stepped started =>
    have hstep : r.step.run w = r'.step.run w := by
      rw [step, step, if_neg (by rw [started]; simp), if_neg (by rw [running]; simp),
        Dialogue.run_bind_of hp, Dialogue.run_bind_of h.run_prime]
    rw [hstep]
    exact .stepped running

/-- A reader that finds its stream to end before its start is at its end. -/
theorem finish_of_passes (hp : r.prime.run w = (.ok none, w)) (passes : r.Passes w r') :
    r' = r.finish := by
  cases passes with
  | primed _ prime =>
    rw [hp] at prime
    exact absurd (Except.ok.inj prime) nofun
  | filled _ prime _ =>
    rw [hp] at prime
    exact absurd (Except.ok.inj prime) nofun
  | stepped running =>
    rw [step, if_neg (by rw [running]; simp), Dialogue.run_bind_of hp]
    rfl

theorem Passes.running (h : r.Passes w r') : r.done = false := by
  cases h <;> assumption

end Reader

/-! ## From any start -/

namespace Log

variable {log : Log} {stream : String} {w : InMemory}

section linked

variable (available : w.medium.available = true)
  (linked : log.sealer.Linked stream .empty (w.medium.records stream))

include available linked

/-- A reader that checks finds nothing to take up the chain from behind the end. -/
theorem run_prime_beyond (checks : log.config.verifyOnRead = true) {k : Nat}
    (beyond : (w.medium.records stream).length < k) (batch : Nat) :
    (log.reader stream (k + 1) batch).prime.run w = (.ok none, w) := by
  have hnext : (log.reader stream (k + 1) batch).next = k + 1 := Nat.max_eq_left (Nat.succ_pos _)
  have hv : (w.medium.head stream).version < k := by
    rw [Memory.head, (Sealer.linked_iff.1 linked).1.version_after]
    exact (Nat.zero_add _).symm ▸ beyond
  have hprime := Reader.run_prime_missing (r := log.reader stream (k + 1) batch) available
    (if_pos checks) rfl hnext (Nat.zero_lt_of_lt beyond)
    (List.getElem?_eq_none (show (w.medium.records stream).length ≤ k - 1 by omega))
  rw [hprime]
  exact congrArg (·, w) (if_pos hv)

theorem yields_beyond {k : Nat} (beyond : (w.medium.records stream).length < k) (batch : Nat) :
    (log.reader stream (k + 1) batch).Yields w [] := by
  by_cases checks : log.config.verifyOnRead = true
  · exact Reader.yields_of_prime_none rfl (run_prime_beyond available linked checks beyond batch)
  · have hy : (log.reader stream (k + 1) batch).Yields w _ :=
      yields_reader (h := ⟨k, .root⟩) batch available fun hv => absurd hv checks
    rwa [List.drop_eq_nil_of_le (Nat.le_of_lt beyond)] at hy

/-- Wherever it starts, a reader gets its cursor there, or sees that the stream ends before. -/
theorem run_prime_of_linked (k batch : Nat) :
    (∃ h : Head, h.version = k ∧ (log.reader stream (k + 1) batch).prime.run w =
      (.ok (some (log.readerBehind stream h batch)), w)) ∨
    (log.reader stream (k + 1) batch).prime.run w = (.ok none, w) := by
  by_cases hk : k ≤ (w.medium.records stream).length
  · obtain ⟨hv, hanchored⟩ := anchored_of_linked linked hk
    have hprime := run_prime_reader batch available fun _ => hanchored
    rw [hv] at hprime
    exact .inl ⟨_, hv, hprime⟩
  by_cases checks : log.config.verifyOnRead = true
  · exact .inr (run_prime_beyond available linked checks (Nat.lt_of_not_le hk) batch)
  · exact .inl ⟨⟨k, .root⟩, rfl,
      run_prime_reader (h := ⟨k, .root⟩) batch available fun hv => absurd hv checks⟩

/-- Whatever a reader becomes on its way along a linked stream, it counts within words. -/
theorem inWords_of_passes {start batch : Nat}
    (short : (w.medium.records stream).length + 1 < Reader.positions)
    (word : start < Reader.positions) {r : Reader}
    (passes : ReflTransGen (Reader.Passes w) (log.reader stream start batch) r) : r.InWords := by
  have one : 1 < Reader.positions := by decide
  have hstart : (log.reader stream start batch).InWords :=
    ⟨Nat.le_max_right .., Nat.max_lt.2 ⟨word, one⟩, fun _ _ hb => absurd hb (by simp [reader]),
      fun _ _ hc => absurd hc (by simp [reader])⟩
  have ordered := (Sealer.linked_iff.1 linked).1
  -- It is still the reader that was there first, or it is ready, or at its end.
  suffices hr : r = log.reader stream start batch ∨ r.Counts stream w.medium by
    rcases hr with rfl | hr
    · exact hstart
    · exact hr.inWords
  induction passes with
  | refl => exact .inl rfl
  | @tail r r' _ hp ih =>
    refine .inr ?_
    rcases ih with rfl | ih
    · rw [reader_eq_behind] at hp
      rcases run_prime_of_linked available linked (start - 1) batch with ⟨h, hv, hprime⟩ | hprime
      · have hready := ready_readerBehind log stream h batch w.medium
        have next : start - 1 + 1 < Reader.positions := by
          have : max start 1 < Reader.positions := hstart.next
          omega
        refine hready.passes ordered short available ?_ (hready.passes_of_prime hprime hp)
        rwa [next_readerBehind, hv]
      · rw [Reader.finish_of_passes hprime hp, ← reader_eq_behind]
        exact hstart.finish w.medium
    · have hready := ih.ready hp.running
      obtain rfl := ih.stream
      exact hready.passes ordered short available ih.inWords.next hp

/-- Of a stream that is linked a reader yields the records from its start on, each once and in
order, and is at its end then, whatever the start and the size of its pages, and whether it checks
the chain or not.  Nothing that it computes on its way leaves the words, if the start is a word and
so is the position behind the last record; a list in memory is never longer. -/
theorem reads_exactly (start batch : Nat) :
    (∀ items, (log.reader stream start batch).Yields w items ↔
      items = ((w.medium.records stream).filter fun x => start ≤ x.sequence).map .record) ∧
    ((w.medium.records stream).length + 1 < Reader.positions → start < Reader.positions →
      ∀ r, ReflTransGen (Reader.Passes w) (log.reader stream start batch) r → r.InWords) := by
  refine ⟨Reader.Yields.iff ?_, fun short word r => inWords_of_passes available linked short word⟩
  rw [(Sealer.linked_iff.1 linked).1.filter_eq_drop, reader_eq_behind]
  show (log.reader stream (start - 1 + 1) batch).Yields w
    (((w.medium.records stream).drop (start - 1)).map .record)
  by_cases hk : start - 1 ≤ (w.medium.records stream).length
  · exact yields_of_linked batch available linked hk
  · rw [List.drop_eq_nil_of_le (Nat.le_of_not_le hk)]
    exact yields_beyond available linked (Nat.lt_of_not_le hk) batch

end linked

/-- A stream of two records. -/
def shortStream : InMemory :=
  { InMemory.empty .startOf2025 with
    medium := Memory.empty.store ⟨"S", 0, Sealer.quick.chain "S" .empty
      [⟨"Noted", "a", .startOf2025⟩, ⟨"Noted", "b", .startOf2025⟩]⟩ }

/-- From the second record on, and from the last position that there is. -/
theorem reads_exactly_shortStream :
    (∃ x, x.payload = "b" ∧ (quick.reader "S" 2 0).Yields shortStream [.record x]) ∧
      (quick.reader "S" (Reader.positions - 1) 1).Yields shortStream [] ∧
      ∀ r, ReflTransGen (Reader.Passes shortStream) (quick.reader "S" (Reader.positions - 1) 1) r →
        r.InWords := by
  have linked : quick.sealer.Linked "S" .empty (shortStream.medium.records "S") :=
    Sealer.linked_chain ..
  obtain ⟨second, -⟩ := reads_exactly (w := shortStream) rfl linked 2 0
  obtain ⟨last, words⟩ :=
    reads_exactly (w := shortStream) rfl linked (Reader.positions - 1) 1
  have short : (shortStream.medium.records "S").length + 1 < Reader.positions := by decide
  exact ⟨⟨_, rfl, (second _).2 rfl⟩, (last _).2 rfl, words short (by decide)⟩

end Log

end TransferLedger

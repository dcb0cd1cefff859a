import Mathlib.Algebra.BigOperators.Group.List.Basic
import Mathlib.Algebra.GroupWithZero.Nat
import Mathlib.Data.List.SplitLengths
import TransferLedger.Proofs.Log.Appending

/-!
# Paging through a stream

A page is asked for by a position and cut out by indices.  If the positions of a stream count up
from one, the two come to the same: a page holds the first records from its position on, as many as
were asked for (`Memory.readPage_eq_since`).

The indices are words.  Whatever is asked for, they lie in the list (`Span.first_le_last`,
`Span.last_le_length`), and where a word is too short for a number, the number was beyond the end of
the list anyway.  So a page that is reckoned in words is the one that numbers without a bound would
give (`Memory.cutPage_eq`).

Whoever asks for page after page, each from one past the last position received, gets the records
cut into pieces of the sizes asked for (`Memory.pages_eq`).  So nothing is received twice or left
out, and once a page is not full, everything has been received (`Memory.paging_exact`).
-/

set_option autoImplicit false

namespace TransferLedger

/-! ## Indices in words -/

namespace Span

theorem toNat_min (i j : USize) : (min i j).toNat = min i.toNat j.toNat := by
  rw [Nat.min_def]
  exact apply_ite USize.toNat (i ≤ j) i j

/-- A number that is too large for an index is cut off at the length, as the number itself would
be. -/
theorem toNat_min_ofNatClamp (n : Nat) (length : USize) :
    (min (.ofNatClamp n) length).toNat = min n length.toNat := by
  have hlength : length.toNat < USize.size := length.toNat_lt_size
  rw [toNat_min]
  by_cases hn : n < USize.size
  · rw [USize.toNat_ofNatClamp_of_lt hn]
  · rw [USize.toNat_ofNatClamp_of_le (by omega)]
    omega

theorem toNat_index (start : UInt64) : (max start 1 - 1).toNat = start.toNat - 1 := by
  by_cases h : start ≤ 1
  · have hmax : max start 1 = 1 := if_pos h
    have hle : start.toNat ≤ 1 := UInt64.le_iff_toNat_le.1 h
    rw [hmax, Nat.sub_eq_zero_of_le hle]
    rfl
  · have hmax : max start 1 = start := if_neg h
    have hle : 1 ≤ start := (UInt64.le_total start 1).resolve_left h
    rw [hmax, UInt64.toNat_sub_of_le _ _ hle]
    rfl

variable (start : UInt64) (limit length : USize)

theorem toNat_first :
    (ofPage start limit length).first.toNat = min (start.toNat - 1) length.toNat := by
  rw [← toNat_index]
  exact toNat_min_ofNatClamp ..

theorem toNat_last :
    (ofPage start limit length).last.toNat =
      min ((ofPage start limit length).first.toNat + limit.toNat) length.toNat :=
  toNat_min_ofNatClamp ..

theorem first_le_last : (ofPage start limit length).first ≤ (ofPage start limit length).last := by
  rw [USize.le_iff_toNat_le, toNat_last, toNat_first]
  omega

theorem last_le_length : (ofPage start limit length).last ≤ length := by
  rw [USize.le_iff_toNat_le, toNat_last]
  exact Nat.min_le_right ..

end Span

/-! ## A list in pieces -/

/-- Pieces of the given sizes are together as long as all of them, or the whole list. -/
theorem flatten_splitLengths_eq_take {α : Type} (sizes : List Nat) (l : List α) :
    (sizes.splitLengths l).flatten = l.take sizes.sum := by
  induction sizes generalizing l with
  | nil => simp
  | cons size sizes ih =>
    rw [List.splitLengths_cons, List.flatten_cons, ih, List.sum_cons, List.take_add]

namespace Memory

variable {m : Memory} {stream : String}

/-! ## One page -/

/-- A list that fits into memory is cut where numbers without a bound would cut it. -/
theorem cutPage_eq (short : (m.records stream).length < USize.size) (start : UInt64)
    (limit : USize) : m.cutPage stream start limit = m.readPage stream start.toNat limit.toNat := by
  have hlength : (USize.ofNat (m.records stream).length).toNat = (m.records stream).length :=
    USize.toNat_ofNat_of_lt' short
  unfold cutPage readPage
  dsimp only
  congr 2
  rw [slice_eq, List.extract_eq_take_drop, Span.toNat_last, Span.toNat_first, hlength]
  by_cases h : start.toNat - 1 ≤ (m.records stream).length
  · rw [Nat.min_eq_left h, List.take_eq_take_iff, List.length_drop]
    omega
  · have hle : (m.records stream).length ≤ start.toNat - 1 := Nat.le_of_not_le h
    rw [Nat.min_eq_right hle, List.drop_length, List.drop_eq_nil_of_le hle, List.take_nil,
      List.take_nil]

/-- The records of a stream from a position on. -/
def since (m : Memory) (stream : String) (start : Nat) : List Record :=
  (m.records stream).filter fun x => start ≤ x.sequence

section numbered

variable (numbered : Numbered 1 (m.records stream))

include numbered

theorem since_eq_drop (start : Nat) : m.since stream start = (m.records stream).drop (start - 1) :=
  numbered.filter_eq_drop start

theorem readPage_eq_since (available : m.available = true) (start limit : Nat) :
    m.readPage stream start limit = .ok ((m.since stream start).take limit) := by
  rw [readPage, if_pos available, slice_eq, since_eq_drop numbered]

end numbered

/-! ## Page after page -/

/-- The position to ask from after a page: one past the last that was received. -/
def following (start : UInt64) (page : List Record) : UInt64 :=
  match page.getLast? with
  | none => start
  | some x => .ofNat (x.sequence + 1)

/-- Pages of a stream one after the other, of the given sizes, each from where the one before it
ended. -/
def pages (m : Memory) (stream : String) :
    UInt64 → List USize → Except StoreError (List (List Record))
  | _, [] => .ok []
  | start, limit :: limits => do
    let page ← m.cutPage stream start limit
    let later ← m.pages stream (following start page) limits
    return page :: later

section numbered

variable (numbered : Numbered 1 (m.records stream))
  (short : (m.records stream).length + 1 < USize.size)

include numbered short

/-- From the next position on there is what the page has left. -/
theorem since_following (start : UInt64) (limit : Nat) :
    m.since stream (following start ((m.since stream start.toNat).take limit)).toNat =
      (m.since stream start.toNat).drop limit := by
  generalize hpage : (m.since stream start.toNat).take limit = page
  unfold following
  cases hlast : page.getLast? with
  | none =>
    -- Nothing was asked for, or there was nothing more.
    rw [List.getLast?_eq_none_iff.1 hlast] at hpage
    rcases List.take_eq_nil_iff.1 hpage with rfl | hnil
    · rfl
    · dsimp only
      rw [hnil, List.drop_nil]
  | some x =>
    obtain ⟨init, rfl⟩ := List.getLast?_eq_some_iff.1 hlast
    generalize hrest : (m.since stream start.toNat).drop limit = rest
    -- The list is what was there before the page, the page, and the rest.
    obtain ⟨before, hrecords⟩ : ∃ before, m.records stream = before ++ x :: rest := by
      refine ⟨(m.records stream).take (start.toNat - 1) ++ init, ?_⟩
      calc m.records stream
        _ = (m.records stream).take (start.toNat - 1) ++ m.since stream start.toNat := by
          rw [since_eq_drop numbered, List.take_append_drop]
        _ = (m.records stream).take (start.toNat - 1) ++ (init ++ [x] ++ rest) := by
          rw [← hpage, ← hrest, List.take_append_drop]
        _ = _ := by simp
    have hsequence : x.sequence = before.length + 1 := by
      rw [hrecords, Numbered.append_iff, Numbered.cons_iff] at numbered
      omega
    have hword : x.sequence + 1 < UInt64.size := by
      have hlength := congrArg List.length hrecords
      have hsize := USize.size_le_uint64Size
      rw [List.length_append, List.length_cons] at hlength
      omega
    dsimp only
    rw [UInt64.toNat_ofNat_of_lt' hword, since_eq_drop numbered, hrecords, hsequence,
      Nat.add_sub_cancel, List.drop_length_add_append]
    rfl

theorem pages_eq (available : m.available = true) (start : UInt64) (limits : List USize) :
    m.pages stream start limits =
      .ok ((limits.map USize.toNat).splitLengths (m.since stream start.toNat)) := by
  induction limits generalizing start with
  | nil => rfl
  | cons limit limits ih =>
    have hpage : m.cutPage stream start limit =
        .ok ((m.since stream start.toNat).take limit.toNat) := by
      rw [cutPage_eq (Nat.lt_of_succ_lt short), readPage_eq_since numbered available]
    have hlater := ih (following start ((m.since stream start.toNat).take limit.toNat))
    rw [since_following numbered short] at hlater
    rw [pages, hpage, List.map_cons, List.splitLengths_cons]
    simp only [bind, Except.bind, hlater]
    rfl

end numbered

/-- Of a stream whose positions count up from one a page holds the records from its position on, as
many as were asked for, and is cut out at indices that lie in the list, whatever was asked for.
Pages that are asked for one after the other, each from one past the last position received, hold
together what one page of all their sizes would hold.  That is everything from the start on once a
page is not full, or once there have been as many pages, none of size zero, as there are records.  A
list in memory never has as many records as there are indices. -/
theorem paging_exact (available : m.available = true) (numbered : Numbered 1 (m.records stream))
    (short : (m.records stream).length + 1 < USize.size) (start : UInt64) :
    (∀ limit : USize,
      let span := Span.ofPage start limit (.ofNat (m.records stream).length)
      span.first ≤ span.last ∧ span.last.toNat ≤ (m.records stream).length ∧
        m.cutPage stream start limit = .ok ((m.since stream start.toNat).take limit.toNat) ∧
        m.readPage stream start.toNat limit.toNat = m.cutPage stream start limit) ∧
    ∀ limits : List USize, ∃ pages, m.pages stream start limits = .ok pages ∧
      pages.flatten = (m.since stream start.toNat).take (limits.map USize.toNat).sum ∧
      (pages.map List.length ≠ limits.map USize.toNat →
        pages.flatten = m.since stream start.toNat) ∧
      ((∀ limit ∈ limits, 0 < limit) → (m.since stream start.toNat).length ≤ limits.length →
        pages.flatten = m.since stream start.toNat) := by
  have fits : (m.records stream).length < USize.size := Nat.lt_of_succ_lt short
  constructor
  · intro limit span
    have hcut := cutPage_eq (m := m) fits start limit
    refine ⟨Span.first_le_last .., ?_, ?_, hcut.symm⟩
    · have hle := USize.le_iff_toNat_le.1 (Span.last_le_length start limit
        (.ofNat (m.records stream).length))
      rwa [USize.toNat_ofNat_of_lt' fits] at hle
    · rw [hcut, readPage_eq_since numbered available]
  · intro limits
    refine ⟨_, pages_eq numbered short available start limits,
      flatten_splitLengths_eq_take .., ?_, ?_⟩
    · intro notFull
      apply List.flatten_splitLengths
      by_contra hlt
      exact notFull (List.map_splitLengths_length _ _ (Nat.le_of_not_le hlt))
    · intro positive enough
      apply List.flatten_splitLengths
      have hsum : limits.length ≤ (limits.map USize.toNat).sum := by
        have := List.length_le_sum_of_one_le (limits.map USize.toNat) (by
          intro n hn
          obtain ⟨limit, hlimit, rfl⟩ := List.mem_map.1 hn
          exact USize.lt_iff_toNat_lt.1 (positive limit hlimit))
        rwa [List.length_map] at this
      exact Nat.le_trans enough hsum

/-- A medium with a stream of three records. -/
def threeNoted : Memory :=
  Memory.empty.store ⟨"S", 0, Sealer.quick.chain "S" .empty
    [⟨"Noted", "a", .startOf2025⟩, ⟨"Noted", "b", .startOf2025⟩, ⟨"Noted", "c", .startOf2025⟩]⟩

/-- From the second record on, one and then as many as there can be; and from the last position
that there is. -/
theorem paging_exact_threeNoted :
    (∃ pages, threeNoted.pages "S" 2 [1, .ofNatClamp UInt64.size] = .ok pages ∧
      pages.flatten.map Record.payload = ["b", "c"]) ∧
    threeNoted.cutPage "S" (.ofNat (UInt64.size - 1)) (.ofNatClamp UInt64.size) = .ok [] := by
  have numbered : Numbered 1 (threeNoted.records "S") := (Sealer.continues_chain ..).numbered
  have short : (threeNoted.records "S").length + 1 < USize.size :=
    Nat.lt_of_lt_of_le (by decide) USize.le_size
  obtain ⟨-, second⟩ := paging_exact rfl numbered short 2
  obtain ⟨last, -⟩ := paging_exact rfl numbered short (.ofNat (UInt64.size - 1))
  obtain ⟨pages, hpages, -, -, hall⟩ := second [1, .ofNatClamp UInt64.size]
  obtain ⟨-, -, hcut, -⟩ := last (.ofNatClamp UInt64.size)
  have positive : ∀ limit ∈ [1, USize.ofNatClamp UInt64.size], 0 < limit := by
    have hsize := USize.le_size
    intro limit hlimit
    rw [USize.lt_iff_toNat_lt]
    rcases List.mem_pair.1 hlimit with rfl | rfl
    · simp
    · rw [USize.toNat_ofNatClamp_of_le USize.size_le_uint64Size, USize.toNat_zero]
      omega
  have beyond : threeNoted.since "S" (UInt64.ofNat (UInt64.size - 1)).toNat = [] := by decide
  refine ⟨⟨pages, hpages, ?_⟩, ?_⟩
  · rw [hall positive (by decide)]
    decide
  · rw [hcut, beyond, List.take_nil]

end Memory

end TransferLedger

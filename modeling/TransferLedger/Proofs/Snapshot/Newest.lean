import Mathlib.Data.Finset.Card
import Mathlib.Data.List.MinMax
import Mathlib.Data.List.Pairwise
import TransferLedger.Proofs.Snapshot.Saving

/-!
# The newest snapshot of each stream

Coordinators save snapshots without asking each other, so they come to a shelf late, out of order
and more than once.  What the shelf has of a stream in the end is the newest of them whatever came
in between, and of several with the same version the one that was saved first
(`Shelf.latest_saveAll`).  The snapshots of other streams have no part in it, and neither has the
order, if no version of a stream is saved twice (`Shelf.saveAll_perm`).

Whether a snapshot is intact is looked at only when it is loaded.  So a newer one that is damaged
takes the place of an older one that is not, and the load fails then (`Shelf.newest_kept`).
-/

set_option autoImplicit false

namespace TransferLedger

variable {xs ys : List Snapshot} {x y : Snapshot} {stream : String}

/-- They are not two of the same version of a stream. -/
def Snapshot.Apart (x y : Snapshot) : Prop :=
  x.stream = y.stream → x.version ≠ y.version

instance : Std.Symm Snapshot.Apart :=
  ⟨fun _ _ h he => (h he.symm).symm⟩

/-- The newest of the snapshots of a stream, and of several that are the newest the first. -/
def Snapshot.newest? (stream : String) (xs : List Snapshot) : Option Snapshot :=
  (xs.filter fun x => x.stream == stream).argmax Snapshot.version

namespace Snapshot

theorem newest?_concat_other (xs : List Snapshot) (h : x.stream ≠ stream) :
    newest? stream (xs ++ [x]) = newest? stream xs := by
  simp [newest?, h]

theorem newest?_concat (xs : List Snapshot) (x : Snapshot) :
    newest? x.stream (xs ++ [x]) = match newest? x.stream xs with
      | none => some x
      | some old => if old.version < x.version then some x else some old := by
  have hfilter : (xs ++ [x]).filter (fun y => y.stream == x.stream) =
      xs.filter (fun y => y.stream == x.stream) ++ [x] := by simp
  rw [newest?, newest?, hfilter, List.argmax_concat]
  cases (xs.filter fun y => y.stream == x.stream).argmax version <;> rfl

theorem newest?_eq_none_iff : newest? stream xs = none ↔ ∀ x ∈ xs, x.stream ≠ stream := by
  simp [newest?, List.argmax_eq_none, List.filter_eq_nil_iff]

theorem mem_of_newest? (h : newest? stream xs = some x) : x ∈ xs ∧ x.stream = stream := by
  have hm := List.mem_filter.1 (List.argmax_mem (Option.mem_def.2 h))
  exact ⟨hm.1, beq_iff_eq.1 hm.2⟩

theorem version_le_of_newest? (h : newest? stream xs = some x) (hy : y ∈ xs)
    (hs : y.stream = stream) : y.version ≤ x.version := by
  apply List.le_of_mem_argmax _ (Option.mem_def.2 h)
  exact List.mem_filter.2 ⟨hy, beq_iff_eq.2 hs⟩

/-- Before it there are only older ones of the stream, and behind it none that is newer. -/
def Newest (stream : String) (xs : List Snapshot) (x : Snapshot) : Prop :=
  ∃ before after, xs = before ++ x :: after ∧ x.stream = stream ∧
    (∀ y ∈ before, y.stream = stream → y.version < x.version) ∧
    ∀ y ∈ after, y.stream = stream → y.version ≤ x.version

/-- Another one is saved that does not take its place. -/
theorem Newest.concat (h : Newest stream xs x) (hy : y.stream = stream → y.version ≤ x.version) :
    Newest stream (xs ++ [y]) x := by
  obtain ⟨before, after, rfl, hs, hbefore, hafter⟩ := h
  refine ⟨before, after ++ [y], by simp, hs, hbefore, ?_⟩
  intro z hz
  rcases List.mem_append.1 hz with hz | hz
  · exact hafter z hz
  · obtain rfl := List.mem_singleton.1 hz
    exact hy

theorem newest_of_newest? (h : newest? stream xs = some x) : Newest stream xs x := by
  induction xs using List.reverseRecOn generalizing x with
  | nil => simp [newest?] at h
  | append_singleton xs y ih =>
    by_cases hs : y.stream = stream
    · subst hs
      rw [newest?_concat] at h
      cases hold : newest? y.stream xs with
      | none =>
        rw [hold] at h
        obtain rfl := Option.some.inj h
        have others := newest?_eq_none_iff.1 hold
        exact ⟨xs, [], rfl, rfl, fun z hz he => absurd he (others z hz), by simp⟩
      | some old =>
        simp only [hold] at h
        split at h
        · next hlt =>
          obtain rfl := Option.some.inj h
          refine ⟨xs, [], rfl, rfl, fun z hz he => ?_, by simp⟩
          exact Nat.lt_of_le_of_lt (version_le_of_newest? hold hz he) hlt
        · next hle =>
          obtain rfl := Option.some.inj h
          exact (ih hold).concat fun _ => Nat.le_of_not_lt hle
    · rw [newest?_concat_other xs hs] at h
      exact (ih h).concat fun he => absurd he hs

/-- If each version of a stream is there once, the newest does not depend on the order. -/
theorem newest?_perm (perm : xs.Perm ys) (apart : xs.Pairwise Apart) :
    newest? stream ys = newest? stream xs := by
  cases hx : newest? stream xs with
  | none =>
    rw [newest?_eq_none_iff] at hx ⊢
    intro y hy
    exact hx y (perm.mem_iff.2 hy)
  | some x =>
    obtain ⟨hxm, hxs⟩ := mem_of_newest? hx
    cases hy : newest? stream ys with
    | none => exact absurd hxs (newest?_eq_none_iff.1 hy x (perm.mem_iff.1 hxm))
    | some y =>
      obtain ⟨hym, hys⟩ := mem_of_newest? hy
      have hle := version_le_of_newest? hx (perm.mem_iff.2 hym) hys
      have hge := version_le_of_newest? hy (perm.mem_iff.1 hxm) hxs
      -- Each of the two is as new as the other, so they are one.
      by_contra hne
      have differ : y ≠ x := fun he => hne (congrArg some he)
      exact apart.forall (perm.mem_iff.2 hym) hxm differ (hys.trans hxs.symm)
        (Nat.le_antisymm hle hge)

end Snapshot

namespace Shelf

/-- Save snapshots one after the other. -/
def saveAll (s : Shelf) (xs : List Snapshot) : Shelf :=
  xs.foldl save s

theorem saveAll_concat (s : Shelf) (xs : List Snapshot) (x : Snapshot) :
    s.saveAll (xs ++ [x]) = (s.saveAll xs).save x := by
  rw [saveAll, List.foldl_append]
  rfl

/-- What a shelf has of a stream is the newest that has been saved of it. -/
theorem latest_saveAll (xs : List Snapshot) (stream : String) :
    (empty.saveAll xs).latest stream = Snapshot.newest? stream xs := by
  induction xs using List.reverseRecOn with
  | nil => rfl
  | append_singleton xs x ih =>
    rw [saveAll_concat]
    by_cases hs : stream = x.stream
    · subst hs
      rw [Snapshot.newest?_concat, ← ih]
      cases hl : (empty.saveAll xs).latest x.stream with
      | none => rw [save_of_none hl, latest_overwrite_same]
      | some old =>
        by_cases hlt : old.version < x.version
        · simp only [save_of_lt hl hlt, latest_overwrite_same, if_pos hlt]
        · simp only [save_of_le hl (Nat.le_of_not_lt hlt), hl, if_neg hlt]
    · rw [latest_save_other _ hs, Snapshot.newest?_concat_other _ (Ne.symm hs), ih]

theorem load_saveAll (xs : List Snapshot) (stream : String) :
    (empty.saveAll xs).load stream = match Snapshot.newest? stream xs with
      | none => .ok none
      | some x => if x.isIntact then .ok (some x)
        else .error (.checksumMismatch stream x.version) := by
  rw [load, latest_saveAll]
  cases h : Snapshot.newest? stream xs with
  | none => rfl
  | some x =>
    obtain ⟨-, rfl⟩ := Snapshot.mem_of_newest? h
    simp only [Snapshot.verified]
    split <;> rfl

/-- A shelf has as many snapshots as there are streams of which one has been saved. -/
theorem size_saveAll (xs : List Snapshot) :
    (empty.saveAll xs).size = (xs.map Snapshot.stream).toFinset.card := by
  induction xs using List.reverseRecOn with
  | nil => rfl
  | append_singleton xs x ih =>
    have hinsert : ((xs ++ [x]).map Snapshot.stream).toFinset =
        insert x.stream (xs.map Snapshot.stream).toFinset := by
      ext stream
      simp [eq_comm]
    rw [saveAll_concat, size_save, latest_saveAll, hinsert, ih]
    cases h : Snapshot.newest? x.stream xs with
    | none =>
      have hnew : x.stream ∉ (xs.map Snapshot.stream).toFinset := by
        simpa using Snapshot.newest?_eq_none_iff.1 h
      rw [Finset.card_insert_of_notMem hnew]
      rfl
    | some y =>
      obtain ⟨hm, hs⟩ := Snapshot.mem_of_newest? h
      have hold : x.stream ∈ (xs.map Snapshot.stream).toFinset := by
        simpa using ⟨y, hm, hs⟩
      rw [Finset.insert_eq_of_mem hold]
      rfl

theorem saveAll_perm (perm : xs.Perm ys) (apart : xs.Pairwise Snapshot.Apart) :
    empty.saveAll ys = empty.saveAll xs := by
  have hlatest : (empty.saveAll ys).latest = (empty.saveAll xs).latest := by
    funext stream
    rw [latest_saveAll, latest_saveAll, Snapshot.newest?_perm perm apart]
  have hsize : (empty.saveAll ys).size = (empty.saveAll xs).size := by
    rw [size_saveAll, size_saveAll, List.toFinset_eq_of_perm _ _ (perm.map _)]
  cases h : empty.saveAll xs
  cases h' : empty.saveAll ys
  simp_all

/-- Whatever is saved on an empty shelf, and in whatever order:

* Of a stream the shelf gives out the newest snapshot that has been saved, and of several that are
  the newest the first, if that is intact; otherwise loading fails.  It has nothing if nothing has
  been saved.  Only the snapshots of the stream itself have a part in that.
* It has one snapshot of each stream of which one has been saved.
* A snapshot that is not newer than the one that it has of the stream changes nothing.
* If no version of a stream is saved twice, the order makes no difference. -/
theorem newest_kept (xs : List Snapshot) :
    (∀ stream,
      ((∀ x ∈ xs, x.stream ≠ stream) ∧ (empty.saveAll xs).load stream = .ok none) ∨
      ∃ x, Snapshot.Newest stream xs x ∧ (empty.saveAll xs).load stream =
        if x.isIntact then .ok (some x) else .error (.checksumMismatch stream x.version)) ∧
    (∀ ys stream, (xs.filter fun x => x.stream == stream) = ys.filter (fun x => x.stream == stream) →
      (empty.saveAll ys).load stream = (empty.saveAll xs).load stream) ∧
    (empty.saveAll xs).size = (xs.map Snapshot.stream).toFinset.card ∧
    (∀ x old, (empty.saveAll xs).latest x.stream = some old → x.version ≤ old.version →
      empty.saveAll (xs ++ [x]) = empty.saveAll xs) ∧
    ∀ ys, xs.Perm ys → xs.Pairwise Snapshot.Apart → empty.saveAll ys = empty.saveAll xs := by
  refine ⟨fun stream => ?_, fun ys stream same => ?_, size_saveAll xs, fun x old hold hle => ?_,
    fun ys => saveAll_perm⟩
  · rw [load_saveAll]
    cases h : Snapshot.newest? stream xs with
    | none => exact .inl ⟨Snapshot.newest?_eq_none_iff.1 h, rfl⟩
    | some x => exact .inr ⟨x, Snapshot.newest_of_newest? h, rfl⟩
  · rw [load_saveAll, load_saveAll, Snapshot.newest?, Snapshot.newest?, same]
  · rw [saveAll_concat]
    exact save_of_le hold hle

/-- A snapshot that comes late, behind a newer one, and one of another stream. -/
theorem newest_kept_late :
    let older := Snapshot.capture .startOf2025 "a" "Transaction" 2 (.bool false)
    let newer := Snapshot.capture .startOf2025 "a" "Transaction" 4 (.bool true)
    let other := Snapshot.capture .startOf2025 "b" "Transaction" 4 .null
    empty.saveAll [other, newer, older] = empty.saveAll [older, newer, other] ∧
      empty.saveAll ([older, newer, other] ++ [older]) = empty.saveAll [older, newer, other] ∧
      (empty.saveAll [older, newer, other]).size = 2 := by
  intro older newer other
  obtain ⟨-, -, size, late, order⟩ := newest_kept [older, newer, other]
  have perm : [older, newer, other].Perm [other, newer, older] := by
    simpa using List.reverse_perm [other, newer, older]
  have apart : [older, newer, other].Pairwise Snapshot.Apart := by
    simp [Snapshot.Apart, older, newer, other, Snapshot.capture]
  exact ⟨order _ perm apart, late older newer rfl (by decide), size.trans (by decide)⟩

end Shelf

end TransferLedger

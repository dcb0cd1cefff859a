import TransferLedger.Snapshot.Store

/-!
# What saving does to a shelf

A snapshot that is saved is compared with the one of its own stream and takes its place, or is
passed over (`Shelf.save_eq`).  Other streams are not concerned (`Shelf.latest_save_other`), so
saving snapshots of different streams can be done in either order (`Shelf.save_comm`).
-/

set_option autoImplicit false

namespace TransferLedger.Shelf

variable {s : Shelf} {x y : Snapshot} {stream : String}

theorem latest_overwrite_same (s : Shelf) (x : Snapshot) :
    (s.overwrite x).latest x.stream = some x :=
  Keyed.set_same ..

theorem latest_overwrite_other (s : Shelf) (x : Snapshot) (h : stream ≠ x.stream) :
    (s.overwrite x).latest stream = s.latest stream :=
  Keyed.set_other _ _ h

theorem overwrite_comm (s : Shelf) (apart : x.stream ≠ y.stream) :
    (s.overwrite x).overwrite y = (s.overwrite y).overwrite x := by
  simp only [overwrite, Keyed.set_other _ _ apart, Keyed.set_other _ _ apart.symm,
    Keyed.set_comm _ _ _ apart]
  congr 1
  split <;> split <;> rfl

/-- A snapshot is compared with one of its own stream. -/
theorem save_eq (s : Shelf) (x : Snapshot) :
    s.save x = if (s.latest x.stream).any (fun old => x.version ≤ old.version) then s
      else s.overwrite x := by
  unfold save
  cases s.latest x.stream <;> simp

theorem save_of_le {old : Snapshot} (h : s.latest x.stream = some old)
    (hle : x.version ≤ old.version) : s.save x = s := by
  rw [save_eq, h]
  simp [hle]

theorem save_of_lt {old : Snapshot} (h : s.latest x.stream = some old)
    (hlt : old.version < x.version) : s.save x = s.overwrite x := by
  rw [save_eq, h]
  simp [Nat.not_le.2 hlt]

theorem save_of_none (h : s.latest x.stream = none) : s.save x = s.overwrite x := by
  rw [save_eq, h]
  simp

theorem latest_save_other (s : Shelf) (h : stream ≠ x.stream) :
    (s.save x).latest stream = s.latest stream := by
  rw [save_eq]
  split
  · rfl
  · exact s.latest_overwrite_other x h

/-- What is on a shelf after saving has just been saved, or was there before. -/
theorem latest_save (h : (s.save x).latest stream = some y) :
    y = x ∨ s.latest stream = some y := by
  by_cases hs : stream = x.stream
  · subst hs
    rw [save_eq] at h
    split at h
    · exact .inr h
    · rw [latest_overwrite_same] at h
      exact .inl (Option.some.inj h).symm
  · rw [latest_save_other s hs] at h
    exact .inr h

/-- There is one more stream with a snapshot, or there are as many as before. -/
theorem size_save (s : Shelf) (x : Snapshot) :
    (s.save x).size = if (s.latest x.stream).isSome then s.size else s.size + 1 := by
  rw [save_eq]
  cases h : s.latest x.stream with
  | none => simp [overwrite, h]
  | some old =>
    split
    · rfl
    · simp [overwrite, h]

/-- It makes no difference in which order snapshots of different streams are saved. -/
theorem save_comm (s : Shelf) (apart : x.stream ≠ y.stream) :
    (s.save x).save y = (s.save y).save x := by
  rw [save_eq (s.save x), save_eq (s.save y), latest_save_other _ apart.symm,
    latest_save_other _ apart, save_eq, save_eq]
  by_cases hx : (s.latest x.stream).any (fun old => x.version ≤ old.version) = true <;>
    by_cases hy : (s.latest y.stream).any (fun old => y.version ≤ old.version) = true <;>
      simp only [hx, hy, if_true, Bool.false_eq_true, if_false]
  exact s.overwrite_comm apart

/-! ## Loading -/

theorem load_of_latest (h : s.latest stream = some x) (intact : x.isIntact = true) :
    s.load stream = .ok (some x) := by
  rw [load, h]
  simp only [Snapshot.verified, intact, if_true]
  rfl

theorem latest_of_load (h : s.load stream = .ok (some x)) : s.latest stream = some x := by
  unfold load at h
  split at h
  · simp at h
  · next y hy =>
    unfold Snapshot.verified at h
    split at h
    · obtain rfl : y = x := by simpa [Except.map] using h
      exact hy
    · simp [Except.map] at h

/-- What a shelf has been given it hands out, if it had nothing else. -/
theorem load_saved (hs : x.stream = stream) (intact : x.isIntact = true) :
    (empty.save x).load stream = .ok (some x) := by
  subst hs
  apply load_of_latest _ intact
  rw [save_of_none rfl, latest_overwrite_same]

end TransferLedger.Shelf

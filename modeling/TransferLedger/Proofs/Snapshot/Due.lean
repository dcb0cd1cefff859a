import TransferLedger.Snapshot.Policy

/-!
# When a snapshot falls due

The policy compares two quotients.  What it means by that is that the stream has come to a multiple
of the threshold, or past one (`SnapshotPolicy.isDue_iff_crossed`).  Such a multiple is crossed in
one of the steps that lead from the one version to the other, and in none but by way of it.  So it
does not matter how the facts were divided into batches: cutting a batch in two loses no snapshot,
and joining two makes none fall due (`SnapshotPolicy.isDue_crossing`).

The policy divides by its threshold, which may be zero, and is not asked then
(`SnapshotPolicy.isDue?_eq`).
-/

set_option autoImplicit false

namespace TransferLedger.SnapshotPolicy

variable {p : SnapshotPolicy} {t a b c : Nat}

/-- The quotient is greater if a multiple lies between. -/
theorem div_lt_div_iff_crossed (ht : 0 < t) :
    a / t < b / t ↔ ∃ k, 1 ≤ k ∧ a < k * t ∧ k * t ≤ b := by
  constructor
  · intro h
    refine ⟨b / t, Nat.one_le_of_lt h, ?_, Nat.div_mul_le_self b t⟩
    exact (Nat.div_lt_iff_lt_mul ht).1 h
  · rintro ⟨k, -, hbelow, hreached⟩
    calc a / t < k := (Nat.div_lt_iff_lt_mul ht).2 hbelow
      _ ≤ b / t := (Nat.le_div_iff_mul_le ht).2 hreached

theorem isDue_of_unused (h : p.enabled = false ∨ p.threshold = 0) (a b : Nat) :
    p.isDue a b = false := by
  rw [isDue, if_pos]
  rcases h with h | h
  · exact .inl h
  · exact .inr (.inl h)

/-- Only if the stream has moved on are the quotients compared, and otherwise they would say the
same. -/
theorem isDue_iff_div_lt (on : p.enabled = true) (ht : 0 < p.threshold) :
    p.isDue a b = true ↔ a / p.threshold < b / p.threshold := by
  by_cases hle : b ≤ a
  · have hdiv : b / p.threshold ≤ a / p.threshold := Nat.div_le_div_right hle
    rw [isDue, if_pos (.inr (.inr hle))]
    simp [hdiv]
  · have used : ¬ (p.enabled = false ∨ p.threshold = 0 ∨ b ≤ a) := by
      rintro (h | h | h)
      · exact absurd on (by simp [h])
      · exact absurd h (Nat.ne_of_gt ht)
      · exact hle h
    rw [isDue, if_neg used, decide_eq_true_iff]

theorem isDue_iff_crossed (on : p.enabled = true) (ht : 0 < p.threshold) :
    p.isDue a b = true ↔ ∃ k, 1 ≤ k ∧ a < k * p.threshold ∧ k * p.threshold ≤ b := by
  rw [isDue_iff_div_lt on ht, div_lt_div_iff_crossed ht]

/-! ## Batches -/

/-- Two steps one after the other are one step, as far as snapshots go. -/
theorem isDue_trans (on : p.enabled = true) (ht : 0 < p.threshold) (hab : a ≤ b) (hbc : b ≤ c) :
    p.isDue a c = true ↔ p.isDue a b = true ∨ p.isDue b c = true := by
  simp only [isDue_iff_div_lt on ht]
  have h1 : a / p.threshold ≤ b / p.threshold := Nat.div_le_div_right hab
  have h2 : b / p.threshold ≤ c / p.threshold := Nat.div_le_div_right hbc
  constructor
  · intro h
    rcases Nat.lt_or_ge (a / p.threshold) (b / p.threshold) with hlt | hge
    · exact .inl hlt
    · exact .inr (Nat.lt_of_le_of_lt hge h)
  · rintro (h | h)
    · exact Nat.lt_of_lt_of_le h h2
    · exact Nat.lt_of_le_of_lt h1 h

theorem le_of_steps {v : Nat → Nat} {m : Nat} (rises : ∀ i < m, v i ≤ v (i + 1)) : v 0 ≤ v m := by
  induction m with
  | zero => exact Nat.le_refl _
  | succ m ih =>
    have hfirst := ih fun i hi => rises i (Nat.lt_succ_of_lt hi)
    exact Nat.le_trans hfirst (rises m (Nat.lt_succ_self m))

theorem isDue_of_steps (on : p.enabled = true) (ht : 0 < p.threshold) {v : Nat → Nat} {m : Nat}
    (rises : ∀ i < m, v i ≤ v (i + 1)) :
    p.isDue (v 0) (v m) = true ↔ ∃ i < m, p.isDue (v i) (v (i + 1)) = true := by
  induction m with
  | zero => simp [isDue]
  | succ m ih =>
    have rises' : ∀ i < m, v i ≤ v (i + 1) := fun i hi => rises i (Nat.lt_succ_of_lt hi)
    rw [isDue_trans on ht (le_of_steps rises') (rises m (Nat.lt_succ_self m)), ih rises']
    simp only [Nat.lt_succ_iff_lt_or_eq, or_and_right, exists_or, exists_eq_left]

/-! ## A threshold of zero -/

/-- Division as machines do it: by zero there is no quotient. -/
def quotient? (n d : Nat) : Option Nat :=
  if d = 0 then none else some (n / d)

/-- The decision on such a machine. -/
def isDue? (p : SnapshotPolicy) (previous current : Nat) : Option Bool :=
  if p.enabled = false ∨ p.threshold = 0 ∨ current ≤ previous then some false
  else do
    let after ← quotient? current p.threshold
    let before ← quotient? previous p.threshold
    return before < after

/-- It always comes to a decision, and to the same. -/
theorem isDue?_eq (p : SnapshotPolicy) (a b : Nat) : p.isDue? a b = some (p.isDue a b) := by
  unfold isDue? isDue
  split
  · rfl
  · next h =>
    have ht : p.threshold ≠ 0 := fun he => h (.inr (.inl he))
    simp [quotient?, ht]

/-- Under a policy that is in use a snapshot is due if and only if a multiple of the threshold has
been reached or crossed.  Therefore it is due for a row of steps if and only if it is due for one
of them.  Under a policy that is not in use, or has no threshold, none is ever due, and the
threshold is not divided by. -/
theorem isDue_crossing (p : SnapshotPolicy) :
    (p.enabled = true → 0 < p.threshold →
      (∀ previous current, p.isDue previous current = true ↔
        ∃ k, 1 ≤ k ∧ previous < k * p.threshold ∧ k * p.threshold ≤ current) ∧
      ∀ (v : Nat → Nat) m, (∀ i < m, v i ≤ v (i + 1)) →
        (p.isDue (v 0) (v m) = true ↔ ∃ i < m, p.isDue (v i) (v (i + 1)) = true)) ∧
    (p.enabled = false ∨ p.threshold = 0 → ∀ previous current, p.isDue previous current = false) ∧
    ∀ previous current, p.isDue? previous current = some (p.isDue previous current) := by
  refine ⟨fun on ht => ⟨?_, ?_⟩, isDue_of_unused, p.isDue?_eq⟩
  · intro previous current
    exact isDue_iff_crossed on ht
  · intro v m rises
    exact isDue_of_steps on ht rises

/-- A batch of seven, or three batches, under a threshold of three. -/
theorem isDue_crossing_thrice :
    let p : SnapshotPolicy := ⟨true, 3⟩
    let v : Nat → Nat := fun i => [4, 5, 8, 11].getD i 11
    (∃ k, 1 ≤ k ∧ 4 < k * 3 ∧ k * 3 ≤ 11) ∧ (∃ i < 3, p.isDue (v i) (v (i + 1)) = true) ∧
      (⟨true, 0⟩ : SnapshotPolicy).isDue 4 11 = false := by
  intro p v
  obtain ⟨used, -, -⟩ := isDue_crossing p
  obtain ⟨crossed, steps⟩ := used rfl (by decide)
  have due : p.isDue 4 11 = true := by decide
  refine ⟨(crossed 4 11).1 due, (steps v 3 (by decide)).1 due, ?_⟩
  exact (isDue_crossing ⟨true, 0⟩).2.1 (.inr rfl) 4 11

end TransferLedger.SnapshotPolicy

import TransferLedger.Proofs.Log.Appending

/-!
# Appends in turn

A medium looks at all appends of a request before it stores any.  For that it keeps the ends that
the earlier ones would leave, and never sees the streams as they would then be.  It comes to the
same as giving it the appends one at a time: a request that succeeds leaves what they leave
(`Memory.LandsInTurn`), and one that is refused is refused as the first of them would be that fails
(`Memory.StopsInTurn`), with nothing stored.

The step is `Memory.commit_cons`: behind an append that lands, the ends that the check has noted are
those of the medium (`Memory.head_store`).
-/

set_option autoImplicit false

namespace TransferLedger

namespace Memory

variable {m m' : Memory} {a : Append} {appends : List Append} {e : StoreError}

/-- The appends, given one at a time, all land. -/
inductive LandsInTurn : Memory → List Append → Memory → Prop
  | nil {m : Memory} : LandsInTurn m [] m
  | cons {m m₁ m' : Memory} {a : Append} {rest : List Append} :
    m.reply [a] = (.applied, m₁) → LandsInTurn m₁ rest m' → LandsInTurn m (a :: rest) m'

/-- The appends, given one at a time, land up to one that is refused with the error. -/
inductive StopsInTurn : Memory → List Append → StoreError → Prop
  | here {m m₁ : Memory} {a : Append} {rest : List Append} {e : StoreError} :
    m.reply [a] = (.refused e, m₁) → StopsInTurn m (a :: rest) e
  | later {m m₁ : Memory} {a : Append} {rest : List Append} {e : StoreError} :
    m.reply [a] = (.applied, m₁) → StopsInTurn m₁ rest e → StopsInTurn m (a :: rest) e

/-! ## What is answered -/

theorem reply_eq_applied_iff : m.reply appends = (.applied, m') ↔ m.commit appends = .ok m' := by
  unfold reply
  cases m.commit appends <;> simp

theorem reply_eq_refused_iff :
    m.reply appends = (.refused e, m') ↔ m.commit appends = .error e ∧ m' = m := by
  unfold reply
  cases m.commit appends <;> simp [eq_comm]

/-! ## One append and the others behind it -/

theorem commit_nil (available : m.available = true) : m.commit [] = .ok m := by
  simp [commit, available, Append.check]

/-- Appends are stored as the first of them alone would be, and then the others. -/
theorem commit_cons (m : Memory) (a : Append) (rest : List Append) :
    m.commit (a :: rest) = (m.commit [a]).bind fun m₁ => m₁.commit rest := by
  by_cases available : m.available = false
  · simp [commit, available, Except.bind]
  rw [commit, commit, if_neg available, if_neg available]
  cases hfit : a.fit (m.head a.stream) with
  | error e => simp [Append.check, hfit, Except.bind]
  | ok h =>
    obtain ⟨-, -, rfl⟩ := Append.fit_eq_ok_iff.1 hfit
    have hstore : (m.store a).available = m.available := rfl
    simp [Append.check, hfit, Except.bind, commit, hstore, available, head_store]

/-! ## All of them -/

section

variable (sent : m.available = true ∨ appends ≠ [])

include sent in
theorem commit_eq_ok_iff_landsInTurn : m.commit appends = .ok m' ↔ m.LandsInTurn appends m' := by
  induction appends generalizing m with
  | nil =>
    rw [commit_nil (sent.resolve_right fun h => h rfl), Except.ok.injEq]
    constructor
    · rintro rfl
      exact .nil
    · rintro ⟨⟩
      rfl
  | cons a rest ih =>
    rw [commit_cons]
    cases hfirst : m.commit [a] with
    | error e =>
      simp only [Except.bind, reduceCtorEq, false_iff]
      rintro ⟨⟩
      simp_all [reply_eq_applied_iff]
    | ok m₁ =>
      have open₁ : m₁.available = true := (available_of_commit hfirst).trans (commit_eq_ok hfirst).1
      rw [Except.bind, ih (.inl open₁)]
      constructor
      · exact .cons (reply_eq_applied_iff.2 hfirst)
      · rintro (_ | ⟨hone, hrest⟩)
        rw [reply_eq_applied_iff, hfirst] at hone
        rwa [Except.ok.inj hone]

include sent in
theorem commit_eq_error_iff_stopsInTurn :
    m.commit appends = .error e ↔ m.StopsInTurn appends e := by
  induction appends generalizing m with
  | nil =>
    rw [commit_nil (sent.resolve_right fun h => h rfl)]
    simp only [reduceCtorEq, false_iff]
    rintro ⟨⟩
  | cons a rest ih =>
    rw [commit_cons]
    cases hfirst : m.commit [a] with
    | error e₁ =>
      rw [Except.bind, Except.error.injEq]
      constructor
      · rintro rfl
        exact .here (reply_eq_refused_iff.2 ⟨hfirst, rfl⟩)
      · rintro (hone | ⟨hone, -⟩)
        · rw [reply_eq_refused_iff, hfirst] at hone
          exact Except.error.inj hone.1
        · rw [reply_eq_applied_iff, hfirst] at hone
          simp at hone
    | ok m₁ =>
      have open₁ : m₁.available = true := (available_of_commit hfirst).trans (commit_eq_ok hfirst).1
      rw [Except.bind, ih (.inl open₁)]
      constructor
      · exact .later (reply_eq_applied_iff.2 hfirst)
      · rintro (hone | ⟨hone, hrest⟩)
        · rw [reply_eq_refused_iff, hfirst] at hone
          simp at hone
        · rw [reply_eq_applied_iff, hfirst] at hone
          rwa [Except.ok.inj hone]

end

theorem LandsInTurn.records_other (h : m.LandsInTurn appends m') {stream : String}
    (unnamed : ∀ a ∈ appends, a.stream ≠ stream) : m'.records stream = m.records stream := by
  induction h with
  | nil => rfl
  | @cons m m₁ m' a rest hfirst _ ih =>
    rw [ih fun b hb => unnamed b (List.mem_cons_of_mem a hb),
      records_commit (reply_eq_applied_iff.1 hfirst), Append.onto_cons,
      if_neg (unnamed a List.mem_cons_self)]
    simp

/-- Appends that are given together land exactly if they land one at a time, and then leave the same
medium, in which the streams that they do not name are what they were.  Otherwise they are refused
as the first of them is that fails in turn, and nothing has changed.

A medium that is out of reach refuses a request without appends as well, so there must be an append
for one to fail. -/
theorem reply_in_turn (m : Memory) (appends : List Append)
    (sent : m.available = true ∨ appends ≠ []) :
    (∀ m', m.reply appends = (.applied, m') ↔ m.LandsInTurn appends m') ∧
      (∀ m', m.LandsInTurn appends m' → ∀ stream, (∀ a ∈ appends, a.stream ≠ stream) →
        m'.records stream = m.records stream) ∧
      (∀ e m', m.reply appends = (.refused e, m') ↔ m' = m ∧ m.StopsInTurn appends e) ∧
      ((∃ m', m.LandsInTurn appends m') ∨ ∃ e, m.StopsInTurn appends e) := by
  refine ⟨fun m' => ?_, fun m' h stream unnamed => h.records_other unnamed, fun e m' => ?_, ?_⟩
  · rw [reply_eq_applied_iff, commit_eq_ok_iff_landsInTurn sent]
  · rw [reply_eq_refused_iff, commit_eq_error_iff_stopsInTurn sent, and_comm]
  · cases h : m.commit appends with
    | ok m' => exact .inl ⟨m', (commit_eq_ok_iff_landsInTurn sent).1 h⟩
    | error e => exact .inr ⟨e, (commit_eq_error_iff_stopsInTurn sent).1 h⟩

/-- Two appends to one stream and one without records to another.  The second to the one stream
expects the given version. -/
def twoTogether (second : Nat) : List Append :=
  let noted : Entry := ⟨"Noted", "x", .startOf2025⟩
  let first := Sealer.quick.chain "a" .empty [noted]
  [⟨"a", 0, first⟩, ⟨"b", 0, []⟩,
    ⟨"a", second, Sealer.quick.chain "a" (Head.empty.after first) [noted]⟩]

/-- The second append must expect what the first one leaves. -/
theorem reply_in_turn_twoTogether :
    Memory.empty.LandsInTurn (twoTogether 1) ((twoTogether 1).foldl store .empty) ∧
      Memory.empty.StopsInTurn (twoTogether 0) (.conflict "a" 0 1) := by
  obtain ⟨lands, -⟩ := reply_in_turn .empty (twoTogether 1) (.inl rfl)
  obtain ⟨-, -, stops, -⟩ := reply_in_turn .empty (twoTogether 0) (.inl rfl)
  exact ⟨(lands _).1 rfl, ((stops _ _).1 rfl).2⟩

end Memory

end TransferLedger

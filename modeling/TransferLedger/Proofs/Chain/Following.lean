import TransferLedger.Proofs.Chain.Continues

/-!
# What a cursor follows

A sealer makes records out of entries, one behind the other; a cursor takes records that somebody
else hands to it.  The two are loops of their own, and still they are inverse to each other on any
records at all, not only on those that a sealer has made: a cursor follows records exactly if they
are what becomes of their own entries behind the head it stands at (`verifyChain_iff_sealed`).
Both are the same as being linked (`Cursor.follow_eq_ok_iff`, `Sealer.linked_iff_chain`).

Records that are not followed to their end have a first one that is refused
(`verifyChain_eq_error_iff`).
-/

set_option autoImplicit false

namespace TransferLedger

/-- The hash of the last of some records, or the root if there is none. -/
def lastHash (rs : List Record) : ChainHash :=
  (rs.getLast?.map Record.hash).getD .root

theorem hash_after_empty (rs : List Record) : (Head.empty.after rs).hash = lastHash rs := by
  unfold lastHash
  cases hl : rs.getLast? with
  | none =>
    rw [List.getLast?_eq_none_iff.1 hl]
    rfl
  | some r =>
    rw [Head.after_of_getLast? hl]
    rfl

/-- Where a list is not taken to its end, there is a first element that is refused. -/
theorem exists_refused_of_foldlM {α σ ε : Type} {take : σ → α → Except ε σ} {s : σ} {l : List α}
    {e : ε} (hf : l.foldlM take s = .error e) :
    ∃ i a s', l[i]? = some a ∧ (l.take i).foldlM take s = .ok s' ∧ take s' a = .error e := by
  induction l generalizing s with
  | nil => cases hf
  | cons a rest ih =>
    rw [List.foldlM_cons] at hf
    cases ha : take s a with
    | error e' =>
      rw [ha] at hf
      obtain rfl := Except.error.inj hf
      exact ⟨0, a, s, rfl, rfl, ha⟩
    | ok s₁ =>
      rw [ha] at hf
      obtain ⟨i, x, s', hx, hs', hrefused⟩ := ih hf
      refine ⟨i + 1, x, s', hx, ?_, hrefused⟩
      rw [List.take_succ_cons, List.foldlM_cons, ha]
      exact hs'

section

variable {s : Sealer} {stream : String} {h : Head} {rs : List Record}

namespace Sealer

theorem Linked.append_iff {ss : List Record} : s.Linked stream h (rs ++ ss) ↔
    s.Linked stream h rs ∧ s.Linked stream (h.after rs) ss := by
  simp only [linked_iff, Continues.append_iff, List.mem_append, or_imp, forall_and]
  tauto

theorem Linked.take (hl : s.Linked stream h rs) (k : Nat) : s.Linked stream h (rs.take k) := by
  rw [← List.take_append_drop k rs, append_iff] at hl
  exact hl.1

theorem Linked.drop (hl : s.Linked stream h rs) (k : Nat) :
    s.Linked stream (h.after (rs.take k)) (rs.drop k) := by
  rw [← List.take_append_drop k rs, append_iff] at hl
  exact hl.2

/-- A record in its place is what its own entry becomes there. -/
theorem record_entry {r : Record} (hs : r.stream = stream) (hv : r.sequence = h.version + 1)
    (hp : r.previous = h.hash) (hr : s.Sealed r) : s.record stream h r.entry = r := by
  subst hs
  unfold Sealed at hr
  rw [hv, hp] at hr
  unfold record
  rw [← hr, ← hv, ← hp]
  rfl

/-- Linked records are what their own entries become, and nothing else is linked. -/
theorem linked_iff_chain :
    s.Linked stream h rs ↔ rs = s.chain stream h (rs.map Record.entry) := by
  constructor
  · intro hl
    induction rs generalizing h with
    | nil => rfl
    | cons r rest ih =>
      obtain ⟨hs, hv, hp, hr, hrest⟩ := hl
      rw [List.map_cons, chain, record_entry hs hv hp hr, ← ih hrest]
  · intro he
    rw [he]
    exact s.linked_chain stream h _

end Sealer

/-! ## One record after the other -/

namespace Cursor

/-- A record is taken exactly if it has the next place and is sealed there. -/
theorem advance_eq_ok_iff {r : Record} {c : Cursor} :
    (⟨stream, h⟩ : Cursor).advance s r = .ok c ↔
      s.Linked stream h [r] ∧ c = ⟨stream, r.head⟩ := by
  constructor
  · intro ha
    unfold advance at ha
    split at ha
    · simp at ha
    · next hv =>
      split at ha
      · simp at ha
      · next hp =>
        split at ha
        · simp at ha
        · next hs =>
          simp only [ne_eq, not_not, not_or, Sealer.accepts, Bool.not_eq_false, Bool.and_eq_true,
            beq_iff_eq] at hv hp hs
          obtain ⟨hstream, -, hhash⟩ := hs
          refine ⟨⟨hstream, hv, hp, ?_, trivial⟩, (Except.ok.inj ha).symm⟩
          rw [hp]
          exact hhash.symm
  · rintro ⟨hl, rfl⟩
    exact advance_of_linked hl

theorem follow_eq_foldlM (c : Cursor) (rs : List Record) :
    c.follow s rs = rs.foldlM (advance s) c := by
  induction rs generalizing c with
  | nil => rfl
  | cons r rest ih =>
    rw [List.foldlM_cons, follow]
    cases c.advance s r with
    | error e => rfl
    | ok c => exact ih c

theorem follow_append (c : Cursor) (rs ss : List Record) :
    c.follow s (rs ++ ss) = (c.follow s rs).bind (·.follow s ss) := by
  simp only [follow_eq_foldlM, List.foldlM_append]
  rfl

/-- A cursor follows linked records to their end, and no others. -/
theorem follow_eq_ok_iff {c : Cursor} :
    (⟨stream, h⟩ : Cursor).follow s rs = .ok c ↔
      s.Linked stream h rs ∧ c = ⟨stream, h.after rs⟩ := by
  induction rs generalizing h with
  | nil => simp [follow, Sealer.Linked, eq_comm]
  | cons r rest ih =>
    rw [← List.singleton_append, Sealer.Linked.append_iff, List.singleton_append, follow]
    cases ha : (⟨stream, h⟩ : Cursor).advance s r with
    | error e =>
      have hn : ¬ s.Linked stream h [r] := fun hl => by
        rw [advance_of_linked hl] at ha
        simp at ha
      simp [hn]
    | ok c' =>
      obtain ⟨hl, rfl⟩ := advance_eq_ok_iff.1 ha
      simp only [hl, true_and]
      exact ih

/-- Where a cursor does not follow, there is a first record that it refuses. -/
theorem exists_refused {c : Cursor} {e : ChainError} (hf : c.follow s rs = .error e) :
    ∃ i r c', rs[i]? = some r ∧ c.follow s (rs.take i) = .ok c' ∧ c'.advance s r = .error e := by
  simp only [follow_eq_foldlM] at hf ⊢
  exact exists_refused_of_foldlM hf

end Cursor

/-! ## Whole streams -/

theorem verifyChain_eq_ok_iff {g : ChainHash} :
    verifyChain s stream rs = .ok g ↔ s.Linked stream .empty rs ∧ g = lastHash rs := by
  rw [verifyChain, ← hash_after_empty]
  cases hf : (Cursor.start stream).follow s rs with
  | error e =>
    have hn : ¬ s.Linked stream .empty rs := fun hl => by
      rw [Cursor.start, Cursor.follow_eq_ok_iff.2 ⟨hl, rfl⟩] at hf
      simp at hf
    simp [Except.map, hn]
  | ok c =>
    obtain ⟨hl, rfl⟩ := Cursor.follow_eq_ok_iff.1 hf
    simp [Except.map, hl, Cursor.head, eq_comm]

/-- The check of a chain fails at an index: it finds the records before it right, and refuses the
one there. -/
def Sealer.BreaksAt (s : Sealer) (stream : String) (rs : List Record) (i : Nat) (e : ChainError) :
    Prop :=
  (∃ g, verifyChain s stream (rs.take i) = .ok g) ∧
    verifyChain s stream (rs.take (i + 1)) = .error e

theorem verifyChain_concat (hl : s.Linked stream .empty rs) (r : Record) :
    verifyChain s stream (rs ++ [r]) =
      ((⟨stream, Head.empty.after rs⟩ : Cursor).advance s r).map Cursor.head := by
  rw [verifyChain, Cursor.start, Cursor.follow_append, Cursor.follow_eq_ok_iff.2 ⟨hl, rfl⟩]
  show (Cursor.follow s _ [r]).map Cursor.head = _
  rw [Cursor.follow]
  cases Cursor.advance s ⟨stream, Head.empty.after rs⟩ r <;> rfl

theorem Sealer.breaksAt_iff {i : Nat} {e : ChainError} : s.BreaksAt stream rs i e ↔
    ∃ r, rs[i]? = some r ∧ s.Linked stream .empty (rs.take i) ∧
      (⟨stream, Head.empty.after (rs.take i)⟩ : Cursor).advance s r = .error e := by
  unfold BreaksAt
  cases hr : rs[i]? with
  | none =>
    -- Behind the end there is nothing to refuse.
    have hle : rs.length ≤ i := List.getElem?_eq_none_iff.1 hr
    rw [List.take_of_length_le hle, List.take_of_length_le (Nat.le_succ_of_le hle)]
    simp only [reduceCtorEq, false_and, exists_false, iff_false]
    rintro ⟨⟨g, hg⟩, he⟩
    rw [hg] at he
    simp at he
  | some r =>
    rw [List.take_add_one, hr, Option.toList_some]
    constructor
    · rintro ⟨⟨g, hg⟩, he⟩
      have hl := (verifyChain_eq_ok_iff.1 hg).1
      rw [verifyChain_concat hl] at he
      refine ⟨r, rfl, hl, ?_⟩
      cases ha : Cursor.advance s ⟨stream, Head.empty.after (rs.take i)⟩ r with
      | error e' =>
        rw [ha] at he
        exact congrArg Except.error (Except.error.inj he)
      | ok c =>
        rw [ha] at he
        simp [Except.map] at he
    · rintro ⟨x, hx, hl, ha⟩
      obtain rfl := Option.some.inj hx
      refine ⟨⟨_, verifyChain_eq_ok_iff.2 ⟨hl, rfl⟩⟩, ?_⟩
      rw [verifyChain_concat hl, ha]
      rfl

theorem Sealer.BreaksAt.lt_length {i : Nat} {e : ChainError} (h : s.BreaksAt stream rs i e) :
    i < rs.length := by
  obtain ⟨r, hr, -⟩ := Sealer.breaksAt_iff.1 h
  exact (List.getElem?_eq_some_iff.1 hr).1

theorem Sealer.BreaksAt.not_linked {i j : Nat} {e : ChainError} (h : s.BreaksAt stream rs i e)
    (behind : i < j) : ¬ s.Linked stream .empty (rs.take j) := by
  intro hl
  have hl' := hl.take (i + 1)
  rw [List.take_take, Nat.min_eq_left behind] at hl'
  have hok := h.2.symm.trans (verifyChain_eq_ok_iff.2 ⟨hl', rfl⟩)
  simp at hok

/-- There is one place where the check fails. -/
theorem Sealer.BreaksAt.unique {i j : Nat} {e e' : ChainError} (h : s.BreaksAt stream rs i e)
    (h' : s.BreaksAt stream rs j e') : i = j := by
  obtain ⟨-, -, hl, -⟩ := Sealer.breaksAt_iff.1 h
  obtain ⟨-, -, hl', -⟩ := Sealer.breaksAt_iff.1 h'
  rcases Nat.lt_trichotomy i j with hlt | heq | hlt
  · exact absurd hl' (h.not_linked hlt)
  · exact heq
  · exact absurd hl (h'.not_linked hlt)

theorem verifyChain_eq_error_iff {e : ChainError} :
    verifyChain s stream rs = .error e ↔ ∃ i, s.BreaksAt stream rs i e := by
  constructor
  · intro he
    cases hf : (Cursor.start stream).follow s rs with
    | ok c => simp [verifyChain, hf, Except.map] at he
    | error e' =>
      obtain rfl : e' = e := by simpa [verifyChain, hf, Except.map] using he
      obtain ⟨i, r, c, hr, hc, ha⟩ := Cursor.exists_refused hf
      obtain ⟨hl, rfl⟩ := Cursor.follow_eq_ok_iff.1 hc
      exact ⟨i, Sealer.breaksAt_iff.2 ⟨r, hr, hl, ha⟩⟩
  · rintro ⟨i, -, he⟩
    cases hf : (Cursor.start stream).follow s (rs.take (i + 1)) with
    | ok c => simp [verifyChain, hf, Except.map] at he
    | error e' =>
      obtain rfl : e' = e := by simpa [verifyChain, hf, Except.map] using he
      rw [verifyChain, ← List.take_append_drop (i + 1) rs, Cursor.follow_append, hf]
      rfl

/-- Records are linked as far as the check does not fail. -/
theorem Sealer.linked_take {i : Nat} (unbroken : ∀ j < i, ∀ e, ¬ s.BreaksAt stream rs j e) :
    s.Linked stream .empty (rs.take i) := by
  cases hv : verifyChain s stream rs with
  | ok g => exact (verifyChain_eq_ok_iff.1 hv).1.take i
  | error e =>
    obtain ⟨q, broken⟩ := verifyChain_eq_error_iff.1 hv
    have hiq : i ≤ q := Nat.le_of_not_lt fun hlt => unbroken q hlt e broken
    obtain ⟨-, -, hl, -⟩ := Sealer.breaksAt_iff.1 broken
    have := hl.take i
    rwa [List.take_take, Nat.min_eq_left hiq] at this

end

/-- The check of a chain accepts exactly what the sealer makes: records that are what their own
entries become behind the empty head, and then the result is the hash of the last one.  A cursor
that takes up a chain at any head accepts exactly what the sealer makes behind that head. -/
theorem verifyChain_iff_sealed (s : Sealer) (stream : String) (rs : List Record) :
    (∀ g, verifyChain s stream rs = .ok g ↔
      rs = s.chain stream .empty (rs.map Record.entry) ∧ g = lastHash rs) ∧
    ∀ version hash c, (Cursor.resume stream version hash).follow s rs = .ok c ↔
      rs = s.chain stream ⟨version, hash⟩ (rs.map Record.entry) ∧
        c = ⟨stream, Head.after ⟨version, hash⟩ rs⟩ := by
  refine ⟨fun g => ?_, fun version hash c => ?_⟩
  · rw [verifyChain_eq_ok_iff, Sealer.linked_iff_chain]
  · rw [Cursor.resume, Cursor.follow_eq_ok_iff, Sealer.linked_iff_chain]

end TransferLedger

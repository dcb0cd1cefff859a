import TransferLedger.Rehearsal.Call

/-!
# What an operation comes to

Two questions settle what becomes of an operation.  Is it time for it, which depends on the status
of the transfer and on whether it is disputed (`Operation.Timely`)?  And are its arguments sound,
which depends on nothing else (`Operation.Sound`)?  If the answer is yes twice, one fact goes into
the state and into the buffer; if not, nothing changes, and the error tells which question it was
(`WorkingCopy.perform_exact`).

The lifecycle is asked twice, once before the fact is made and once when the state takes it.  The
second time it cannot refuse what it has allowed before, because a fact records the move that was
asked about (`Operation.move_event`).
-/

set_option autoImplicit false

namespace TransferLedger

open TransferLedger.Text Rehearsal

/-! ## The rows of the table -/

/-- Where a move leads from, and where to. -/
def Move.Leads (current : Option Status) (disputed : Bool) (next : Status) : Move → Prop
  | initiate => current = none ∧ next = .initiated
  | authorize => current = some .initiated ∧ next = .authorized
  | failAuthorization => current = some .initiated ∧ next = .failed
  | complete => current = some .authorized ∧ next = .completed
  | failSettlement => current = some .authorized ∧ next = .failed
  | reverse => current = some .completed ∧ next = .reversed
  | dispute => (next = .authorized ∨ next = .completed) ∧ current = some next ∧ disputed = false

theorem nextStatus_eq_some_iff {current : Option Status} {disputed : Bool} {m : Move}
    {next : Status} :
    nextStatus current disputed m = some next ↔ m.Leads current disputed next := by
  cases m <;> rcases current with _ | _ | _ | _ | _ | _ <;> cases next <;> cases disputed <;>
    simp [nextStatus, Move.Leads]

/-! ## The two questions -/

/-- A text with a character in it that is not blank. -/
def SaysSomething (s : String) : Prop :=
  ∃ c ∈ s.toList, isBlank c = false

/-- The terms may be recorded: some amount, three capital letters, two accounts. -/
structure Terms.Sound (t : Terms) : Prop where
  amount : 0 < t.amount
  currency : t.currency.toList.length = 3 ∧ ∀ c ∈ t.currency.toList, 'A' ≤ c ∧ c ≤ 'Z'
  source : t.source ≠ ""
  destination : t.destination ≠ ""
  different : t.source ≠ t.destination

namespace Operation

/-- The arguments may be recorded. -/
def Sound : Operation → Prop
  | initiate terms => terms.Sound
  | authorize _ => True
  | settle _ => True
  | reverse reason => SaysSomething reason
  | dispute reason => SaysSomething reason

theorem isCurrency_iff (s : String) :
    isCurrency s = true ↔ s.toList.length = 3 ∧ ∀ c ∈ s.toList, 'A' ≤ c ∧ c ≤ 'Z' := by
  simp [isCurrency]

theorem termsFault?_eq_none_iff (t : Terms) : termsFault? t = none ↔ t.Sound := by
  unfold termsFault?
  constructor
  · intro h
    split at h
    · simp at h
    next hamount =>
    split at h
    · simp at h
    next hcurrency =>
    split at h
    · simp at h
    next hmissing =>
    split at h
    · simp at h
    next hsame =>
    rw [not_or] at hmissing
    rw [Bool.not_eq_false] at hcurrency
    exact ⟨UInt64.pos_iff_ne_zero.2 hamount, (isCurrency_iff _).1 hcurrency, hmissing.1,
      hmissing.2, hsame⟩
  · rintro ⟨hamount, hcurrency, hsource, hdestination, hdifferent⟩
    rw [← isCurrency_iff] at hcurrency
    rw [if_neg (UInt64.pos_iff_ne_zero.1 hamount), if_neg (by simp [hcurrency]),
      if_neg (not_or.2 ⟨hsource, hdestination⟩), if_neg hdifferent]

theorem fault?_eq_none_iff (o : Operation) : o.fault? = none ↔ o.Sound := by
  have void (s : String) : isVoid s = true ↔ ¬ SaysSomething s := by
    simp [isVoid, SaysSomething]
  cases o with
  | initiate terms => exact termsFault?_eq_none_iff terms
  | authorize | settle => exact ⟨fun _ => trivial, fun _ => rfl⟩
  | reverse reason | dispute reason =>
    simp only [fault?, Sound, ite_eq_right_iff, reduceCtorEq, imp_false, void,
      Classical.not_not]

end Operation

/-! ## Deciding -/

/-- A decided fact is the one that the operation becomes, and the state takes it. -/
theorem Transfer.apply_of_decide {t : Transfer} {now : Instant} {o : Operation} {e : Event}
    (h : t.decide now o = .ok e) : e = o.event t.id now ∧ ∃ u, t.apply e = .ok u := by
  unfold Transfer.decide at h
  cases hn : t.next? o.move with
  | none => rw [hn] at h; simp at h
  | some next =>
    cases hf : o.fault? with
    | some fault => rw [hn, hf] at h; simp at h
    | none =>
      rw [hn, hf] at h
      obtain rfl := Except.ok.inj h
      refine ⟨rfl, { t.absorb (o.event t.id now) with status := some next }, ?_⟩
      rw [Transfer.apply, Operation.move_event, hn]

/-! ## Performing -/

namespace WorkingCopy

variable {c c' : WorkingCopy} {now : Instant} {o : Operation}

/-- An operation that is decided is performed: its fact goes into the state and into the buffer. -/
theorem perform_of_decide {e : Event} (h : c.transfer.decide now o = .ok e) :
    ∃ t, c.transfer.apply e = .ok t ∧ c.perform now o =
      .ok { c with transfer := t, version := c.version + 1, pending := c.pending ++ [e] } := by
  obtain ⟨-, t, ha⟩ := Transfer.apply_of_decide h
  refine ⟨t, ha, ?_⟩
  simp only [perform, h, ha]

theorem perform_of_decide_error {x : OperationError} (h : c.transfer.decide now o = .error x) :
    c.perform now o = .error x := by
  unfold perform
  rw [h]

theorem decide_of_perform (h : c.perform now o = .ok c') :
    ∃ e t, c.transfer.decide now o = .ok e ∧ c.transfer.apply e = .ok t ∧
      c' = { c with transfer := t, version := c.version + 1, pending := c.pending ++ [e] } := by
  cases hd : c.transfer.decide now o with
  | error x => rw [perform_of_decide_error hd] at h; simp at h
  | ok e =>
    obtain ⟨t, ha, hp⟩ := perform_of_decide hd
    rw [hp] at h
    exact ⟨e, t, rfl, ha, (Except.ok.inj h).symm⟩

theorem run_perform_of_ok (h : c.perform now o = .ok c') :
    (Call.perform o).run now c = (.done, c') := by
  simp only [Call.run, h]

theorem run_perform_of_error {x : OperationError} (h : c.perform now o = .error x) :
    (Call.perform o).run now c = (.refused x, c) := by
  simp only [Call.run, h]

end WorkingCopy

end TransferLedger

import TransferLedger.Proofs.Chain.Pinning

/-!
# After a refusal

A cursor that refuses a record stays where it is, and then it is too late for the rest of the chain:
every later record is taken for one behind a gap (`Cursor.offerAll_of_misplaced`).  So a single
record that does not belong cuts off all that follows it, although nothing else has been changed,
and somebody who goes on with the cursor regardless ends up in front of that record
(`stays_refused`).

Why the record was refused makes no difference, nor what it says.  It may even claim a position
further down the chain, since it is not taken from there.
-/

set_option autoImplicit false

namespace TransferLedger

variable {s : Sealer} {stream : String} {rs : List Record} {r : Record}

namespace Cursor

variable {c : Cursor}

theorem offerAll_append (c : Cursor) (rs ss : List Record) :
    c.offerAll s (rs ++ ss) = (c.offerAll s rs).offerAll s ss := by
  induction rs generalizing c with
  | nil => rfl
  | cons r rest ih =>
    rw [List.cons_append, offerAll, offerAll]
    cases c.advance s r with
    | ok c' => exact ih c'
    | error e => exact ih c

/-- A record that does not have the next position is refused for that, whatever else it says. -/
theorem advance_of_misplaced (hr : r.sequence ≠ c.version + 1) :
    c.advance s r = .error (.sequenceGap c.stream (c.version + 1) r.sequence) :=
  if_pos hr

/-- No record has the next position, so none is taken. -/
theorem offerAll_of_misplaced (hrs : ∀ r ∈ rs, r.sequence ≠ c.version + 1) :
    c.offerAll s rs = c := by
  induction rs with
  | nil => rfl
  | cons r rest ih =>
    rw [offerAll, advance_of_misplaced (hrs r (by simp))]
    apply ih
    intro x hx
    exact hrs x (by simp [hx])

/-- A cursor that refuses a record takes none behind it that does not have the next position. -/
theorem offerAll_of_refused {e : ChainError} (refused : c.advance s r = .error e)
    (hrs : ∀ x ∈ rs, x.sequence ≠ c.version + 1) : c.offerAll s (r :: rs) = c := by
  rw [offerAll, refused]
  exact offerAll_of_misplaced hrs

/-- Linked records are all taken. -/
theorem offerAll_of_linked {h : Head} (linked : s.Linked stream h rs) :
    (⟨stream, h⟩ : Cursor).offerAll s rs = ⟨stream, h.after rs⟩ := by
  induction rs generalizing h with
  | nil => rfl
  | cons r rest ih =>
    rw [offerAll, advance_of_linked linked]
    exact ih linked.2.2.2.2

end Cursor

/-! ## One record in a chain that does not belong -/

namespace Sealer.Linked

variable {k : Nat}

theorem after_take (linked : s.Linked stream .empty rs) (hk : k ≤ rs.length) :
    Head.empty.after (rs.take k) = ⟨k, lastHash (rs.take k)⟩ := by
  have hversion := (linked_iff.1 (linked.take k)).1.version_after
  rw [List.length_take, Nat.min_eq_left hk] at hversion
  rw [Head.mk.injEq]
  exact ⟨hversion.trans (Nat.zero_add k), hash_after_empty _⟩

theorem offerAll_take (linked : s.Linked stream .empty rs) (hk : k ≤ rs.length) :
    (Cursor.start stream).offerAll s (rs.take k) = .resume stream k (lastHash (rs.take k)) := by
  rw [Cursor.start, Cursor.offerAll_of_linked (linked.take k), linked.after_take hk]
  rfl

/-- The record in its place is taken. -/
theorem advance_at (linked : s.Linked stream .empty rs) (hr : rs[k]? = some r) :
    ((Cursor.start stream).offerAll s (rs.take k)).advance s r = .ok ⟨stream, r.head⟩ := by
  have hrest := linked.drop k
  rw [drop_eq_cons hr] at hrest
  rw [Cursor.start, Cursor.offerAll_of_linked (linked.take k)]
  exact Cursor.advance_of_linked hrest

theorem lt_sequence (linked : s.Linked stream .empty rs) (hk : k ≤ rs.length)
    (hr : r ∈ rs.drop k) : k < r.sequence := by
  have hbehind := ((linked_iff.1 linked).1.drop k).of_mem hr
  rw [linked.after_take hk] at hbehind
  exact hbehind.2.1

/-- What is offered behind a record that is refused is refused too. -/
theorem offerAll_past {i : Nat} {e : ChainError} (linked : s.Linked stream .empty rs)
    (place : i < rs.length)
    (refused : ((Cursor.start stream).offerAll s (rs.take i)).advance s r = .error e)
    {later : List Record} (hlater : ∀ x ∈ later, x ∈ rs.drop (i + 1)) :
    (Cursor.start stream).offerAll s (rs.take i ++ r :: later) =
      .resume stream i (lastHash (rs.take i)) := by
  have stands := linked.offerAll_take (Nat.le_of_lt place)
  rw [stands] at refused
  rw [Cursor.offerAll_append, stands]
  apply Cursor.offerAll_of_refused refused
  intro x hx
  exact Nat.ne_of_gt (linked.lt_sequence place (hlater x hx))

end Sealer.Linked

/-- In a chain that is found right one record is replaced, by one that the cursor refuses when it
comes to it.  All records are offered to the cursor in order, whatever it says to them.  Then it
takes exactly those before the place of the replaced one.  It refuses the one there, and every later
one as if there were a gap before it; and at the end it stands where the records before that place
have taken it. -/
theorem stays_refused {g : ChainHash} {i : Nat} {e : ChainError}
    (right : verifyChain s stream rs = .ok g) (place : i < rs.length)
    (refused : ((Cursor.start stream).offerAll s (rs.take i)).advance s r = .error e) :
    (∀ k x, (rs.set i r)[k]? = some x →
      let answer := ((Cursor.start stream).offerAll s ((rs.set i r).take k)).advance s x
      (k < i → answer = .ok (.resume stream (k + 1) x.hash)) ∧
      (k = i → answer = .error e) ∧
      (i < k → answer = .error (.sequenceGap stream (i + 1) (k + 1)))) ∧
    (Cursor.start stream).offerAll s (rs.set i r) = .resume stream i (lastHash (rs.take i)) := by
  obtain ⟨linked, -⟩ := verifyChain_eq_ok_iff.1 right
  have hset : rs.set i r = rs.take i ++ r :: rs.drop (i + 1) := by
    rw [List.set_eq_take_append_cons_drop, if_pos place]
  refine ⟨fun k x hx => ⟨fun hlt => ?_, fun heq => ?_, fun hgt => ?_⟩, ?_⟩
  · -- Nothing has been changed so far.
    rw [List.getElem?_set_ne (Nat.ne_of_gt hlt)] at hx
    rw [List.take_set_of_le (Nat.le_of_lt hlt), linked.advance_at hx]
    have hseq := (Sealer.linked_iff.1 linked).1.sequence_eq hx
    rw [Record.head, hseq]
    rfl
  · subst heq
    rw [List.getElem?_set_self place] at hx
    obtain rfl := Option.some.inj hx
    rw [List.take_set_of_le (Nat.le_refl k)]
    exact refused
  · rw [List.getElem?_set_ne (Nat.ne_of_lt hgt)] at hx
    have hseq := (Sealer.linked_iff.1 linked).1.sequence_eq hx
    obtain ⟨d, rfl⟩ : ∃ d, k = i + 1 + d := Nat.exists_eq_add_of_le hgt
    have htake : (rs.set i r).take (i + 1 + d) = rs.take i ++ r :: (rs.drop (i + 1)).take d := by
      have hlength : (rs.take i).length = i := List.length_take_of_le (Nat.le_of_lt place)
      rw [hset, List.take_append, List.take_of_length_le (by omega), hlength,
        show i + 1 + d - i = d + 1 by omega, List.take_succ_cons]
    rw [htake, linked.offerAll_past place refused fun x hx => List.mem_of_mem_take hx]
    rw [← hseq]
    apply Cursor.advance_of_misplaced
    rw [hseq]
    show i + 1 + d + 1 ≠ i + 1
    omega
  · rw [hset]
    exact linked.offerAll_past place refused fun x hx => hx

/-- A record of another stream is put in the place of the second of three. -/
theorem stays_refused_intruder :
    let rs := Sealer.blunt.chain "a" .empty
      [⟨"Noted", "x", .startOf2025⟩, ⟨"Noted", "y", .startOf2025⟩, ⟨"Noted", "z", .startOf2025⟩]
    let intruder := Sealer.blunt.record "b" ⟨1, .root⟩ ⟨"Noted", "y", .startOf2025⟩
    verifyChain .blunt "a" rs = .ok .root ∧
      (Cursor.start "a").offerAll .blunt (rs.set 1 intruder) = .resume "a" 1 .root ∧
      ∀ r ∈ rs[2]?, ((Cursor.start "a").offerAll .blunt ((rs.set 1 intruder).take 2)).advance
        .blunt r = .error (.sequenceGap "a" 2 3) := by
  intro rs intruder
  have right : verifyChain .blunt "a" rs = .ok .root :=
    verifyChain_eq_ok_iff.2 ⟨Sealer.linked_chain .., rfl⟩
  have place : 1 < rs.length := by decide
  have refused : ((Cursor.start "a").offerAll .blunt (rs.take 1)).advance .blunt intruder =
      .error (.hashMismatch "a" 2) := by decide +kernel
  obtain ⟨answers, stands⟩ := stays_refused right place refused
  refine ⟨right, stands, fun r hr => ?_⟩
  exact (answers 2 r hr).2.2 (by decide)

end TransferLedger

import Mathlib.Data.List.Induction
import TransferLedger.Proofs.Race.Writers

/-!
# Turns

Writers that share a medium take turns, one request of somebody at a time.  Between his two turns
nothing happens to a writer (`Race.left_of_idle`), and what happens at his second one depends on
the version that he finds: `Race.after_committing` if it is the one he expects, and
`Race.after_overtaken` if it is not.
-/

set_option autoImplicit false

namespace TransferLedger

/-! ## Turns -/

/-- Writers at work on the same surroundings. -/
structure Race (ι : Type) where
  world : InMemory
  /-- What is left to do of each append. -/
  left : ι → Dialogue (Except StoreError Nat)

section

variable {ι : Type}

/-- Somebody has his turn number `k`, counted from 0, when the turns `pre` have been taken. -/
structure Takes [DecidableEq ι] (ps : List ι) (p : ι) (k : Nat) (pre : List ι) : Prop where
  next : pre ++ [p] <+: ps
  count : pre.count p = k

theorem before_or_behind {ps pre pre' : List ι} {p : ι} (h : pre ++ [p] <+: ps)
    (h' : pre' <+: ps) : pre' <+: pre ∨ pre ++ [p] <+: pre' := by
  rcases List.prefix_or_prefix_of_prefix h' h with before | behind
  · rcases List.prefix_concat_iff.1 before with rfl | before
    · exact .inr List.prefix_rfl
    · exact .inl before
  · exact .inr behind

namespace Takes

variable [DecidableEq ι] {ps pre pre' : List ι} {p q : ι} {k k' : Nat}

theorem before (h : Takes ps p k pre) : pre <+: ps :=
  (List.prefix_append ..).trans h.next

theorem here (h : pre.count p = k) : Takes (pre ++ [p]) p k pre :=
  ⟨List.prefix_rfl, h⟩

theorem mono {ps' : List ι} (h : Takes ps p k pre) (hps : ps <+: ps') : Takes ps' p k pre :=
  ⟨h.next.trans hps, h.count⟩

theorem later (h : Takes ps p k pre) (h' : Takes ps p k' pre') (hk : k < k') :
    pre ++ [p] <+: pre' := by
  rcases before_or_behind h.next h'.before with before | behind
  · have := before.sublist.count_le p
    rw [h.count, h'.count] at this
    omega
  · exact behind

theorem unique (h : Takes ps p k pre) (h' : Takes ps p k pre') : pre = pre' := by
  have counted {a b : List ι} (ha : Takes ps p k a) (hb : Takes ps p k b) : b <+: a := by
    rcases before_or_behind ha.next hb.before with before | behind
    · exact before
    · have := behind.sublist.count_le p
      rw [List.count_append, ha.count, hb.count, List.count_singleton_self] at this
      omega
  exact (counted h' h).eq_of_length_le (counted h h').length_le

/-- Of the turns of two there is one that is taken first. -/
theorem order (h : Takes ps p k pre) (h' : Takes ps q k' pre') (hpq : p ≠ q) :
    pre ++ [p] <+: pre' ∨ pre' ++ [q] <+: pre := by
  rcases before_or_behind h.next h'.before with before | behind
  · rcases before_or_behind h'.next h.before with before' | behind'
    · obtain rfl := before.eq_of_length_le before'.length_le
      have heq : pre' ++ [p] = pre' ++ [q] :=
        (List.prefix_of_prefix_length_le h.next h'.next (by simp)).eq_of_length (by simp)
      exact absurd (List.singleton_inj.1 (List.append_cancel_left heq)) hpq
    · exact .inr behind'
  · exact .inl behind

/-- Somebody's turns are taken one after the other. -/
theorem exists_of_lt_count (h : k < ps.count p) : ∃ pre, Takes ps p k pre := by
  induction ps using List.reverseRecOn with
  | nil => simp at h
  | append_singleton ps q ih =>
    by_cases hk : k < ps.count p
    · obtain ⟨pre, hpre⟩ := ih hk
      exact ⟨pre, hpre.next.trans (List.prefix_append ..), hpre.count⟩
    · obtain rfl : p = q := by
        by_contra hne
        rw [List.count_append, List.count_singleton, if_neg (by simpa using Ne.symm hne)] at h
        exact hk h
      rw [List.count_append, List.count_singleton_self] at h
      exact ⟨ps, List.prefix_rfl, by omega⟩

end Takes

end

namespace Race

section

variable {ι : Type} {r : Race ι} {p : ι}

def head (r : Race ι) (stream : String) : Head :=
  r.world.medium.head stream

/-- What somebody's append has come to, if it has come to an end. -/
def result? (r : Race ι) (p : ι) : Option (Except StoreError Nat) :=
  match r.left p with
  | .done res => some res
  | .ask .. => none

def Won (r : Race ι) (p : ι) : Prop :=
  ∃ version, r.result? p = some (.ok version)

theorem result_of_left {res : Except StoreError Nat} (h : r.left p = .done res) :
    r.result? p = some res := by
  rw [result?, h]

theorem result_of_asking {q : Request} {next : q.Answer → Dialogue (Except StoreError Nat)}
    (h : r.left p = .ask q next) : r.result? p = none := by
  rw [result?, h]

theorem left_of_result {res : Except StoreError Nat} (h : r.result? p = some res) :
    r.left p = .done res := by
  unfold result? at h
  cases hp : r.left p with
  | done res' =>
    rw [hp] at h
    exact congrArg _ (Option.some.inj h)
  | ask q next =>
    rw [hp] at h
    cases h

end

section

variable {ι : Type} [DecidableEq ι]

/-- What somebody asks next is answered, if he has not come to an end. -/
def turn (r : Race ι) (p : ι) : Race ι :=
  match r.left p with
  | .done _ => r
  | .ask q next =>
    let (a, w) := r.world.answer q
    ⟨w, Keyed.set r.left p (next a)⟩

def start (writers : ι → Writer) (w : InMemory) : Race ι :=
  ⟨w, fun p => (writers p).work⟩

/-- The race when turns have been taken, the first one first. -/
def after (writers : ι → Writer) (w : InMemory) (ps : List ι) : Race ι :=
  ps.foldl turn (start writers w)

theorem left_turn_other (r : Race ι) {p q : ι} (h : q ≠ p) : (r.turn p).left q = r.left q := by
  unfold turn
  cases r.left p with
  | done => rfl
  | ask => exact Keyed.set_other _ _ h

theorem turn_of_done {r : Race ι} {p : ι} {res : Except StoreError Nat}
    (h : r.left p = .done res) : r.turn p = r := by
  rw [turn, h]

theorem turn_of_ask {r : Race ι} {p : ι} {q : Request}
    {next : q.Answer → Dialogue (Except StoreError Nat)} (h : r.left p = .ask q next) :
    r.turn p = ⟨(r.world.answer q).2, Keyed.set r.left p (next (r.world.answer q).1)⟩ := by
  rw [turn, h]

theorem forward_turn (r : Race ι) (p : ι) : r.world.medium.Forward (r.turn p).world.medium := by
  cases hp : r.left p with
  | done res =>
    rw [turn_of_done hp]
    exact .refl _
  | ask q next =>
    rw [turn_of_ask hp]
    exact InMemory.forward_answer q r.world

variable (writers : ι → Writer) (w : InMemory)

theorem after_append (pre post : List ι) :
    after writers w (pre ++ post) = post.foldl turn (after writers w pre) :=
  List.foldl_append ..

theorem after_concat (pre : List ι) (p : ι) :
    after writers w (pre ++ [p]) = (after writers w pre).turn p :=
  after_append writers w pre [p]

variable {writers w}

theorem forward_along {pre ps : List ι} (h : pre <+: ps) :
    (after writers w pre).world.medium.Forward (after writers w ps).world.medium := by
  obtain ⟨post, rfl⟩ := h
  induction post using List.reverseRecOn with
  | nil =>
    rw [List.append_nil]
    exact .refl _
  | append_singleton post p ih =>
    rw [← List.append_assoc, after_concat]
    exact ih.trans (forward_turn _ p)

/-- Only his own turns bring somebody on. -/
theorem left_of_idle {pre ps : List ι} {p : ι} (h : pre <+: ps) (idle : ps.count p = pre.count p) :
    (after writers w ps).left p = (after writers w pre).left p := by
  obtain ⟨post, rfl⟩ := h
  induction post using List.reverseRecOn with
  | nil => rw [List.append_nil]
  | append_singleton post q ih =>
    have hq : p ≠ q := by
      rintro rfl
      simp only [List.count_append, List.count_singleton_self] at idle
      omega
    have hidle : (pre ++ post).count p = pre.count p := by
      simp only [List.count_append] at idle ⊢
      omega
    rw [← List.append_assoc, after_concat, left_turn_other _ hq, ih hidle]

theorem left_of_done {pre ps : List ι} {p : ι} {res : Except StoreError Nat} (h : pre <+: ps)
    (hp : (after writers w pre).left p = .done res) :
    (after writers w ps).left p = .done res := by
  obtain ⟨post, rfl⟩ := h
  induction post using List.reverseRecOn with
  | nil => rwa [List.append_nil]
  | append_singleton post q ih =>
    rw [← List.append_assoc, after_concat]
    by_cases hq : p = q
    · subst hq
      rwa [turn_of_done ih]
    · rwa [left_turn_other _ hq]

/-! ## What a turn does -/

section

variable {r : Race ι} {p : ι} {x : Writer} {h : Head}

/-- At his first turn somebody sees the head of his stream, and changes nothing. -/
theorem turn_staging (available : r.world.medium.available = true) (hleft : r.left p = x.work) :
    r.turn p = ⟨r.world, Keyed.set r.left p (x.behind (.ok (r.head x.stream)))⟩ := by
  have hhead : r.world.medium.readHead x.stream = .ok (r.head x.stream) := by
    rw [Memory.readHead, if_pos available]
    rfl
  rw [x.work_eq] at hleft
  rw [turn_of_ask hleft, ← hhead]
  rfl

/-- Who still finds the head that he has staged behind stores what he has. -/
theorem turn_committing (available : r.world.medium.available = true)
    (hleft : r.left p = x.committing h) (current : h.version = x.expected)
    (hhead : r.head x.stream = h) :
    r.turn p = ⟨{ r.world with medium := r.world.medium.store (x.staged h) },
      Keyed.set r.left p (.done (.ok (x.expected + x.entries.length)))⟩ := by
  have hreply : r.world.medium.reply [x.staged h] =
      (.applied, r.world.medium.store (x.staged h)) := by
    subst hhead
    rw [Memory.reply,
      Memory.commit_of_current (a := x.staged _) available current (Sealer.continues_chain ..)]
  rw [turn_of_ask hleft]
  simp only [InMemory.answer, hreply]

/-- Who finds another version than he expects is refused, and nothing changes. -/
theorem turn_overtaken (available : r.world.medium.available = true)
    (hleft : r.left p = x.committing h) (moved : (r.head x.stream).version ≠ x.expected) :
    r.turn p = ⟨r.world,
      Keyed.set r.left p (.done (.error (x.conflict (r.head x.stream).version)))⟩ := by
  have hreply : r.world.medium.reply [x.staged h] =
      (.refused (x.conflict (r.head x.stream).version), r.world.medium) := by
    rw [Memory.reply, Memory.commit_of_moved (a := x.staged h) available moved]
    rfl
  rw [turn_of_ask hleft]
  simp only [InMemory.answer, hreply]

end

/-! ## The two turns of a writer -/

section

variable (available : w.medium.available = true) {ps s c : List ι} {p : ι}

include available

theorem available_after (ps : List ι) : (after writers w ps).world.medium.available = true :=
  (forward_along (List.nil_prefix (l := ps))).available.trans available

theorem after_staging (hs : Takes ps p 0 s) :
    (after writers w (s ++ [p])).world = (after writers w s).world ∧
      (after writers w (s ++ [p])).left p =
        (writers p).behind (.ok ((after writers w s).head (writers p).stream)) := by
  have hleft : (after writers w s).left p = (writers p).work :=
    left_of_idle List.nil_prefix hs.count
  rw [after_concat, turn_staging (available_after available s) hleft]
  exact ⟨rfl, Keyed.set_same ..⟩

theorem left_of_moved (hs : Takes ps p 0 s)
    (moved : ((after writers w s).head (writers p).stream).version ≠ (writers p).expected) :
    (after writers w (s ++ [p])).left p = .done (.error
      ((writers p).conflict ((after writers w s).head (writers p).stream).version)) := by
  rw [(after_staging available hs).2, Writer.behind, if_neg moved]

/-- Who finds the version that he expects has what he has staged behind that head before him. -/
theorem left_of_current (hs : Takes ps p 0 s) (hc : Takes ps p 1 c)
    (current : ((after writers w s).head (writers p).stream).version = (writers p).expected) :
    (after writers w c).left p =
      (writers p).committing ((after writers w s).head (writers p).stream) := by
  have hidle : c.count p = (s ++ [p]).count p := by
    rw [hc.count, List.count_append, hs.count, List.count_singleton_self]
  rw [left_of_idle (hs.later hc Nat.zero_lt_one) hidle, (after_staging available hs).2,
    Writer.behind, if_pos current]

/-- Who finds the version that he expects twice finds the same head twice, and what he has staged
is stored. -/
theorem after_committing (hs : Takes ps p 0 s) (hc : Takes ps p 1 c)
    (current : ((after writers w s).head (writers p).stream).version = (writers p).expected)
    (still : ((after writers w c).head (writers p).stream).version = (writers p).expected) :
    (after writers w (c ++ [p])).world = { (after writers w c).world with
      medium := (after writers w c).world.medium.store
        ((writers p).staged ((after writers w c).head (writers p).stream)) } ∧
    (after writers w (c ++ [p])).left p =
      .done (.ok ((writers p).expected + (writers p).entries.length)) := by
  have hsc : s <+: c := (List.prefix_append ..).trans (hs.later hc Nat.zero_lt_one)
  have hhead : (after writers w c).head (writers p).stream =
      (after writers w s).head (writers p).stream :=
    (forward_along hsc).head_eq (still.trans current.symm)
  rw [after_concat, turn_committing (available_after available c)
    (left_of_current available hs hc current) current hhead, hhead]
  exact ⟨rfl, Keyed.set_same ..⟩

theorem after_overtaken (hs : Takes ps p 0 s) (hc : Takes ps p 1 c)
    (current : ((after writers w s).head (writers p).stream).version = (writers p).expected)
    (moved : ((after writers w c).head (writers p).stream).version ≠ (writers p).expected) :
    (after writers w (c ++ [p])).world = (after writers w c).world ∧
    (after writers w (c ++ [p])).left p = .done (.error
      ((writers p).conflict ((after writers w c).head (writers p).stream).version)) := by
  rw [after_concat, turn_overtaken (available_after available c)
    (left_of_current available hs hc current) moved]
  exact ⟨rfl, Keyed.set_same ..⟩

end

end

end Race

end TransferLedger

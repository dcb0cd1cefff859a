import TransferLedger.Proofs.Rebuild.Taking
import TransferLedger.Proofs.Transfer.Performing

/-!
# The lifecycle in the fields of a state

Whether a fact is taken depends on the status and on whether there is a dispute; the other fields
are filled and never looked at.  They agree with the status all the same, because a state that comes
of facts has one of seven shapes, and a fact that is taken leads from one shape to another
(`Transfer.Shape.apply`).  It also fills one more field, so the number of facts behind a state can
be read off the state (`Transfer.traces`).

Operations, replay and restoring take facts one after the other, or none at all
(`WorkingCopy.Reached`).  So what is known of a run of facts is known of every working copy
(`WorkingCopy.agrees_of_reached`).
-/

set_option autoImplicit false

namespace TransferLedger

namespace Transfer

variable {t u : Transfer} {e : Event} {es : List Event}

theorem leads_of_apply (h : t.apply e = .ok u) :
    ∃ next, e.move.Leads t.status t.disputed next ∧
      u = { t.absorb e with status := some next } := by
  unfold apply at h
  cases hn : t.next? e.move with
  | none => rw [hn] at h; simp at h
  | some next =>
    rw [hn] at h
    exact ⟨next, nextStatus_eq_some_iff.1 hn, (Except.ok.inj h).symm⟩

/-! ## Shapes -/

/-- What a state that comes of facts can look like. -/
inductive Shape : Transfer → Prop
  | blank (id : String) : Shape (.blank id)
  | initiated (id : String) (terms : Terms) :
      Shape ⟨id, some .initiated, terms, none, none, none, none, none⟩
  | declined (id : String) (terms : Terms) (code reason : String) :
      Shape ⟨id, some .failed, terms, none, none, some ⟨.authorization, code, reason⟩, none, none⟩
  | authorized (id : String) (terms : Terms) (authorization : String) (dispute : Option String) :
      Shape ⟨id, some .authorized, terms, some authorization, none, none, none, dispute⟩
  | rejected (id : String) (terms : Terms) (authorization code reason : String)
      (dispute : Option String) :
      Shape ⟨id, some .failed, terms, some authorization, none, some ⟨.settlement, code, reason⟩,
        none, dispute⟩
  | completed (id : String) (terms : Terms) (authorization settlement : String)
      (dispute : Option String) :
      Shape ⟨id, some .completed, terms, some authorization, some settlement, none, none, dispute⟩
  | reversed (id : String) (terms : Terms) (authorization settlement reversal : String)
      (dispute : Option String) :
      Shape ⟨id, some .reversed, terms, some authorization, some settlement, none, some reversal,
        dispute⟩

/-- The number of fields that facts have filled.  The terms come with the status. -/
def traces (t : Transfer) : Nat :=
  t.disputed.toNat + t.status.isSome.toNat + t.authorization.isSome.toNat +
    t.settlement.isSome.toNat + t.failure.isSome.toNat + t.reversal.isSome.toNat

/-- A fact leads from one shape to another, and leaves one trace. -/
theorem Shape.apply (h : t.Shape) (ha : t.apply e = .ok u) :
    u.Shape ∧ u.traces = t.traces + 1 := by
  obtain ⟨next, leads, rfl⟩ := leads_of_apply ha
  cases e with
  | initiated name terms time =>
    obtain ⟨status, rfl⟩ := leads
    cases h with
    | blank => exact ⟨.initiated .., rfl⟩
    | _ => simp at status
  | authorized code time =>
    obtain ⟨status, rfl⟩ := leads
    cases h with
    | initiated => exact ⟨.authorized .., rfl⟩
    | _ => simp [Transfer.blank] at status
  | failed stage code reason time =>
    cases stage with
    | authorization =>
      obtain ⟨status, rfl⟩ := leads
      cases h with
      | initiated => exact ⟨.declined .., rfl⟩
      | _ => simp [Transfer.blank] at status
    | settlement =>
      obtain ⟨status, rfl⟩ := leads
      cases h with
      | authorized => exact ⟨.rejected .., rfl⟩
      | _ => simp [Transfer.blank] at status
  | completed reference time =>
    obtain ⟨status, rfl⟩ := leads
    cases h with
    | authorized => exact ⟨.completed .., rfl⟩
    | _ => simp [Transfer.blank] at status
  | reversed reason time =>
    obtain ⟨status, rfl⟩ := leads
    cases h with
    | completed => exact ⟨.reversed .., rfl⟩
    | _ => simp [Transfer.blank] at status
  | disputed reason time =>
    obtain ⟨disputable, status, undisputed⟩ := leads
    cases h with
    | authorized id terms code dispute =>
      obtain rfl := Option.some.inj status
      obtain rfl : dispute = none := by simpa [Transfer.disputed] using undisputed
      exact ⟨.authorized .., rfl⟩
    | completed id terms code reference dispute =>
      obtain rfl := Option.some.inj status
      obtain rfl : dispute = none := by simpa [Transfer.disputed] using undisputed
      exact ⟨.completed .., rfl⟩
    | _ => rcases disputable with rfl | rfl <;> simp [Transfer.blank] at status

theorem Shape.applyAll (h : t.Shape) (ha : t.applyAll es = .ok u) :
    u.Shape ∧ u.traces = t.traces + es.length := by
  induction es generalizing t with
  | nil =>
    obtain rfl := Except.ok.inj ha
    exact ⟨h, rfl⟩
  | cons e rest ih =>
    obtain ⟨v, he, hrest⟩ := applyAll_cons_eq_ok.1 ha
    obtain ⟨hv, one⟩ := h.apply he
    obtain ⟨hu, more⟩ := ih hv hrest
    refine ⟨hu, ?_⟩
    rw [more, one, List.length_cons]
    omega

/-- A state of one of the shapes comes of facts, and no other does. -/
theorem shape_iff : t.Shape ↔ ∃ es, (blank t.id).applyAll es = .ok t := by
  refine ⟨fun h => ?_, fun ⟨es, ha⟩ => ((Shape.blank t.id).applyAll ha).1⟩
  let now : Instant := .startOf2025
  cases h with
  | blank id => exact ⟨[], rfl⟩
  | initiated id terms => exact ⟨[.initiated id terms now], rfl⟩
  | declined id terms code reason =>
    exact ⟨[.initiated id terms now, .failed .authorization code reason now], rfl⟩
  | authorized id terms authorization dispute =>
    refine ⟨[.initiated id terms now, .authorized authorization now] ++
      dispute.toList.map (.disputed · now), ?_⟩
    cases dispute <;> rfl
  | rejected id terms authorization code reason dispute =>
    refine ⟨[.initiated id terms now, .authorized authorization now] ++
      dispute.toList.map (.disputed · now) ++ [.failed .settlement code reason now], ?_⟩
    cases dispute <;> rfl
  | completed id terms authorization settlement dispute =>
    refine ⟨[.initiated id terms now, .authorized authorization now] ++
      dispute.toList.map (.disputed · now) ++ [.completed settlement now], ?_⟩
    cases dispute <;> rfl
  | reversed id terms authorization settlement reversal dispute =>
    refine ⟨[.initiated id terms now, .authorized authorization now] ++
      dispute.toList.map (.disputed · now) ++ [.completed settlement now, .reversed reversal now],
      ?_⟩
    cases dispute <;> rfl

/-! ## Terms -/

theorem terms_of_apply (h : t.status ≠ none) (ha : t.apply e = .ok u) :
    u.status ≠ none ∧ u.terms = t.terms := by
  obtain ⟨next, leads, rfl⟩ := leads_of_apply ha
  refine ⟨nofun, ?_⟩
  cases e with
  | initiated => exact absurd leads.1 h
  | _ => rfl

/-- What is agreed at first stays agreed. -/
theorem terms_of_applyAll (h : t.status ≠ none) (ha : t.applyAll es = .ok u) :
    u.terms = t.terms := by
  induction es generalizing t with
  | nil => rw [Except.ok.inj ha]
  | cons e rest ih =>
    obtain ⟨v, he, hrest⟩ := applyAll_cons_eq_ok.1 ha
    obtain ⟨hv, same⟩ := terms_of_apply h he
    rw [ih hv hrest, same]

/-- The first fact opens the transfer, with the terms that it has from then on. -/
theorem opening_of_applyAll {id : String} (ha : (blank id).applyAll es = .ok t) :
    ∀ e ∈ es.head?, ∃ name time, e = .initiated name t.terms time := by
  intro e he
  cases es with
  | nil => simp at he
  | cons first rest =>
    obtain rfl : first = e := by simpa using he
    obtain ⟨v, hf, hrest⟩ := applyAll_cons_eq_ok.1 ha
    obtain ⟨next, leads, rfl⟩ := leads_of_apply hf
    cases first with
    | initiated name terms time =>
      have same := terms_of_applyAll (by simp) hrest
      exact ⟨name, time, by rw [same]; rfl⟩
    | failed stage code reason time =>
      cases stage <;> simp [Event.move, Move.Leads, blank] at leads
    | _ => simp [Event.move, Move.Leads, blank] at leads

/-! ## Status and fields -/

/-- What the status says about the other fields, and about the number of facts. -/
structure AgreesWith (t : Transfer) (es : List Event) : Prop where
  new : t.status = none ↔ es.length = 0
  initiated : t.status = some .initiated →
    es.length = 1 ∧ t.authorization = none ∧ t.settlement = none ∧ t.failure = none ∧
      t.reversal = none ∧ t.dispute = none
  authorized : t.status = some .authorized →
    es.length = 2 + t.disputed.toNat ∧ t.authorization.isSome ∧ t.settlement = none ∧
      t.failure = none ∧ t.reversal = none
  completed : t.status = some .completed →
    es.length = 3 + t.disputed.toNat ∧ t.authorization.isSome ∧ t.settlement.isSome ∧
      t.failure = none ∧ t.reversal = none
  failed : t.status = some .failed →
    t.settlement = none ∧ t.reversal = none ∧ ∃ f, t.failure = some f ∧
      ((f.stage = .authorization ∧ es.length = 2 ∧ t.authorization = none ∧ t.dispute = none) ∨
        (f.stage = .settlement ∧ es.length = 3 + t.disputed.toNat ∧ t.authorization.isSome))
  reversed : t.status = some .reversed →
    es.length = 4 + t.disputed.toNat ∧ t.authorization.isSome ∧ t.settlement.isSome ∧
      t.reversal.isSome ∧ t.failure = none
  opening : ∀ e ∈ es.head?, ∃ name time, e = .initiated name t.terms time
  counted : es.length = t.traces

theorem Shape.agreesWith (h : t.Shape) (counted : es.length = t.traces)
    (opening : ∀ e ∈ es.head?, ∃ name time, e = .initiated name t.terms time) :
    t.AgreesWith es where
  new := by
    rw [counted]
    cases h <;> simp [traces, Transfer.blank, Transfer.disputed]
  initiated status := by
    cases h with
    | initiated => exact ⟨counted, rfl, rfl, rfl, rfl, rfl⟩
    | _ => simp [Transfer.blank] at status
  authorized status := by
    cases h with
    | authorized => exact ⟨counted.trans (Nat.add_comm _ 2), rfl, rfl, rfl, rfl⟩
    | _ => simp [Transfer.blank] at status
  completed status := by
    cases h with
    | completed => exact ⟨counted.trans (Nat.add_comm _ 3), rfl, rfl, rfl, rfl⟩
    | _ => simp [Transfer.blank] at status
  failed status := by
    cases h with
    | declined => exact ⟨rfl, rfl, _, rfl, .inl ⟨rfl, counted, rfl, rfl⟩⟩
    | rejected =>
      exact ⟨rfl, rfl, _, rfl, .inr ⟨rfl, counted.trans (Nat.add_comm _ 3), rfl⟩⟩
    | _ => simp [Transfer.blank] at status
  reversed status := by
    cases h with
    | reversed => exact ⟨counted.trans (Nat.add_comm _ 4), rfl, rfl, rfl, rfl⟩
    | _ => simp [Transfer.blank] at status
  opening := opening
  counted := counted

theorem agreesWith_of_applyAll {id : String} (ha : (blank id).applyAll es = .ok t) :
    t.AgreesWith es := by
  obtain ⟨shape, counted⟩ := (Shape.blank id).applyAll ha
  exact shape.agreesWith (counted.trans (Nat.zero_add _)).symm (opening_of_applyAll ha)

end Transfer

/-! ## Working copies -/

namespace WorkingCopy

/-- The working copies that there are, with the facts that they have taken since they were blank,
and with whether their versions have been given out right all the time. -/
inductive Reached : List Event → Prop → WorkingCopy → Prop
  | blank (stream : String) : Reached [] True (.blank stream)
  /-- An operation is accepted. -/
  | performed {es : List Event} {right : Prop} {c c' : WorkingCopy} {now : Instant} {o : Operation}
      (before : Reached es right c) (accepted : c.perform now o = .ok c') :
      Reached (es ++ [o.event c.stream now]) right c'
  /-- A replay takes the fact of a record. -/
  | taken {es : List Event} {right : Prop} {stream : String} {b b' : Rebuilt} {r : Record}
      {e : Event} (before : Reached es right b.copy) (held : r.event = .ok e)
      (took : b.take stream r = .ok b') :
      Reached (es ++ [e]) (right ∧ r.sequence = b.copy.version + 1) b'.copy
  /-- A state that was put aside is restored. -/
  | restored {es : List Event} {right : Prop} {c c' : WorkingCopy} {x : Snapshot} {stream : String}
      (before : Reached es right c) (kept : x.state = c.transfer.toJson.canonical)
      (restored : x.restore stream = .ok c') : Reached es (right ∧ x.version = c.version) c'
  /-- Buffered facts are stored, or said to be. -/
  | confirmed {es : List Event} {right : Prop} {c : WorkingCopy} (version : Nat)
      (before : Reached es right c) :
      Reached es (right ∧ version ≤ c.version) (c.markCommitted version)

variable {es fs : List Event} {right : Prop} {c : WorkingCopy}

/-- The state of a working copy is what its facts make of a blank one. -/
theorem Reached.applyAll (h : Reached es right c) :
    (Transfer.blank c.stream).applyAll es = .ok c.transfer := by
  induction h with
  | blank => rfl
  | performed before accepted ih =>
    obtain ⟨e, t, hd, ha, rfl⟩ := decide_of_perform accepted
    obtain ⟨rfl, -⟩ := Transfer.apply_of_decide hd
    show (Transfer.blank t.id).applyAll _ = .ok t
    rw [Transfer.id_of_apply ha]
    exact Transfer.applyAll_snoc ih ha
  | taken before held took ih =>
    obtain ⟨e, t, he, ha, rfl⟩ := Rebuilt.take_eq_ok took
    obtain rfl := Except.ok.inj (held.symm.trans he)
    show (Transfer.blank t.id).applyAll _ = .ok t
    rw [Transfer.id_of_apply ha]
    exact Transfer.applyAll_snoc ih ha
  | restored before kept restored ih =>
    obtain ⟨t, ht, -, rfl⟩ := Snapshot.of_restore restored
    rw [kept, Transfer.ofJson?_canonical] at ht
    obtain rfl := Option.some.inj ht
    exact ih
  | confirmed version before ih => exact ih

/-- The version of a working copy is the number of its facts, if nobody said otherwise. -/
theorem Reached.version_eq (h : Reached es right c) (hr : right) : c.version = es.length := by
  induction h with
  | blank => rfl
  | performed before accepted ih =>
    obtain ⟨e, t, -, -, rfl⟩ := decide_of_perform accepted
    rw [List.length_append, ← ih hr]
    rfl
  | taken before held took ih =>
    obtain ⟨e, t, -, -, rfl⟩ := Rebuilt.take_eq_ok took
    rw [List.length_append, ← ih hr.1]
    exact hr.2
  | restored before kept restored ih =>
    obtain ⟨t, -, -, rfl⟩ := Snapshot.of_restore restored
    exact hr.2.trans (ih hr.1)
  | confirmed version before ih => exact (Nat.max_eq_left hr.2).trans (ih hr.1)

/-- A replay of records is a way of taking the facts in them.  If they continue a stream it gives
out the versions right. -/
theorem Reached.takeAll {stream stream' : String} {b b' : Rebuilt} {rs : List Record} {head : Head}
    (before : Reached es right b.copy) (continued : Continues stream' head rs)
    (behind : b.copy.version = head.version) (held : rs.map Record.event = fs.map .ok)
    (took : b.takeAll stream rs = .ok b') :
    ∃ right', (right → right') ∧ Reached (es ++ fs) right' b'.copy := by
  induction rs generalizing b es fs right head with
  | nil =>
    obtain rfl : fs = [] := by simpa using held.symm
    obtain rfl := Except.ok.inj took
    exact ⟨right, id, by simpa using before⟩
  | cons r rest ih =>
    cases fs with
    | nil => exact absurd held (by simp)
    | cons e fs =>
      obtain ⟨he, held⟩ := List.cons.inj held
      obtain ⟨-, next, -, continued⟩ := continued
      obtain ⟨b₁, ht, took⟩ := Rebuilt.takeAll_cons_eq_ok.1 took
      obtain ⟨e', t, -, -, rfl⟩ := Rebuilt.take_eq_ok ht
      obtain ⟨right', stays, reached⟩ := ih (before.taken he ht) continued rfl held took
      refine ⟨right', fun hr => stays ⟨hr, ?_⟩, by rwa [List.append_assoc] at reached⟩
      rw [behind]
      exact next

/-- The fields of a state agree with its status, and the state tells how many facts there are behind
it: for every run of facts that are taken one after the other, and so for every working copy, whose
version is that number if nobody has said otherwise. -/
theorem agrees_of_reached :
    (∀ id es t, (Transfer.blank id).applyAll es = .ok t → t.AgreesWith es) ∧
    ∀ es right c, Reached es right c →
      (Transfer.blank c.stream).applyAll es = .ok c.transfer ∧ c.transfer.AgreesWith es ∧
        (right → c.version = c.transfer.traces) := by
  refine ⟨fun _ _ _ ha => Transfer.agreesWith_of_applyAll ha, fun es right c h => ?_⟩
  have agrees := Transfer.agreesWith_of_applyAll h.applyAll
  exact ⟨h.applyAll, agrees, fun hr => (h.version_eq hr).trans agrees.counted⟩

/-- A transfer that is disputed before its settlement fails. -/
def disputedThenFailed : List Event :=
  [.initiated "t" ⟨100, "EUR", "a", "b"⟩ .startOf2025, .authorized "x" .startOf2025,
    .disputed "not mine" .startOf2025, .failed .settlement "51" "no funds" .startOf2025]

/-- It is replayed, and put aside and restored. -/
theorem agrees_of_reached_disputed :
    ∃ right c, right ∧ Reached disputedThenFailed right c ∧ c.version = 4 ∧
      c.transfer.status = some .failed ∧ c.transfer.authorization.isSome ∧
      c.transfer.settlement = none ∧ disputedThenFailed.length = 3 + c.transfer.disputed.toNat := by
  let stored (n : Nat) (e : Event) : Record :=
    ⟨"t", n + 1, e.kind, e.text, .startOf2025, .root, .root⟩
  let rs : List Record := disputedThenFailed.mapIdx stored
  have held : rs.map Record.event = disputedThenFailed.map .ok :=
    Record.events_of_carried rfl
  let final : Transfer := ⟨"t", some .failed, ⟨100, "EUR", "a", "b"⟩, some "x", none,
    some ⟨.settlement, "51", "no funds"⟩, none, some "not mine"⟩
  obtain ⟨b, took, left⟩ : ∃ b', (Rebuilt.blank "t").takeAll "t" rs = .ok b' ∧
      b'.copy.transfer = final := Rebuilt.takeAll_of_facts "t" held rfl
  have continued : Continues "t" .empty rs :=
    ⟨rfl, rfl, rfl, rfl, rfl, rfl, rfl, rfl, rfl, rfl, rfl, rfl, trivial⟩
  obtain ⟨right, stays, replayed⟩ :=
    Reached.takeAll (b := .blank "t") (.blank "t") continued rfl held took
  have reached := replayed.restored rfl (b.copy.restore_snapshot .startOf2025)
  have status : b.copy.transfer.status = some .failed := by rw [left]
  obtain ⟨-, agrees, counted⟩ := agrees_of_reached.2 _ _ _ reached
  obtain ⟨settlement, -, f, hf, ⟨early, -⟩ | ⟨-, count, authorization⟩⟩ := agrees.failed status
  · obtain rfl : (⟨.settlement, "51", "no funds"⟩ : Failure) = f :=
      Option.some.inj ((congrArg Transfer.failure left).symm.trans hf)
    simp at early
  · have right' := stays trivial
    refine ⟨_, _, ⟨right', rfl⟩, reached, ?_, status, authorization, settlement, count⟩
    exact (counted ⟨right', rfl⟩).trans agrees.counted.symm

end WorkingCopy

end TransferLedger

import Mathlib.Data.Nat.Find
import TransferLedger.Proofs.Rebuild.Resuming

/-!
# What a defect does to a rebuild

Somebody may have put anything into a stream.  A record can be wrong in four ways: it breaks the
chain, its payload does not decode, its payload is of another kind than the one stored beside it, or
the state that the records before it make refuses its fact (`Sealer.Defect`).  A rebuild that checks
the chain and uses no snapshot reports the first record that is wrong in any of these ways, and a
broken chain before everything else (`Log.rebuild_exact`).  So no defect is taken for an empty
stream, and none for the end of one.

Taking records one after the other fails at the first record with a defect of its contents
(`Rebuilt.defect_of_takeAll`), and where it succeeds there is none (`Rebuilt.sound_of_takeAll`).
-/

set_option autoImplicit false

namespace TransferLedger

/-- The state is what the facts of records make of a blank transfer. -/
def Transfer.MadeBy (t : Transfer) (stream : String) (rs : List Record) : Prop :=
  ∃ es, rs.map Record.event = es.map .ok ∧ (Transfer.blank stream).applyAll es = .ok t

/-- What can be wrong with the record at an index of a stream. -/
inductive Sealer.Defect (s : Sealer) (stream : String) (rs : List Record) (i : Nat) : Prop
  /-- The check of the chain fails there. -/
  | broken {e : ChainError} (breaks : s.BreaksAt stream rs i e)
  | undecodable {r : Record} (here : rs[i]? = some r) (unread : Event.ofText? r.payload = none)
  /-- The payload is a fact of another kind than the one stored beside it. -/
  | mislabelled {r : Record} {e : Event} (here : rs[i]? = some r)
      (read : Event.ofText? r.payload = some e) (other : e.kind ≠ r.kind)
  /-- The state that the records before it make refuses its fact. -/
  | refused {r : Record} {e : Event} {t : Transfer} {x : TransitionError} (here : rs[i]? = some r)
      (read : Event.ofText? r.payload = some e) (before : t.MadeBy stream (rs.take i))
      (refuses : t.apply e = .error x)

theorem Sealer.Defect.exists_first {s : Sealer} {stream : String} {rs : List Record} {i : Nat}
    (defect : s.Defect stream rs i) :
    ∃ j, s.Defect stream rs j ∧ ∀ k < j, ¬ s.Defect stream rs k := by
  classical
  exact ⟨Nat.find ⟨i, defect⟩, Nat.find_spec _, fun k hk => Nat.find_min _ hk⟩

theorem Record.event_eq_ok_iff {r : Record} {e : Event} :
    r.event = .ok e ↔ Event.ofText? r.payload = some e ∧ e.kind = r.kind := by
  unfold event
  cases Event.ofText? r.payload with
  | none => simp
  | some e' =>
    by_cases hk : e'.kind = r.kind
    · simp only [hk, if_true, Except.ok.injEq, Option.some.injEq]
      exact ⟨fun he => ⟨he, he ▸ hk⟩, And.left⟩
    · simp only [hk, if_false, reduceCtorEq, Option.some.injEq, false_iff, not_and]
      exact fun he => he ▸ hk

namespace Rebuilt

variable {s : Sealer} {stream : String} {rs : List Record} {b b' : Rebuilt}

theorem madeBy_of_takeAll (h : (blank stream).takeAll stream rs = .ok b) :
    b.copy.transfer.MadeBy stream rs :=
  facts_of_takeAll h

/-- The fact of a record that is taken on the way goes into what the records before it make. -/
theorem fact_of_takeAll {n i : Nat} {r : Record} (h : b.takeAll stream (rs.take n) = .ok b')
    (hi : i < n) (hr : rs[i]? = some r) :
    ∃ b₁ e t, b.takeAll stream (rs.take i) = .ok b₁ ∧ Event.ofText? r.payload = some e ∧
      e.kind = r.kind ∧ b₁.copy.transfer.apply e = .ok t := by
  have hr' : (rs.take n)[i]? = some r := by rwa [List.getElem?_take_of_lt hi]
  have hi' : (rs.take n).take i = rs.take i := by
    rw [List.take_take, Nat.min_eq_left (Nat.le_of_lt hi)]
  rw [← List.take_append_drop i (rs.take n), hi', drop_eq_cons hr', takeAll_append] at h
  cases h₁ : b.takeAll stream (rs.take i) with
  | error e => rw [h₁] at h; simp [Except.bind] at h
  | ok b₁ =>
    rw [h₁] at h
    obtain ⟨b₂, h₂, -⟩ := takeAll_cons_eq_ok.1 h
    obtain ⟨e, t, he, ha, -⟩ := take_eq_ok h₂
    obtain ⟨hread, hkind⟩ := Record.event_eq_ok_iff.1 he
    exact ⟨b₁, e, t, rfl, hread, hkind, ha⟩

/-- Linked records that are taken have no defect. -/
theorem sound_of_takeAll {n i : Nat} (linked : s.Linked stream .empty (rs.take n))
    (h : (blank stream).takeAll stream (rs.take n) = .ok b) (hi : i < n) :
    ¬ s.Defect stream rs i := by
  intro defect
  cases defect with
  | broken breaks => exact breaks.not_linked hi linked
  | undecodable here unread =>
    obtain ⟨-, e, -, -, hread, -⟩ := fact_of_takeAll h hi here
    rw [unread] at hread
    simp at hread
  | mislabelled here read other =>
    obtain ⟨-, e, -, -, hread, hkind, -⟩ := fact_of_takeAll h hi here
    obtain rfl := Option.some.inj (read.symm.trans hread)
    exact other hkind
  | refused here read before refuses =>
    obtain ⟨b₁, e, t, h₁, hread, -, ha⟩ := fact_of_takeAll h hi here
    obtain rfl := Option.some.inj (read.symm.trans hread)
    -- The records before it make one state, which is the one it has gone into.
    obtain ⟨es, hes, happ⟩ := before
    obtain ⟨b₁', h₁', rfl⟩ := takeAll_of_facts (b := blank stream) stream hes happ
    obtain rfl := Except.ok.inj (h₁.symm.trans h₁')
    rw [refuses] at ha
    simp at ha

/-- A record that is not taken has a defect of its contents. -/
theorem take_eq_error {i : Nat} {r : Record} {x : ReplayError} (here : rs[i]? = some r)
    (before : b.copy.transfer.MadeBy stream (rs.take i)) (h : b.take stream r = .error x)
    (hs : r.stream = stream) :
    s.Defect stream rs i ∧ ∃ reason, x = .corrupt stream r.sequence reason := by
  unfold take at h
  cases he : r.event with
  | error y =>
    rw [he] at h
    obtain rfl := Except.error.inj h
    unfold Record.event at he
    cases hread : Event.ofText? r.payload with
    | none =>
      rw [hread] at he
      exact ⟨.undecodable here hread, _, by rw [← Except.error.inj he, hs]⟩
    | some e =>
      rw [hread] at he
      dsimp only at he
      split at he
      · simp at he
      · next other =>
        exact ⟨.mislabelled here hread other, _, by rw [← Except.error.inj he, hs]⟩
  | ok e =>
    obtain ⟨hread, -⟩ := Record.event_eq_ok_iff.1 he
    simp only [he, WorkingCopy.apply] at h
    cases ha : b.copy.transfer.apply e with
    | error y =>
      simp only [ha] at h
      exact ⟨.refused here hread before ha, _, (Except.error.inj h).symm⟩
    | ok t => simp [ha] at h

/-- Where linked records are not all taken, one of them has a defect of its contents, and the error
says where. -/
theorem defect_of_takeAll {n : Nat} {x : ReplayError}
    (linked : s.Linked stream .empty (rs.take n))
    (h : (blank stream).takeAll stream (rs.take n) = .error x) :
    ∃ i, i < n ∧ s.Defect stream rs i ∧ ∃ reason, x = .corrupt stream (i + 1) reason := by
  rw [takeAll_eq_foldlM] at h
  obtain ⟨i, r, b, hr, hb, hx⟩ := exists_refused_of_foldlM h
  have hi : i < n := by
    have := (List.getElem?_eq_some_iff.1 hr).1
    rw [List.length_take] at this
    omega
  obtain ⟨hc, -⟩ := Sealer.linked_iff.1 linked
  obtain ⟨hs, -⟩ := hc.getElem? hr
  have hseq := hc.sequence_eq hr
  rw [List.getElem?_take_of_lt hi] at hr
  rw [List.take_take, Nat.min_eq_left (Nat.le_of_lt hi), ← takeAll_eq_foldlM] at hb
  obtain ⟨defect, reason, rfl⟩ := take_eq_error hr (madeBy_of_takeAll hb) hx hs
  exact ⟨i, hi, defect, reason, by rw [hseq]⟩

/-- Linked records without a defect are all taken. -/
theorem exists_takeAll {n : Nat} (linked : s.Linked stream .empty (rs.take n))
    (sound : ∀ i < n, ¬ s.Defect stream rs i) :
    ∃ b, (blank stream).takeAll stream (rs.take n) = .ok b := by
  cases h : (blank stream).takeAll stream (rs.take n) with
  | ok b => exact ⟨b, rfl⟩
  | error x =>
    obtain ⟨i, hi, defect, -⟩ := defect_of_takeAll linked h
    exact absurd defect (sound i hi)

/-- What is refused is refused with anything behind it. -/
theorem takeAll_take_eq_error {n m : Nat} {x : ReplayError} (hnm : n ≤ m)
    (h : b.takeAll stream (rs.take n) = .error x) : b.takeAll stream (rs.take m) = .error x := by
  have hsplit : rs.take m = rs.take n ++ (rs.take m).drop n := by
    have := List.take_append_drop n (rs.take m)
    rwa [List.take_take, Nat.min_eq_left hnm, eq_comm] at this
  rw [hsplit, takeAll_append, h]
  rfl

end Rebuilt

namespace Log

variable {log : Log} {stream : String} {w : InMemory} {snapshots : Bool} {rs : List Record}

section peace

variable (available : w.medium.available = true)
  (stored : w.medium.records stream = rs) (short : rs.length ≤ Reader.positions)
  (checks : log.config.verifyOnRead = true)
  (unused : ((log.startingPoint snapshots stream).run w).1 = none)

include available stored short checks unused

/-- A rebuild that comes to a broken link has taken the records before it. -/
theorem run_rebuild_of_breaksAt {i : Nat} {e : ChainError}
    (breaks : log.sealer.BreaksAt stream rs i e) :
    (log.rebuild snapshots stream).run w =
      (((Rebuilt.blank stream).takeAll stream (rs.take i)).bind fun _ =>
        .error (.store (.integrity e)), w) := by
  subst stored
  rw [run_rebuild_unused unused]
  refine @run_replayFrom_of_yields log stream w none _ [.failed (.integrity e)]
    (yields_of_breaksAt log.config.batchSize available checks breaks) ?_
  have := breaks.lt_length
  simp only [List.length_append, List.length_map, List.length_take, List.length_singleton]
  omega

/-- Linked records that are not all taken are the end of a rebuild, whatever stands behind them. -/
theorem run_rebuild_of_refused {n : Nat} {x : ReplayError}
    (linked : log.sealer.Linked stream .empty (rs.take n))
    (refused : (Rebuilt.blank stream).takeAll stream (rs.take n) = .error x) :
    (log.rebuild snapshots stream).run w = (.error x, w) := by
  cases hv : verifyChain log.sealer stream rs with
  | ok g =>
    have hall : (Rebuilt.blank stream).takeAll stream rs = .error x := by
      rw [← List.take_append_drop n rs, Rebuilt.takeAll_append, refused]
      rfl
    subst stored
    rw [run_rebuild_none available (verifyChain_eq_ok_iff.1 hv).1 short unused, hall]
    rfl
  | error e =>
    obtain ⟨q, breaks⟩ := verifyChain_eq_error_iff.1 hv
    have hnq : n ≤ q := Nat.le_of_not_lt fun hlt => breaks.not_linked hlt linked
    rw [run_rebuild_of_breaksAt available stored short checks unused breaks,
      Rebuilt.takeAll_take_eq_error hnq refused]
    rfl

omit checks in
/-- A rebuild of records without a defect comes to the state that they make. -/
theorem run_rebuild_of_sound (nonempty : rs ≠ [])
    (sound : ∀ i, ¬ log.sealer.Defect stream rs i) :
    ∃ t : Transfer, t.MadeBy stream rs ∧
      (log.rebuild snapshots stream).run w = (.ok ⟨.replayed t rs.length, none, rs.length⟩, w) := by
  have linked : log.sealer.Linked stream .empty (rs.take rs.length) :=
    Sealer.linked_take fun j _ e breaks => sound j (.broken breaks)
  obtain ⟨b, hb⟩ := Rebuilt.exists_takeAll linked fun i _ => sound i
  rw [List.take_length] at linked hb
  obtain ⟨heq, -⟩ := Rebuilt.of_blank (Sealer.linked_iff.1 linked).1 hb
  refine ⟨b.copy.transfer, Rebuilt.madeBy_of_takeAll hb, ?_⟩
  subst stored
  rw [run_rebuild_none available linked short unused, hb, ← heq]
  refine congrArg (·, w) (if_neg fun hn => nonempty ?_)
  rw [heq] at hn
  exact List.length_eq_zero_iff.1 hn.2

/-- A rebuild reports the first defect: a broken link by the error of the check of the chain, and
everything else by its position. -/
theorem run_rebuild_of_defect {i : Nat} (defect : log.sealer.Defect stream rs i)
    (first : ∀ j < i, ¬ log.sealer.Defect stream rs j) :
    (∀ e, log.sealer.BreaksAt stream rs i e →
      (log.rebuild snapshots stream).run w = (.error (.store (.integrity e)), w)) ∧
    ((∀ e, ¬ log.sealer.BreaksAt stream rs i e) → ∃ reason,
      (log.rebuild snapshots stream).run w = (.error (.corrupt stream (i + 1) reason), w)) := by
  have linked : log.sealer.Linked stream .empty (rs.take i) :=
    Sealer.linked_take fun j hj e breaks => first j hj (.broken breaks)
  refine ⟨fun e breaks => ?_, fun unbroken => ?_⟩
  · obtain ⟨b, hb⟩ := Rebuilt.exists_takeAll linked first
    rw [run_rebuild_of_breaksAt available stored short checks unused breaks, hb]
    rfl
  · have linked' : log.sealer.Linked stream .empty (rs.take (i + 1)) := by
      refine Sealer.linked_take fun j hj e breaks => ?_
      rcases Nat.lt_succ_iff_lt_or_eq.1 hj with hlt | rfl
      · exact first j hlt (.broken breaks)
      · exact unbroken e breaks
    cases ht : (Rebuilt.blank stream).takeAll stream (rs.take (i + 1)) with
    | ok b => exact absurd defect (Rebuilt.sound_of_takeAll linked' ht (Nat.lt_succ_self i))
    | error x =>
      obtain ⟨j, hj, defect', reason, rfl⟩ := Rebuilt.defect_of_takeAll linked' ht
      obtain rfl : j = i := Nat.le_antisymm (Nat.lt_succ_iff.1 hj)
        (Nat.le_of_not_lt fun hlt => first j hlt defect')
      exact ⟨reason, run_rebuild_of_refused available stored short checks unused linked' ht⟩

end peace

/-- Nobody else is there, the stream holds any records at all, and a rebuild checks the chain and
uses no snapshot.  It finds nothing exactly if nothing is stored.  Where no record has a defect it
comes to what all of them make, with the version and the number of facts that there are records and
nothing in the buffer.  Where one has, it reports the first one that has: if the chain is broken
there, with the error of the check of the chain, and if not, as corrupt at its position.  So with a
defect anywhere it fails for good.  The size of pages makes no difference.  Positions are words, so
no stream is longer than there are positions. -/
theorem rebuild_exact {found : Except ReplayError Rebuilt}
    (available : w.medium.available = true) (stored : w.medium.records stream = rs)
    (short : rs.length ≤ Reader.positions) (checks : log.config.verifyOnRead = true)
    (unused : ((log.startingPoint snapshots stream).run w).1 = none)
    (outcome : ((log.rebuild snapshots stream).run w).1 = found) :
    (found = .error (.notFound stream) ↔ rs = []) ∧
    (rs ≠ [] → (∀ i, ¬ log.sealer.Defect stream rs i) → ∃ t : Transfer, t.MadeBy stream rs ∧
      found = .ok ⟨.replayed t rs.length, none, rs.length⟩) ∧
    (∀ i, log.sealer.Defect stream rs i → (∀ j < i, ¬ log.sealer.Defect stream rs j) →
      (∀ e, log.sealer.BreaksAt stream rs i e →
        verifyChain log.sealer stream rs = .error e ∧ found = .error (.store (.integrity e))) ∧
      ((∀ e, ¬ log.sealer.BreaksAt stream rs i e) →
        ∃ reason, found = .error (.corrupt stream (i + 1) reason))) ∧
    ∀ i, log.sealer.Defect stream rs i → ∃ x, found = .error x ∧ x.isFatal = true := by
  subst outcome
  have sound (nonempty : rs ≠ []) (clean : ∀ i, ¬ log.sealer.Defect stream rs i) :=
    run_rebuild_of_sound available stored short unused nonempty clean
  have first {i : Nat} (defect : log.sealer.Defect stream rs i)
      (first : ∀ j < i, ¬ log.sealer.Defect stream rs j) :=
    run_rebuild_of_defect available stored short checks unused defect first
  have fatal (i : Nat) (defect : log.sealer.Defect stream rs i) :
      ∃ x, ((log.rebuild snapshots stream).run w).1 = .error x ∧ x.isFatal = true := by
    obtain ⟨j, defect, least⟩ := defect.exists_first
    obtain ⟨hbroken, hcorrupt⟩ := first defect least
    by_cases breaks : ∃ e, log.sealer.BreaksAt stream rs j e
    · obtain ⟨e, breaks⟩ := breaks
      exact ⟨_, congrArg Prod.fst (hbroken e breaks), rfl⟩
    · obtain ⟨reason, hrun⟩ := hcorrupt (not_exists.1 breaks)
      exact ⟨_, congrArg Prod.fst hrun, rfl⟩
  refine ⟨⟨fun nothing => ?_, fun nil => ?_⟩, fun nonempty clean => ?_, fun i defect least => ?_,
    fatal⟩
  · by_contra nonempty
    by_cases clean : ∀ i, ¬ log.sealer.Defect stream rs i
    · obtain ⟨t, -, hrun⟩ := sound nonempty clean
      simp [hrun] at nothing
    · obtain ⟨i, defect⟩ := not_forall_not.1 clean
      obtain ⟨x, hx, hfatal⟩ := fatal i defect
      obtain rfl := Except.error.inj (hx.symm.trans nothing)
      simp [ReplayError.isFatal] at hfatal
  · subst stored
    rw [run_rebuild_none available (nil ▸ trivial) short unused, nil]
    rfl
  · obtain ⟨t, made, hrun⟩ := sound nonempty clean
    exact ⟨t, made, congrArg Prod.fst hrun⟩
  · obtain ⟨hbroken, hcorrupt⟩ := first defect least
    refine ⟨fun e breaks => ⟨verifyChain_eq_error_iff.2 ⟨i, breaks⟩,
      congrArg Prod.fst (hbroken e breaks)⟩, fun unbroken => ?_⟩
    obtain ⟨reason, hrun⟩ := hcorrupt unbroken
    exact ⟨reason, congrArg Prod.fst hrun⟩

/-- A transfer is initiated, and what is sealed behind that is not a fact. -/
def scribbled : InMemory :=
  ((quick.append "t" [(Event.initiated "t" ⟨100, "EUR", "a", "b"⟩ .startOf2025).entry .startOf2025,
    ⟨"TransactionAuthorized", "?", .startOf2025⟩] 0).run (InMemory.empty .startOf2025)).2

/-- The chain is in order, and still the rebuild does not stop at the first fact as if it were
all. -/
theorem rebuild_exact_scribbled :
    (∃ g, verifyChain quick.sealer "t" (scribbled.medium.records "t") = .ok g) ∧
      ∃ reason, ((quick.rebuild false "t").run scribbled).1 = .error (.corrupt "t" 2 reason) := by
  have nothing : Honest quick.sealer "t" (InMemory.empty .startOf2025) := .empty rfl
  have honest : Honest quick.sealer "t" scribbled := nothing.appended rfl (by decide +kernel)
  have right := verifyChain_eq_ok_iff.2 ⟨honest.linked, rfl⟩
  have short : (scribbled.medium.records "t").length ≤ Reader.positions := by decide +kernel
  obtain ⟨r, hr⟩ : ∃ r, (scribbled.medium.records "t")[1]? = some r :=
    Option.isSome_iff_exists.1 (by decide +kernel)
  have unread : ∀ r ∈ (scribbled.medium.records "t")[1]?, Event.ofText? r.payload = none := by
    decide +kernel
  have held : ((scribbled.medium.records "t").take 1).map Record.event =
      [Event.initiated "t" ⟨100, "EUR", "a", "b"⟩ .startOf2025].map .ok :=
    Record.events_of_carried (by decide +kernel)
  obtain ⟨b, hb, -⟩ := Rebuilt.takeAll_of_facts (b := .blank "t") "t" held rfl
  obtain ⟨-, -, first, -⟩ := @rebuild_exact quick "t" scribbled false _ _ (by decide +kernel) rfl
    short rfl rfl rfl
  obtain ⟨-, corrupt⟩ := first 1 (.undecodable hr (unread r hr)) fun j hj =>
    Rebuilt.sound_of_takeAll (honest.linked.take 1) hb hj
  refine ⟨⟨_, right⟩, corrupt fun e breaks => ?_⟩
  have wrong := verifyChain_eq_error_iff.2 ⟨1, breaks⟩
  simp [right] at wrong

end Log

end TransferLedger

import TransferLedger.Proofs.Dialogue.Narrowing
import TransferLedger.Proofs.Log.Asking
import TransferLedger.Proofs.Office.Growth
import TransferLedger.Proofs.Office.UpToDate

/-!
# Where a record comes from

A storage may apply a batch and not say so: the call ends in an error, or in no answer in time, and
the coordinator does not know whether its batch has landed.  What it knows of its copies is then out
of date, and so is what its open transaction has noted of them.

What is stored is still right.  Each fact that a copy has emitted has one place in its stream,
behind the facts that the copy was put down with and those that it has emitted before, and a batch
that lands puts a fact nowhere else (`Chronicle.exists_comesFrom_of_landed`).  So every record that
a coordinator has stored comes from a fact of some copy (`Chronicle.Attributed`), whatever it has
been told, and it keeps to this in all that it does: `Coordinator.keeps_push_attributed`,
`Coordinator.keeps_commit_attributed`.
-/

set_option autoImplicit false

namespace TransferLedger

open Chronicle

/-! ## Replies that are not heard -/

/-- What a request of a party can be answered with where a batch may land, or not, and the reply is
an error or does not come in time. -/
inductive Chronicle.Unsure (p : Party) : (q : Request) → Chronicle → q.Answer → Chronicle → Prop
  | served {q : Request} {s s' : Chronicle} {a : q.Answer} (served : Answers p q s a s') :
      Unsure p q s a s'
  | unheard {n : Nat} {appends : List Append} {s : Chronicle} {m : Memory} {a : Reply}
      (landed : s.medium.commit appends = .ok m) (failed : a ≠ .applied) :
      Unsure p (.commit n appends) s a (s.after p (s.landed m))
  | failed {n : Nat} {appends : List Append} {s : Chronicle} {a : Reply} (failed : a ≠ .applied) :
      Unsure p (.commit n appends) s a s

def Request.stores : Request → Bool
  | .commit .. => true
  | _ => false

theorem Request.stores_of_looks {q : Request} (hq : q.looks = true) : q.stores = false := by
  cases q with
  | commit => simp [looks] at hq
  | _ => rfl

theorem Request.spares_medium {q : Request} (hq : q.stores = false) :
    q.Spares InMemory.medium := by
  intro w w' a ha
  cases q with
  | commit => simp [stores] at hq
  | perform h o =>
    rcases ha.of_perform with rfl | ⟨c, c', -, -, rfl⟩ <;> rfl
  | _ => cases ha; rfl

section rules

variable {L : Law} {p p' : Party} {s s' : Chronicle}

namespace Chronicle.Unsure

theorem kept {q : Request} {a : q.Answer} (h : Unsure p q s a s') (hs : Holds L s)
    (hp : Proper L p s q) : Kept L p s s' := by
  cases h with
  | served h => exact h.kept hs hp
  | unheard landed _ => exact .landed hs hp landed
  | failed _ => exact ⟨hs, fun p' _ => .refl p' s⟩

theorem onward {q : Request} {a : q.Answer} (h : Unsure p q s a s') : s.scene.Onward s'.scene := by
  cases h with
  | served h =>
    obtain ⟨answered⟩ := h
    exact answered.onward
  | unheard _ _ => exact ⟨fun _ => Nat.le_refl _, id, fun _ y hy => ⟨y, hy, .refl y⟩⟩
  | failed _ => exact .refl _

/-- Only a reply to a batch may be missed. -/
theorem answers {q : Request} (hq : q.stores = false) {a : q.Answer} (h : Unsure p q s a s') :
    Answers p q s a s' := by
  cases h with
  | served h => exact h
  | unheard _ _ => simp [Request.stores] at hq
  | failed _ => simp [Request.stores] at hq

/-- If the reply is that a batch has been applied it has. -/
theorem of_applied {n : Nat} {appends : List Append}
    (h : Unsure p (.commit n appends) s Reply.applied s') :
    ∃ m, s.medium.commit appends = .ok m ∧ s' = s.after p (s.landed m) := by
  cases h with
  | served h =>
    rcases h.of_commit with ⟨-, hm⟩ | ⟨hne, -⟩
    · exact hm
    · exact absurd rfl hne
  | unheard _ failed => exact absurd rfl failed
  | failed failed => exact absurd rfl failed

/-- Whatever the reply is, the batch has landed or nothing has changed. -/
theorem of_commit {n : Nat} {appends : List Append} {a : Reply}
    (h : Unsure p (.commit n appends) s a s') :
    (∃ m, s.medium.commit appends = .ok m ∧ s' = s.after p (s.landed m)) ∨ s' = s := by
  cases h with
  | served h =>
    rcases h.of_commit with ⟨-, hm⟩ | ⟨-, he⟩
    · exact .inl hm
    · exact .inr he
  | unheard landed _ => exact .inl ⟨_, landed, rfl⟩
  | failed _ => exact .inr rfl

end Chronicle.Unsure

/-- The rules of the office for a party that may not hear what has become of its batches. -/
def unsureRules (L : Law) (p : Party) : Rules Chronicle where
  holds := Holds L
  rely := fun s s' => Rely p s s' ∧ s.scene.Onward s'.scene
  proper := fun q s => Proper L p s q
  answers := Unsure p
  rely_refl := fun s => ⟨.refl p s, .refl _⟩
  rely_trans := fun h h' => ⟨h.1.trans h'.1, h.2.trans h'.2⟩
  holds_answered := fun hs hp ha => (ha.kept hs hp).1

theorem unsureRules_within (L : Law) (p : Party) :
    (unsureRules L p).Within (fun q => q.stores = false) (officeRules L p) where
  holds := id
  rely := And.left
  proper := fun _ h => h
  answers := fun hq h => h.answers hq

theorem unsureRules_shows (L : Law) (p : Party) :
    (unsureRules L p).Shows fun s => s.scene.world where
  proper := (officeRules_shows L p).proper
  answered := fun hq ha =>
    (officeRules_shows L p).answered hq (ha.answers (Request.stores_of_looks hq))

theorem unsureRules_stable {P : Chronicle → Prop} (h : (officeRules L p).Stable P) :
    (unsureRules L p).Stable P :=
  fun _ _ hp hr hs => h hp hr.1 hs

end rules

/-! ## Attribution -/

/-- The record at a position of a stream is this fact of this copy, in its place: the position is
the version at which the copy was put down, and the number of facts emitted before. -/
def Scene.Attributes (s : Scene) (stream : String) (i : Nat) (x : HandleId × Nat) : Prop :=
  ∃ y e r, s.stories[x.1]? = some y ∧ y.start.stream = stream ∧ y.start.durable + x.2 = i ∧
    y.emitted[x.2]? = some e ∧ (s.records stream)[i]? = some r ∧ r.Carries e

/-- A fact has one place. -/
theorem Scene.Attributes.unique {s : Scene} {stream stream' : String} {i i' : Nat}
    {x : HandleId × Nat} (h : s.Attributes stream i x) (h' : s.Attributes stream' i' x) :
    stream = stream' ∧ i = i' := by
  obtain ⟨y, -, -, hy, hs, hi, -⟩ := h
  obtain ⟨y', -, -, hy', hs', hi', -⟩ := h'
  obtain rfl : y = y' := Option.some.inj (hy.symm.trans hy')
  exact ⟨hs.symm.trans hs', hi.symm.trans hi'⟩

theorem Scene.Attributes.later {s s' : Scene} {stream : String} {i : Nat} {x : HandleId × Nat}
    (h : s.Attributes stream i x) (onward : s.Onward s')
    (within : s.world.medium.Within s'.world.medium) : s'.Attributes stream i x := by
  obtain ⟨y, e, r, hy, hs, hi, he, hr, hc⟩ := h
  obtain ⟨y', hy', hg⟩ := onward.stories _ y hy
  refine ⟨y', e, r, hy', by rw [hg.start_eq, hs], by rw [hg.start_eq, hi], ?_,
    within.getElem? hr, hc⟩
  obtain ⟨more, hmore⟩ := hg.emitted
  rw [← hmore, List.getElem?_append_left (List.getElem?_eq_some_iff.1 he).1]
  exact he

namespace Chronicle

/-- A record comes from a copy, and as long as the copy has not been told of it, all that stands
from where the copy is up to this record is of the party. -/
structure ComesFrom (p : Party) (s : Chronicle) (stream : String) (i : Nat)
    (x : HandleId × Nat) : Prop where
  attributes : s.scene.Attributes stream i x
  unbroken : ∃ c, s.copies[x.1]? = some c ∧ c.stream = stream ∧
    ∀ j, c.durable ≤ j → j ≤ i → (s.authors stream)[j]? = some p

/-- Every record that a party has stored comes from some copy. -/
def Attributed (p : Party) (s : Chronicle) : Prop :=
  ∀ stream i, (s.authors stream)[i]? = some p → ∃ x, ComesFrom p s stream i x

variable {L : Law} {p p' : Party} {s s' : Chronicle}

/-- Neither the others nor the party itself can undo it. -/
theorem ComesFrom.later {stream : String} {i : Nat} {x : HandleId × Nat}
    (h : ComesFrom p s stream i x) (hr : Rely p' s s') (onward : s.scene.Onward s'.scene) :
    ComesFrom p s' stream i x where
  attributes := h.attributes.later onward hr.within
  unbroken := by
    obtain ⟨c, hc, hs, hown⟩ := h.unbroken
    obtain ⟨c', hc', he⟩ := hr.copies _ _ hc
    exact ⟨c', hc', he.stream_eq.trans hs, fun j hj hji =>
      hr.author (hown j (Nat.le_trans he.durable_le hj) hji)⟩

theorem Attributed.stable (L : Law) (p : Party) : (unsureRules L p).Stable (Attributed p) := by
  intro s s' h hr _ stream i hi
  have hold : (s.authors stream)[i]? = some p :=
    Decidable.byContradiction fun hne => hr.1.other_author hne hi
  obtain ⟨x, hx⟩ := h stream i hold
  exact ⟨x, hx.later hr.1 hr.2⟩

/-- A request that stores nothing leaves the notes alone. -/
theorem Attributed.answered {q : Request} (hq : q.stores = false) {a : q.Answer}
    (h : Attributed p s) (hi : Holds L s) (hp : Proper L p s q) (ha : Unsure p q s a s') :
    Attributed p s' := by
  obtain ⟨p', hne⟩ := Party.exists_other p
  have hr := (ha.kept hi hp).2 p' hne
  have same : s'.authors = s.authors := by
    obtain ⟨⟨answered⟩⟩ := ha.answers hq
    have hm := Request.spares_medium hq answered
    rw [after_of_records fun stream => congrArg (Memory.records · stream) hm]
  intro stream i hown
  rw [same] at hown
  obtain ⟨x, hx⟩ := h stream i hown
  exact ⟨x, hx.later hr ha.onward⟩

/-- A batch that lands puts on each stream facts that its copies had in their buffers, and puts them
where they belong. -/
theorem exists_comesFrom_of_landed {b : OpenBatch} {m : Memory} (hs : Holds L s)
    (hb : Follows L b s) (hm : s.medium.commit b.batch.staged = .ok m) {stream : String} {i : Nat}
    (old : (s.authors stream).length ≤ i) (new : i < (m.records stream).length) :
    ∃ x, ComesFrom p (s.after p (s.landed m)) stream i x := by
  have noted := hs.noted stream
  rw [noted] at old
  obtain ⟨mv, -, c, hdue, hc, rfl, behind, hle, hlt⟩ := hb.due_of_new (p := p) hs hm old new
  obtain ⟨y, hy⟩ := hs.exists_story hc
  obtain ⟨-, -, n, ht⟩ := hs.told _ c y hc hy
  -- The copy has not been told of its first fact, which is no later than this one.
  obtain ⟨k, rfl⟩ := Nat.exists_eq_add_of_le hle
  have hlp := hdue.stores.le_pending
  obtain ⟨e, he⟩ : ∃ e, c.pending[k]? = some e :=
    ⟨_, List.getElem?_eq_getElem (show k < c.pending.length by omega)⟩
  obtain ⟨r, hr, carries⟩ := hdue.stores.carried k e (by omega) he
  have hstart : y.start.durable + (n + k) = c.durable + k := by
    rw [ht.durable_eq, Nat.add_assoc]
  rw [ht.pending_eq, List.getElem?_drop] at he
  refine ⟨(mv.handle, n + k), ⟨y, e, r, hy, ht.stream_eq.symm, hstart, he, hr, carries⟩,
    c, hc, rfl, fun j hj hji => ?_⟩
  rw [Memory.records_commit hm, List.length_append] at new
  rw [authors_after_landed hm, List.getElem?_append_right (by omega), List.getElem?_replicate,
    if_pos (by omega)]

/-- The records that have been there before come from where they came from. -/
theorem Attributed.landed {b : OpenBatch} {m : Memory} (hs : Holds L s) (hb : Follows L b s)
    (hm : s.medium.commit b.batch.staged = .ok m) (h : Attributed p s) :
    Attributed p (s.after p (s.landed m)) := by
  obtain ⟨p', hne⟩ := Party.exists_other p
  intro stream i hown
  by_cases hi : i < (s.authors stream).length
  · rw [authors_after_landed hm, List.getElem?_append_left hi] at hown
    obtain ⟨x, hx⟩ := h stream i hown
    exact ⟨x, hx.later (.landed hm hne)
      ⟨fun _ => Nat.le_refl _, id, fun _ y hy => ⟨y, hy, .refl y⟩⟩⟩
  · have hlt := (List.getElem?_eq_some_iff.1 hown).1
    rw [authors_after_landed hm, List.length_append, List.length_replicate] at hlt
    refine exists_comesFrom_of_landed hs hb hm (Nat.le_of_not_lt hi) ?_
    rwa [Memory.records_commit hm, List.length_append, ← hs.noted]

end Chronicle

/-! ## What a coordinator keeps -/

section coordinator

variable {L : Law} {p : Party} {s : Chronicle} {c : Coordinator} {b : OpenBatch}

/-- What is done without storing anything is done as if every reply were heard. -/
theorem Dialogue.Keeps.attributed {α : Type} {Q : α → Chronicle → Prop} {t : Dialogue α}
    (h : t.Keeps (officeRules L p) Q s) (asks : t.Asks fun q => q.stores = false)
    (ha : Attributed p s) :
    t.Keeps (unsureRules L p) (fun a s' => Q a s' ∧ Attributed p s') s :=
  (h.within asks (unsureRules_within L p)).carry asks (Attributed.stable L p)
    (fun hq hi h hp ha => h.answered hq hi hp ha) ha

theorem Coordinator.keeps_finish_attributed (obeys : c.log.Obeys L)
    (hc : c.transaction = none) (hb : Follows L b s) (ha : Attributed p s) :
    (c.finish b).Keeps (unsureRules L p) (fun r s' => r.2.Fit L s' ∧ Attributed p s') s := by
  have stable := Attributed.stable L p
  have follows : (unsureRules L p).Stable fun s => Follows L b s ∧ Attributed p s :=
    .and (unsureRules_stable (Follows.stable b)) stable
  have due : (unsureRules L p).Stable fun s => AllDue p b.moved s ∧ Attributed p s :=
    .and (unsureRules_stable (AllDue.stable b.moved)) stable
  refine .bind ((c.log.keeps_storing b.batch follows due stable ⟨hb, ha⟩
    (fun s₁ hi₁ h₁ => ⟨?_, fun m hm => h₁.1.whole hi₁ hm⟩) ?_ ?_).mono fun r s₁ _ hr => ?_)
  · exact fun x hx r hr => h₁.1.lawful r (Batch.mem_records.2 ⟨x, hx, hr⟩)
  · intro s₁ s₂ hi₁ h₁ answered
    obtain ⟨m, hm, rfl⟩ := answered.of_applied
    exact ⟨.of_landed hi₁ h₁.1 hm, h₁.2.landed hi₁ h₁.1 hm⟩
  · intro s₁ s₂ a hi₁ h₁ _ answered
    rcases answered.of_commit with ⟨m, hm, rfl⟩ | rfl
    · exact h₁.2.landed hi₁ h₁.1 hm
    · exact h₁.2
  · cases r with
    | error e => exact .pure stable hr fun _ _ h => ⟨.closed obeys hc, h⟩
    | ok n =>
      obtain ⟨-, ⟨hz, hb₁, ha₁⟩ | ⟨hdue, ha₁⟩⟩ := hr
      · -- Nothing was staged, so there is nothing to confirm.
        show (c.confirmAll b.moved >>= _).Keeps _ _ _
        rw [hb₁.moved_of_size hz]
        exact .pure stable ha₁ fun _ _ h => ⟨.closed obeys hc, h⟩
      · have asks : (c.confirmAll b.moved).Asks fun q => q.stores = false :=
          c.asks_confirmAll (by rfl) (fun _ => by rfl) fun _ _ _ => by rfl
        have confirming := (c.keeps_confirmAll (.nothing L p) ⟨hdue, trivial⟩).attributed asks ha₁
        exact .bind (confirming.mono fun _ _ _ h₂ =>
          .pure stable h₂.2 fun _ _ h => ⟨.closed obeys hc, h⟩)

theorem Coordinator.keeps_settle_attributed (obeys : c.log.Obeys L)
    (hc : c.transaction = none) (hb : Follows L b s) (ha : Attributed p s) :
    (c.settle b).Keeps (unsureRules L p) (fun r s' => r.2.Fit L s' ∧ Attributed p s') s := by
  have staging := (Log.keeps_stageAll obeys c.tracked hb).attributed
    ((c.log.onlyLooks_stageAll c.tracked b).mono fun _ => Request.stores_of_looks) ha
  refine .bind (staging.mono fun r s₁ _ hr => ?_)
  cases r with
  | error e => exact .pure (Attributed.stable L p) hr.2 fun _ _ h => ⟨.closed obeys hc, h⟩
  | ok r => exact keeps_finish_attributed obeys hc (hr.1 r.1 r.2 rfl) hr.2

theorem Coordinator.keeps_push_attributed (hf : c.Fit L s) (ha : Attributed p s) :
    c.push.Keeps (unsureRules L p) (fun r s' => r.2.Fit L s' ∧ Attributed p s') s := by
  cases hc : c.transaction with
  | none =>
    unfold push
    rw [hc]
    exact keeps_settle_attributed hf.obeys hc (.empty L s) ha
  | some b =>
    exact (keeps_push hf).attributed
      ((onlyLooks_push hc).mono fun _ => Request.stores_of_looks) ha

theorem Coordinator.keeps_commit_attributed (hf : c.Fit L s) (ha : Attributed p s) :
    c.commit.Keeps (unsureRules L p) (fun r s' => r.2.Fit L s' ∧ Attributed p s') s := by
  unfold commit
  cases hc : c.transaction with
  | none =>
    exact .pure ((unsureRules_stable (Coordinator.Fit.stable c)).and (Attributed.stable L p))
      ⟨hf, ha⟩ fun _ _ h => h
  | some b =>
    exact keeps_settle_attributed (c := { c with transaction := none }) hf.obeys rfl
      (hf.follows b hc) ha

end coordinator

end TransferLedger

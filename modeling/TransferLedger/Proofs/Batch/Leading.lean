import TransferLedger.Proofs.Batch.Matching

/-!
# Movements that lead on

Several working copies may stand for one stream, and a batch can move more than one of them: then
each begins where the one before has ended.  So the movements of one stream lead from where the
stream is to where the batch takes it (`Movement.Leads`), and which movements there are says in
which order they have come (`Movement.Leads.unique`).
-/

set_option autoImplicit false

namespace TransferLedger

/-! ## The movements of a stream -/

namespace InMemory

variable {w w' : InMemory} {stream : String} {h : HandleId} {m : Movement} {ms : List Movement}

def stream? (w : InMemory) (h : HandleId) : Option String :=
  w.copies[h]?.map WorkingCopy.stream

theorem stream?_of_copy {x : WorkingCopy} (hx : w.copies[h]? = some x) :
    w.stream? h = some x.stream := by
  rw [stream?, hx, Option.map_some]

/-- The movements of copies that have a stream, in order. -/
def onStream (w : InMemory) (stream : String) (ms : List Movement) : List Movement :=
  ms.filter fun m => w.stream? m.handle = some stream

theorem mem_onStream : m ∈ w.onStream stream ms ↔ m ∈ ms ∧ w.stream? m.handle = some stream := by
  simp [onStream]

theorem onStream_append (w : InMemory) (stream : String) (ms ns : List Movement) :
    w.onStream stream (ms ++ ns) = w.onStream stream ms ++ w.onStream stream ns :=
  List.filter_append ..

theorem onStream_cons_of_eq (hm : w.stream? m.handle = some stream) (ms : List Movement) :
    w.onStream stream (m :: ms) = m :: w.onStream stream ms :=
  List.filter_cons_of_pos (by simpa using hm)

theorem onStream_cons_of_ne (hm : w.stream? m.handle ≠ some stream) (ms : List Movement) :
    w.onStream stream (m :: ms) = w.onStream stream ms :=
  List.filter_cons_of_neg (by simpa using hm)

theorem onStream_congr (same : ∀ m ∈ ms, w'.stream? m.handle = w.stream? m.handle) :
    w'.onStream stream ms = w.onStream stream ms :=
  List.filter_congr fun m hm => by rw [same m hm]

/-- Where one copy alone is moved on a stream, there is one movement at most. -/
theorem onStream_of_alone (nodup : (ms.map Movement.handle).Nodup)
    (alone : ∀ m ∈ w.onStream stream ms, m.handle = h) :
    w.onStream stream ms = [] ∨ ∃ m ∈ ms, m.handle = h ∧ w.onStream stream ms = [m] := by
  have hsub : (w.onStream stream ms).Sublist ms := List.filter_sublist
  have hn := nodup.sublist (hsub.map Movement.handle)
  match hlist : w.onStream stream ms with
  | [] => exact .inl rfl
  | [m] => exact .inr ⟨m, hsub.subset (by simp [hlist]), alone m (by simp [hlist]), rfl⟩
  | m :: m' :: rest =>
    rw [hlist] at hn alone
    have he : m.handle = m'.handle :=
      (alone m (by simp)).trans (alone m' (by simp)).symm
    exact absurd (he ▸ List.mem_cons_self) (List.nodup_cons.1 hn).1

end InMemory

/-! ## From one version to another -/

namespace Movement

variable {v t u : Nat} {m m' : Movement} {ms ns : List Movement}

/-- Each movement begins where the one before has ended. -/
def Leads : Nat → List Movement → Nat → Prop
  | v, [], u => v = u
  | v, m :: rest, u => m.durable = v ∧ m.durable < m.staged ∧ Leads m.staged rest u

theorem leads_append : Leads v (ms ++ ns) u ↔ ∃ t, Leads v ms t ∧ Leads t ns u := by
  induction ms generalizing v with
  | nil => exact ⟨fun h => ⟨v, rfl, h⟩, fun ⟨_, ht, h⟩ => ht ▸ h⟩
  | cons m rest ih =>
    simp only [List.cons_append, Leads, ih]
    exact ⟨fun ⟨hv, hlt, t, h, h'⟩ => ⟨t, ⟨hv, hlt, h⟩, h'⟩,
      fun ⟨t, ⟨hv, hlt, h⟩, h'⟩ => ⟨hv, hlt, t, h, h'⟩⟩

theorem leads_singleton : Leads v [m] u ↔ m.durable = v ∧ m.durable < m.staged ∧ m.staged = u :=
  Iff.rfl

namespace Leads

theorem le (h : Leads v ms u) : v ≤ u := by
  induction ms generalizing v with
  | nil => exact Nat.le_of_eq h
  | cons m rest ih =>
    obtain ⟨rfl, hlt, h⟩ := h
    exact Nat.le_of_lt (Nat.lt_of_lt_of_le hlt (ih h))

theorem le_durable (h : Leads v ms u) (hm : m ∈ ms) : v ≤ m.durable := by
  induction ms generalizing v with
  | nil => exact absurd hm (by simp)
  | cons m' rest ih =>
    obtain ⟨rfl, hlt, h⟩ := h
    rcases List.mem_cons.1 hm with rfl | hm
    · exact Nat.le_refl _
    · exact Nat.le_of_lt (Nat.lt_of_lt_of_le hlt (ih h hm))

/-- Movements that lead nowhere are none. -/
theorem eq_nil (h : Leads v ms v) : ms = [] := by
  cases ms with
  | nil => rfl
  | cons m rest =>
    obtain ⟨rfl, hlt, h⟩ := h
    exact absurd h.le (Nat.not_le.2 hlt)

/-- The first movement is the one that begins at the beginning. -/
theorem eq_first (h : Leads v (m :: ms) u) (hm' : m' ∈ m :: ms) (hd : m'.durable ≤ v) : m' = m := by
  obtain ⟨rfl, hlt, h⟩ := h
  rcases List.mem_cons.1 hm' with he | hr
  · exact he
  · have := h.le_durable hr
    omega

theorem not_mem_rest (h : Leads v (m :: ms) u) : m ∉ ms := fun hr => by
  obtain ⟨rfl, hlt, h⟩ := h
  exact absurd (h.le_durable hr) (Nat.not_le.2 hlt)

/-- The same movements lead on in one order only. -/
theorem unique (h : Leads v ms u) (h' : Leads v ns t) (same : ∀ m, m ∈ ms ↔ m ∈ ns) : ms = ns := by
  induction ms generalizing v ns with
  | nil =>
    have hnil : ns = [] :=
      List.eq_nil_iff_forall_not_mem.2 fun m hm => absurd ((same m).2 hm) (by simp)
    exact hnil.symm
  | cons m rest ih =>
    cases ns with
    | nil => exact absurd ((same m).1 List.mem_cons_self) (by simp)
    | cons n rest' =>
      obtain rfl : m = n := h'.eq_first ((same m).1 List.mem_cons_self) (Nat.le_of_eq h.1)
      refine congrArg (m :: ·) (ih h.2.2 h'.2.2 fun x => ?_)
      have hx := same x
      simp only [List.mem_cons] at hx
      exact ⟨fun hr => (hx.1 (.inr hr)).resolve_left fun he => h.not_mem_rest (he ▸ hr),
        fun hr => (hx.2 (.inr hr)).resolve_left fun he => h'.not_mem_rest (he ▸ hr)⟩

end Leads

end Movement

/-! ## Notes -/

namespace OpenBatch

variable {w : InMemory} {stream : String} {h : HandleId} {d v : Nat} {m : Movement}
  {ms ns : List Movement}

theorem note_of_not_mem (hh : h ∉ ms.map Movement.handle) : note h d v ms = ms ++ [⟨h, d, v⟩] := by
  induction ms with
  | nil => rfl
  | cons m rest ih =>
    obtain ⟨hne, hr⟩ := not_or.1 (mt List.mem_cons.2 hh)
    rw [note, if_neg (Ne.symm hne), ih hr, List.cons_append]

theorem note_middle (hh : m.handle ∉ ms.map Movement.handle) :
    note m.handle d v (ms ++ m :: ns) = ms ++ { m with staged := v } :: ns := by
  induction ms with
  | nil => rw [List.nil_append, note, if_pos rfl, List.nil_append]
  | cons x rest ih =>
    obtain ⟨hne, hr⟩ := not_or.1 (mt List.mem_cons.2 hh)
    rw [List.cons_append, note, if_neg (Ne.symm hne), ih hr, List.cons_append]

/-- Notes of a copy make no difference to streams that it does not have. -/
theorem onStream_note_other (hh : w.stream? h ≠ some stream) :
    w.onStream stream (note h d v ms) = w.onStream stream ms := by
  induction ms with
  | nil => exact InMemory.onStream_cons_of_ne hh []
  | cons m rest ih =>
    unfold note
    by_cases he : m.handle = h
    · have hm : w.stream? m.handle ≠ some stream := he ▸ hh
      rw [if_pos he, InMemory.onStream_cons_of_ne hm, InMemory.onStream_cons_of_ne]
      exact hm
    · rw [if_neg he]
      by_cases hm : w.stream? m.handle = some stream
      · rw [InMemory.onStream_cons_of_eq hm, InMemory.onStream_cons_of_eq hm, ih]
      · rw [InMemory.onStream_cons_of_ne hm, InMemory.onStream_cons_of_ne hm, ih]

end OpenBatch

end TransferLedger

import TransferLedger.Dialogue.InMemory
import TransferLedger.Proofs.Chain.Continues

/-!
# What a medium holds after appends

Appends that land put their records behind what was there, stream by stream, and nothing else
changes: `Memory.records_commit`.  They land only if on every stream the records continue it
(`Memory.continues_of_commit`), so a medium whose streams are in order stays so
(`Memory.Orderly.commit`).  Nothing here looks at how the records were sealed.
-/

set_option autoImplicit false

namespace TransferLedger

/-- The records that appends bring to a stream. -/
def Append.onto (stream : String) (appends : List Append) : List Record :=
  (appends.filter fun a => a.stream == stream).flatMap Append.records

namespace Append

@[simp] theorem onto_nil (stream : String) : onto stream [] = [] := rfl

theorem onto_cons (stream : String) (a : Append) (rest : List Append) :
    onto stream (a :: rest) =
      (if a.stream = stream then a.records else []) ++ onto stream rest := by
  by_cases h : a.stream = stream <;> simp [onto, h]

theorem onto_append (stream : String) (as bs : List Append) :
    onto stream (as ++ bs) = onto stream as ++ onto stream bs := by
  simp [onto]

theorem mem_of_mem_onto {stream : String} {appends : List Append} {r : Record}
    (h : r ∈ onto stream appends) : ∃ a ∈ appends, r ∈ a.records := by
  obtain ⟨a, ha, hr⟩ := List.mem_flatMap.1 h
  exact ⟨a, (List.mem_filter.1 ha).1, hr⟩

theorem fit_eq_ok_iff {a : Append} {h h' : Head} :
    a.fit h = .ok h' ↔
      h.version = a.expected ∧ Continues a.stream h a.records ∧ h' = h.after a.records := by
  unfold fit
  by_cases hv : h.version = a.expected
  · rw [if_neg (by simpa using hv)]
    cases hl : link a.stream h a.records with
    | ok g =>
      obtain ⟨hc, rfl⟩ := link_eq_ok_iff.1 hl
      simp [hv, hc, eq_comm]
    | error e =>
      have hn : ¬ Continues a.stream h a.records := by
        intro hc
        rw [link_eq_ok_iff.2 ⟨hc, rfl⟩] at hl
        simp at hl
      simp [hn]
  · rw [if_pos hv]
    simp [hv]

/-- Appends that pass the check continue every stream. -/
theorem continues_of_check {heads : String → Head} {appends : List Append}
    (h : check heads appends = .ok ()) (stream : String) :
    Continues stream (heads stream) (onto stream appends) := by
  induction appends generalizing heads with
  | nil => trivial
  | cons a rest ih =>
    simp only [check] at h
    cases hf : a.fit (heads a.stream) with
    | error e => rw [hf] at h; simp at h
    | ok g =>
      rw [hf] at h
      obtain ⟨-, hc, rfl⟩ := fit_eq_ok_iff.1 hf
      have hr := ih h
      rw [onto_cons]
      -- What follows is checked behind this append on its own stream alone.
      by_cases hs : a.stream = stream
      · subst hs
        rw [if_pos rfl, Continues.append_iff]
        exact ⟨hc, by simpa using hr⟩
      · rw [if_neg hs, List.nil_append]
        rwa [Keyed.set_other _ _ (Ne.symm hs)] at hr

end Append

namespace Memory

/-- What one medium holds is the beginning of what the other holds, on every stream. -/
def Within (m m' : Memory) : Prop :=
  ∀ stream, m.records stream <+: m'.records stream

theorem Within.refl (m : Memory) : m.Within m :=
  fun _ => List.prefix_rfl

theorem Within.trans {m m' m'' : Memory} (h : m.Within m') (h' : m'.Within m'') : m.Within m'' :=
  fun stream => (h stream).trans (h' stream)

theorem Within.getElem? {m m' : Memory} (h : m.Within m') {stream : String} {i : Nat} {r : Record}
    (hi : (m.records stream)[i]? = some r) : (m'.records stream)[i]? = some r := by
  obtain ⟨more, hm⟩ := h stream
  rw [← hm, List.getElem?_append_left (List.getElem?_eq_some_iff.1 hi).1]
  exact hi

theorem Within.length_le {m m' : Memory} (h : m.Within m') (stream : String) :
    (m.records stream).length ≤ (m'.records stream).length :=
  (h stream).length_le

theorem Within.drop {m m' : Memory} (h : m.Within m') (stream : String) (n : Nat) :
    (m.records stream).drop n <+: (m'.records stream).drop n := by
  obtain ⟨more, hm⟩ := h stream
  rw [← hm, List.drop_append]
  exact List.prefix_append ..

theorem Within.take {m m' : Memory} (h : m.Within m') {stream : String} {n : Nat}
    (hn : n ≤ (m.records stream).length) :
    (m'.records stream).take n = (m.records stream).take n := by
  obtain ⟨more, hm⟩ := h stream
  rw [← hm, List.take_append_of_le_length hn]

/-! ## Appends that land -/

theorem head_congr {m m' : Memory} {stream : String} (h : m'.records stream = m.records stream) :
    m'.head stream = m.head stream :=
  congrArg Head.empty.after h

theorem records_foldl_store (m : Memory) (appends : List Append) (stream : String) :
    (appends.foldl store m).records stream = m.records stream ++ Append.onto stream appends := by
  induction appends generalizing m with
  | nil => simp
  | cons a rest ih =>
    rw [List.foldl_cons, ih, Append.onto_cons]
    by_cases h : a.stream = stream
    · subst h
      rw [records_store_same, if_pos rfl, List.append_assoc]
    · rw [records_store_other m a (Ne.symm h), if_neg h, List.nil_append]

theorem available_foldl_store (m : Memory) (appends : List Append) :
    (appends.foldl store m).available = m.available := by
  induction appends generalizing m with
  | nil => rfl
  | cons a rest ih => exact ih (m.store a)

theorem head_store (m : Memory) (a : Append) :
    (m.store a).head = Keyed.set m.head a.stream ((m.head a.stream).after a.records) := by
  funext stream
  by_cases h : stream = a.stream
  · subst h
    rw [Keyed.set_same, head, records_store_same, Head.after_append]
    rfl
  · rw [Keyed.set_other _ _ h, head, records_store_other m a h]
    rfl

section commit

variable {m m' : Memory} {appends : List Append}

theorem commit_eq_ok (h : m.commit appends = .ok m') :
    m.available = true ∧ Append.check m.head appends = .ok () ∧ m' = appends.foldl store m := by
  unfold commit at h
  by_cases ha : m.available = false
  · rw [if_pos ha] at h; simp at h
  · rw [if_neg ha] at h
    cases hc : Append.check m.head appends with
    | error e => rw [hc] at h; simp at h
    | ok u =>
      rw [hc] at h
      exact ⟨by simpa using ha, rfl, (Except.ok.inj h).symm⟩

theorem available_of_commit (h : m.commit appends = .ok m') : m'.available = m.available := by
  obtain ⟨-, -, rfl⟩ := commit_eq_ok h
  exact available_foldl_store m appends

theorem records_commit (h : m.commit appends = .ok m') (stream : String) :
    m'.records stream = m.records stream ++ Append.onto stream appends := by
  obtain ⟨-, -, rfl⟩ := commit_eq_ok h
  exact records_foldl_store m appends stream

theorem continues_of_commit (h : m.commit appends = .ok m') (stream : String) :
    Continues stream (m.head stream) (Append.onto stream appends) :=
  Append.continues_of_check (commit_eq_ok h).2.1 stream

theorem within_commit (h : m.commit appends = .ok m') : m.Within m' := by
  intro stream
  rw [records_commit h stream]
  exact List.prefix_append ..

/-- An append by itself meets a conflict only with a stream that has another version. -/
theorem version_ne_of_conflict {a : Append} {e : StoreError} (h : m.commit [a] = .error e)
    (conflict : e.isConflict = true) : (m.head a.stream).version ≠ a.expected := by
  intro hv
  unfold commit at h
  by_cases ha : m.available = false
  · rw [if_pos ha] at h
    obtain rfl := Except.error.inj h
    simp [outage, StoreError.isConflict] at conflict
  · rw [if_neg ha, Append.check, Append.fit, if_neg (not_not.2 hv)] at h
    cases hl : Append.link a.stream (m.head a.stream) a.records with
    | ok g => simp [hl, Append.check] at h
    | error x =>
      obtain rfl : StoreError.integrity x = e := by simpa [hl] using h
      simp [StoreError.isConflict] at conflict

end commit

/-! ## Streams in order -/

/-- Every stream stands in order. -/
def Orderly (m : Memory) : Prop :=
  ∀ stream, Continues stream .empty (m.records stream)

theorem orderly_empty : empty.Orderly :=
  fun _ => trivial

namespace Orderly

variable {m m' : Memory} {appends : List Append} {stream : String}

theorem commit (ho : m.Orderly) (h : m.commit appends = .ok m') : m'.Orderly := by
  intro stream
  rw [records_commit h stream, Continues.append_iff]
  exact ⟨ho stream, continues_of_commit h stream⟩

theorem version_head (ho : m.Orderly) (stream : String) :
    (m.head stream).version = (m.records stream).length := by
  show (Head.empty.after (m.records stream)).version = _
  rw [(ho stream).version_after]
  exact Nat.zero_add _

theorem sequence (ho : m.Orderly) {i : Nat} {r : Record}
    (hi : (m.records stream)[i]? = some r) : r.stream = stream ∧ r.sequence = i + 1 := by
  obtain ⟨hs, -⟩ := (ho stream).getElem? hi
  exact ⟨hs, (ho stream).sequence_eq hi⟩

/-- A record that has landed stands where its position says, and not among what was there. -/
theorem landed (ho : m.Orderly) (h : m.commit appends = .ok m') {r : Record}
    (hr : r ∈ Append.onto stream appends) :
    r.stream = stream ∧ (m.records stream).length < r.sequence ∧
      (m'.records stream)[r.sequence - 1]? = some r := by
  obtain ⟨h1, h2, -, h4⟩ := (continues_of_commit h stream).of_mem hr
  rw [ho.version_head] at h2 h4
  refine ⟨h1, h2, ?_⟩
  rw [records_commit h stream, List.getElem?_append_right (by omega),
    show r.sequence - 1 - (m.records stream).length = r.sequence - (m.records stream).length - 1 by
      omega]
  exact h4

end Orderly

end Memory

end TransferLedger

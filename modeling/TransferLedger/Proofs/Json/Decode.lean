import TransferLedger.Json.Decode

/-!
# Fields in any order

What an object says about a field does not depend on the order of its fields
(`Json.fieldSlot?_perm`).  So a value in canonical form, whose fields have been sorted, says the
same as the value (`Json.slots?_canonical`), if no two of its fields have the same key.
-/

set_option autoImplicit false

namespace TransferLedger.Json

theorem fieldSlot?_perm {fs gs : List (String × Node)} (h : fs.Perm gs) (name : String) :
    fieldSlot? fs name = fieldSlot? gs name := by
  have hp : (fs.filter fun f => f.1 == name).Perm (gs.filter fun f => f.1 == name) := h.filter _
  unfold fieldSlot?
  generalize (fs.filter fun f => f.1 == name) = found at hp ⊢
  generalize (gs.filter fun f => f.1 == name) = found' at hp ⊢
  match found, found', hp with
  | [], [], _ => rfl
  | [], _ :: _, hp => exact absurd hp.length_eq (by simp)
  | _ :: _, [], hp => exact absurd hp.length_eq (by simp)
  | [f], [g], hp => rw [List.singleton_perm_singleton.1 hp]
  | [_], _ :: _ :: _, hp => exact absurd hp.length_eq (by simp)
  | _ :: _ :: _, [_], hp => exact absurd hp.length_eq (by simp)
  | _ :: _ :: _, _ :: _ :: _, _ => rfl

theorem fieldSlots?_perm {fs gs : List (String × Node)} (h : fs.Perm gs) (names : List String) :
    fieldSlots? fs names = fieldSlots? gs names := by
  induction names with
  | nil => rfl
  | cons name names ih => rw [fieldSlots?, fieldSlots?, fieldSlot?_perm h name, ih]

/-! ## Sorting -/

theorem insertField_perm {key : String} (v : Json) {fs : List (String × Json)}
    (hk : key ∉ fs.map Prod.fst) : (insertField key v fs).Perm ((key, v) :: fs) := by
  induction fs with
  | nil => exact .refl _
  | cons f rest ih =>
    obtain ⟨k, w⟩ := f
    have hne : key ≠ k := fun he => hk (he ▸ List.mem_cons_self)
    have hr : key ∉ rest.map Prod.fst := fun hm => hk (List.mem_cons_of_mem k hm)
    unfold insertField
    split
    · exact .refl _
    · exact ((ih hr).cons (k, w)).trans (.swap ..)

/-- Fields with different keys are all kept. -/
theorem sortFields_perm {fs : List (String × Json)} (h : (fs.map Prod.fst).Nodup) :
    (sortFields fs).Perm fs := by
  -- Fields go one by one among those that have been sorted already.
  have go : ∀ (fs done : List (String × Json)), ((fs ++ done).map Prod.fst).Nodup →
      (fs.foldl (fun done f => insertField f.1 f.2 done) done).Perm (fs ++ done) := by
    intro fs
    induction fs with
    | nil => exact fun done _ => .refl _
    | cons f rest ih =>
      intro done hn
      rw [List.cons_append, List.map_cons, List.nodup_cons] at hn
      have hf : f.1 ∉ done.map Prod.fst := fun hm => hn.1 (by
        rw [List.map_append]
        exact List.mem_append_right _ hm)
      have hins : (insertField f.1 f.2 done).Perm (f :: done) := insertField_perm f.2 hf
      have hmid : (rest ++ insertField f.1 f.2 done).Perm (f :: (rest ++ done)) :=
        (hins.append_left rest).trans List.perm_middle
      refine (ih (insertField f.1 f.2 done) ?_).trans hmid
      rw [(hmid.map Prod.fst).nodup_iff, List.map_cons, List.nodup_cons]
      exact hn
  have := go fs [] (by rwa [List.append_nil])
  rwa [List.append_nil] at this

theorem keys_canonicalFields (fs : List (String × Json)) :
    (canonicalFields fs).map Prod.fst = fs.map Prod.fst := by
  induction fs with
  | nil => rfl
  | cons f rest ih => exact congrArg (f.1 :: ·) ih

theorem toFields_eq_map (fs : List (String × Json)) :
    toFields fs = fs.map fun f => (f.1, toNode f.2) := by
  induction fs with
  | nil => rfl
  | cons f rest ih => exact congrArg ((f.1, toNode f.2) :: ·) ih

/-- The fields of an object in canonical form are found as they were given. -/
theorem slots?_canonical {fs : List (String × Json)} (h : (fs.map Prod.fst).Nodup)
    (names : List String) :
    (toNode (canonical (.object fs))).slots? names =
      fieldSlots? (toFields (canonicalFields fs)) names := by
  have hp := sortFields_perm (by rwa [keys_canonicalFields] : ((canonicalFields fs).map _).Nodup)
  show fieldSlots? (toFields (sortFields (canonicalFields fs))) names = _
  rw [toFields_eq_map, toFields_eq_map]
  exact fieldSlots?_perm (hp.map _) names

end TransferLedger.Json

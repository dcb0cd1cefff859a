import Mathlib.Data.List.Forall2
import Mathlib.Data.List.TakeWhile
import TransferLedger.Text.Blank

/-!
# What does not count in a text

Two things may be written one way or the other.  There may be blanks around a text: what is left
without them is the part of it that neither starts nor ends with one (`Text.trimmed_eq_iff`).  And
the letters of a word may be of either case, one by one (`Text.map_toLower_eq_iff`).  Only the
letters of ASCII have another case here.
-/

set_option autoImplicit false

namespace TransferLedger.Text

/-! ## Blanks -/

/-- There are only blanks around a part of the text, and none at the ends of that part. -/
structure Trims (cs part : List Char) : Prop where
  surrounded : ∃ before after, cs = before ++ part ++ after ∧
    (∀ c ∈ before, isBlank c = true) ∧ ∀ c ∈ after, isBlank c = true
  head : ∀ c ∈ part.head?, isBlank c = false
  last : ∀ c ∈ part.getLast?, isBlank c = false

variable {c : Char} {cs part : List Char}

theorem skipBlanks_append {before : List Char} (h : ∀ c ∈ before, isBlank c = true) :
    skipBlanks (before ++ cs) = skipBlanks cs :=
  List.dropWhile_append_of_pos h

theorem skipBlanks_of_head (h : ∀ c ∈ cs.head?, isBlank c = false) : skipBlanks cs = cs := by
  cases cs with
  | nil => rfl
  | cons c rest => simp [skipBlanks, h c rfl]

/-- What is skipped is blank. -/
theorem exists_skipped (cs : List Char) :
    ∃ before, cs = before ++ skipBlanks cs ∧ ∀ c ∈ before, isBlank c = true := by
  refine ⟨cs.takeWhile isBlank, List.takeWhile_append_dropWhile.symm, ?_⟩
  intro c hc
  exact List.mem_takeWhile_imp hc

theorem head_skipBlanks (cs : List Char) :
    ∀ c ∈ (skipBlanks cs).head?, isBlank c = false := by
  intro c hc
  cases h : skipBlanks cs with
  | nil => simp [h] at hc
  | cons d rest =>
    obtain rfl : d = c := by simpa [h] using hc
    exact skipBlanks_head h

theorem trims_trim (cs : List Char) : Trims cs (trim cs) := by
  obtain ⟨before, hbefore, hblank⟩ := exists_skipped cs
  obtain ⟨after, hafter, hblank'⟩ := exists_skipped (skipBlanks cs).reverse
  have hpart : skipBlanks cs = trim cs ++ after.reverse := by
    rw [trim, ← List.reverse_append, ← hafter, List.reverse_reverse]
  refine ⟨⟨before, after.reverse, ?_, hblank, ?_⟩, ?_, ?_⟩
  · rw [List.append_assoc, ← hpart]
    exact hbefore
  · intro c hc
    exact hblank' c (List.mem_reverse.1 hc)
  · -- What the text starts with once its front is trimmed is still there unless nothing is.
    intro c hc
    apply head_skipBlanks cs
    rw [hpart, List.head?_append, Option.mem_def.1 hc]
    rfl
  · intro c hc
    rw [trim, List.getLast?_reverse] at hc
    exact head_skipBlanks _ c hc

/-- There is one way to trim a text. -/
theorem trim_eq_iff : trim cs = part ↔ Trims cs part := by
  constructor
  · rintro rfl
    exact trims_trim cs
  · rintro ⟨⟨before, after, rfl, hbefore, hafter⟩, head, last⟩
    rw [trim, List.append_assoc, skipBlanks_append hbefore]
    by_cases hp : part = []
    · subst hp
      have hnone : skipBlanks after = [] := List.dropWhile_eq_nil_iff.2 hafter
      rw [List.nil_append, hnone]
      rfl
    · have hhead : ∀ c ∈ (part ++ after).head?, isBlank c = false := by
        rw [List.head?_append_of_ne_nil part hp]
        exact head
      have hlast : ∀ c ∈ part.reverse.head?, isBlank c = false := by
        rw [List.head?_reverse]
        exact last
      rw [skipBlanks_of_head hhead, List.reverse_append,
        skipBlanks_append fun c hc => hafter c (List.mem_reverse.1 hc), skipBlanks_of_head hlast,
        List.reverse_reverse]

theorem trimmed_eq_iff {s t : String} : trimmed s = t ↔ Trims s.toList t.toList := by
  rw [← trim_eq_iff, trimmed, ← String.toList_inj, String.toList_ofList]

/-- A text without blanks is left as it is. -/
theorem trims_self (h : ∀ c ∈ cs, isBlank c = false) : Trims cs cs where
  surrounded := ⟨[], [], by simp, by simp, by simp⟩
  head := fun c hc => h c (List.mem_of_head? hc)
  last := fun c hc => h c (List.mem_of_getLast? hc)

theorem isBlank_of_isDigit (h : c.isDigit = true) : isBlank c = false := by
  simp only [Char.isDigit, Bool.and_eq_true, decide_eq_true_eq, UInt32.le_iff_toNat_le] at h
  have hlow : 48 ≤ c.toNat := h.1
  have hhigh : c.toNat ≤ 57 := h.2
  simp only [isBlank, Bool.or_eq_false_iff, Bool.and_eq_false_iff, decide_eq_false_iff_not,
    beq_eq_false_iff_ne]
  omega

/-! ## Letters of either case -/

theorem toNat_toLower (c : Char) :
    c.toLower.toNat = if 65 ≤ c.toNat ∧ c.toNat ≤ 90 then c.toNat + 32 else c.toNat := by
  rw [← Char.toNat_val]
  unfold Char.toLower
  split <;> grind [UInt32.toNat_add, UInt32.le_iff_toNat_le, Char.toNat_val]

theorem toNat_toUpper (c : Char) :
    c.toUpper.toNat = if 97 ≤ c.toNat ∧ c.toNat ≤ 122 then c.toNat - 32 else c.toNat := by
  rw [← Char.toNat_val]
  unfold Char.toUpper
  split <;> grind [UInt32.toNat_add, UInt32.le_iff_toNat_le, Char.toNat_val]

theorem toLower_eq_iff {d : Char} (hd : d.toLower = d) :
    c.toLower = d ↔ c = d ∨ c = d.toUpper := by
  rw [← Char.toNat_inj] at hd
  simp only [← Char.toNat_inj, toNat_toLower, toNat_toUpper] at hd ⊢
  grind

/-- The text is the word, each letter in lower case or in upper case. -/
def Spells (text word : String) : Prop :=
  List.Forall₂ (fun c d => c = d ∨ c = d.toUpper) text.toList word.toList

theorem spells_self (word : String) : Spells word word :=
  List.forall₂_same.2 fun _ _ => .inl rfl

theorem forall₂_toLower_iff {ds : List Char} (hds : ∀ d ∈ ds, d.toLower = d) :
    List.Forall₂ (fun c d => c = d ∨ c = d.toUpper) cs ds ↔ cs.map Char.toLower = ds := by
  induction cs generalizing ds with
  | nil => cases ds <;> simp
  | cons c cs ih =>
    cases ds with
    | nil => simp
    | cons d ds =>
      rw [List.forall_mem_cons] at hds
      rw [List.forall₂_cons, ih hds.2, ← toLower_eq_iff hds.1, List.map_cons, List.cons.injEq]

theorem map_toLower_eq_iff {text word : String} (lower : ∀ d ∈ word.toList, d.toLower = d) :
    text.map Char.toLower = word ↔ Spells text word := by
  rw [← String.toList_inj, String.toList_map, Spells, forall₂_toLower_iff lower]

end TransferLedger.Text

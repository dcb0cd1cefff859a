import TransferLedger.Proofs.Batch.Matching
import TransferLedger.Proofs.Log.Asking

/-!
# Collecting what is buffered

Staging only looks: at the copies, the clock and the ends of streams (`Log.onlyLooks_stageAll`).
So while a batch is collected nothing changes but what others change, and that does no harm to the
batch (`Log.led_stageAll`).

Whoever has collected the work on some copies has for each of them all that was buffered at some
moment in between.  If the copies are left alone meanwhile it is all that is buffered.
-/

set_option autoImplicit false

namespace TransferLedger

namespace Log

/-! ## What has been collected -/

variable {others : InMemory → InMemory → Prop} {log : Log} {w w' : InMemory}
  {xs : List (Exchange InMemory)} {hs : List HandleId} {n : Nat}

/-- What is staged is staged behind some head. -/
theorem led_stage {b b' : Batch} {stream : String} {entries : List Entry} {expected v : Nat}
    (led : (log.stage b stream entries expected).Led others InMemory.Answers w xs
      (.ok (v, b')) w') :
    ∃ head, log.stageBehind b stream entries expected head = .ok (v, b') := by
  obtain ⟨_, r, _, _, -, hled, -⟩ := Dialogue.Led.of_bind led
  cases r with
  | error e => simpa using hled.of_pure.1
  | ok head => exact ⟨head, hled.of_pure.1.symm⟩

/-- The batch stays tidy, and for one copy it has all that was buffered when it was looked at. -/
theorem led_stageCopy (steps : ∀ {w w'}, others w w' → InMemory.Step w w') {h : HandleId}
    (hmem : h ∈ hs) {b b' : OpenBatch} (apart : InMemory.Apart hs w') (tidy : b.Tidy hs w)
    (led : (log.stageCopy h b).Led others InMemory.Answers w xs (.ok (n, b')) w') :
    b'.Tidy hs w' ∧ (∀ i, i ≠ h → b'.stagedFor i = b.stagedFor i) ∧
      ∃ w₁, Relation.ReflTransGen others w₁ w' ∧
        ∀ x, w₁.copies[h]? = some x → x.pending.length ≤ b'.stagedFor h := by
  have looks := log.onlyLooks_stageCopy h b
  obtain ⟨w₁, r, w₂, ys, hr, ha, hled, -⟩ := Dialogue.Led.of_ask_bind led
  obtain ⟨rfl, rfl⟩ := ha.of_looks rfl
  have hrest : Relation.ReflTransGen others w₂ w' := hled.reaches_of_looks (looks.2 _)
  have hl := InMemory.later_of_reaches steps hrest
  have tidy₂ := tidy.later (InMemory.later_of_reaches steps hr)
  simp only [InMemory.answer] at hled
  cases hx : w₂.copies[h]? with
  | none =>
    simp only [hx] at hled
    obtain ⟨-, rfl⟩ := Prod.mk.inj (Except.ok.inj hled.of_pure.1)
    exact ⟨tidy₂.later hl, fun _ _ => rfl, w₂, hrest, fun x hx' => absurd (hx ▸ hx') (by simp)⟩
  | some x =>
    simp only [hx] at hled
    by_cases hle : x.pending.length ≤ b.stagedFor h
    · simp only [if_pos hle] at hled
      obtain ⟨-, rfl⟩ := Prod.mk.inj (Except.ok.inj hled.of_pure.1)
      refine ⟨tidy₂.later hl, fun _ _ => rfl, w₂, hrest, fun y hy => ?_⟩
      obtain rfl : x = y := Option.some.inj (hx ▸ hy)
      exact hle
    · simp only [if_neg hle] at hled
      obtain ⟨_, entries, _, _, hready, hled, -⟩ := Dialogue.Led.of_bind hled
      have ready := (ends_entries _).of_led hready
      obtain ⟨_, r, _, _, hstage, hled, -⟩ := Dialogue.Led.of_bind hled
      cases r with
      | error e => simpa using hled.of_pure.1
      | ok r =>
        obtain ⟨v, batch⟩ := r
        obtain ⟨-, rfl⟩ := Prod.mk.inj (Except.ok.inj hled.of_pure.1)
        obtain ⟨head, hs⟩ := led_stage hstage
        obtain ⟨ht, hreach⟩ := tidy₂.staged (apart.earlier hl) hmem hx (Nat.lt_of_not_le hle) ready
          hs
        refine ⟨ht.later hl, fun i hi => OpenBatch.stagedFor_note_other hi, w₂, hrest,
          fun y hy => ?_⟩
        obtain rfl : x = y := Option.some.inj (hx ▸ hy)
        exact hreach

theorem led_stageAll (steps : ∀ {w w'}, others w w' → InMemory.Step w w') {is : List HandleId}
    (hmem : ∀ i ∈ is, i ∈ hs) {b b' : OpenBatch} (apart : InMemory.Apart hs w')
    (tidy : b.Tidy hs w)
    (led : (log.stageAll is b).Led others InMemory.Answers w xs (.ok (n, b')) w') :
    b'.Tidy hs w' ∧ (∀ i, i ∉ is → b'.stagedFor i = b.stagedFor i) ∧
      ∀ i ∈ is, ∃ w₁, Relation.ReflTransGen others w₁ w' ∧
        ∀ x, w₁.copies[i]? = some x → x.pending.length ≤ b'.stagedFor i := by
  induction is generalizing b w w' xs n with
  | nil =>
    obtain ⟨he, -, hr⟩ := Dialogue.Led.of_pure led
    obtain ⟨-, rfl⟩ := Prod.mk.inj (Except.ok.inj he)
    exact ⟨tidy.later (InMemory.later_of_reaches steps hr), fun _ _ => rfl,
      fun i hi => absurd hi (by simp)⟩
  | cons h rest ih =>
    obtain ⟨_, r, w₁, _, hfirst, hled, -⟩ := Dialogue.Led.of_bind led
    cases r with
    | error e => simpa using hled.of_pure.1
    | ok r =>
      obtain ⟨k, b₁⟩ := r
      obtain ⟨_, r, w₂, _, hrest, hled, -⟩ := Dialogue.Led.of_bind hled
      cases r with
      | error e => simpa using hled.of_pure.1
      | ok r =>
        obtain ⟨more, b₂⟩ := r
        obtain ⟨he, -, hend⟩ := Dialogue.Led.of_pure hled
        obtain ⟨-, rfl⟩ := Prod.mk.inj (Except.ok.inj he)
        have hrest' := hrest.reaches_of_looks (log.onlyLooks_stageAll rest b₁)
        have hl := InMemory.later_of_reaches steps hend
        have apart₂ := apart.earlier hl
        obtain ⟨tidy₁, hsame₁, w₃, hr₃, hreach⟩ := led_stageCopy steps (hmem h List.mem_cons_self)
          (apart₂.earlier (InMemory.later_of_reaches steps hrest')) tidy hfirst
        obtain ⟨tidy₂, hsame₂, hreaches⟩ := ih (fun i hi => hmem i (List.mem_cons_of_mem h hi))
          apart₂ tidy₁ hrest
        refine ⟨tidy₂.later hl, fun i hi => ?_, fun i hi => ?_⟩
        · rw [hsame₂ i fun hr => hi (List.mem_cons_of_mem h hr),
            hsame₁ i fun he => hi (he ▸ List.mem_cons_self)]
        · -- What has been collected for one copy stays when the next ones are looked at.
          by_cases hr : i ∈ rest
          · obtain ⟨w₄, hr₄, hi⟩ := hreaches i hr
            exact ⟨w₄, hr₄.trans hend, hi⟩
          · obtain rfl := (List.mem_cons.1 hi).resolve_right hr
            refine ⟨w₃, (hr₃.trans hrest').trans hend, ?_⟩
            rw [hsame₂ i hr]
            exact hreach

end Log

end TransferLedger

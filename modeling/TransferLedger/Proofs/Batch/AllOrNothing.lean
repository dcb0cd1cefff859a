import TransferLedger.Proofs.Batch.Settling
import TransferLedger.Proofs.Office.Sound
import TransferLedger.Proofs.Office.Turns

/-!
# All or nothing

A transaction is opened; copies are tracked, and what they have buffered is staged, any number of
times; meanwhile others may do anything, also to the copies.  However it has come about, its batch
is tidy (`Coordinator.InTransaction.tidy`).  So when it is committed, and the copies are left
alone for the time of that call, either all that they have buffered is stored or nothing has
changed (`Coordinator.all_or_nothing`).  A commit without a transaction is the same with a batch
of its own.
-/

set_option autoImplicit false

namespace TransferLedger

open Relation

/-! ## In an office -/

namespace Office

variable {L : Law} {allowed : Errand → Prop} {o o' : Office} {authors : String → List Party}

/-- What happens in an office is of the kind that may happen meanwhile: whoever sticks to the rules
confirms no more than is stored. -/
theorem Sound.world_step (h : Sound L o authors) (step : Step allowed o o') :
    o'.scene.world = o.scene.world ∨ InMemory.Step o.scene.world o'.scene.world := by
  cases step with
  | begins => exact .inl rfl
  | @asks p q next a s busy answered =>
    obtain ⟨answered⟩ := answered
    have hk := h.keeps p
    rw [busy] at hk
    obtain ⟨proper, -⟩ := hk _ (.refl ..) h.holds
    refine .inr (.asks ?_ answered)
    cases q with
    | confirm i v =>
      intro x hx
      -- In an orderly medium the length of a stream is its version.
      obtain ⟨stores, -⟩ := proper x hx
      refine ⟨stores.durable_le, fun hlt => ?_⟩
      have hlen := stores.le_length hlt
      rwa [← h.holds.orderly.version_head] at hlen
    | head | page | commit | save | load | time | look | place | perform => exact trivial
  | medium available => exact .inr (.medium _ available)
  | clock now => exact .inr (.clock _ now)

theorem Sound.world_reaches (obeys : ∀ e, allowed e → ∀ log ∈ e.log?, log.Obeys L)
    (h : Sound L o authors) (reached : Reaches allowed o o')
    (raw : ∀ e, allowed e → e.Raw → L.Lenient := by exact fun _ _ _ _ _ => trivial) :
    ReflTransGen InMemory.Step o.scene.world o'.scene.world := by
  induction reached using ReflTransGen.head_induction_on generalizing authors with
  | refl => exact .refl
  | head step _ ih =>
    obtain ⟨authors', h', -⟩ := h.step obeys step raw
    obtain he | hs := h.world_step step
    · exact he ▸ ih h'
    · exact .head hs (ih h')

end Office

namespace Coordinator

/-- A coordinator has a transaction open. -/
inductive InTransaction : Coordinator → InMemory → Prop
  | opened {c c' : Coordinator} {w : InMemory} (opens : c.begin = .ok c') : InTransaction c' w
  | tracks {c : Coordinator} {w : InMemory} (h : HandleId) (open' : InTransaction c w) :
      InTransaction (c.track h) w
  /-- What is buffered is staged, among others who may do anything. -/
  | pushes {c c' : Coordinator} {w w' : InMemory} {xs : List (Exchange InMemory)} {n : Nat}
      (open' : InTransaction c w)
      (led : c.push.Led InMemory.Step InMemory.Answers w xs (.ok n, c') w') : InTransaction c' w'
  | meanwhile {c : Coordinator} {w w' : InMemory} (open' : InTransaction c w)
      (step : InMemory.Step w w') : InTransaction c w'

variable {c c' : Coordinator} {w w' : InMemory} {xs : List (Exchange InMemory)}

theorem mem_tracked_track {h i : HandleId} (hi : i ∈ c.tracked) : i ∈ (c.track h).tracked := by
  unfold track
  by_cases hm : h ∈ c.tracked
  · rwa [if_pos hm]
  · rw [if_neg hm]
    exact List.mem_append_left _ hi

theorem transaction_track (c : Coordinator) (h : HandleId) :
    (c.track h).transaction = c.transaction := by
  unfold track
  by_cases hm : h ∈ c.tracked
  · rw [if_pos hm]
  · rw [if_neg hm]

/-- Staging inside a transaction only looks, and leads to another batch or to the end of the
transaction. -/
theorem led_push {others : InMemory → InMemory → Prop} {b : OpenBatch}
    (hb : c.transaction = some b) {r : Except CommitError Nat}
    (led : c.push.Led others InMemory.Answers w xs (r, c') w') :
    (∀ x ∈ xs, x.left = x.found) ∧ ReflTransGen others w w' ∧
      ((∃ e, r = .error e ∧ c' = { c with transaction := none }) ∨
        ∃ n b' w₁ ys, r = .ok n ∧ c' = { c with transaction := some b' } ∧
          (c.log.stageAll c.tracked b).Led others InMemory.Answers w ys (.ok (n, b')) w₁ ∧
          ReflTransGen others w₁ w') := by
  unfold push at led
  rw [hb] at led
  obtain ⟨ys, res, w₁, zs, hstage, hled, rfl⟩ := Dialogue.Led.of_bind led
  have looks := c.log.onlyLooks_stageAll c.tracked b
  have quiet := hstage.untouched looks
  have hr := hstage.reaches_of_looks looks
  cases res with
  | error e =>
    obtain ⟨he, rfl, hr'⟩ := Dialogue.Led.of_pure hled
    obtain ⟨rfl, rfl⟩ := Prod.mk.inj he
    exact ⟨by rwa [List.append_nil], hr.trans hr', .inl ⟨_, rfl, rfl⟩⟩
  | ok res =>
    obtain ⟨he, rfl, hr'⟩ := Dialogue.Led.of_pure hled
    obtain ⟨rfl, rfl⟩ := Prod.mk.inj he
    exact ⟨by rwa [List.append_nil], hr.trans hr',
      .inr ⟨res.1, res.2, w₁, ys, rfl, rfl, hstage, hr'⟩⟩

theorem transaction_of_begin (h : c.begin = .ok c') :
    c' = { c with transaction := some .empty } := by
  unfold Coordinator.begin at h
  by_cases hin : c.inTransaction
  · simp [hin] at h
  · rw [if_neg hin] at h
    exact (Except.ok.inj h).symm

theorem InTransaction.transaction (h : c.InTransaction w) : ∃ b, c.transaction = some b := by
  induction h with
  | opened opens =>
    rw [transaction_of_begin opens]
    exact ⟨.empty, rfl⟩
  | tracks h _ ih => rwa [transaction_track]
  | pushes _ led ih =>
    obtain ⟨b, hb⟩ := ih
    obtain ⟨-, -, ⟨e, he, -⟩ | ⟨n, b', -, -, -, rfl, -⟩⟩ := led_push hb led
    · simp at he
    · exact ⟨b', rfl⟩
  | meanwhile _ step ih => exact ih

/-- However a transaction has come about, its batch has for each tracked copy what it should have.
-/
theorem InTransaction.tidy (h : c.InTransaction w) (apart : InMemory.Apart c.tracked w)
    {b : OpenBatch} (hb : c.transaction = some b) : b.Tidy c.tracked w := by
  induction h generalizing b with
  | opened opens =>
    rw [transaction_of_begin opens] at hb
    obtain rfl := Option.some.inj hb
    exact .empty _ _
  | tracks h _ ih =>
    rw [transaction_track] at hb
    exact (ih (apart.subset fun i hi => mem_tracked_track hi) hb).subset fun i hi =>
      mem_tracked_track hi
  | pushes before led ih =>
    -- What is tracked stays the same, so the copies had different streams before as well.
    obtain ⟨b₀, hb₀⟩ := before.transaction
    obtain ⟨-, hr, ⟨e, he, -⟩ | ⟨n, b', w₁, ys, -, rfl, hstage, hr₁⟩⟩ := led_push hb₀ led
    · simp at he
    · obtain rfl := Option.some.inj hb
      have hl := InMemory.later_of_reaches id hr₁
      have tidy := ih (apart.earlier (InMemory.later_of_reaches id hr)) hb₀
      obtain ⟨tidy₁, -⟩ := Log.led_stageAll id (fun _ hi => hi) (apart.earlier hl) tidy hstage
      exact tidy₁.later hl
  | meanwhile _ step ih => exact (ih (apart.earlier step.later) hb).later step.later

/-- A transfer that has just been opened and is not stored yet. -/
def justOpened (stream : String) : WorkingCopy :=
  match (WorkingCopy.blank stream).perform .startOf2025 (.initiate ⟨100, "EUR", "a", "b"⟩) with
  | .ok x => x
  | .error _ => .blank stream

def twoOpened (available : Bool) : InMemory :=
  ⟨⟨fun _ => [], available⟩, .empty, .startOf2025, [justOpened "t", justOpened "u"]⟩

/-- A coordinator that tracks the first of them and has just opened a transaction. -/
def ofFirst : Coordinator :=
  ⟨.quick, false, .disabled, [0], some .empty⟩

/-- The same coordinator when the first has been staged and the second is tracked as well. -/
def halfStaged : Coordinator :=
  (ofFirst.push.run (twoOpened true)).1.2.track 1

end Coordinator

end TransferLedger

import TransferLedger.Proofs.Batch.Matching
import TransferLedger.Proofs.Office.Attribution

/-!
# Copies that have not been told

A batch may land without the coordinator hearing of it.  Then the copies that it has moved are not
told, and keep what is stored in their buffers.  Such a copy stands at a version that its stream has
left behind, and nobody brings it up: the record in the place of its first fact is the
coordinator's, so the others may not tell the copy of it (`Chronicle.Stuck.stable`).

To stage the copy again is a conflict, whatever else is staged with it
(`Log.keeps_stageAll_stuck`).  Either the log sees the end of the stream, or what the batch has for
it already, and that is beyond the end of the stream.
-/

set_option autoImplicit false

namespace TransferLedger

open Chronicle

/-- There is something in the buffer of a copy, the place of the first fact in it is taken by a
record that a party has stored, and the medium can be reached. -/
structure Chronicle.Stuck (p : Party) (h : HandleId) (stream : String) (d : Nat)
    (s : Chronicle) : Prop where
  copy : ∃ x, s.copies[h]? = some x ∧ x.stream = stream ∧ x.durable = d ∧ 0 < x.pending.length
  author : (s.authors stream)[d]? = some p
  available : s.medium.available = true

/-- The rules for a party that may not hear what has become of its batches, while the medium does
not go out of reach. -/
def reachableRules (L : Law) (p : Party) : Rules Chronicle :=
  (unsureRules L p).narrow (fun s s' => s.medium.available = true → s'.medium.available = true)
    (fun _ => id) fun h h' ha => h' (h ha)

theorem reachableRules_shows (L : Law) (p : Party) :
    (reachableRules L p).Shows fun s => s.scene.world where
  proper := (unsureRules_shows L p).proper
  answered := (unsureRules_shows L p).answered

section stuck

variable {L : Law} {p : Party} {s : Chronicle} {h : HandleId} {stream : String} {d : Nat}

/-- Only the party could tell the copy of its record. -/
theorem Chronicle.Stuck.stable (L : Law) (p : Party) (h : HandleId) (stream : String) (d : Nat) :
    (reachableRules L p).Stable (Stuck p h stream d) := by
  rintro s s' hs ⟨⟨hr, -⟩, reach⟩ -
  obtain ⟨x, hx, rfl, rfl, hp⟩ := hs.copy
  obtain ⟨x', hx', he⟩ := hr.copies h x hx
  have author := hr.author hs.author
  have heq : x.durable = x'.durable :=
    Nat.le_antisymm he.durable_le (Nat.le_of_not_lt fun hlt => he.author hlt author)
  exact ⟨⟨x', hx', he.stream_eq, heq.symm, Nat.lt_of_lt_of_le hp (he.pending heq).length_le⟩,
    author, reach hs.available⟩

theorem Chronicle.Stuck.lt_head (hs : Stuck p h stream d s) (hi : Holds L s) :
    d < (s.medium.head stream).version := by
  rw [hi.orderly.version_head, ← hi.noted]
  exact (List.getElem?_eq_some_iff.1 hs.author).1

/-- Whatever a batch has for a stream goes beyond a version. -/
def OpenBatch.Beyond (b : OpenBatch) (stream : String) (d : Nat) : Prop :=
  ∀ g, b.batch.head? stream = some g → d < g.version

namespace Log.StagesTo

variable {log : Log} {known : Option WorkingCopy → Chronicle → Prop} {view : Chronicle → InMemory}
  {i : HandleId} {b b' : OpenBatch} {c? : Option WorkingCopy}

theorem stagedFor_other (hto : log.StagesTo known view i b c? b') (hne : h ≠ i) :
    b'.stagedFor h = b.stagedFor h := by
  cases hto with
  | unchanged => rfl
  | staged => exact OpenBatch.stagedFor_note_other hne

/-- If the stream itself goes beyond the version, so does what is staged for it. -/
theorem beyond (hto : log.StagesTo known view i b c? b') (hb : b.Beyond stream d)
    (grown : ∀ c s, known c s → d < ((view s).medium.head stream).version) :
    b'.Beyond stream d := by
  cases hto with
  | unchanged => exact hb
  | @staged c entries head v batch more ready stage sees =>
    obtain ⟨-, -, hrec⟩ := Log.records_of_stageBehind stage
    have hcont := log.sealer.continues_chain c.stream head entries
    intro g hg
    by_cases hs : stream = c.stream
    · subst hs
      have filled : log.sealer.chain c.stream head entries ≠ [] := by
        refine List.ne_nil_of_length_pos ?_
        rw [Sealer.length_chain, ready.length_eq, List.length_drop]
        omega
      rw [Batch.head?_extended hrec hcont filled] at hg
      obtain rfl := Option.some.inj hg
      rw [hcont.version_after]
      refine Nat.lt_of_lt_of_le ?_ (Nat.le_add_right _ _)
      rcases sees with hhead | ⟨-, s, hk, rfl⟩
      · exact hb head hhead
      · exact grown _ s hk
    · rw [Batch.head?_extended_other hrec hcont hs] at hg
      exact hb g hg

/-- From behind the stream nothing can be staged. -/
theorem not_behind {x : WorkingCopy} (hto : log.StagesTo known view i b (some x) b')
    (hb : b.Beyond x.stream x.durable) (hp : 0 < x.pending.length) (hz : b.stagedFor i = 0)
    (grown : ∀ c s, known c s → x.durable < ((view s).medium.head x.stream).version) : False := by
  cases hto with
  | unchanged nothing =>
    have := nothing x rfl
    omega
  | staged more ready stage sees =>
    obtain ⟨hv, -⟩ := Log.records_of_stageBehind stage
    rcases sees with hhead | ⟨-, s, hk, rfl⟩
    · have := hb _ hhead
      omega
    · have := grown _ s hk
      omega

end Log.StagesTo

variable {log : Log} {b : OpenBatch}

/-- Staging some copy: there is a conflict, or it is another copy and nothing has changed for this
one. -/
theorem Log.keeps_stageCopy_stuck (log : Log) (i : HandleId) (hs : Stuck p h stream d s)
    (hb : b.Beyond stream d) (hz : b.stagedFor h = 0) :
    (log.stageCopy i b).Keeps (reachableRules L p)
      (fun r s' => (∃ e, r = .error e ∧ e.isConflict = true) ∨
        h ≠ i ∧ Stuck p h stream d s' ∧
          ∃ n b', r = .ok (n, b') ∧ b'.Beyond stream d ∧ b'.stagedFor h = 0) s := by
  have stable := Stuck.stable L p h stream d
  have stable' (c? : Option WorkingCopy) : (reachableRules L p).Stable fun s =>
      Stuck p h stream d s ∧ (h = i → ∃ x, c? = some x ∧ x.stream = stream ∧ x.durable = d ∧
        0 < x.pending.length) := stable.and Rules.Stable.const
  refine (log.keeps_stagingCopy (reachableRules_shows L p) i b stable stable'
    (fun s₁ _ hs₁ => ⟨hs₁, fun he => he ▸ hs₁.copy⟩) hs).mono fun r s₁ _ hr => ?_
  cases r with
  | error e =>
    rcases hr.2 e rfl with hc | ⟨c?, s₀, -, hs₀, out⟩
    · exact .inl ⟨e, rfl, hc⟩
    · exact absurd (hs₀.1.available.symm.trans out) (by simp)
  | ok r =>
    obtain ⟨n, b'⟩ := r
    obtain ⟨c?, ⟨hs₁, hx⟩, hto⟩ := hr.1 n b' rfl
    have grown (c : Option WorkingCopy) (s : Chronicle) (hk : (reachableRules L p).holds s ∧
        Stuck p h stream d s ∧ (h = i → ∃ x, c = some x ∧ x.stream = stream ∧ x.durable = d ∧
          0 < x.pending.length)) : d < (s.medium.head stream).version :=
      hk.2.1.lt_head (L := L) hk.1
    have hne : h ≠ i := by
      intro he
      obtain ⟨x, rfl, rfl, rfl, hp⟩ := hx he
      exact hto.not_behind hb hp (he ▸ hz) grown
    exact .inr ⟨hne, hs₁, n, b', rfl, hto.beyond hb grown, (hto.stagedFor_other hne).trans hz⟩

/-- Where a copy is to be staged that has not been told, there is a conflict. -/
theorem Log.keeps_stageAll_stuck (log : Log) {todo : List HandleId} (mem : h ∈ todo)
    (hs : Stuck p h stream d s) (hb : b.Beyond stream d) (hz : b.stagedFor h = 0) :
    (log.stageAll todo b).Keeps (reachableRules L p)
      (fun r _ => ∃ e, r = .error e ∧ e.isConflict = true) s := by
  induction todo generalizing b s with
  | nil => exact absurd mem (by simp)
  | cons i rest ih =>
    refine .bind ((log.keeps_stageCopy_stuck i hs hb hz).mono fun r s₁ _ hr => ?_)
    rcases hr with ⟨e, rfl, he⟩ | ⟨hne, hs₁, n, b', rfl, hb₁, hz₁⟩
    · exact .pure Rules.Stable.const trivial fun _ _ _ => ⟨e, rfl, he⟩
    · have later := ih ((List.mem_cons.1 mem).resolve_left hne) hs₁ hb₁ hz₁
      refine .bind (later.mono fun r s₂ _ hr => ?_)
      obtain ⟨e, rfl, he⟩ := hr
      exact .pure Rules.Stable.const trivial fun _ _ _ => ⟨e, rfl, he⟩

end stuck

end TransferLedger

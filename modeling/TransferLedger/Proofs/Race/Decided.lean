import TransferLedger.Proofs.Race.Turns

/-!
# Who wins

However the turns of any number of writers are mixed, a race for a version of a stream is decided
by it: `Race.Decided` says all that may come out, and `Race.decided` that it always does.  A writer
wins who finds the version that he expects at both of his turns.  Everybody else is told of a
conflict, never of a broken chain, and has changed nothing.

Two that expect the same version of a stream cannot both win, since the one who commits second finds
the other's records (`Race.Won.unique`).  Of those that have staged behind the same head the first
to commit finds it again, since only one of them could have moved it
(`Race.Contends.won_of_first`).
-/

set_option autoImplicit false

namespace TransferLedger

namespace Race

section

variable {ι : Type} [DecidableEq ι] {writers : ι → Writer} {w : InMemory}

/-! ## What comes of a writer -/

/-- What a writer has come to when turns have been taken. -/
inductive Fate (writers : ι → Writer) (w : InMemory) (ps : List ι) (p : ι) :
    Option (Except StoreError Nat) → Prop
  | unborn (idle : ps.count p = 0) : Fate writers w ps p none
  | refused {s : List ι} (hs : Takes ps p 0 s)
      (moved : ((after writers w s).head (writers p).stream).version ≠ (writers p).expected) :
      Fate writers w ps p (some (.error
        ((writers p).conflict ((after writers w s).head (writers p).stream).version)))
  | staged {s : List ι} (hs : Takes ps p 0 s) (once : ps.count p = 1)
      (current : ((after writers w s).head (writers p).stream).version = (writers p).expected) :
      Fate writers w ps p none
  | overtaken {s c : List ι} (hs : Takes ps p 0 s) (hc : Takes ps p 1 c)
      (current : ((after writers w s).head (writers p).stream).version = (writers p).expected)
      (moved : ((after writers w c).head (writers p).stream).version ≠ (writers p).expected) :
      Fate writers w ps p (some (.error
        ((writers p).conflict ((after writers w c).head (writers p).stream).version)))
  | stored {s c : List ι} (hs : Takes ps p 0 s) (hc : Takes ps p 1 c)
      (current : ((after writers w s).head (writers p).stream).version = (writers p).expected)
      (still : ((after writers w c).head (writers p).stream).version = (writers p).expected) :
      Fate writers w ps p (some (.ok ((writers p).expected + (writers p).entries.length)))

theorem result_of_done {pre ps : List ι} {p : ι} {res : Except StoreError Nat} (h : pre <+: ps)
    (hp : (after writers w pre).left p = .done res) :
    (after writers w ps).result? p = some res :=
  result_of_left (left_of_done h hp)

section

variable (available : w.medium.available = true)

include available

variable (writers) in
theorem fate_of_turns (ps : List ι) (p : ι) :
    Fate writers w ps p ((after writers w ps).result? p) := by
  by_cases h0 : ps.count p = 0
  · have hleft : (after writers w ps).left p = (writers p).work :=
      left_of_idle List.nil_prefix h0
    rw [(writers p).work_eq] at hleft
    rw [result_of_asking hleft]
    exact .unborn h0
  obtain ⟨s, hs⟩ := Takes.exists_of_lt_count (Nat.pos_of_ne_zero h0)
  by_cases current :
    ((after writers w s).head (writers p).stream).version = (writers p).expected
  swap
  · rw [result_of_done hs.next (left_of_moved available hs current)]
    exact .refused hs current
  by_cases h1 : ps.count p = 1
  · have hidle : ps.count p = (s ++ [p]).count p := by
      rw [h1, List.count_append, hs.count, List.count_singleton_self]
    have hleft : (after writers w ps).left p = _ :=
      (left_of_idle hs.next hidle).trans (after_staging available hs).2
    rw [Writer.behind, if_pos current] at hleft
    rw [result_of_asking hleft]
    exact .staged hs h1 current
  have htwo : 1 < ps.count p := by omega
  obtain ⟨c, hc⟩ := Takes.exists_of_lt_count htwo
  by_cases still : ((after writers w c).head (writers p).stream).version = (writers p).expected
  · rw [result_of_done hc.next (after_committing available hs hc current still).2]
    exact .stored hs hc current still
  · rw [result_of_done hc.next (after_overtaken available hs hc current still).2]
    exact .overtaken hs hc current still

variable (writers) in
/-- A turn changes nothing, unless it is the second one of somebody who finds the version that he
expects once more. -/
theorem world_of_turn (pre : List ι) (p : ι) :
    (after writers w (pre ++ [p])).world = (after writers w pre).world ∨
      ∃ s, Takes (pre ++ [p]) p 0 s ∧ Takes (pre ++ [p]) p 1 pre ∧
        ((after writers w s).head (writers p).stream).version = (writers p).expected ∧
        ((after writers w pre).head (writers p).stream).version = (writers p).expected := by
  have hpre := fate_of_turns writers available pre p
  cases hres : (after writers w pre).result? p with
  | some res =>
    rw [after_concat, turn_of_done (left_of_result hres)]
    exact .inl rfl
  | none =>
    rw [hres] at hpre
    cases hpre with
    | unborn h0 => exact .inl (after_staging available (.here h0)).1
    | @staged s hs once current =>
      have hs' : Takes (pre ++ [p]) p 0 s := hs.mono (List.prefix_append ..)
      by_cases still :
        ((after writers w pre).head (writers p).stream).version = (writers p).expected
      · exact .inr ⟨s, hs', .here once, current, still⟩
      · exact .inl (after_overtaken available hs' (.here once) current still).1

/-- Who wins has found the version that he expects at both of his turns. -/
theorem Won.turns {ps : List ι} {p : ι} (won : (after writers w ps).Won p) :
    ∃ s c, Takes ps p 0 s ∧ Takes ps p 1 c ∧
      ((after writers w s).head (writers p).stream).version = (writers p).expected ∧
      ((after writers w c).head (writers p).stream).version = (writers p).expected := by
  obtain ⟨version, hres⟩ := won
  have hfate := fate_of_turns writers available ps p
  rw [hres] at hfate
  cases hfate with
  | stored hs hc current still => exact ⟨_, _, hs, hc, current, still⟩

theorem won_of_turns {ps s c : List ι} {p : ι} (hs : Takes ps p 0 s) (hc : Takes ps p 1 c)
    (current : ((after writers w s).head (writers p).stream).version = (writers p).expected)
    (still : ((after writers w c).head (writers p).stream).version = (writers p).expected) :
    (after writers w ps).Won p :=
  ⟨_, result_of_done hc.next (after_committing available hs hc current still).2⟩

/-- Once somebody has won, his stream has left the version that he expected. -/
theorem lt_version_of_won {ps s c : List ι} {p : ι} (hs : Takes ps p 0 s) (hc : Takes ps p 1 c)
    (current : ((after writers w s).head (writers p).stream).version = (writers p).expected)
    (still : ((after writers w c).head (writers p).stream).version = (writers p).expected)
    {later : List ι} (hlater : c ++ [p] <+: later) :
    (writers p).expected < ((after writers w later).head (writers p).stream).version := by
  have hmedium := congrArg InMemory.medium (after_committing available hs hc current still).1
  have hforward : (after writers w (c ++ [p])).world.medium.Forward
    (after writers w later).world.medium := forward_along hlater
  rw [hmedium] at hforward
  calc (writers p).expected
      < ((after writers w c).head (writers p).stream).version + (writers p).entries.length := by
        have := List.length_pos_iff.2 (writers p).filled
        omega
    _ = _ := ((writers p).version_store (after writers w c).world.medium).symm
    _ ≤ ((after writers w later).head (writers p).stream).version :=
      hforward.version_le _

theorem Won.unique {ps : List ι} {p q : ι} (hp : (after writers w ps).Won p)
    (hq : (after writers w ps).Won q) (stream : (writers p).stream = (writers q).stream)
    (expected : (writers p).expected = (writers q).expected) : p = q := by
  -- Whoever of the two commits second finds another version than he expects.
  by_contra hne
  obtain ⟨s, c, hs, hc, current, still⟩ := hp.turns available
  obtain ⟨s', c', hs', hc', current', still'⟩ := hq.turns available
  rcases hc.order hc' hne with first | first
  · have := lt_version_of_won available hs hc current still first
    rw [stream] at this
    omega
  · have := lt_version_of_won available hs' hc' current' still' first
    rw [← stream] at this
    omega

/-! ## The first to commit -/

omit available in
/-- Where a stream has changed there is the first turn that has changed it. -/
theorem exists_changing {pre ps : List ι} {stream : String} (h : pre <+: ps)
    (changed : (after writers w ps).world.medium.records stream ≠
      (after writers w pre).world.medium.records stream) :
    ∃ mid q, pre <+: mid ∧ mid ++ [q] <+: ps ∧
      (after writers w mid).world.medium.records stream =
        (after writers w pre).world.medium.records stream ∧
      (after writers w (mid ++ [q])).world.medium.records stream ≠
        (after writers w mid).world.medium.records stream := by
  obtain ⟨post, rfl⟩ := h
  induction post using List.reverseRecOn with
  | nil =>
    rw [List.append_nil] at changed
    exact absurd rfl changed
  | append_singleton post q ih =>
    rw [← List.append_assoc] at changed ⊢
    by_cases before : (after writers w (pre ++ post)).world.medium.records stream =
      (after writers w pre).world.medium.records stream
    · exact ⟨pre ++ post, q, List.prefix_append .., List.prefix_rfl, before, before ▸ changed⟩
    · obtain ⟨mid, q', h1, h2, h3⟩ := ih before
      exact ⟨mid, q', h1, h2.trans (List.prefix_append ..), h3⟩

/-- Somebody has staged behind a head of a stream, and comes to commit when the turns `c` have been
taken. -/
structure Contends (writers : ι → Writer) (w : InMemory) (ps : List ι) (stream : String) (h : Head)
    (p : ι) (c : List ι) : Prop where
  stream_eq : (writers p).stream = stream
  expected_eq : (writers p).expected = h.version
  staged : ∃ s, Takes ps p 0 s ∧ (after writers w s).head stream = h
  commits : Takes ps p 1 c

/-- Who comes first of those that have staged behind the same head finds it again. -/
theorem Contends.won_of_first {ps : List ι} {stream : String} {h : Head} {p : ι} {c : List ι}
    (hp : Contends writers w ps stream h p c)
    (first : ∀ q c', Contends writers w ps stream h q c' → c <+: c') :
    (after writers w ps).Won p := by
  obtain ⟨s, hs, hhead⟩ := hp.staged
  have hsc : s <+: c := (List.prefix_append ..).trans (hs.later hp.commits Nat.zero_lt_one)
  have hsame : (after writers w c).world.medium.records stream =
      (after writers w s).world.medium.records stream := by
    by_contra changed
    obtain ⟨mid, q, hsm, hmc, hbefore, hchanged⟩ := exists_changing hsc changed
    -- The turn that has changed the stream is that of one who has staged behind the head as well.
    rcases world_of_turn writers available mid q with same | ⟨s', hs', hm, hv, hv'⟩
    · exact hchanged (by rw [same])
    have hmedium := congrArg InMemory.medium (after_committing available hs' hm hv hv').1
    have hq : (writers q).stream = stream := by
      by_contra hne
      rw [hmedium] at hchanged
      exact hchanged (Memory.records_store_other _ _ (Ne.symm hne))
    subst hq
    have hmid : (after writers w mid).head (writers q).stream = h :=
      (Memory.head_congr hbefore).trans hhead
    have hsm' : s' <+: mid := (List.prefix_append ..).trans (hs'.later hm Nat.zero_lt_one)
    have hstaged : (after writers w s').head (writers q).stream = h :=
      ((forward_along hsm').head_eq (hv'.trans hv.symm)).symm.trans hmid
    have hps : mid ++ [q] <+: ps := hmc.trans hp.commits.before
    have hcontends : Contends writers w ps (writers q).stream h q mid :=
      ⟨rfl, by rw [← hv', hmid], ⟨s', hs'.mono hps, hstaged⟩, hm.mono hps⟩
    have := (hmc.trans (first q mid hcontends)).length_le
    rw [List.length_append, List.length_singleton] at this
    omega
  obtain rfl := hp.stream_eq
  have hstill : (after writers w c).head (writers p).stream = h :=
    (Memory.head_congr hsame).trans hhead
  exact won_of_turns available hs hp.commits (by rw [hhead, hp.expected_eq])
    (by rw [hstill, hp.expected_eq])

omit available in
theorem Contends.exists_first {ps : List ι} {stream : String} {h : Head} {p : ι} {c : List ι}
    (hp : Contends writers w ps stream h p c) : ∃ q d, Contends writers w ps stream h q d ∧
      ∀ r c', Contends writers w ps stream h r c' → d <+: c' := by
  induction hn : c.length using Nat.strongRecOn generalizing p c with
  | ind n ih =>
    by_cases first : ∀ r c', Contends writers w ps stream h r c' → c <+: c'
    · exact ⟨p, c, hp, first⟩
    · simp only [not_forall] at first
      obtain ⟨r, c', hr, hnot⟩ := first
      have hshort : c'.length < n := by
        by_contra hle
        exact hnot (List.prefix_of_prefix_length_le hp.commits.before hr.commits.before (by omega))
      exact ih _ hshort hr rfl

end

/-! ## What comes out -/

/-- What may come out of a race in which the turns `ps` have been taken. -/
structure Decided (writers : ι → Writer) (w : InMemory) (ps : List ι) : Prop where
  /-- Whoever has had both turns has come to an end. -/
  ended {p : ι} {c : List ι} : Takes ps p 1 c → ∃ res, (after writers w ps).result? p = some res
  /-- He has won exactly if he has found the version that he expects at both. -/
  won_iff {p : ι} {s c : List ι} : Takes ps p 0 s → Takes ps p 1 c →
    ((after writers w ps).Won p ↔
      ((after writers w s).head (writers p).stream).version = (writers p).expected ∧
      ((after writers w c).head (writers p).stream).version = (writers p).expected)
  /-- What somebody wins is that all he has is stored at his second turn, and nothing else. -/
  stored {p : ι} {version : Nat} : (after writers w ps).result? p = some (.ok version) →
    version = (writers p).expected + (writers p).entries.length ∧
    ∃ c, Takes ps p 1 c ∧ (after writers w (c ++ [p])).world = { (after writers w c).world with
      medium := (after writers w c).world.medium.store
        ((writers p).staged ((after writers w c).head (writers p).stream)) }
  /-- Whoever loses is told of a conflict, with the version that he has found at the turn at which
  he fails. -/
  lost {p : ι} {e : StoreError} : (after writers w ps).result? p = some (.error e) →
    ∃ k pre, k < 2 ∧ Takes ps p k pre ∧ (after writers w pre).result? p = none ∧
      (after writers w (pre ++ [p])).result? p = some (.error e) ∧
      ((after writers w pre).head (writers p).stream).version ≠ (writers p).expected ∧
      e = .conflict (writers p).stream (writers p).expected
        ((after writers w pre).head (writers p).stream).version
  /-- None of his turns has changed anything. -/
  unchanged {p : ι} {e : StoreError} {pre : List ι} :
    (after writers w ps).result? p = some (.error e) → pre ++ [p] <+: ps →
    (after writers w (pre ++ [p])).world = (after writers w pre).world
  /-- One at most wins a version of a stream. -/
  unique {p q : ι} : (after writers w ps).Won p → (after writers w ps).Won q →
    (writers p).stream = (writers q).stream → (writers p).expected = (writers q).expected → p = q
  /-- Of those that have staged behind the same head, the first to commit wins, and no other. -/
  first {stream : String} {h : Head} {p : ι} {c : List ι} : Contends writers w ps stream h p c →
    ∃ q d, Contends writers w ps stream h q d ∧ (after writers w ps).Won q ∧
      ∀ r c', Contends writers w ps stream h r c' →
        d <+: c' ∧ ((after writers w ps).Won r → r = q)

section

variable (available : w.medium.available = true) {ps : List ι}

include available

theorem lost_of_error {p : ι} {e : StoreError}
    (hres : (after writers w ps).result? p = some (.error e)) :
    ∃ k pre, k < 2 ∧ Takes ps p k pre ∧ (after writers w pre).result? p = none ∧
      (after writers w (pre ++ [p])).result? p = some (.error e) ∧
      ((after writers w pre).head (writers p).stream).version ≠ (writers p).expected ∧
      e = (writers p).conflict ((after writers w pre).head (writers p).stream).version := by
  have hfate := fate_of_turns writers available ps p
  rw [hres] at hfate
  cases hfate with
  | @refused s hs moved =>
    have hleft : (after writers w s).left p = (writers p).work :=
      left_of_idle List.nil_prefix hs.count
    rw [(writers p).work_eq] at hleft
    exact ⟨0, s, Nat.two_pos, hs, result_of_asking hleft,
      result_of_left (left_of_moved available hs moved), moved, rfl⟩
  | @overtaken s c hs hc current moved =>
    exact ⟨1, c, Nat.one_lt_two, hc, result_of_asking (left_of_current available hs hc current),
      result_of_left (after_overtaken available hs hc current moved).2, moved, rfl⟩

/-- Any turns of any number of writers decide the race like this. -/
theorem decided (ps : List ι) : Decided writers w ps where
  ended {p c} hc := by
    have hfate := fate_of_turns writers available ps p
    cases hres : (after writers w ps).result? p with
    | some res => exact ⟨res, rfl⟩
    | none =>
      have hcount := hc.next.sublist.count_le p
      rw [List.count_append, hc.count, List.count_singleton_self] at hcount
      rw [hres] at hfate
      cases hfate with
      | unborn idle => omega
      | staged hs once current => omega
  won_iff {p s c} hs hc := by
    constructor
    · intro won
      obtain ⟨s', c', hs', hc', current, still⟩ := won.turns available
      obtain rfl := hs.unique hs'
      obtain rfl := hc.unique hc'
      exact ⟨current, still⟩
    · rintro ⟨current, still⟩
      exact won_of_turns available hs hc current still
  stored {p version} hres := by
    have hfate := fate_of_turns writers available ps p
    rw [hres] at hfate
    cases hfate with
    | stored hs hc current still =>
      exact ⟨rfl, _, hc, (after_committing available hs hc current still).1⟩
  lost hres := lost_of_error available hres
  unchanged {p e pre} hres hpre := by
    rcases world_of_turn writers available pre p with same | ⟨s, hs, hc, hv, hv'⟩
    · exact same
    · -- A turn that stores something is that of a winner.
      have hwon := result_of_done hpre (after_committing available hs hc hv hv').2
      rw [hres] at hwon
      cases hwon
  unique hp hq stream expected := hp.unique available hq stream expected
  first hp := by
    obtain ⟨q, d, hq, hfirst⟩ := hp.exists_first
    have hwon := hq.won_of_first available hfirst
    refine ⟨q, d, hq, hwon, fun r c' hr => ⟨hfirst r c' hr, fun hr' => ?_⟩⟩
    exact hr'.unique available hwon (hr.stream_eq.trans hq.stream_eq.symm)
      (hr.expected_eq.trans hq.expected_eq.symm)

end

/-- Two that open the same stream. -/
def twoOpening (p : Bool) : Writer :=
  ⟨.quick, "acct", 0, [⟨"opened", if p then "by one" else "by the other", .startOf2025⟩], by simp⟩

/-- Both stage behind the empty stream.  The one who commits second finds it gone on. -/
theorem decided_twoOpening :
    Decided twoOpening (.empty .startOf2025) [false, true, true, false] ∧
    (after twoOpening (.empty .startOf2025) [false, true, true, false]).result? true =
      some (.ok 1) ∧
    (after twoOpening (.empty .startOf2025) [false, true, true, false]).result? false =
      some (.error (.conflict "acct" 0 1)) :=
  ⟨decided rfl _, rfl, rfl⟩

end

end Race

end TransferLedger

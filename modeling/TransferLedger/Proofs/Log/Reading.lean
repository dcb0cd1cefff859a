import TransferLedger.Log.Reader
import TransferLedger.Proofs.Chain.Following
import TransferLedger.Proofs.Chain.Medium
import TransferLedger.Proofs.Dialogue.Views

/-!
# What a reader hands out

Records come page by page while others go on storing, so what a reader holds is only ever a part
of what is there.  It is the right part: its buffer is the beginning of the stream behind its
position (`Reader.Stands`), which more records cannot undo.  So whoever takes what a reader hands
out has taken a stretch of the stream, in order and without gaps (`Reader.keeps_runWithin`).  When
the reader comes to an end it has handed out at least what was there when it began.

A reader that checks the chain fails on it only if there is a record that is not sealed, with one
exception (`Reader.Mishap`).  To find its cursor it asks for the record before its start, and, if
there is none, for the end of the stream.  If others take the stream past the start between the two
requests, the reader takes the record for missing.
-/

set_option autoImplicit false

namespace TransferLedger

/-- A reader that checks has the key of its log. -/
theorem Log.sealer_of_reader (log : Log) {stream : String} {start batch : Nat}
    {sealer : Sealer} (checks : (log.reader stream start batch).sealer? = some sealer) :
    sealer = log.sealer := by
  unfold Log.reader at checks
  split at checks
  · exact (Option.some.inj checks).symm
  · simp at checks

namespace Reader

/-- The reader is where it says it is; `known` is the number of records that the stream had when the
reading began. -/
structure Stands (known : Nat) (r : Reader) (m : Memory) : Prop where
  running : r.done = false
  next_pos : 1 ≤ r.next
  batch_pos : 1 ≤ r.batch
  buffered : r.buffer <+: (m.records r.stream).drop (r.next - 1)
  exhausted : r.exhausted = true → known ≤ r.next - 1 + r.buffer.length

theorem Stands.within {known : Nat} {r : Reader} {m m' : Memory} (h : r.Stands known m)
    (hw : m.Within m') : r.Stands known m' :=
  { h with buffered := h.buffered.trans (hw.drop ..) }

theorem stands_reader (log : Log) (known : Nat) (stream : String) (start batch : Nat)
    (m : Memory) : (log.reader stream start batch).Stands known m where
  running := rfl
  next_pos := Nat.le_max_right ..
  batch_pos := Nat.le_max_right ..
  buffered := List.nil_prefix
  exhausted := fun h => absurd h (by simp [Log.reader])

/-- The first record of the buffer is the one at the reader's position. -/
theorem Stands.first {known : Nat} {r : Reader} {m : Memory} (h : r.Stands known m) {x : Record}
    {rest : List Record} (hb : r.buffer = x :: rest) :
    (m.records r.stream)[r.next - 1]? = some x := by
  obtain ⟨more, hmore⟩ := h.buffered
  rw [hb] at hmore
  have := congrArg (·[0]?) hmore
  simpa [List.getElem?_drop] using this.symm

/-- A reader that goes on behind the first record of its buffer. -/
theorem Stands.behind {known : Nat} {r : Reader} {m : Memory} (h : r.Stands known m) {x : Record}
    {rest : List Record} (hb : r.buffer = x :: rest) (hseq : x.sequence = r.next)
    (c : Option Cursor) :
    { r with buffer := rest, cursor? := c, next := x.sequence + 1 }.Stands known m := by
  have hpos := h.next_pos
  refine ⟨h.running, Nat.succ_pos _, h.batch_pos, ?_, fun he => ?_⟩
  · show rest <+: (m.records r.stream).drop (x.sequence + 1 - 1)
    obtain ⟨more, hmore⟩ := h.buffered
    refine ⟨more, ?_⟩
    rw [hb] at hmore
    have := congrArg (·.drop 1) hmore
    simp only [List.cons_append, List.drop_one, List.tail_cons, List.drop_drop] at this
    rw [this, hseq]
    congr 1
    omega
  · have := h.exhausted he
    rw [hb, List.length_cons] at this
    show known ≤ x.sequence + 1 - 1 + rest.length
    omega

/-- If the reader checks the chain, its cursor is behind the last record before its position. -/
def Abreast (r : Reader) (m : Memory) : Prop :=
  ∀ s c, r.sealer? = some s → r.cursor? = some c →
    r.next - 1 ≤ (m.records r.stream).length ∧
      c = ⟨r.stream, Head.empty.after ((m.records r.stream).take (r.next - 1))⟩

theorem Abreast.within {r : Reader} {m m' : Memory} (h : r.Abreast m) (hw : m.Within m') :
    r.Abreast m' := by
  intro s c hs hc
  obtain ⟨hle, rfl⟩ := h s c hs hc
  exact ⟨Nat.le_trans hle (hw.length_le _), by rw [hw.take hle]⟩

/-- The cursor behind a record in its place. -/
theorem abreast_behind {r : Reader} {m : Memory} {x : Record}
    (hx : (m.records r.stream)[r.next - 1]? = some x) (hseq : x.sequence = r.next)
    (hpos : 1 ≤ r.next) (rest : List Record) {c : Option Cursor}
    (hc : ∀ s, r.sealer? = some s → ∀ c', c = some c' → c' = ⟨r.stream, x.head⟩) :
    { r with buffer := rest, cursor? := c, next := x.sequence + 1 }.Abreast m := by
  intro s c' hs hc'
  have hlt := (List.getElem?_eq_some_iff.1 hx).1
  have hnext : x.sequence + 1 - 1 = r.next - 1 + 1 := by omega
  show x.sequence + 1 - 1 ≤ _ ∧ c' = ⟨r.stream, _⟩
  rw [hnext]
  refine ⟨hlt, (hc s hs c' hc').trans ?_⟩
  show _ = (⟨r.stream, Head.empty.after ((m.records r.stream).take (r.next - 1 + 1))⟩ : Cursor)
  rw [List.take_add_one, hx, Head.after_append]
  rfl

/-- A reader that checks the chain has its cursor. -/
def Primed (r : Reader) : Prop :=
  r.sealer?.isSome = true → r.cursor?.isSome = true

/-- What passes the check leaves the cursor behind it. -/
theorem cursor_of_check {r : Reader} {x : Record} {c : Option Cursor} (hc : r.check x = .ok c)
    {s : Sealer} (hs : r.sealer? = some s) :
    (r.cursor?.isSome = true → c.isSome = true) ∧
      ∀ c₀, r.cursor? = some c₀ → c = some ⟨c₀.stream, x.head⟩ := by
  unfold check at hc
  rw [hs] at hc
  cases hcur : r.cursor? with
  | none => exact ⟨by simp, by simp⟩
  | some c₀ =>
    rw [hcur] at hc
    change (c₀.advance s x).map some = .ok c at hc
    cases ha : c₀.advance s x with
    | error e =>
      rw [ha] at hc
      simp [Except.map] at hc
    | ok c₁ =>
      rw [ha] at hc
      obtain ⟨-, rfl⟩ := Cursor.advance_eq_ok_iff.1 ha
      obtain rfl := Except.ok.inj hc
      refine ⟨fun _ => rfl, fun c hc => ?_⟩
      rw [← Option.some.inj hc]

/-- In its place only a record that is not sealed fails the check. -/
theorem not_sealed_of_check {r : Reader} {m : Memory} (abreast : r.Abreast m) (ho : m.Orderly)
    {x : Record} (hx : (m.records r.stream)[r.next - 1]? = some x) (hseq : x.sequence = r.next)
    {e : ChainError} (hc : r.check x = .error e) : ∃ s, r.sealer? = some s ∧ ¬ s.Sealed x := by
  unfold check at hc
  split at hc
  · next s c hs hcur =>
    refine ⟨s, hs, fun sealed => ?_⟩
    obtain ⟨hle, rfl⟩ := abreast s c hs hcur
    obtain ⟨hstream, -, hprevious⟩ := (ho r.stream).getElem? hx
    have hversion := ((ho r.stream).take (r.next - 1)).version_after
    rw [List.length_take, Nat.min_eq_left hle] at hversion
    have hv : x.sequence = (Head.empty.after ((m.records r.stream).take (r.next - 1))).version + 1 := by
      have := (ho.sequence hx).2
      rw [hversion, this]
      show _ = 0 + (r.next - 1) + 1
      omega
    have ha := Cursor.advance_eq_ok_iff.2 ⟨⟨hstream, hv, hprevious, sealed, trivial⟩, rfl⟩
    rw [ha] at hc
    simp [Except.map] at hc
  · rw [if_pos hseq] at hc
    simp at hc

/-- The reader has gone on behind one record. -/
structure Moves (r r' : Reader) : Prop where
  stream : r'.stream = r.stream
  next : r'.next = r.next + 1
  sealer : r'.sealer? = r.sealer?
  primed : r'.Primed

/-- A record that is handed out is the one at the reader's position. -/
theorem Stands.take {known : Nat} {r : Reader} {m : Memory} (h : r.Stands known m)
    (abreast : r.Abreast m) (primed : r.Primed) (ho : m.Orderly)
    (full : r.buffer = [] → r.exhausted = true) :
    match r.take with
    | (.ended, _) => known ≤ r.next - 1
    | (.failed _, _) => ∃ s x, r.sealer? = some s ∧ x ∈ m.records r.stream ∧ ¬ s.Sealed x
    | (.record x, r') => (m.records r.stream)[r.next - 1]? = some x ∧ r.Moves r' ∧
        r'.Stands known m ∧ r'.Abreast m := by
  unfold Reader.take
  cases hb : r.buffer with
  | nil =>
    have := h.exhausted (full hb)
    rw [hb] at this
    exact this
  | cons x rest =>
    have hx := h.first hb
    have hpos := h.next_pos
    have hseq : x.sequence = r.next := by
      have := (ho.sequence hx).2
      omega
    cases hc : r.check x with
    | error e =>
      simp only [hc]
      obtain ⟨s, hs, bad⟩ := not_sealed_of_check abreast ho hx hseq hc
      exact ⟨s, x, hs, List.mem_of_getElem? hx, bad⟩
    | ok c =>
      simp only [hc]
      refine ⟨hx, ⟨rfl, congrArg (· + 1) hseq, rfl, fun checks => ?_⟩, h.behind hb hseq c,
        abreast_behind hx hseq hpos rest fun s hs c' hc' => ?_⟩
      · obtain ⟨s, hs⟩ := Option.isSome_iff_exists.1 checks
        exact (cursor_of_check hc hs).1 (primed checks)
      · obtain ⟨c₀, hc₀⟩ := Option.isSome_iff_exists.1 (primed (by rw [hs]; rfl))
        have hstream : c₀.stream = r.stream := congrArg Cursor.stream (abreast s c₀ hs hc₀).2
        rw [(cursor_of_check hc hs).2 c₀ hc₀, hstream] at hc'
        exact (Option.some.inj hc').symm

section keeps

variable {σ α : Type} {R : Rules σ} {view : σ → InMemory} {known : Nat}

/-- The stream has had at least so many records since the reading began, and something else is
known that stays true. -/
structure Reading (P : σ → Prop) (view : σ → InMemory) (known : Nat) (r : Reader) (s : σ) :
    Prop where
  kept : P s
  stands : r.Stands known (view s).medium
  abreast : r.Abreast (view s).medium
  known_le : known ≤ ((view s).medium.records r.stream).length

theorem reading_reader {P : σ → Prop} {s : σ} (hs : P s) (log : Log) {stream : String}
    (known_le : known ≤ ((view s).medium.records stream).length) (start batch : Nat) :
    Reading P view known (log.reader stream start batch) s :=
  ⟨hs, stands_reader .., fun _ _ _ hc => absurd hc (by simp [Log.reader]), known_le⟩

/-- With the cursor behind the last record before its position the reader is where it was. -/
theorem Reading.follow {P : σ → Prop} {r : Reader} {s : σ} (h : Reading P view known r s)
    (hle : r.next - 1 ≤ ((view s).medium.records r.stream).length) {c : Cursor}
    (hc : c = ⟨r.stream, Head.empty.after (((view s).medium.records r.stream).take (r.next - 1))⟩) :
    Reading P view known { r with cursor? := some c } s where
  kept := h.kept
  stands := { h.stands with }
  abreast _ _ _ hc' := ⟨hle, (Option.some.inj hc').symm.trans hc⟩
  known_le := h.known_le

/-- Records are only ever added, and the streams stand in order. -/
structure Grows (R : Rules σ) (view : σ → InMemory) : Prop extends R.Shows view where
  within {s s' : σ} : R.rely s s' → (view s).medium.Within (view s').medium
  orderly {s : σ} : R.holds s → (view s).medium.Orderly

theorem Reading.stable (hg : Grows R view) {P : σ → Prop} (stable : R.Stable P) (known : Nat)
    (r : Reader) :
    R.Stable (Reading P view known r) := by
  intro s s' h hr hs
  have hw := hg.within hr
  exact ⟨stable h.kept hr hs, h.stands.within hw, h.abreast.within hw,
    Nat.le_trans h.known_le (hw.length_le _)⟩

/-- The record at a position stays where it is, whoever goes on storing. -/
theorem Grows.stable_getElem? (hg : Grows R view) (stream : String) (i : Nat) (x : Record) :
    R.Stable fun s => ((view s).medium.records stream)[i]? = some x :=
  fun _ _ hx hr _ => (hg.within hr).getElem? hx

/-- The medium has been out of reach at a moment at which `P` was true. -/
def Outage (R : Rules σ) (P : σ → Prop) (view : σ → InMemory) : Prop :=
  ∃ s, P s ∧ R.holds s ∧ (view s).medium.available = false

/-- Why a reader has failed when it had handed out so many records. -/
inductive Mishap (R : Rules σ) (P : σ → Prop) (view : σ → InMemory) (known : Nat) (r : Reader)
    (s : σ) : Nat → StoreError → Prop
  | outage {k : Nat} (out : Outage R P view) : Mishap R P view known r s k Memory.outage
  /-- There is a record with a hash that is not that of its own fields. -/
  | forged {k : Nat} {e : StoreError} {sealer : Sealer} {x : Record} (checks : r.sealer? = some sealer)
      (mem : x ∈ (view s).medium.records r.stream) (bad : ¬ sealer.Sealed x) :
      Mishap R P view known r s k e
  /-- Others have taken the stream past the start of the reader while it was looking for its
  cursor. -/
  | overtaken {n : Nat} (unprimed : ¬ r.Primed) (beyond : known < r.next - 1)
      (reached : r.next - 1 ≤ n) (le : n ≤ ((view s).medium.records r.stream).length) :
      Mishap R P view known r s 0 (.integrity (.sequenceGap r.stream (r.next - 1) n))

theorem Mishap.stable (hg : Grows R view) (P : σ → Prop) (known : Nat) (r : Reader) (k : Nat)
    (e : StoreError) : R.Stable fun s => Mishap R P view known r s k e := by
  intro s s' h hr _
  have hw := hg.within hr
  cases h with
  | outage out => exact .outage out
  | forged checks mem bad =>
    obtain ⟨i, hi⟩ := List.mem_iff_getElem?.1 mem
    exact .forged checks (List.mem_of_getElem? (hw.getElem? hi)) bad
  | overtaken unprimed beyond reached le =>
    exact .overtaken unprimed beyond reached (Nat.le_trans le (hw.length_le _))

theorem Mishap.mono {P P' : σ → Prop} {r : Reader} {s : σ} {k : Nat} {e : StoreError}
    (h : Mishap R P' view known r s k e) (weaker : ∀ s, P' s → P s) :
    Mishap R P view known r s k e := by
  cases h with
  | outage out => exact .outage (out.imp fun s ho => ⟨weaker s ho.1, ho.2⟩)
  | forged checks mem bad => exact .forged checks mem bad
  | overtaken unprimed beyond reached le => exact .overtaken unprimed beyond reached le

/-- A reader that has come by here and had its cursor has failed for a reason that counts here. -/
theorem Mishap.of_primed {P : σ → Prop} {r r' : Reader} {s : σ} {k k' : Nat} {e : StoreError}
    (stream : r'.stream = r.stream) (sealer : r'.sealer? = r.sealer?) (primed : r'.Primed)
    (h : Mishap R P view known r' s k e) : Mishap R P view known r s k' e := by
  cases h with
  | outage out => exact .outage out
  | forged checks mem bad => exact .forged (sealer ▸ checks) (stream ▸ mem) bad
  | overtaken unprimed => exact absurd primed unprimed

/-! ## Getting a cursor -/

/-- The record before the start, in its place, gives the cursor if it is sealed. -/
theorem anchor_eq {m : Memory} (ho : m.Orderly) {stream : String} {boundary : Nat} {p : Record}
    (hpos : 0 < boundary) (hp : (m.records stream)[boundary - 1]? = some p) (sealer : Sealer) :
    (sealer.Sealed p → anchor sealer stream boundary p =
        .ok ⟨stream, Head.empty.after ((m.records stream).take boundary)⟩) ∧
      ∀ c, anchor sealer stream boundary p = .ok c →
        c = ⟨stream, Head.empty.after ((m.records stream).take boundary)⟩ := by
  obtain ⟨hstream, hseq⟩ := ho.sequence hp
  have hboundary : p.sequence = boundary := by omega
  have hafter : Head.empty.after ((m.records stream).take boundary) = p.head := by
    obtain ⟨i, rfl⟩ := Nat.exists_eq_succ_of_ne_zero (Nat.ne_of_gt hpos)
    rw [Nat.succ_eq_add_one, Nat.add_sub_cancel] at hp
    rw [Nat.succ_eq_add_one, List.take_add_one, hp, Head.after_append]
    rfl
  rw [hafter]
  have hanchor : anchor sealer stream boundary p =
      if sealer.accepts p p.previous = false then .error (.hashMismatch stream p.sequence)
      else .ok ⟨stream, p.head⟩ := by
    unfold anchor
    rw [if_neg (by simpa using hboundary)]
    simp only [hstream, ne_eq, not_true, false_or]
    rfl
  rw [hanchor]
  constructor
  · intro sealed
    have haccepts : sealer.accepts p p.previous = true := by
      rw [Sealer.accepts, ← show p.hash = _ from sealed]
      simp
    rw [if_neg (by simp [haccepts])]
  · intro c hc
    split at hc
    · simp at hc
    · exact (Except.ok.inj hc).symm

/-- Where no record is found before the start, the stream ends before it, or others have just taken
it there. -/
theorem keeps_findAnchor (hg : Grows R view) {P : σ → Prop} (stable : R.Stable P) {r : Reader}
    {s : σ} (h : Reading P view known r s) {sealer : Sealer} (checks : r.sealer? = some sealer)
    (unprimed : r.cursor? = none) (later : r.next ≠ 1) :
    (findAnchor sealer r.stream (r.next - 1)).Keeps R
      (fun res s' => match res with
        | .ok (some c) => Reading P view known { r with cursor? := some c } s'
        | .ok none => P s' ∧ known ≤ r.next - 1
        | .error e => P s' ∧ Mishap R P view known r s' 0 e) s := by
  have st := Reading.stable hg stable known r
  have hpos : 0 < r.next - 1 := by
    have := h.stands.next_pos
    omega
  have failing {e : StoreError} {s : σ} (h : Reading P view known r s)
      (mishap : Mishap R P view known r s 0 e) :
      (pure (.error e) : Dialogue (Except StoreError (Option Cursor))).Keeps R
        (fun res s' => match res with
          | .ok (some c) => Reading P view known { r with cursor? := some c } s'
          | .ok none => P s' ∧ known ≤ r.next - 1
          | .error e => P s' ∧ Mishap R P view known r s' 0 e) s :=
    .pure (stable.and (Mishap.stable hg P known r 0 e)) ⟨h.kept, mishap⟩ fun _ _ h => h
  unfold findAnchor
  refine .look_bind hg.toShows rfl st h fun s₁ hi₁ h₁ => ?_
  dsimp only [InMemory.answer, Memory.readPage]
  by_cases ha : (view s₁).medium.available
  · rw [if_pos ha]
    rw [Memory.slice_eq]
    cases hp : ((view s₁).medium.records r.stream)[r.next - 1 - 1]? with
    | some p =>
      rw [drop_eq_cons hp, List.take_succ_cons]
      dsimp only
      have hanchor := anchor_eq (hg.orderly hi₁) hpos hp sealer
      cases hc : anchor sealer r.stream (r.next - 1) p with
      | error e =>
        refine failing h₁ (.forged checks (List.mem_of_getElem? hp) fun sealed => ?_)
        rw [hanchor.1 sealed] at hc
        simp at hc
      | ok c =>
        obtain rfl := hanchor.2 c hc
        have hlt := (List.getElem?_eq_some_iff.1 hp).1
        exact .pure (Reading.stable hg stable known _) (h₁.follow (by omega) rfl) fun _ _ h => h
    | none =>
      have hle := List.getElem?_eq_none_iff.1 hp
      have hknown := h₁.known_le
      rw [List.drop_eq_nil_of_le hle, List.take_nil]
      dsimp only
      -- From here on the stream may get as far as the start.
      refine .look_bind hg.toShows rfl st h₁ fun s₂ hi₂ h₂ => ?_
      dsimp only [InMemory.answer, Memory.readHead]
      by_cases ha₂ : (view s₂).medium.available
      · rw [if_pos ha₂]
        dsimp only
        have hversion := (hg.orderly hi₂).version_head r.stream
        by_cases hv : ((view s₂).medium.head r.stream).version < r.next - 1
        · rw [if_pos hv]
          exact .pure stable h₂.kept fun _ _ hp => ⟨hp, by omega⟩
        · rw [if_neg hv]
          refine failing h₂ (.overtaken (fun hp => ?_) (by omega) (by omega) (by omega))
          have := hp (by rw [checks]; rfl)
          rw [unprimed] at this
          simp at this
      · rw [if_neg ha₂]
        exact failing h₂ (.outage ⟨s₂, h₂.kept, hi₂, by simpa using ha₂⟩)
  · rw [if_neg ha]
    exact failing h₁ (.outage ⟨s₁, h₁.kept, hi₁, by simpa using ha⟩)

/-- Only the cursor changes when a reader that checks the chain gets one. -/
theorem keeps_prime (hg : Grows R view) {P : σ → Prop} (stable : R.Stable P) {r : Reader} {s : σ}
    (h : Reading P view known r s) :
    r.prime.Keeps R
      (fun res s' => match res with
        | .ok (some r') => r' = { r with cursor? := r'.cursor? } ∧ r'.Primed ∧
            Reading P view known r' s'
        | .ok none => P s' ∧ known ≤ r.next - 1
        | .error e => P s' ∧ Mishap R P view known r s' 0 e) s := by
  have st := Reading.stable hg stable known r
  unfold prime
  split
  · next sealer hs hc =>
    by_cases hn : r.next = 1
    · rw [if_pos hn]
      refine .pure st h fun s' _ h' => ⟨rfl, fun _ => rfl, h'.follow (by omega) ?_⟩
      rw [show r.next - 1 = 0 by omega]
      rfl
    · rw [if_neg hn]
      refine .bind ((keeps_findAnchor hg stable h hs hc hn).mono fun res s₁ _ hres => ?_)
      cases res with
      | error e =>
        exact .pure (stable.and (Mishap.stable hg P known r 0 e)) hres fun _ _ h => h
      | ok found =>
        cases found with
        | none => exact .pure stable hres.1 fun s' _ hp => ⟨hp, hres.2⟩
        | some c =>
          exact .pure (Reading.stable hg stable known _) hres fun s' _ h' =>
            ⟨rfl, fun _ => rfl, h'⟩
  · next hs =>
    refine .pure st h fun _ _ h' => ⟨rfl, fun checks => ?_, h'⟩
    obtain ⟨sealer, hsealer⟩ := Option.isSome_iff_exists.1 checks
    cases hc : r.cursor? with
    | none => exact (hs sealer hsealer hc).elim
    | some c => rfl

/-! ## Step by step -/

/-- After a fetch the buffer is empty only if the stream had no more. -/
theorem keeps_fill (hg : Grows R view) {P : σ → Prop} (stable : R.Stable P) {r : Reader} {s : σ}
    (h : Reading P view known r s) :
    r.fill.Keeps R
      (fun res s' => match res with
        | .ok r' => r' = { r with buffer := r'.buffer, exhausted := r'.exhausted } ∧
            (r'.buffer = [] → r'.exhausted = true) ∧ Reading P view known r' s'
        | .error e => P s' ∧ Mishap R P view known r s' 0 e) s := by
  have st := Reading.stable hg stable known r
  unfold fill
  by_cases hb : (r.buffer.isEmpty && !r.exhausted) = true
  · rw [if_pos hb]
    refine .look_bind hg.toShows rfl st h fun s₁ hi₁ h₁ => ?_
    dsimp only [InMemory.answer, Memory.readPage]
    by_cases ha : (view s₁).medium.available
    · rw [if_pos ha]
      have h₂ : Reading P view known
          { r with buffer := Memory.slice r.next r.batch ((view s₁).medium.records r.stream),
                   exhausted := decide ((Memory.slice r.next r.batch
                     ((view s₁).medium.records r.stream)).length < r.batch) } s₁ := by
        refine ⟨h₁.kept, ⟨h₁.stands.running, h₁.stands.next_pos, h₁.stands.batch_pos, ?_, ?_⟩,
          h₁.abreast, h₁.known_le⟩
        · rw [Memory.slice_eq]
          exact List.take_prefix ..
        · -- A page that is not full was the end of the stream at that moment.
          intro hlt
          have hlt' := of_decide_eq_true hlt
          have := h₁.known_le
          rw [Memory.slice_eq, List.length_take, List.length_drop] at hlt' ⊢
          show known ≤ r.next - 1 + _
          omega
      refine .pure (Reading.stable hg stable _ _) h₂ fun s' _ h' => ⟨rfl, fun he => ?_, h'⟩
      have hpos := h₁.stands.batch_pos
      show decide (_ < r.batch) = true
      rw [show Memory.slice r.next r.batch ((view s₁).medium.records r.stream) = [] from he]
      exact decide_eq_true hpos
    · rw [if_neg ha]
      exact .pure st h₁ fun _ _ h' =>
        ⟨h'.kept, .outage ⟨s₁, h₁.kept, hi₁, by simpa using ha⟩⟩
  · rw [if_neg hb]
    refine .pure st h fun _ _ h' => ⟨rfl, fun he => ?_, h'⟩
    simpa [he] using hb

/-- What is known after one step of a reader. -/
def Stepped (R : Rules σ) (P : σ → Prop) (view : σ → InMemory) (known : Nat) (r : Reader) :
    Item × Reader → σ → Prop
  | (.ended, _), s => P s ∧ known ≤ r.next - 1
  | (.failed e, _), s => P s ∧ Mishap R P view known r s 0 e
  | (.record x, r'), s => ((view s).medium.records r.stream)[r.next - 1]? = some x ∧ r.Moves r' ∧
      Reading P view known r' s

theorem keeps_step (hg : Grows R view) {P : σ → Prop} (stable : R.Stable P) {r : Reader} {s : σ}
    (h : Reading P view known r s) : r.step.Keeps R (Stepped R P view known r) s := by
  unfold step
  rw [if_neg (by rw [h.stands.running]; simp)]
  refine .bind ((keeps_prime hg stable h).mono fun res s₁ _ hres => ?_)
  cases res with
  | error e => exact .pure (stable.and (Mishap.stable hg P known r 0 e)) hres fun _ _ h => h
  | ok primed =>
    cases primed with
    | none => exact .pure stable hres.1 fun _ _ hp => ⟨hp, hres.2⟩
    | some r₁ =>
      obtain ⟨hr₁, primed, h₁⟩ := hres
      have stream₁ : r₁.stream = r.stream := by rw [hr₁]
      have sealer₁ : r₁.sealer? = r.sealer? := by rw [hr₁]
      have next₁ : r₁.next = r.next := by rw [hr₁]
      refine .bind ((keeps_fill hg stable h₁).mono fun res s₂ _ hres => ?_)
      cases res with
      | error e =>
        exact .pure (stable.and (Mishap.stable hg P known r 0 e))
          ⟨hres.1, hres.2.of_primed stream₁ sealer₁ primed⟩ fun _ _ h => h
      | ok r₂ =>
        obtain ⟨hr₂, full, h₂⟩ := hres
        have stream₂ : r₂.stream = r.stream := by rw [hr₂]; exact stream₁
        have sealer₂ : r₂.sealer? = r.sealer? := by rw [hr₂]; exact sealer₁
        have next₂ : r₂.next = r.next := by rw [hr₂]; exact next₁
        have primed₂ : r₂.Primed := by rw [hr₂]; exact primed
        refine .pure (Reading.stable hg stable _ r₂) h₂ fun s₃ hi₃ h₃ => ?_
        have ht := h₃.stands.take h₃.abreast primed₂ (hg.orderly hi₃) full
        rw [next₂, stream₂] at ht
        cases htake : r₂.take with
        | mk item r₃ =>
          rw [htake] at ht
          cases item with
          | ended => exact ⟨h₃.kept, ht⟩
          | failed e =>
            obtain ⟨sealer, x, checks, mem, bad⟩ := ht
            exact ⟨h₃.kept, .forged (sealer₂ ▸ checks) mem bad⟩
          | record x =>
            obtain ⟨hx, moves, stands, abreast⟩ := ht
            have stream₃ : r₃.stream = r.stream := moves.stream.trans stream₂
            refine ⟨hx, ⟨stream₃, by rw [moves.next, next₂], moves.sealer.trans sealer₂,
              moves.primed⟩, h₃.kept, stands, abreast, ?_⟩
            rw [stream₃, ← stream₂]
            exact h₃.known_le

/-! ## All the way -/

/-- What has become of a state to which a reader has handed records, and why that has stopped: the
state has taken a stretch of the stream. -/
structure HandedOut (R : Rules σ) (P : σ → Prop) (view : σ → InMemory) (known : Nat) {τ ε : Type}
    (take : τ → Record → Except ε τ) (bound : Nat) (r : Reader) (t : τ) (res : τ × Stop ε)
    (s : σ) : Prop where
  kept : P s
  taken : ∃ rs, rs <+: ((view s).medium.records r.stream).drop (r.next - 1) ∧
    rs.foldlM take t = .ok res.1 ∧
    match res.2 with
    | .ended => rs.length = bound ∨ known ≤ r.next - 1 + rs.length
    | .failed e => Mishap R P view known r s rs.length e
    | .refused e => ∃ x, ((view s).medium.records r.stream)[r.next - 1 + rs.length]? = some x ∧
        take res.1 x = .error e

/-- Nothing has been taken yet. -/
theorem HandedOut.nothing {τ ε : Type} {take : τ → Record → Except ε τ} {bound : Nat}
    {P : σ → Prop} {r : Reader} {t : τ} {stop : Stop ε} {s : σ} (kept : P s)
    (stopped : match stop with
      | .ended => 0 = bound ∨ known ≤ r.next - 1
      | .failed e => Mishap R P view known r s 0 e
      | .refused e => ∃ x, ((view s).medium.records r.stream)[r.next - 1]? = some x ∧
          take t x = .error e) :
    HandedOut R P view known take bound r t (t, stop) s :=
  ⟨kept, [], List.nil_prefix, rfl, stopped⟩

/-- One record has been taken, and then what the reader handed out behind it.  That the record is
there lasts, so it is known at any outage. -/
theorem HandedOut.cons {τ ε : Type} {take : τ → Record → Except ε τ} {bound : Nat} {P : σ → Prop}
    {r r₁ : Reader} {t t₁ : τ} {res : τ × Stop ε} {s : σ} {x : Record} (hpos : 1 ≤ r.next)
    (moves : r.Moves r₁) (ht : take t x = .ok t₁)
    (h : HandedOut R (fun s => P s ∧ ((view s).medium.records r.stream)[r.next - 1]? = some x) view
      known take bound r₁ t₁ res s) :
    HandedOut R P view known take (bound + 1) r t res s := by
  obtain ⟨⟨hp, hx⟩, rs, hrs, hfold, hstop⟩ := h
  rw [moves.stream, moves.next, Nat.add_sub_cancel] at hrs
  have hnext : r₁.next - 1 + rs.length = r.next - 1 + (rs.length + 1) := by
    rw [moves.next]
    omega
  refine ⟨hp, x :: rs, ?_, ?_, ?_⟩
  · rw [drop_eq_cons hx, show r.next - 1 + 1 = r.next by omega]
    exact List.cons_prefix_cons.2 ⟨rfl, hrs⟩
  · rw [List.foldlM_cons, ht]
    exact hfold
  · obtain ⟨t₂, stop⟩ := res
    rw [List.length_cons]
    cases stop with
    | ended => exact hstop.imp (congrArg (· + 1)) (hnext ▸ ·)
    | failed e =>
      have hstop : Mishap R _ view known r₁ s rs.length e := hstop
      exact (hstop.of_primed moves.stream moves.sealer moves.primed).mono fun _ h => h.1
    | refused e =>
      obtain ⟨y, hy, hte⟩ := hstop
      rw [moves.stream, hnext] at hy
      exact ⟨y, hy, hte⟩

theorem keeps_runWithin (hg : Grows R view) {τ ε : Type} (take : τ → Record → Except ε τ)
    (bound : Nat) {P : σ → Prop} (stable : R.Stable P) {r : Reader} {t : τ} {s : σ}
    (h : Reading P view known r s) :
    (runWithin take bound t r).Keeps R (HandedOut R P view known take bound r t) s := by
  -- `P` varies: the record that has been taken is added to what is known.
  induction bound generalizing P r t s with
  | zero =>
    exact .pure (Reading.stable hg stable _ r) h fun s' _ h' => .nothing h'.kept (.inl rfl)
  | succ bound ih =>
    unfold runWithin
    refine .bind ((keeps_step hg stable h).mono fun res s₁ _ hres => ?_)
    obtain ⟨item, r₁⟩ := res
    cases item with
    | ended =>
      exact .pure (stable.and Rules.Stable.const) hres fun s' _ h' => .nothing h'.1 (.inr h'.2)
    | failed e =>
      exact .pure (stable.and (Mishap.stable hg P known r 0 e)) hres fun s' _ h' =>
        .nothing h'.1 h'.2
    | record x =>
      obtain ⟨hx, moves, h₁⟩ := hres
      have st := stable.and (hg.stable_getElem? r.stream (r.next - 1) x)
      cases ht : take t x with
      | error e =>
        simp only [ht]
        exact .pure st ⟨h₁.kept, hx⟩ fun s' _ h' => .nothing h'.1 ⟨x, h'.2, ht⟩
      | ok t₁ =>
        simp only [ht]
        refine (ih st ⟨⟨h₁.kept, hx⟩, h₁.stands, h₁.abreast, h₁.known_le⟩).mono
          fun res s₂ _ h₂ => ?_
        exact h₂.cons h.stands.next_pos moves ht

/-! ## A list of what has been handed out -/

theorem foldlM_collect (rs done : List Record) :
    rs.foldlM collect done = .ok (rs.reverse ++ done) := by
  induction rs generalizing done with
  | nil => rfl
  | cons x rest ih =>
    rw [List.foldlM_cons, List.reverse_cons, List.append_assoc]
    exact ih (x :: done)

/-- What a reader has listed, and the error that ended it, if one did. -/
structure Listed (R : Rules σ) (P : σ → Prop) (view : σ → InMemory) (known : Nat) (r : Reader)
    (res : List Record × Option StoreError) (s : σ) : Prop where
  kept : P s
  stretch : res.1 <+: ((view s).medium.records r.stream).drop (r.next - 1)
  all : res.2 = none → res.1.length = positions ∨ known ≤ r.next - 1 + res.1.length
  failed : ∀ e, res.2 = some e → Mishap R P view known r s res.1.length e

theorem Listed.stable (hg : Grows R view) {P : σ → Prop} (stable : R.Stable P) (known : Nat)
    (r : Reader) (res : List Record × Option StoreError) :
    R.Stable (Listed R P view known r res) :=
  fun _ _ h hr hs => ⟨stable h.kept hr hs, h.stretch.trans ((hg.within hr).drop ..), h.all,
    fun e he => Mishap.stable hg P known r _ e (h.failed e he) hr hs⟩

theorem keeps_toList (hg : Grows R view) {P : σ → Prop} (stable : R.Stable P) {r : Reader} {s : σ}
    (h : Reading P view known r s) : r.toList.Keeps R (Listed R P view known r) s := by
  refine .bind ((keeps_runWithin hg collect positions stable h).mono fun res s₁ _ hres => ?_)
  obtain ⟨kept, rs, stretch, hfold, hstop⟩ := hres
  rw [foldlM_collect, List.append_nil] at hfold
  have listed {e? : Option StoreError} (all : e? = none → rs.length = positions ∨
        known ≤ r.next - 1 + rs.length)
      (failed : ∀ e, e? = some e → Mishap R P view known r s₁ rs.length e) :
      (pure (rs, e?) : Dialogue _).Keeps R (Listed R P view known r) s₁ :=
    .pure (Listed.stable hg stable known r (rs, e?)) ⟨kept, stretch, all, failed⟩ fun _ _ h => h
  obtain ⟨done, stop⟩ := res
  obtain rfl : rs.reverse = done := Except.ok.inj hfold
  cases stop with
  | ended =>
    dsimp only
    rw [List.reverse_reverse]
    exact listed (fun _ => hstop) (by simp)
  | failed e =>
    dsimp only
    rw [List.reverse_reverse]
    exact listed (by simp) fun e' he => Option.some.inj he ▸ hstop
  | refused e =>
    obtain ⟨x, -, hx⟩ := hstop
    simp [collect] at hx

end keeps

end Reader

end TransferLedger

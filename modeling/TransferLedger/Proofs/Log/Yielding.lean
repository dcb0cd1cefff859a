import TransferLedger.Proofs.Chain.Following
import TransferLedger.Proofs.Dialogue.Quiet
import TransferLedger.Proofs.Log.Reading

/-!
# What a reader yields in peace

Where nobody else is there, what a reader hands out is settled by what is stored, however it is cut
into pages.  `Reader.Yields w r items` says that the reader, asked for one record after the other,
hands out these items and is at its end then for good.

A reader makes one thing of the records behind its position, without regard to pages
(`Reader.offers`): it hands out those that pass its check, and an error in the place of the first
that does not.  That is what it yields (`Ready.yields`).  Nothing is asked of the records, so this
is true of a stream that somebody has tampered with, too, and wherever a reader starts there
(`Log.exists_yields`).  Of linked records all are yielded (`Log.yields_of_linked`), and of others
those before the one that breaks the chain (`Log.yields_of_breaksAt`).
-/

set_option autoImplicit false

namespace TransferLedger

namespace Reader

/-- In these surroundings the reader hands out these items one by one, and is at its end then. -/
inductive Yields (w : InMemory) : Reader → List Item → Prop
  | ended {r r' : Reader} (step : r.step.run w = ((.ended, r'), w)) (finished : r'.done = true) :
      Yields w r []
  | failed {r r' : Reader} {e : StoreError} (step : r.step.run w = ((.failed e, r'), w))
      (finished : r'.done = true) : Yields w r [.failed e]
  | record {r r' : Reader} {x : Record} {items : List Item}
      (step : r.step.run w = ((.record x, r'), w)) (rest : Yields w r' items) :
      Yields w r (.record x :: items)

variable {w : InMemory} {r r' : Reader} {items : List Item}

/-- It is all in the first step. -/
theorem Yields.of_step (h : r.step.run w = r'.step.run w) (hy : r'.Yields w items) :
    r.Yields w items := by
  cases hy with
  | ended step finished => exact .ended (h.trans step) finished
  | failed step finished => exact .failed (h.trans step) finished
  | record step rest => exact .record (h.trans step) rest

/-- What a reader yields is settled. -/
theorem Yields.unique {items' : List Item} (h : r.Yields w items) (h' : r.Yields w items') :
    items = items' := by
  induction h generalizing items' with
  | ended step finished =>
    cases h' with
    | ended _ _ => rfl
    | failed step' _ => cases step.symm.trans step'
    | record step' _ => cases step.symm.trans step'
  | failed step finished =>
    cases h' with
    | ended step' _ => cases step.symm.trans step'
    | failed step' _ =>
      cases step.symm.trans step'
      rfl
    | record step' _ => cases step.symm.trans step'
  | record step rest ih =>
    cases h' with
    | ended step' _ => cases step.symm.trans step'
    | failed step' _ => cases step.symm.trans step'
    | record step' rest' =>
      cases step.symm.trans step'
      exact congrArg _ (ih rest')

theorem Yields.iff (h : r.Yields w items) (items' : List Item) :
    r.Yields w items' ↔ items' = items :=
  ⟨fun h' => h'.unique h, fun he => he ▸ h⟩

/-! ## Taking what a reader yields -/

/-- Hand the records among items one by one to `take`, until something stops that. -/
def handOut {σ ε : Type} (take : σ → Record → Except ε σ) : σ → List Item → σ × Stop ε
  | s, [] => (s, .ended)
  | s, .ended :: _ => (s, .ended)
  | s, .failed e :: _ => (s, .failed e)
  | s, .record x :: rest =>
    match take s x with
    | .error e => (s, .refused e)
    | .ok s => handOut take s rest

/-- A run takes what the reader yields, if it may take so much. -/
theorem Yields.runWithin {σ ε : Type} (hy : r.Yields w items) (take : σ → Record → Except ε σ)
    {bound : Nat} (enough : items.length ≤ bound) (s : σ) :
    (Reader.runWithin take bound s r).run w = (handOut take s items, w) := by
  induction hy generalizing bound s with
  | ended step finished =>
    cases bound with
    | zero => rfl
    | succ bound =>
      rw [Reader.runWithin, Dialogue.run_bind_of step]
      rfl
  | failed step finished =>
    obtain ⟨bound, rfl⟩ := Nat.exists_eq_add_of_le' enough
    rw [List.length_singleton, Reader.runWithin, Dialogue.run_bind_of step]
    rfl
  | @record r r' x items step rest ih =>
    obtain ⟨bound, rfl⟩ := Nat.exists_eq_add_of_le' (Nat.le_trans (Nat.le_add_left 1 _) enough)
    rw [Reader.runWithin, Dialogue.run_bind_of step, handOut]
    dsimp only
    cases ht : take s x with
    | error e => rfl
    | ok s' => exact ih (Nat.le_of_succ_le_succ enough) s'

/-- To hand out records is to take them one after the other. -/
theorem handOut_records {σ ε : Type} (take : σ → Record → Except ε σ) (s : σ) (rs : List Record)
    (more : List Item) :
    match rs.foldlM take s with
    | .ok s' => handOut take s (rs.map .record ++ more) = handOut take s' more
    | .error e => ∃ s', handOut take s (rs.map .record ++ more) = (s', .refused e) := by
  induction rs generalizing s with
  | nil => rfl
  | cons r rest ih =>
    rw [List.foldlM_cons, List.map_cons, List.cons_append, handOut]
    cases take s r with
    | error e => exact ⟨s, rfl⟩
    | ok s' => exact ih s'

/-- A run takes the records that the reader yields, up to the first that is refused, and then it
depends on what else the reader yields. -/
theorem Yields.run {σ ε : Type} {rs : List Record} {more : List Item}
    (hy : r.Yields w (rs.map .record ++ more)) (take : σ → Record → Except ε σ)
    (enough : (rs.map Item.record ++ more).length ≤ positions) (s : σ) :
    match rs.foldlM take s with
    | .ok s' => (r.run take s).run w = (handOut take s' more, w)
    | .error e => ∃ s', (r.run take s).run w = ((s', .refused e), w) := by
  have hrun : (r.run take s).run w = _ := hy.runWithin take enough s
  have hall := handOut_records take s rs more
  rw [hrun]
  cases hs : rs.foldlM take s with
  | ok s' =>
    rw [hs] at hall
    exact congrArg (·, w) hall
  | error e =>
    rw [hs] at hall
    obtain ⟨s', hs'⟩ := hall
    exact ⟨s', congrArg (·, w) hs'⟩

/-! ## What a reader makes of the records behind its position -/

/-- Those that pass the check are handed out, and in the place of the first that does not there is
an error. -/
def offers (r : Reader) : List Record → List Item
  | [] => []
  | x :: rest =>
    match r.check x with
    | .error e => [.failed (.integrity e)]
    | .ok c => .record x :: { r with cursor? := c, next := x.sequence + 1 }.offers rest

/-- The reader with another page at hand. -/
def withPage (r : Reader) (page : List Record) (last : Bool) : Reader :=
  { r with buffer := page, exhausted := last }

/-- Only the place of the reader and its check matter, not how it comes to its records. -/
theorem offers_congr (r r' : Reader) (stream : r'.stream = r.stream)
    (sealer : r'.sealer? = r.sealer?) (cursor : r'.cursor? = r.cursor?) (next : r'.next = r.next)
    (rs : List Record) : r'.offers rs = r.offers rs := by
  induction rs generalizing r r' with
  | nil => rfl
  | cons x rest ih =>
    have hcheck : r'.check x = r.check x := by
      rw [check, check, stream, sealer, cursor, next]
    rw [offers, offers, hcheck]
    cases r.check x with
    | error e => rfl
    | ok c => exact congrArg _ (ih { r with cursor? := c, next := x.sequence + 1 }
        { r' with cursor? := c, next := x.sequence + 1 } stream sealer rfl rfl)

theorem offers_withPage (r : Reader) (page : List Record) (last : Bool) (rs : List Record) :
    (r.withPage page last).offers rs = r.offers rs :=
  offers_congr r (r.withPage page last) rfl rfl rfl rfl rs

theorem length_offers_le (r : Reader) (rs : List Record) : (r.offers rs).length ≤ rs.length := by
  induction rs generalizing r with
  | nil => exact Nat.le_refl _
  | cons x rest ih =>
    rw [offers]
    cases r.check x with
    | error e => exact Nat.le_add_left ..
    | ok c => exact Nat.succ_le_succ (ih _)

/-- A reader in its place, with the cursor that it needs if it checks the chain. -/
structure Ready (r : Reader) (m : Memory) : Prop where
  stands : r.Stands (m.records r.stream).length m
  primed : r.sealer?.isSome = true → ∃ h : Head, r.cursor? = some ⟨r.stream, h⟩ ∧
    r.next = h.version + 1

/-- What passes the check is the record at the reader's position, and the cursor goes along. -/
theorem Ready.check_ok {m : Memory} (h : r.Ready m) {x : Record} {c : Option Cursor}
    (hc : r.check x = .ok c) : x.sequence = r.next ∧
      (r.sealer?.isSome = true → c = some ⟨r.stream, x.head⟩) := by
  unfold check at hc
  cases hs : r.sealer? with
  | none =>
    rw [hs] at hc
    dsimp only at hc
    split at hc
    · next hx => exact ⟨hx, by simp⟩
    · simp at hc
  | some s =>
    obtain ⟨g, hg, hn⟩ := h.primed (by rw [hs]; rfl)
    rw [hs, hg] at hc
    simp only [Cursor.advance, Cursor.version] at hc
    -- Whatever the cursor refuses is an error.
    split at hc
    · simp [Except.map] at hc
    · next hv =>
      split at hc
      · simp [Except.map] at hc
      · split at hc
        · simp [Except.map] at hc
        · exact ⟨by rw [hn]; simpa using hv, fun _ => (Except.ok.inj hc).symm⟩

theorem Ready.run_prime (h : r.Ready w.medium) : r.prime.run w = (.ok (some r), w) := by
  unfold prime
  split
  · next s hs hc =>
    obtain ⟨g, hg, -⟩ := h.primed (by rw [hs]; rfl)
    rw [hc] at hg
    simp at hg
  · rfl

/-- A reader that is ready has a page at hand once it has fetched one if it needed to, and an empty
one only behind the last. -/
theorem Ready.run_fill (available : w.medium.available = true) (h : r.Ready w.medium) :
    ∃ page last, r.fill.run w = (.ok (r.withPage page last), w) ∧
      (r.withPage page last).Ready w.medium ∧ (page = [] → last = true) := by
  unfold fill
  by_cases hb : (r.buffer.isEmpty && !r.exhausted) = true
  · rw [if_pos hb]
    rw [Dialogue.run_bind_of (Dialogue.run_page available r.stream r.next r.batch)]
    refine ⟨_, _, rfl, ⟨⟨h.stands.running, h.stands.next_pos, h.stands.batch_pos,
      List.take_prefix .., fun hlt => ?_⟩, h.primed⟩, fun he => ?_⟩
    · have hlt' := of_decide_eq_true hlt
      rw [List.length_take, List.length_drop] at hlt'
      show (w.medium.records r.stream).length ≤ r.next - 1 + (List.take _ _).length
      rw [List.length_take, List.length_drop]
      omega
    · rw [he]
      exact decide_eq_true h.stands.batch_pos
  · rw [if_neg hb]
    exact ⟨r.buffer, r.exhausted, rfl, h, fun he => by simpa [he] using hb⟩

/-- A reader that is ready looks at its page. -/
theorem Ready.run_step (available : w.medium.available = true) (h : r.Ready w.medium) :
    ∃ page last, r.step.run w = ((r.withPage page last).take, w) ∧
      (r.withPage page last).Ready w.medium ∧ (page = [] → last = true) := by
  obtain ⟨page, last, hfill, h', full⟩ := h.run_fill available
  refine ⟨page, last, ?_, h', full⟩
  rw [step, if_neg (by rw [h.stands.running]; simp), Dialogue.run_bind_of h.run_prime]
  dsimp only
  rw [Dialogue.run_bind_of hfill]
  rfl

/-- The records behind a reader's position. -/
def behind (r : Reader) (m : Memory) : List Record :=
  (m.records r.stream).drop (r.next - 1)

/-- A reader that is ready yields what it makes of the records behind its position. -/
theorem Ready.yields (available : w.medium.available = true) (h : r.Ready w.medium) :
    r.Yields w (r.offers (r.behind w.medium)) := by
  generalize hrs : r.behind w.medium = rs
  induction rs generalizing r with
  | nil =>
    obtain ⟨page, last, hstep, h', -⟩ := h.run_step available
    obtain rfl : page = [] := List.prefix_nil.1 (hrs ▸ h'.stands.buffered)
    exact .ended hstep rfl
  | cons x rest ih =>
    obtain ⟨page, last, hstep, h', full⟩ := h.run_step available
    have hx : (w.medium.records r.stream)[r.next - 1]? = some x := by
      have := congrArg (·[0]?) hrs
      simpa [behind, List.getElem?_drop] using this
    cases page with
    | nil =>
      -- An empty page that is the last one leaves no record behind the position.
      have hk := h'.stands.exhausted (full rfl)
      exact absurd (List.getElem?_eq_some_iff.1 hx).1 (Nat.not_lt.2 hk)
    | cons y page =>
      obtain rfl : y = x := Option.some.inj ((h'.stands.first rfl).symm.trans hx)
      have hcheck : (r.withPage (y :: page) last).check y = r.check y := rfl
      simp only [take, withPage] at hstep
      rw [offers]
      cases hc : r.check y with
      | error e =>
        rw [withPage, hc] at hcheck
        simp only [hcheck] at hstep
        exact .failed hstep rfl
      | ok c =>
        rw [withPage, hc] at hcheck
        simp only [hcheck] at hstep
        obtain ⟨hseq, hcur⟩ := h.check_ok hc
        refine .record hstep ?_
        have hnext : Reader.behind { r with cursor? := c, next := y.sequence + 1 } w.medium =
            rest := by
          have := congrArg (·.drop 1) hrs
          simp only [behind, List.drop_drop, List.drop_one, List.tail_cons] at this
          rw [← this, behind]
          show (w.medium.records r.stream).drop (y.sequence + 1 - 1) = _
          have := h.stands.next_pos
          rw [hseq]
          congr 1
          omega
        have := ih (r := Reader.withPage { r with cursor? := c, next := y.sequence + 1 } page last)
          ⟨h'.stands.behind rfl hseq c, fun hs => ⟨y.head, hcur hs, rfl⟩⟩ hnext
        rwa [offers_withPage] at this

/-! ## Getting a cursor -/

/-- A reader yields what it yields once it has its cursor. -/
theorem Ready.yields_of_prime (available : w.medium.available = true) (running : r.done = false)
    (hp : r.prime.run w = (.ok (some r'), w)) (h : r'.Ready w.medium) :
    r.Yields w (r'.offers (r'.behind w.medium)) := by
  refine Yields.of_step ?_ (h.yields available)
  rw [step, step, if_neg (by rw [running]; simp), if_neg (by rw [h.stands.running]; simp),
    Dialogue.run_bind_of hp, Dialogue.run_bind_of h.run_prime]

theorem yields_of_prime_error (running : r.done = false) {e : StoreError}
    (hp : r.prime.run w = (.error e, w)) : r.Yields w [.failed e] := by
  have stepped : r.step.run w = ((.failed e, r.finish), w) := by
    rw [step, if_neg (by rw [running]; simp), Dialogue.run_bind_of hp]
    rfl
  exact .failed stepped rfl

theorem yields_of_prime_none (running : r.done = false) (hp : r.prime.run w = (.ok none, w)) :
    r.Yields w [] := by
  have stepped : r.step.run w = ((.ended, r.finish), w) := by
    rw [step, if_neg (by rw [running]; simp), Dialogue.run_bind_of hp]
    rfl
  exact .ended stepped rfl

theorem run_prime_start {s : Sealer} (hs : r.sealer? = some s) (hc : r.cursor? = none)
    (first : r.next = 1) :
    r.prime.run w = (.ok (some { r with cursor? := some (.start r.stream) }), w) := by
  unfold prime
  simp only [hs, hc]
  rw [if_pos first]
  rfl

/-- Behind a record a reader takes up the chain from that record. -/
theorem run_prime_resume (available : w.medium.available = true) {s : Sealer} {p : Record}
    {boundary : Nat} (hs : r.sealer? = some s) (hc : r.cursor? = none)
    (later : r.next = boundary + 1) (hpos : 0 < boundary)
    (hp : (w.medium.records r.stream)[boundary - 1]? = some p) :
    r.prime.run w = (match anchor s r.stream boundary p with
      | .ok c => .ok (some { r with cursor? := some c })
      | .error e => .error (.integrity e), w) := by
  have hread : (Dialogue.page r.stream boundary 1).run w = (.ok [p], w) := by
    rw [Dialogue.run_page available, drop_eq_cons hp]
    rfl
  have hfind : (findAnchor s r.stream boundary).run w =
      (match anchor s r.stream boundary p with
        | .ok c => .ok (some c)
        | .error e => .error (.integrity e), w) := by
    rw [findAnchor, Dialogue.run_bind_of hread]
    dsimp only
    cases anchor s r.stream boundary p <;> rfl
  unfold prime
  simp only [hs, hc]
  rw [if_neg (by omega), show r.next - 1 = boundary by omega, Dialogue.run_bind_of hfind]
  cases anchor s r.stream boundary p <;> rfl

/-- Where there is no record before the start, the stream ends there, or it says that it does
not. -/
theorem run_prime_missing (available : w.medium.available = true) {s : Sealer} {boundary : Nat}
    (hs : r.sealer? = some s) (hc : r.cursor? = none) (later : r.next = boundary + 1)
    (hpos : 0 < boundary) (hp : (w.medium.records r.stream)[boundary - 1]? = none) :
    r.prime.run w = (if (w.medium.head r.stream).version < boundary then .ok none
      else .error (.integrity
        (.sequenceGap r.stream boundary (w.medium.head r.stream).version)), w) := by
  have hread : (Dialogue.page r.stream boundary 1).run w = (.ok [], w) := by
    rw [Dialogue.run_page available, List.drop_eq_nil_of_le (List.getElem?_eq_none_iff.1 hp)]
    rfl
  have hfind : (findAnchor s r.stream boundary).run w =
      (if (w.medium.head r.stream).version < boundary then .ok none
        else .error (.integrity
          (.sequenceGap r.stream boundary (w.medium.head r.stream).version)), w) := by
    rw [findAnchor, Dialogue.run_bind_of hread]
    dsimp only
    rw [Dialogue.run_bind_of (Dialogue.run_head available r.stream)]
    dsimp only
    split <;> rfl
  unfold prime
  simp only [hs, hc]
  rw [if_neg (by omega), show r.next - 1 = boundary by omega, Dialogue.run_bind_of hfind]
  by_cases hv : (w.medium.head r.stream).version < boundary
  · simp only [if_pos hv]
    rfl
  · simp only [if_neg hv]
    rfl

end Reader

/-- The chain can be taken up at this head: it is where the stream begins, or the head of a record
that is in its place and whose hash is right. -/
def Sealer.Anchored (s : Sealer) (stream : String) (rs : List Record) (h : Head) : Prop :=
  h = .empty ∨ ∃ p, 0 < h.version ∧ rs[h.version - 1]? = some p ∧ p.head = h ∧
    p.stream = stream ∧ s.Sealed p

namespace Log

variable {log : Log} {stream : String} {w : InMemory} {h : Head} {batch : Nat} {rs : List Record}

/-- A reader that has come to a head. -/
def readerBehind (log : Log) (stream : String) (h : Head) (batch : Nat) : Reader :=
  { log.reader stream (h.version + 1) batch with
    cursor? := if log.config.verifyOnRead then some ⟨stream, h⟩ else none }

/-- Where there is no position before the start, a reader starts at the first. -/
theorem reader_eq_behind (log : Log) (stream : String) (start batch : Nat) :
    log.reader stream start batch = log.reader stream (start - 1 + 1) batch := by
  rw [reader, reader, show max start 1 = max (start - 1 + 1) 1 by omega]

theorem next_readerBehind (log : Log) (stream : String) (h : Head) (batch : Nat) :
    (log.readerBehind stream h batch).next = h.version + 1 :=
  Nat.max_eq_left (Nat.succ_pos _)

theorem ready_readerBehind (log : Log) (stream : String) (h : Head) (batch : Nat) (m : Memory) :
    (log.readerBehind stream h batch).Ready m where
  stands := {
    running := rfl
    next_pos := Nat.le_max_right ..
    batch_pos := Nat.le_max_right ..
    buffered := List.nil_prefix
    exhausted := fun he => absurd he (by simp [readerBehind, reader]) }
  primed := fun hs => by
    refine ⟨h, ?_, next_readerBehind ..⟩
    cases hv : log.config.verifyOnRead with
    | true => exact if_pos hv
    | false => exact absurd hs (by simp [readerBehind, reader, hv])

theorem behind_readerBehind (log : Log) (stream : String) (h : Head) (batch : Nat) (m : Memory) :
    (log.readerBehind stream h batch).behind m = (m.records stream).drop h.version := by
  rw [Reader.behind, next_readerBehind, Nat.add_sub_cancel]
  rfl

/-- A reader gets its cursor at its start, if it does not check the chain or can take it up there. -/
theorem run_prime_reader (batch : Nat) (available : w.medium.available = true)
    (start : log.config.verifyOnRead = true →
      log.sealer.Anchored stream (w.medium.records stream) h) :
    (log.reader stream (h.version + 1) batch).prime.run w =
      (.ok (some (log.readerBehind stream h batch)), w) := by
  have hcursor : (log.reader stream (h.version + 1) batch).cursor? = none := rfl
  by_cases hv : log.config.verifyOnRead = true
  · have hsealer : (log.reader stream (h.version + 1) batch).sealer? = some log.sealer := if_pos hv
    rw [readerBehind, if_pos hv]
    rcases start hv with rfl | ⟨p, hpos, hp, rfl, hps, hsealed⟩
    · exact Reader.run_prime_start hsealer hcursor rfl
    · have hnext : (log.reader stream (p.head.version + 1) batch).next = p.head.version + 1 :=
        Nat.max_eq_left (Nat.succ_pos _)
      have hanchor : Reader.anchor log.sealer stream p.head.version p = .ok ⟨stream, p.head⟩ := by
        have hsealed' : log.sealer.hash p.previous p.stream p.sequence p.entry = p.hash :=
          hsealed.symm
        simp [Reader.anchor, Sealer.accepts, hps ▸ hsealed', hps, Cursor.resume, Record.head]
      have hprime := Reader.run_prime_resume available hsealer hcursor hnext hpos hp
      rwa [show (log.reader stream (p.head.version + 1) batch).stream = stream from rfl,
        hanchor] at hprime
  · have hsealer : (log.reader stream (h.version + 1) batch).sealer? = none := if_neg hv
    have hsame : log.readerBehind stream h batch = log.reader stream (h.version + 1) batch := by
      rw [readerBehind, if_neg hv]
      rfl
    rw [hsame, Reader.prime, hsealer]
    rfl

/-- A reader yields what it makes of the records behind its start, if it does not check the chain or
can take it up there. -/
theorem yields_reader (batch : Nat) (available : w.medium.available = true)
    (start : log.config.verifyOnRead = true →
      log.sealer.Anchored stream (w.medium.records stream) h) :
    (log.reader stream (h.version + 1) batch).Yields w
      ((log.readerBehind stream h batch).offers ((w.medium.records stream).drop h.version)) := by
  rw [← behind_readerBehind log stream h batch]
  exact Reader.Ready.yields_of_prime available rfl (run_prime_reader batch available start)
    (ready_readerBehind ..)

theorem yields_from_start (log : Log) (stream : String) (batch : Nat)
    (available : w.medium.available = true) :
    (log.reader stream 1 batch).Yields w
      ((log.readerBehind stream .empty batch).offers (w.medium.records stream)) :=
  yields_reader (h := .empty) batch available fun _ => .inl rfl

/-! ## From wherever -/

/-- The chain can be taken up behind a record that has been found right in its place. -/
theorem anchored_of_anchor {s : Sealer} {boundary : Nat} {p : Record} {c : Cursor}
    (hpos : 0 < boundary) (hp : rs[boundary - 1]? = some p)
    (ha : Reader.anchor s stream boundary p = .ok c) :
    p.head.version = boundary ∧ s.Anchored stream rs p.head := by
  unfold Reader.anchor at ha
  split at ha
  · simp at ha
  · next hseq =>
    split at ha
    · simp at ha
    · next hs =>
      simp only [ne_eq, not_not, not_or, Sealer.accepts, Bool.not_eq_false, Bool.and_eq_true,
        beq_iff_eq] at hseq hs
      obtain ⟨hstream, -, hhash⟩ := hs
      have hv : p.head.version = boundary := hseq
      exact ⟨hv, .inr ⟨p, hv.symm ▸ hpos, by rw [hv]; exact hp, rfl, hstream, hhash.symm⟩⟩

theorem exists_yields_behind (available : w.medium.available = true)
    (start : log.config.verifyOnRead = true →
      log.sealer.Anchored stream (w.medium.records stream) h) :
    ∃ items, items.length ≤ (w.medium.records stream).length ∧
      ∀ batch, (log.reader stream (h.version + 1) batch).Yields w items := by
  refine ⟨(log.readerBehind stream h 1).offers ((w.medium.records stream).drop h.version), ?_,
    fun batch => ?_⟩
  · refine Nat.le_trans (Reader.length_offers_le ..) ?_
    rw [List.length_drop]
    exact Nat.sub_le ..
  · have hy := yields_reader batch available start
    rwa [Reader.offers_congr (log.readerBehind stream h 1) (log.readerBehind stream h batch)
      rfl rfl rfl rfl] at hy

/-- Whatever is stored, and wherever a reader starts, what it yields does not depend on its pages,
and is no more than there are records. -/
theorem exists_yields (log : Log) (stream : String) (available : w.medium.available = true)
    (start : Nat) :
    ∃ items, items.length ≤ (w.medium.records stream).length ∧
      ∀ batch, (log.reader stream start batch).Yields w items := by
  simp only [reader_eq_behind log stream start]
  generalize start - 1 = k
  by_cases checks : log.config.verifyOnRead = true
  · rcases Nat.eq_zero_or_pos k with rfl | hpos
    · exact exists_yields_behind (h := .empty) available fun _ => .inl rfl
    have next (batch : Nat) : (log.reader stream (k + 1) batch).next = k + 1 :=
      Nat.max_eq_left (Nat.succ_pos _)
    cases hp : (w.medium.records stream)[k - 1]? with
    | some p =>
      cases ha : Reader.anchor log.sealer stream k p with
      | ok c =>
        obtain ⟨hv, hanchored⟩ := anchored_of_anchor hpos hp ha
        rw [← hv]
        exact exists_yields_behind available fun _ => hanchored
      | error e =>
        refine ⟨[.failed (.integrity e)], ?_, fun batch => ?_⟩
        · exact List.length_pos_of_mem (List.mem_of_getElem? hp)
        · have hprime := Reader.run_prime_resume (r := log.reader stream (k + 1) batch) available
            (if_pos checks) rfl (next batch) hpos hp
          rw [show (log.reader stream (k + 1) batch).stream = stream from rfl, ha] at hprime
          exact Reader.yields_of_prime_error rfl hprime
    | none =>
      have hprime (batch : Nat) := Reader.run_prime_missing (r := log.reader stream (k + 1) batch)
        available (if_pos checks) rfl (next batch) hpos hp
      by_cases hv : (w.medium.head stream).version < k
      · refine ⟨[], Nat.zero_le _, fun batch => Reader.yields_of_prime_none rfl ?_⟩
        rw [hprime batch]
        exact congrArg (·, w) (if_pos hv)
      · refine ⟨[.failed (.integrity (.sequenceGap stream k (w.medium.head stream).version))], ?_,
          fun batch => Reader.yields_of_prime_error rfl ?_⟩
        · -- A stream without records does not say that it has come so far.
          refine List.length_pos_iff.2 fun hnil => hv ?_
          rw [Memory.head, hnil]
          exact hpos
        · rw [hprime batch]
          exact congrArg (·, w) (if_neg hv)
  · exact exists_yields_behind (h := ⟨k, .root⟩) available fun hv => absurd hv checks

/-- A reader that has come to a head hands out linked records behind it, whether it checks or not,
and goes on behind them. -/
theorem offers_of_linked {more : List Record} (hl : log.sealer.Linked stream h rs) :
    (log.readerBehind stream h batch).offers (rs ++ more) =
      rs.map .record ++ (log.readerBehind stream (h.after rs) batch).offers more := by
  induction rs generalizing h with
  | nil => rfl
  | cons r rest ih =>
    have hcheck : (log.readerBehind stream h batch).check r =
        .ok (log.readerBehind stream r.head batch).cursor? := by
      unfold Reader.check readerBehind reader
      cases hv : log.config.verifyOnRead with
      | true =>
        simp only [if_pos]
        rw [Cursor.advance_of_linked hl]
        rfl
      | false =>
        simp only [Bool.false_eq_true, if_false]
        exact if_pos (hl.2.1.trans (Nat.max_eq_left (Nat.succ_pos _)).symm)
    have hgone : ({ log.readerBehind stream h batch with
        cursor? := (log.readerBehind stream r.head batch).cursor?
        next := r.sequence + 1 } : Reader) = log.readerBehind stream r.head batch := by
      have hn : r.sequence + 1 = (log.readerBehind stream r.head batch).next :=
        (next_readerBehind log stream r.head batch).symm
      rw [hn]
      rfl
    rw [List.cons_append, Reader.offers, hcheck]
    exact congrArg _ ((congrArg (Reader.offers · (rest ++ more)) hgone).trans (ih hl.2.2.2.2))

theorem offers_of_linked_take {i : Nat} (hl : log.sealer.Linked stream h (rs.take i)) :
    (log.readerBehind stream h batch).offers rs = (rs.take i).map .record ++
      (log.readerBehind stream (h.after (rs.take i)) batch).offers (rs.drop i) := by
  rw [← offers_of_linked hl, List.take_append_drop]

/-- A reader that checks the chain refuses what its cursor refuses, and hands out nothing more. -/
theorem offers_of_refused (checks : log.config.verifyOnRead = true) {x : Record} {e : ChainError}
    (ha : (⟨stream, h⟩ : Cursor).advance log.sealer x = .error e) (rest : List Record) :
    (log.readerBehind stream h batch).offers (x :: rest) = [.failed (.integrity e)] := by
  have hcheck : (log.readerBehind stream h batch).check x = .error e := by
    simp [Reader.check, readerBehind, reader, checks, ha, Except.map]
  rw [Reader.offers, hcheck]

/-- In linked records the chain can be taken up behind each of them. -/
theorem anchored_of_linked {s : Sealer} (hl : s.Linked stream .empty rs) {k : Nat}
    (hk : k ≤ rs.length) :
    (Head.empty.after (rs.take k)).version = k ∧
      s.Anchored stream rs (Head.empty.after (rs.take k)) := by
  obtain ⟨hc, hsealed⟩ := Sealer.linked_iff.1 hl
  cases k with
  | zero => exact ⟨rfl, .inl rfl⟩
  | succ k =>
    have hget : rs[k]? = some rs[k] := List.getElem?_eq_getElem hk
    have hlast : (rs.take (k + 1)).getLast? = some rs[k] := by
      rw [List.getLast?_eq_getElem?, List.length_take, Nat.min_eq_left hk, Nat.add_sub_cancel,
        List.getElem?_take_of_lt (Nat.lt_succ_self k), hget]
    obtain ⟨hs, -⟩ := hc.getElem? hget
    have hv : rs[k].head.version = k + 1 := hc.sequence_eq hget
    rw [Head.after_of_getLast? hlast]
    exact ⟨hv, .inr ⟨rs[k], by omega, by rw [hv]; exact hget, rfl, hs,
      hsealed _ (List.getElem_mem hk)⟩⟩

/-- Of a stream that is linked a reader yields the records from its start on. -/
theorem yields_of_linked (batch : Nat) (available : w.medium.available = true)
    (linked : log.sealer.Linked stream .empty (w.medium.records stream)) {k : Nat}
    (hk : k ≤ (w.medium.records stream).length) :
    (log.reader stream (k + 1) batch).Yields w
      (((w.medium.records stream).drop k).map .record) := by
  obtain ⟨hv, hanchored⟩ := anchored_of_linked linked hk
  have hy := yields_reader batch available fun _ => hanchored
  rw [hv, ← List.append_nil ((w.medium.records stream).drop k),
    offers_of_linked (linked.drop k)] at hy
  simpa [Reader.offers] using hy

/-- Of a stream whose chain is broken a reader that checks it yields the records up to there, and
the error. -/
theorem yields_of_breaksAt (batch : Nat) (available : w.medium.available = true)
    (checks : log.config.verifyOnRead = true) {i : Nat} {e : ChainError}
    (broken : log.sealer.BreaksAt stream (w.medium.records stream) i e) :
    (log.reader stream 1 batch).Yields w
      (((w.medium.records stream).take i).map .record ++ [.failed (.integrity e)]) := by
  obtain ⟨x, hx, hl, ha⟩ := Sealer.breaksAt_iff.1 broken
  have hy := yields_from_start log stream batch available
  rwa [offers_of_linked_take hl, drop_eq_cons hx, offers_of_refused checks ha] at hy

end Log

end TransferLedger

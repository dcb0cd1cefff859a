import TransferLedger.Proofs.Dialogue.Keeps
import TransferLedger.Proofs.Office.Story

/-!
# The rules of the office

What everybody in the office can count on, and what each has to see to.

A chronicle is the scene together with a note on every record: who has stored it.  Nobody reads the
notes, but they settle who may confirm facts to a working copy that several share.  A party may
confirm them only if the first of them was stored by itself; so while a party is at it nobody else
can be, and what the copy still has to be told stays true (`Chronicle.Rely`).

What is asked of records, of copies that are put down, of snapshots and of whole streams differs
with what is to be shown, and is a parameter: a `Law`.
-/

set_option autoImplicit false

namespace TransferLedger

/-- What is asked of records, of copies when they are put down, of snapshots, and of streams.  For
copies and snapshots it may depend on what is stored, but not so that more records undo it. -/
structure Law where
  record : Record → Prop
  start : Memory → WorkingCopy → Prop
  snapshot : Memory → Snapshot → Prop
  /-- What is asked of all that a stream holds. -/
  whole : String → List Record → Prop
  start_within {m m' : Memory} {c : WorkingCopy} : m.Within m' → start m c → start m' c
  snapshot_within {m m' : Memory} {x : Snapshot} : m.Within m' → snapshot m x → snapshot m' x
  /-- What is rebuilt from a lawful snapshot, or from nothing, may be put down. -/
  rebuilt {m : Memory} {stream : String} {from? : Option WorkingCopy} {k : Nat} {b : Rebuilt} :
    m.Orderly → (∀ c, from? = some c → ∃ x, snapshot m x ∧ x.restore stream = .ok c) →
    (Rebuilt.startingFrom stream from?).takeAll stream
      (((m.records stream).drop (Rebuilt.startingFrom stream from?).copy.version).take k) = .ok b →
    start m b.copy
  /-- A copy without anything in its buffer may be saved. -/
  captured {m : Memory} {y : Story} {c : WorkingCopy} {n : Nat} {now : Instant} :
    m.Orderly → y.start.Settled → start m y.start → y.Tells m c n → c.pending = [] →
      snapshot m (c.snapshot now)
  whole_nil (stream : String) : whole stream []
  /-- A stream may hold what some copy knows to be stored, and nothing else. -/
  whole_told {m : Memory} {y : Story} {c : WorkingCopy} {n : Nat} :
    m.Orderly → y.start.Settled → start m y.start → y.Tells m c n →
      c.durable = (m.records c.stream).length → whole c.stream (m.records c.stream)

/-- The law asks nothing of whole streams. -/
def Law.Lenient (L : Law) : Prop :=
  ∀ stream rs, L.whole stream rs

/-- Copies are put down at versions that their streams have. -/
def Law.Grounded (L : Law) : Prop :=
  ∀ m c, L.start m c → c.version ≤ (m.records c.stream).length

/-- The law that asks nothing but that records have a given property. -/
def Law.ofRecords (record : Record → Prop) : Law where
  record := record
  start := fun _ _ => True
  snapshot := fun _ _ => True
  whole := fun _ _ => True
  start_within := fun _ _ => trivial
  snapshot_within := fun _ _ => trivial
  rebuilt := fun _ _ _ => trivial
  captured := fun _ _ _ _ _ => trivial
  whole_nil := fun _ => trivial
  whole_told := fun _ _ _ _ _ => trivial

/-- The law that asks nothing. -/
def Law.free : Law :=
  .ofRecords fun _ => True

/-- A clerk, or somebody from outside. -/
abbrev Party := Option ClerkId

/-- There is always somebody else. -/
theorem Party.exists_other (p : Party) : ∃ p' : Party, p ≠ p' := by
  cases p with
  | none => exact ⟨some 0, by simp⟩
  | some p => exact ⟨none, by simp⟩

/-- The scene, and who has stored each record of each stream. -/
structure Chronicle where
  scene : Scene
  authors : String → List Party

namespace Chronicle

abbrev medium (s : Chronicle) : Memory := s.scene.world.medium

abbrev copies (s : Chronicle) : List WorkingCopy := s.scene.world.copies

abbrev stories (s : Chronicle) : List Story := s.scene.stories

/-- A party has changed the scene: the records that are new are its own. -/
def after (s : Chronicle) (p : Party) (scene : Scene) : Chronicle :=
  ⟨scene, fun stream => s.authors stream ++
    List.replicate ((scene.records stream).length - (s.medium.records stream).length) p⟩

/-- A request of a party is answered. -/
inductive Answers (p : Party) : (q : Request) → Chronicle → q.Answer → Chronicle → Prop
  | intro {q : Request} {s : Chronicle} {a : q.Answer} {scene : Scene}
      (answered : s.scene.Answers q a scene) : Answers p q s a (s.after p scene)

/-- What always holds. -/
structure Holds (L : Law) (s : Chronicle) : Prop where
  orderly : s.medium.Orderly
  lawful : ∀ stream, ∀ r ∈ s.medium.records stream, L.record r
  whole : ∀ stream, L.whole stream (s.medium.records stream)
  noted : ∀ stream, (s.authors stream).length = (s.medium.records stream).length
  length_stories : s.stories.length = s.copies.length
  told : ∀ (h : HandleId) c y, s.copies[h]? = some c → s.stories[h]? = some y →
    y.start.Settled ∧ L.start s.medium y.start ∧ ∃ n, y.Tells s.medium c n
  shelved : ∀ stream x, s.scene.world.shelf.latest stream = some x → L.snapshot s.medium x

/-- There is a story of every copy. -/
theorem Holds.exists_story {L : Law} {s : Chronicle} (hs : Holds L s) {h : HandleId}
    {c : WorkingCopy} (hc : s.copies[h]? = some c) : ∃ y, s.stories[h]? = some y := by
  have hlt := (List.getElem?_eq_some_iff.1 hc).1
  rw [← hs.length_stories] at hlt
  exact ⟨_, List.getElem?_eq_getElem hlt⟩

theorem Holds.story {L : Law} {s : Chronicle} (hs : Holds L s) {h : HandleId} {c : WorkingCopy}
    (hc : s.copies[h]? = some c) : ∃ y : Story, y.start.Settled ∧ L.start s.medium y.start ∧
      ∃ n, y.Tells s.medium c n := by
  obtain ⟨y, hy⟩ := hs.exists_story hc
  exact ⟨y, hs.told _ _ _ hc hy⟩

/-- What the others may make of a copy while a party is not looking: buffer more facts, and confirm
some that are stored, unless the party has stored the first of them. -/
structure Evolves (p : Party) (s' : Chronicle) (c c' : WorkingCopy) : Prop where
  stream_eq : c'.stream = c.stream
  durable_le : c.durable ≤ c'.durable
  pending : c.durable = c'.durable → c.pending <+: c'.pending
  stored : c.durable < c'.durable → c'.durable ≤ (s'.medium.records c.stream).length
  author : c.durable < c'.durable → (s'.authors c.stream)[c.durable]? ≠ some p

/-- What the others may do while a party is not looking: store records of their own, put down
copies, and go on with the copies that there are. -/
structure Rely (p : Party) (s s' : Chronicle) : Prop where
  within : s.medium.Within s'.medium
  authors : ∀ stream, ∃ more, s'.authors stream = s.authors stream ++ more ∧ p ∉ more
  copies : ∀ (h : HandleId) c, s.copies[h]? = some c →
    ∃ c', s'.copies[h]? = some c' ∧ Evolves p s' c c'

/-- What a party may ask. -/
def Proper (L : Law) (p : Party) (s : Chronicle) : Request → Prop
  | .commit _ appends => (∀ a ∈ appends, ∀ r ∈ a.records, L.record r) ∧
      ∀ m, s.medium.commit appends = .ok m → ∀ stream, L.whole stream (m.records stream)
  | .save x => L.snapshot s.medium x
  | .place c => c.Settled ∧ L.start s.medium c
  | .confirm h version => ∀ c, s.copies[h]? = some c → s.medium.Stores c version ∧
      (c.durable < version → (s.authors c.stream)[c.durable]? = some p)
  | _ => True

theorem Evolves.refl (p : Party) (s : Chronicle) (c : WorkingCopy) : Evolves p s c c where
  stream_eq := rfl
  durable_le := Nat.le_refl _
  pending := fun _ => List.prefix_rfl
  stored := fun h => absurd h (Nat.lt_irrefl _)
  author := fun h => absurd h (Nat.lt_irrefl _)

namespace Rely

variable {p : Party} {s s' s'' : Chronicle}

theorem refl (p : Party) (s : Chronicle) : Rely p s s where
  within := .refl _
  authors := fun _ => ⟨[], by simp, by simp⟩
  copies := fun _ c hc => ⟨c, hc, .refl p s c⟩

/-- Who stored what never changes. -/
theorem author (hr : Rely p s s') {stream : String} {i : Nat} {q : Party}
    (hq : (s.authors stream)[i]? = some q) : (s'.authors stream)[i]? = some q := by
  obtain ⟨more, hm, -⟩ := hr.authors stream
  rw [hm, List.getElem?_append_left (List.getElem?_eq_some_iff.1 hq).1]
  exact hq

/-- The others have stored nothing in the name of the party. -/
theorem other_author (hr : Rely p s s') {stream : String} {i : Nat}
    (hp : (s.authors stream)[i]? ≠ some p) : (s'.authors stream)[i]? ≠ some p := by
  obtain ⟨more, hm, hn⟩ := hr.authors stream
  rw [hm]
  by_cases hi : i < (s.authors stream).length
  · rwa [List.getElem?_append_left hi]
  · rw [List.getElem?_append_right (by omega)]
    exact fun h => hn (List.mem_of_getElem? h)

end Rely

theorem Evolves.trans {p : Party} {s s' : Chronicle} {c c' c'' : WorkingCopy}
    (he : Evolves p s c c') (hr : Rely p s s') (he' : Evolves p s' c' c'') :
    Evolves p s' c c'' where
  stream_eq := he'.stream_eq.trans he.stream_eq
  durable_le := Nat.le_trans he.durable_le he'.durable_le
  pending := by
    intro heq
    have := he.durable_le
    have := he'.durable_le
    exact (he.pending (by omega)).trans (he'.pending (by omega))
  stored := by
    intro hlt
    -- If nothing is confirmed the second time, what was stored the first time still is.
    by_cases heq : c'.durable = c''.durable
    · have := he.stored (by omega)
      have := hr.within.length_le c.stream
      omega
    · have := he'.durable_le
      rw [← he.stream_eq]
      exact he'.stored (by omega)
  author := by
    intro hlt
    have := he.durable_le
    -- The first of the facts goes to whoever is the first to confirm any.
    by_cases heq : c.durable = c'.durable
    · rw [heq, ← he.stream_eq]
      exact he'.author (by omega)
    · exact hr.other_author (he.author (by omega))

namespace Rely

variable {p : Party} {s s' s'' : Chronicle}

theorem trans (h : Rely p s s') (h' : Rely p s' s'') : Rely p s s'' where
  within := h.within.trans h'.within
  authors := by
    intro stream
    obtain ⟨more, hm, hn⟩ := h.authors stream
    obtain ⟨more', hm', hn'⟩ := h'.authors stream
    refine ⟨more ++ more', by rw [hm', hm, List.append_assoc], ?_⟩
    rw [List.mem_append]
    exact fun hp => hp.elim hn hn'
  copies := by
    intro i c hc
    obtain ⟨c', hc', he⟩ := h.copies i c hc
    obtain ⟨c'', hc'', he'⟩ := h'.copies i c' hc'
    exact ⟨c'', hc'', he.trans h' he'⟩

end Rely

end Chronicle

end TransferLedger

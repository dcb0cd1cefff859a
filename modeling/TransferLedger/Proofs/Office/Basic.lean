import Mathlib.Logic.Relation
import TransferLedger.Dialogue.InMemory
import TransferLedger.Proofs.Office.Errand

/-!
# The office

Clerks run errands in one place: the same streams, the same snapshots, the same working copies.
Each request of one of them is answered at one moment, and which clerk is next is open, so between
two requests of one clerk the others may have done anything.  A request to store may also find no
answer in time; then nothing has landed.  Now and then the medium goes out of reach and comes back,
and the clock moves.

The office remembers of each working copy how it was put down and which facts its operations have
emitted since.  Nobody reads that; it is there to be talked about.
-/

set_option autoImplicit false

namespace TransferLedger

/-- What a request can be answered with, and what it leaves behind. -/
inductive InMemory.Answers : (q : Request) → InMemory → q.Answer → InMemory → Prop
  | done (q : Request) (w : InMemory) : Answers q w (w.answer q).1 (w.answer q).2
  /-- There is no answer in time, and nothing has landed. -/
  | late (allowed : Nat) (appends : List Append) (w : InMemory) :
      Answers (.commit allowed appends) w .late w

namespace InMemory.Answers

variable {w w' : InMemory}

theorem commit_cases {allowed : Nat} {appends : List Append} {a : Reply}
    (h : InMemory.Answers (.commit allowed appends) w a w') :
    (a = .applied ∧ ∃ m, w.medium.commit appends = .ok m ∧ w' = { w with medium := m }) ∨
      (∃ e, a = .refused e ∧ w.medium.commit appends = .error e ∧ w' = w) ∨
      (a = .late ∧ w' = w) := by
  cases h with
  | late => exact .inr (.inr ⟨rfl, rfl⟩)
  | done =>
    cases hm : w.medium.commit appends with
    | ok m => exact .inl (by simp [answer, Memory.reply, hm])
    | error e => exact .inr (.inl ⟨e, by simp [answer, Memory.reply, hm]⟩)

/-- Appends have landed, or nothing has changed. -/
theorem of_commit {allowed : Nat} {appends : List Append} {a : Reply}
    (h : InMemory.Answers (.commit allowed appends) w a w') :
    (a = .applied ∧ ∃ m, w.medium.commit appends = .ok m ∧ w' = { w with medium := m }) ∨
      (a ≠ .applied ∧ w' = w) := by
  rcases h.commit_cases with landed | ⟨e, rfl, -, rfl⟩ | ⟨rfl, rfl⟩
  · exact .inl landed
  · exact .inr ⟨nofun, rfl⟩
  · exact .inr ⟨nofun, rfl⟩

/-- Appends that are refused do not fit. -/
theorem of_refused {allowed : Nat} {appends : List Append} {e : StoreError}
    (h : InMemory.Answers (.commit allowed appends) w (Reply.refused e) w') :
    w.medium.commit appends = .error e ∧ w' = w := by
  rcases h.commit_cases with ⟨ha, -⟩ | ⟨e', ha, hm, rfl⟩ | ⟨ha, -⟩
  · exact absurd ha nofun
  · obtain rfl := Reply.refused.inj ha
    exact ⟨hm, rfl⟩
  · exact absurd ha nofun

theorem of_confirm {h : HandleId} {v : Nat} {a : Option WorkingCopy}
    (ha : InMemory.Answers (.confirm h v) w a w') :
    a = w.copies[h]?.map (·.markCommitted v) ∧
      w' = { w with copies := w.copies.modify h (·.markCommitted v) } := by
  cases ha
  exact ⟨rfl, rfl⟩

/-- An operation has been accepted, or nothing has changed. -/
theorem of_perform {h : HandleId} {o : Operation} {a : Option (Except OperationError Unit)}
    (ha : InMemory.Answers (.perform h o) w a w') :
    w' = w ∨ ∃ c c', w.copies[h]? = some c ∧ c.perform w.clock o = .ok c' ∧
      w' = { w with copies := w.copies.set h c' } := by
  cases ha
  cases hc : w.copies[h]? with
  | none => exact .inl (by simp only [answer, hc])
  | some c =>
    cases hp : c.perform w.clock o with
    | error e => exact .inl (by simp only [answer, hc, hp])
    | ok c' => exact .inr ⟨c, c', rfl, hp, by simp only [answer, hc, hp]⟩

end InMemory.Answers

/-- What has become of a working copy: how it was put down, and the facts emitted since. -/
structure Story where
  start : WorkingCopy
  emitted : List Event

def Story.emit (y : Story) (e : Event) : Story :=
  { y with emitted := y.emitted ++ [e] }

/-- What the clerks work on, and the story of each working copy. -/
structure Scene where
  world : InMemory
  stories : List Story

namespace Scene

def records (s : Scene) (stream : String) : List Record :=
  s.world.medium.records stream

/-- The stories after a request: a copy that is put down starts one, and an operation that is
accepted goes on with the fact that it becomes. -/
def told (s : Scene) : Request → List Story
  | .place c => s.stories ++ [⟨c, []⟩]
  | .perform h o =>
    match s.world.copies[h]? with
    | none => s.stories
    | some c =>
      match c.transfer.decide s.world.clock o with
      | .ok e => s.stories.modify h (·.emit e)
      | .error _ => s.stories
  | _ => s.stories

/-- What a request can be answered with, and the scene that it leaves behind. -/
inductive Answers : (q : Request) → Scene → q.Answer → Scene → Prop
  | intro {q : Request} {s : Scene} {a : q.Answer} {w : InMemory}
      (answered : InMemory.Answers q s.world a w) : Answers q s a ⟨w, s.told q⟩

end Scene

abbrev ClerkId := Nat

/-- The scene, and for each clerk what is left of the errand that he is on.  A clerk whose errand
is done has a desk. -/
structure Office where
  scene : Scene
  clerks : ClerkId → Dialogue Desk

namespace Office

/-- Nothing is stored, and nobody has begun anything.  There may be snapshots. -/
def opening (clock : Instant) (shelf : Shelf) : Office :=
  ⟨⟨{ InMemory.empty clock with shelf := shelf }, []⟩, fun _ => .done .bare⟩

/-- One thing happens.  The errands that may be begun are given. -/
inductive Step (allowed : Errand → Prop) : Office → Office → Prop
  /-- A clerk with nothing to do begins an errand. -/
  | begins {o : Office} {p : ClerkId} {d : Desk} (e : Errand) (idle : o.clerks p = .done d)
      (may : allowed e) : Step allowed o { o with clerks := Keyed.set o.clerks p (e.work d) }
  /-- The next request of a clerk is answered. -/
  | asks {o : Office} {p : ClerkId} {q : Request} {next : q.Answer → Dialogue Desk} {a : q.Answer}
      {s : Scene} (busy : o.clerks p = .ask q next) (answered : o.scene.Answers q a s) :
      Step allowed o ⟨s, Keyed.set o.clerks p (next a)⟩
  /-- The medium goes out of reach, or comes back. -/
  | medium (o : Office) (available : Bool) :
      Step allowed o
        { o with scene.world.medium.available := available }
  | clock (o : Office) (now : Instant) :
      Step allowed o { o with scene.world.clock := now }

/-- Any number of things happen, one after the other. -/
abbrev Reaches (allowed : Errand → Prop) : Office → Office → Prop :=
  Relation.ReflTransGen (Step allowed)

end Office

end TransferLedger

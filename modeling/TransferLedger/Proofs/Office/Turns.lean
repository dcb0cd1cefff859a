import TransferLedger.Proofs.Log.Appending
import TransferLedger.Proofs.Office.Basic

/-!
# Runs that can be played

Which clerk is next is open, and so is when the medium goes out of reach.  Where both are laid down
in advance, the office becomes a machine that can be run, and what it comes to it can also reach
(`Office.reaches_play`).  That is how single runs are looked at.
-/

set_option autoImplicit false

namespace TransferLedger

/-- No answer takes the medium out of reach, or brings it back. -/
theorem InMemory.available_answer (q : Request) (w : InMemory) :
    (w.answer q).2.medium.available = w.medium.available := by
  cases q with
  | commit allowed appends =>
    cases hm : w.medium.commit appends with
    | ok m => simpa [answer, Memory.reply, hm] using Memory.available_of_commit hm
    | error e => simp [answer, Memory.reply, hm]
  | perform h o =>
    simp only [answer]
    split
    · rfl
    · split <;> rfl
  | head | page | load | time | look | save | confirm | place => rfl

/-- What is to happen next. -/
inductive Turn where
  | begins (p : ClerkId) (e : Errand)
  /-- So many requests of a clerk are carried out, one after the other. -/
  | serve (p : ClerkId) (requests : Nat)
  /-- The next request of a clerk is a commit, and finds no answer in time. -/
  | late (p : ClerkId)
  | medium (available : Bool)

def Turn.errand? : Turn → Option Errand
  | begins _ e => some e
  | _ => none

/-- The turn is not that the medium goes out of reach or comes back. -/
def Turn.Indoors (t : Turn) : Prop :=
  ∀ available, t ≠ .medium available

namespace Office

variable {allowed : Errand → Prop}

/-- A clerk begins an errand, if he has nothing else to do. -/
def beginErrand (o : Office) (p : ClerkId) (e : Errand) : Office :=
  match o.clerks p with
  | .done d => { o with clerks := Keyed.set o.clerks p (e.work d) }
  | .ask _ _ => o

/-- The next request of a clerk is carried out, if he has one. -/
def serve (o : Office) (p : ClerkId) : Office :=
  match o.clerks p with
  | .done _ => o
  | .ask q next =>
    ⟨⟨(o.scene.world.answer q).2, o.scene.told q⟩,
      Keyed.set o.clerks p (next (o.scene.world.answer q).1)⟩

def serveMany (o : Office) (p : ClerkId) : Nat → Office
  | 0 => o
  | n + 1 => (o.serve p).serveMany p n

/-- A commit finds no answer in time, if the next request of the clerk is one. -/
def serveLate (o : Office) (p : ClerkId) : Office :=
  match o.clerks p with
  | .ask (.commit _ _) next => { o with clerks := Keyed.set o.clerks p (next .late) }
  | _ => o

def after (o : Office) : Turn → Office
  | .begins p e => o.beginErrand p e
  | .serve p n => o.serveMany p n
  | .late p => o.serveLate p
  | .medium available => { o with scene.world.medium.available := available }

def play (o : Office) (ts : List Turn) : Office :=
  ts.foldl after o

theorem play_append (o : Office) (ts ts' : List Turn) :
    o.play (ts ++ ts') = (o.play ts).play ts' :=
  List.foldl_append

/-- A clerk who has asked for a snapshot goes on with the one that there is. -/
theorem play_of_load {o : Office} {p : ClerkId} {stream : String} {x : Snapshot}
    {next : Except SnapshotError (Option Snapshot) → Dialogue Desk}
    (busy : o.clerks p = .ask (.load stream) next)
    (loaded : o.scene.world.shelf.load stream = .ok (some x)) (ts : List Turn) :
    o.play (.serve p 1 :: ts) =
      play { o with clerks := Keyed.set o.clerks p (next (.ok (some x))) } ts := by
  have served : o.serve p = { o with clerks := Keyed.set o.clerks p (next (.ok (some x))) } := by
    rw [serve, busy, ← loaded]
    rfl
  show (o.serve p).play ts = _
  rw [served]

/-- One thing happens, and the medium stays in reach, or out of it. -/
def Stays (allowed : Errand → Prop) (o o' : Office) : Prop :=
  Step allowed o o' ∧ o'.scene.world.medium.available = o.scene.world.medium.available

theorem stays_beginErrand (o : Office) (p : ClerkId) {e : Errand} (may : allowed e) :
    Relation.ReflTransGen (Stays allowed) o (o.beginErrand p e) := by
  unfold beginErrand
  cases hp : o.clerks p with
  | done d => exact .single ⟨.begins e hp may, rfl⟩
  | ask q next => exact .refl

theorem stays_serve (o : Office) (p : ClerkId) :
    Relation.ReflTransGen (Stays allowed) o (o.serve p) := by
  unfold serve
  cases hp : o.clerks p with
  | done d => exact .refl
  | ask q next =>
    exact .single ⟨.asks hp ⟨.done q o.scene.world⟩, InMemory.available_answer q o.scene.world⟩

theorem stays_serveMany (o : Office) (p : ClerkId) (n : Nat) :
    Relation.ReflTransGen (Stays allowed) o (o.serveMany p n) := by
  induction n generalizing o with
  | zero => exact .refl
  | succ n ih => exact (stays_serve o p).trans (ih (o.serve p))

theorem stays_serveLate (o : Office) (p : ClerkId) :
    Relation.ReflTransGen (Stays allowed) o (o.serveLate p) := by
  unfold serveLate
  split
  · next allowed' appends next hp =>
    exact .single ⟨.asks (s := o.scene) hp ⟨.late allowed' appends o.scene.world⟩, rfl⟩
  · exact .refl

theorem stays_after (o : Office) {t : Turn} (may : ∀ e ∈ t.errand?, allowed e)
    (indoors : t.Indoors) : Relation.ReflTransGen (Stays allowed) o (o.after t) := by
  cases t with
  | begins p e => exact stays_beginErrand o p (may e rfl)
  | serve p n => exact stays_serveMany o p n
  | late p => exact stays_serveLate o p
  | medium available => exact absurd rfl (indoors available)

theorem stays_play (o : Office) {ts : List Turn} (may : ∀ t ∈ ts, ∀ e ∈ t.errand?, allowed e)
    (indoors : ∀ t ∈ ts, t.Indoors) : Relation.ReflTransGen (Stays allowed) o (o.play ts) := by
  induction ts generalizing o with
  | nil => exact .refl
  | cons t rest ih =>
    exact (stays_after o (may t List.mem_cons_self) (indoors t List.mem_cons_self)).trans
      (ih (o.after t) (fun t' ht => may t' (List.mem_cons_of_mem t ht))
        fun t' ht => indoors t' (List.mem_cons_of_mem t ht))

/-- What a turn leads to can be reached. -/
theorem reaches_after (o : Office) {t : Turn} (may : ∀ e ∈ t.errand?, allowed e) :
    Reaches allowed o (o.after t) := by
  by_cases indoors : t.Indoors
  · exact Relation.ReflTransGen.mono (fun _ _ h => h.1) _ _ (stays_after o may indoors)
  · obtain ⟨available, ht⟩ := Classical.not_forall_not.1 fun h => indoors h
    subst ht
    exact .single (.medium o available)

theorem reaches_play (o : Office) {ts : List Turn}
    (may : ∀ t ∈ ts, ∀ e ∈ t.errand?, allowed e) : Reaches allowed o (o.play ts) := by
  induction ts generalizing o with
  | nil => exact .refl
  | cons t rest ih =>
    exact (reaches_after o (may t List.mem_cons_self)).trans
      (ih (o.after t) fun t' ht => may t' (List.mem_cons_of_mem t ht))

end Office

end TransferLedger

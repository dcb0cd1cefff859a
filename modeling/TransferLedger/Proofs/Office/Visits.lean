import TransferLedger.Proofs.Dialogue.Led
import TransferLedger.Proofs.Office.Growth
import TransferLedger.Proofs.Office.Sound
import TransferLedger.Proofs.Office.Turns

/-!
# Visits

A visitor leads one dialogue in the office while the clerks go on with their errands.  He sticks
to the rules like everybody else, so what he keeps under them he keeps here
(`Office.Sound.visited`); and what he has stored in his own exchanges is what the notes say is
his.

A visitor is nobody special: what he does a clerk could have done in an errand, and the office is
left in a state that it can also reach without visitors (`Office.reaches_of_visit`).
-/

set_option autoImplicit false

namespace TransferLedger

namespace Office

abbrev medium (o : Office) : Memory := o.scene.world.medium

/-- A request is answered to somebody who is none of the clerks. -/
inductive Serves (q : Request) (o : Office) (a : q.Answer) : Office → Prop
  | intro {s : Scene} (answered : o.scene.Answers q a s) : Serves q o a { o with scene := s }

theorem Serves.within {q : Request} {o o' : Office} {a : q.Answer} (h : Serves q o a o') :
    o.medium.Within o'.medium := by
  obtain ⟨⟨answered⟩⟩ := h
  exact answered.within

end Office

/-! ## What is somebody's own -/

namespace Chronicle

variable {L : Law} {p : Party} {s s' : Chronicle} {mine : String → List Record}

/-- The records that have a party's name on them. -/
def signed (p : Party) (rs : List Record) (notes : List Party) : List Record :=
  (rs.zip notes).filterMap fun x => if x.2 = p then some x.1 else none

theorem signed_append {rs rs' : List Record} {notes notes' : List Party}
    (h : rs.length = notes.length) :
    signed p (rs ++ rs') (notes ++ notes') = signed p rs notes ++ signed p rs' notes' := by
  rw [signed, List.zip_append h, List.filterMap_append]
  rfl

theorem signed_of_not_mem {rs : List Record} {notes : List Party} (h : p ∉ notes) :
    signed p rs notes = [] := by
  refine List.filterMap_eq_nil_iff.2 fun x hx => if_neg fun he => h ?_
  rw [← he]
  exact (List.of_mem_zip hx).2

theorem signed_replicate (rs : List Record) : signed p rs (List.replicate rs.length p) = rs := by
  induction rs with
  | nil => rfl
  | cons r rest ih =>
    rw [List.length_cons, List.replicate_succ, signed, List.zip_cons_cons]
    simp only [List.filterMap_cons, if_true]
    exact congrArg (r :: ·) ih

/-- There is a note on every record, and the records of a party are these. -/
structure Owns (p : Party) (mine : String → List Record) (s : Chronicle) : Prop where
  noted : ∀ stream, (s.authors stream).length = (s.medium.records stream).length
  signed_eq : ∀ stream, signed p (s.medium.records stream) (s.authors stream) = mine stream

/-- While others are at it nothing is added to what is one's own. -/
theorem Owns.rely (h : Owns p mine s) (hr : Rely p s s') (hs : Holds L s') : Owns p mine s' where
  noted := hs.noted
  signed_eq := fun stream => by
    obtain ⟨more, hmore⟩ := hr.within stream
    obtain ⟨notes, hnotes, hp⟩ := hr.authors stream
    rw [← hmore, hnotes, signed_append (h.noted stream).symm, signed_of_not_mem hp,
      List.append_nil, h.signed_eq]

/-- What one changes oneself is one's own. -/
theorem Owns.after (h : Owns p mine s) {scene : Scene} (hw : s.medium.Within scene.world.medium) :
    Owns p (fun stream => mine stream ++
      (scene.records stream).drop (s.medium.records stream).length) (s.after p scene) := by
  -- What is new in the stream is new in the notes, and has the party's name on it.
  have both (stream : String) :
      scene.records stream = s.medium.records stream ++
        (scene.records stream).drop (s.medium.records stream).length ∧
      (s.after p scene).authors stream = s.authors stream ++ List.replicate
        ((scene.records stream).drop (s.medium.records stream).length).length p := by
    obtain ⟨more, hmore⟩ := hw stream
    have hm : scene.records stream = s.medium.records stream ++ more := hmore.symm
    refine ⟨by rw [hm, List.drop_left], ?_⟩
    rw [List.length_drop]
    rfl
  refine ⟨fun stream => ?_, fun stream => ?_⟩
  · obtain ⟨hrecords, hnotes⟩ := both stream
    show _ = (scene.records stream).length
    rw [hnotes, hrecords]
    simp [h.noted]
  · obtain ⟨hrecords, hnotes⟩ := both stream
    show signed p (scene.records stream) _ = mine stream ++ _
    generalize (scene.records stream).drop (s.medium.records stream).length = more at *
    rw [hnotes, hrecords, signed_append (h.noted stream).symm, h.signed_eq, signed_replicate]

end Chronicle

/-! ## Visits -/

namespace Office

open Chronicle

variable {L : Law} {allowed : Errand → Prop} {o o' : Office} {authors : String → List Party}
  {α : Type} {t : Dialogue α} {Q : α → Chronicle → Prop} {xs : List (Exchange Office)} {a : α}

/-- What a visitor may meet and what he is answered is what his rules say, and neither breaks
anything for the clerks. -/
structure Admits (L : Law) (R : Rules Chronicle) (others : Office → Office → Prop)
    (answers : (q : Request) → Office → q.Answer → Office → Prop) : Prop where
  holds {s : Chronicle} : Holds L s → R.holds s
  others {o o' : Office} {authors : String → List Party} : Sound L o authors → others o o' →
    ∃ authors', Sound L o' authors' ∧ Rely none ⟨o.scene, authors⟩ ⟨o'.scene, authors'⟩ ∧
      R.rely ⟨o.scene, authors⟩ ⟨o'.scene, authors'⟩
  answers {o o' : Office} {authors : String → List Party} {q : Request} {a : q.Answer} :
    Sound L o authors → R.proper q ⟨o.scene, authors⟩ → answers q o a o' →
      ∃ scene, o' = { o with scene := scene } ∧
        R.answers q ⟨o.scene, authors⟩ a (Chronicle.after ⟨o.scene, authors⟩ none scene) ∧
        Kept L none ⟨o.scene, authors⟩ (Chronicle.after ⟨o.scene, authors⟩ none scene)

/-- What is known after some exchanges of a visitor. -/
structure Known (L : Law) (K : List (Exchange Office) → Chronicle → Prop) : Prop where
  rely {xs : List (Exchange Office)} {s s' : Chronicle} :
    K xs s → Rely none s s' → Holds L s' → K xs s'
  after {xs : List (Exchange Office)} {o : Office} {authors : String → List Party} {q : Request}
    {scene : Scene} : K xs ⟨o.scene, authors⟩ → o.medium.Within scene.world.medium →
      K (xs ++ [⟨q, o, { o with scene := scene }⟩]) (Chronicle.after ⟨o.scene, authors⟩ none scene)

theorem known_nothing (L : Law) : Known L fun _ _ => True :=
  ⟨fun _ _ _ => trivial, fun _ _ => trivial⟩

/-- What a visitor keeps under his rules he keeps in a visit, and what is known of his exchanges is
known at the end. -/
theorem Sound.received {R : Rules Chronicle} {others : Office → Office → Prop}
    {answers : (q : Request) → Office → q.Answer → Office → Prop}
    (admits : Admits L R others answers) {K : List (Exchange Office) → Chronicle → Prop}
    (known : Known L K) (h : Sound L o authors) (ys : List (Exchange Office))
    (hK : K ys ⟨o.scene, authors⟩) (hk : t.Keeps R Q ⟨o.scene, authors⟩)
    (led : t.Led others answers o xs a o') :
    ∃ authors', Sound L o' authors' ∧ Q a ⟨o'.scene, authors'⟩ ∧
      K (ys ++ xs) ⟨o'.scene, authors'⟩ := by
  induction led generalizing authors ys with
  | done a o =>
    refine ⟨authors, h, hk _ (R.rely_refl _) (admits.holds h.holds), ?_⟩
    rwa [List.append_nil]
  | meanwhile step rest ih =>
    obtain ⟨authors₁, h₁, hr₁, hrely⟩ := admits.others h step
    exact ih h₁ ys (known.rely hK hr₁ h₁.holds) (hk.later hrely)
  | @asks q next o o₁ o₂ r xs a answered rest ih =>
    obtain ⟨hp, hn⟩ := hk _ (R.rely_refl _) (admits.holds h.holds)
    obtain ⟨scene, rfl, ha, hi, hr⟩ := admits.answers h hp answered
    -- The clerks rely on the visitor as they do on each other.
    have hw := (hr (some 0) (by simp)).within
    obtain ⟨authors', h', hQ, hK'⟩ := ih
      ⟨hi, fun p => (h.keeps p).later (hr (some p) (by simp))⟩ _ (known.after (q := q) hK hw)
      (hn r _ ha)
    refine ⟨authors', h', hQ, ?_⟩
    rwa [List.append_assoc] at hK'

/-- A visitor who plays by the rules of the office. -/
theorem admits_officeRules (obeys : ∀ e, allowed e → ∀ log ∈ e.log?, log.Obeys L)
    (raw : ∀ e, allowed e → e.Raw → L.Lenient) :
    Admits L (officeRules L none) (Step allowed) Serves where
  holds := fun h => h
  others := fun h step => by
    obtain ⟨authors', h', hr⟩ := h.step obeys step raw
    exact ⟨authors', h', hr, hr⟩
  answers := fun h hp ha => by
    obtain @⟨scene, answered⟩ := ha
    exact ⟨scene, rfl, ⟨answered⟩, h.answered hp answered⟩

/-- What a visitor has added is his own. -/
theorem known_owns (L : Law) (mine : String → List Record) :
    Known L fun xs =>
      Owns none fun stream => mine stream ++ Exchange.allAdded medium xs stream where
  rely := fun ho hr hs => ho.rely hr hs
  after := fun {xs o authors q scene} ho hw => by
    have ho' := ho.after hw
    refine ⟨ho'.noted, fun stream => ?_⟩
    rw [ho'.signed_eq stream, Exchange.allAdded_append, Exchange.allAdded_cons,
      ← List.append_assoc]
    simp [Exchange.allAdded, Exchange.added, Scene.records]

/-- What a visitor keeps under the rules he keeps in a visit, and his own are the records that he
has added. -/
theorem Sound.visited (obeys : ∀ e, allowed e → ∀ log ∈ e.log?, log.Obeys L)
    (h : Sound L o authors) {mine : String → List Record}
    (howns : Owns none mine ⟨o.scene, authors⟩)
    (hk : t.Keeps (officeRules L none) Q ⟨o.scene, authors⟩)
    (led : t.Led (Step allowed) Serves o xs a o')
    (raw : ∀ e, allowed e → e.Raw → L.Lenient := by exact fun _ _ _ _ _ => trivial) :
    ∃ authors', Sound L o' authors' ∧ Q a ⟨o'.scene, authors'⟩ ∧
      Owns none (fun stream => mine stream ++ Exchange.allAdded medium xs stream)
        ⟨o'.scene, authors'⟩ := by
  refine h.received (admits_officeRules obeys raw) (known_owns L mine) [] ?_ hk led
  simpa only [Exchange.allAdded, List.flatMap_nil, List.append_nil] using howns

/-- An office that the clerks have been left alone in is sound, and nothing in it is a visitor's. -/
theorem sound_of_reaches (obeys : ∀ e, allowed e → ∀ log ∈ e.log?, log.Obeys L) {clock : Instant}
    (reached : Reaches allowed (opening clock .empty) o)
    (raw : ∀ e, allowed e → e.Raw → L.Lenient := by exact fun _ _ _ _ _ => trivial) :
    ∃ authors, Sound L o authors ∧ Owns none (fun _ => []) ⟨o.scene, authors⟩ := by
  have begun : Sound L (opening clock .empty) fun _ => [] :=
    .opening fun stream x hx => absurd hx (by simp [Shelf.empty])
  have nothing : Owns none (fun _ => []) ⟨(opening clock .empty).scene, fun _ => []⟩ :=
    ⟨fun _ => rfl, fun _ => rfl⟩
  obtain ⟨authors, hs, hr⟩ := begun.reaches obeys reached raw
  exact ⟨authors, hs, nothing.rely hr hs.holds⟩

/-! ## Visitors and clerks -/

/-- The office with a clerk in the middle of something. -/
def busy (o : Office) (p : ClerkId) (x : Dialogue Desk) : Office :=
  { o with clerks := Keyed.set o.clerks p x }

/-- One thing happens, and a given clerk has no part in it. -/
def Besides (allowed : Errand → Prop) (p : ClerkId) (o o' : Office) : Prop :=
  Step allowed o o' ∧ o'.clerks p = o.clerks p

/-- What happens besides a clerk who has nothing to do also happens while he is busy. -/
theorem Besides.reaches {p : ClerkId} {d : Desk} (h : Besides allowed p o o')
    (idle : o.clerks p = .done d) (x : Dialogue Desk) :
    Reaches allowed (o.busy p x) (o'.busy p x) := by
  obtain ⟨step, apart⟩ := h
  cases step with
  | @begins p' d' e idle' may =>
    by_cases hp : p' = p
    · -- He has begun an errand that comes to nothing.
      subst hp
      have hw : e.work d' = o.clerks p' := by simpa using apart
      rw [hw, Keyed.set_eq_self]
    · have hi : (o.busy p x).clerks p' = .done d' := (Keyed.set_other _ _ hp).trans idle'
      have hs : Reaches allowed (o.busy p x) _ := .single (.begins e hi may)
      rwa [busy, Keyed.set_comm _ _ _ (Ne.symm hp)] at hs
  | @asks p' q next a s busy' answered =>
    by_cases hp : p' = p
    · subst hp
      exact absurd (idle.symm.trans busy') (by simp)
    · have hb : (o.busy p x).clerks p' = .ask q next := (Keyed.set_other _ _ hp).trans busy'
      have hs : Reaches allowed (o.busy p x) _ := .single (.asks hb answered)
      rwa [busy, Keyed.set_comm _ _ _ (Ne.symm hp)] at hs
  | medium available => exact .single (.medium _ available)
  | clock now => exact .single (.clock _ now)

/-- What a visitor does, a clerk with nothing to do could have done. -/
theorem reaches_of_visit {p : ClerkId} {d : Desk} (f : α → Dialogue Desk)
    (idle : o.clerks p = .done d) (led : t.Led (Besides allowed p) Serves o xs a o') :
    Reaches allowed (o.busy p (t >>= f)) (o'.busy p (f a)) ∧ o'.clerks p = .done d := by
  induction led with
  | done a o => exact ⟨.refl, idle⟩
  | meanwhile step rest ih =>
    obtain ⟨hr, hd⟩ := ih (step.2.trans idle)
    exact ⟨(step.reaches idle _).trans hr, hd⟩
  | @asks q next o o₁ o₂ r xs a answered rest ih =>
    obtain @⟨scene, answered⟩ := answered
    obtain ⟨hr, hd⟩ := ih idle
    have hb : (o.busy p (.ask q next >>= f)).clerks p = .ask q fun a => next a >>= f :=
      Keyed.set_same ..
    have hs : Reaches allowed (o.busy p (.ask q next >>= f)) _ := .single (.asks hb answered)
    rw [busy, Keyed.set_set] at hs
    exact ⟨hs.trans hr, hd⟩

/-! ## Visits that can be played -/

/-- A visit in which all requests are carried out, with the turns that are taken before each. -/
def playVisit : Dialogue α → List (List Turn) → Office → List (Exchange Office) × α × Office
  | .done a, _, o => ([], a, o)
  | .ask q next, ts, o =>
    let found := o.play (ts.headD [])
    let left := { found with
      scene := ⟨(found.scene.world.answer q).2, found.scene.told q⟩ }
    let (xs, rest) := playVisit (next (found.scene.world.answer q).1) (ts.drop 1) left
    (⟨q, found, left⟩ :: xs, rest)

/-- What the turns come to is something that the others may do, as long as a condition holds that
neither turns nor answers undo. -/
theorem led_playVisit_among {others : Office → Office → Prop} {P : Office → Prop} (t : Dialogue α)
    {ts : List (List Turn)}
    (turned : ∀ turns ∈ ts, ∀ o, P o →
      Relation.ReflTransGen others o (o.play turns) ∧ P (o.play turns))
    (served : ∀ (q : Request) o, P o →
      P { o with scene := ⟨(o.scene.world.answer q).2, o.scene.told q⟩ }) (ho : P o) :
    t.Led others Serves o (playVisit t ts o).1 (playVisit t ts o).2.1 (playVisit t ts o).2.2 := by
  induction t generalizing ts o with
  | done a => exact .done a o
  | ask q next ih =>
    have first : Relation.ReflTransGen others o (o.play (ts.headD [])) ∧
        P (o.play (ts.headD [])) := by
      cases ts with
      | nil => exact ⟨.refl, ho⟩
      | cons turns rest => exact turned turns List.mem_cons_self o ho
    exact .later first.1 (.asks ⟨⟨.done q (o.play (ts.headD [])).scene.world⟩⟩
      (ih _ (fun turns h => turned turns (List.mem_of_mem_drop h)) (served q _ first.2)))

theorem led_playVisit (t : Dialogue α) {ts : List (List Turn)}
    (may : ∀ turns ∈ ts, ∀ turn ∈ turns, ∀ e ∈ turn.errand?, allowed e) (o : Office) :
    t.Led (Step allowed) Serves o (playVisit t ts o).1 (playVisit t ts o).2.1
      (playVisit t ts o).2.2 :=
  led_playVisit_among (P := fun _ => True) t
    (fun turns h o _ => ⟨reaches_play o (may turns h), trivial⟩) (fun _ _ _ => trivial) trivial

/-- A visit while nobody else does anything. -/
theorem led_alone {others : Office → Office → Prop} (t : Dialogue α) (o : Office) :
    t.Led others Serves o (playVisit t [] o).1 (playVisit t [] o).2.1 (playVisit t [] o).2.2 :=
  led_playVisit_among (P := fun _ => True) t (fun _ h => absurd h List.not_mem_nil)
    (fun _ _ _ => trivial) trivial

/-! ## While the medium can be reached -/

/-- One thing happens, and the medium can be reached. -/
structure InReach (allowed : Errand → Prop) (o o' : Office) : Prop where
  step : Step allowed o o'
  available : o'.medium.available = true

theorem inReach_of_stays (available : o.medium.available = true)
    (stays : Relation.ReflTransGen (Stays allowed) o o') :
    Relation.ReflTransGen (InReach allowed) o o' ∧ o'.medium.available = true := by
  induction stays with
  | refl => exact ⟨.refl, available⟩
  | tail _ step ih =>
    have available' := step.2.trans ih.2
    exact ⟨ih.1.tail ⟨step.1, available'⟩, available'⟩

theorem led_playVisit_inReach (t : Dialogue α) {ts : List (List Turn)}
    (may : ∀ turns ∈ ts, ∀ turn ∈ turns, (∀ e ∈ turn.errand?, allowed e) ∧ turn.Indoors)
    (available : o.medium.available = true) :
    t.Led (InReach allowed) Serves o (playVisit t ts o).1 (playVisit t ts o).2.1
      (playVisit t ts o).2.2 :=
  led_playVisit_among (P := fun o => o.medium.available = true) t
    (fun turns h o ho => inReach_of_stays ho (stays_play o (fun turn ht => (may turns h turn ht).1)
      fun turn ht => (may turns h turn ht).2))
    (fun q o ho => (InMemory.available_answer q o.scene.world).trans ho) available

end Office

end TransferLedger

import TransferLedger.Proofs.Dialogue.Views
import TransferLedger.Proofs.Office.Rules
import TransferLedger.Proofs.Snapshot.Saving

/-!
# What a request leaves behind

A proper request breaks nothing (`Holds.answered`), and to everybody else it is something that the
others may do (`Answers.rely`).  Both go by the kind of the request.  Most change nothing; the four
that do are a commit that lands, a snapshot that is saved, and the two that change a copy, an
operation and a confirmation.
-/

set_option autoImplicit false

namespace TransferLedger

namespace Chronicle

variable {L : Law} {p p' : Party} {s s' : Chronicle} {scene : Scene}

/-! ## The same streams -/

theorem after_of_records (hr : ∀ stream, scene.records stream = s.medium.records stream) :
    s.after p scene = ⟨scene, s.authors⟩ := by
  simp [after, hr]

theorem within_of_records (hr : ∀ stream, scene.records stream = s.medium.records stream) :
    s.medium.Within scene.world.medium := by
  intro stream
  have he : scene.world.medium.records stream = s.medium.records stream := hr stream
  exact he ▸ List.prefix_rfl

/-- The same streams, and copies, stories and snapshots that are in order. -/
theorem Holds.of_records (h : Holds L s)
    (hr : ∀ stream, scene.records stream = s.medium.records stream)
    (hl : scene.stories.length = scene.world.copies.length)
    (ht : ∀ (i : HandleId) c y, scene.world.copies[i]? = some c → scene.stories[i]? = some y →
      y.start.Settled ∧ L.start s.medium y.start ∧ ∃ n, y.Tells s.medium c n)
    (hx : ∀ stream x, scene.world.shelf.latest stream = some x → L.snapshot s.medium x) :
    Holds L ⟨scene, s.authors⟩ where
  orderly := fun stream => by
    show Continues stream .empty (scene.records stream)
    rw [hr stream]
    exact h.orderly stream
  lawful := fun stream r hm => by
    have hm' : r ∈ scene.records stream := hm
    rw [hr stream] at hm'
    exact h.lawful stream r hm'
  whole := fun stream => by
    show L.whole stream (scene.records stream)
    rw [hr stream]
    exact h.whole stream
  noted := fun stream => by
    show (s.authors stream).length = (scene.records stream).length
    rw [hr stream]
    exact h.noted stream
  length_stories := hl
  told := by
    intro i c y hc hy
    obtain ⟨hset, hstart, n, htells⟩ := ht i c y hc hy
    have hw := within_of_records hr
    exact ⟨hset, L.start_within hw hstart, n, htells.within hw⟩
  shelved := fun stream x hxs => L.snapshot_within (within_of_records hr) (hx stream x hxs)

/-- The same streams, and copies that others may make of those that there were. -/
theorem Rely.of_records (hr : ∀ stream, scene.records stream = s.medium.records stream)
    (hc : ∀ (i : HandleId) c, s.copies[i]? = some c →
      ∃ c', scene.world.copies[i]? = some c' ∧ Evolves p ⟨scene, s.authors⟩ c c') :
    Rely p s ⟨scene, s.authors⟩ where
  within := within_of_records hr
  authors := fun _ => ⟨[], by simp, by simp⟩
  copies := hc

theorem Rely.of_eq (hr : ∀ stream, scene.records stream = s.medium.records stream)
    (hc : scene.world.copies = s.copies) : Rely p s ⟨scene, s.authors⟩ :=
  .of_records hr fun _ c hci => ⟨c, by rw [hc]; exact hci, .refl ..⟩

theorem Holds.of_eq (h : Holds L s) (hr : ∀ stream, scene.records stream = s.medium.records stream)
    (hc : scene.world.copies = s.copies) (hy : scene.stories = s.stories)
    (hx : ∀ stream x, scene.world.shelf.latest stream = some x → L.snapshot s.medium x) :
    Holds L ⟨scene, s.authors⟩ :=
  h.of_records hr (by rw [hc, hy]; exact h.length_stories)
    (fun i c y hci hyi =>
      h.told i c y (by rw [hc] at hci; exact hci) (by rw [hy] at hyi; exact hyi))
    hx

/-! ## A commit that lands -/

section landed

variable {m : Memory} {n : Nat} {appends : List Append}

def landed (s : Chronicle) (m : Memory) : Scene :=
  { s.scene with world.medium := m }

theorem authors_after_landed (hm : s.medium.commit appends = .ok m) (stream : String) :
    (s.after p (s.landed m)).authors stream =
      s.authors stream ++ List.replicate (Append.onto stream appends).length p := by
  show s.authors stream ++ List.replicate ((m.records stream).length - _) p = _
  rw [Memory.records_commit hm, List.length_append, Nat.add_sub_cancel_left]

theorem Holds.landed (h : Holds L s) (hp : Proper L p s (.commit n appends))
    (hm : s.medium.commit appends = .ok m) : Holds L (s.after p (s.landed m)) where
  orderly := h.orderly.commit hm
  lawful := by
    intro stream r hr
    have hr' : r ∈ m.records stream := hr
    rw [Memory.records_commit hm, List.mem_append] at hr'
    rcases hr' with hr' | hr'
    · exact h.lawful stream r hr'
    · obtain ⟨a, ha, hra⟩ := Append.mem_of_mem_onto hr'
      exact hp.1 a ha r hra
  whole := hp.2 m hm
  noted := by
    intro stream
    show _ = (m.records stream).length
    rw [authors_after_landed hm, Memory.records_commit hm, List.length_append, List.length_append,
      List.length_replicate, h.noted]
  length_stories := h.length_stories
  told := by
    intro i c y hc hy
    obtain ⟨hset, hstart, n, htells⟩ := h.told i c y hc hy
    have hw := Memory.within_commit hm
    exact ⟨hset, L.start_within hw hstart, n, htells.within hw⟩
  shelved := fun stream x hx => L.snapshot_within (Memory.within_commit hm) (h.shelved stream x hx)

theorem Rely.landed (hm : s.medium.commit appends = .ok m) (hne : p ≠ p') :
    Rely p' s (s.after p (s.landed m)) where
  within := Memory.within_commit hm
  authors := by
    intro stream
    refine ⟨_, authors_after_landed hm stream, ?_⟩
    intro hmem
    exact hne (List.eq_of_mem_replicate hmem).symm
  copies := fun _ c hc => ⟨c, hc, .refl ..⟩

end landed

/-! ## Snapshots -/

def saved (s : Chronicle) (x : Snapshot) : Scene :=
  { s.scene with world.shelf := s.scene.world.shelf.save x }

/-! ## Working copies -/

def placed (s : Chronicle) (c : WorkingCopy) : Scene :=
  ⟨{ s.scene.world with copies := s.copies ++ [c] }, s.stories ++ [⟨c, []⟩]⟩

theorem Holds.placed (h : Holds L s) {c : WorkingCopy} (hc : c.Settled) (hl : L.start s.medium c) :
    Holds L ⟨s.placed c, s.authors⟩ := by
  refine h.of_records (fun _ => rfl) ?_ ?_ h.shelved
  · show (s.stories ++ [_]).length = (s.copies ++ [c]).length
    rw [List.length_append, List.length_append, h.length_stories]
    rfl
  · intro i c' y' hc' hy'
    have hc'' : (s.copies ++ [c])[i]? = some c' := hc'
    have hy'' : (s.stories ++ [⟨c, []⟩])[i]? = some y' := hy'
    by_cases hi : i < s.copies.length
    · rw [List.getElem?_append_left hi] at hc''
      rw [List.getElem?_append_left (h.length_stories ▸ hi)] at hy''
      exact h.told i c' y' hc'' hy''
    · -- The new copy is the last one, and so is its story.
      have hle : s.copies.length ≤ i := Nat.le_of_not_lt hi
      rw [List.getElem?_append_right hle] at hc''
      rw [List.getElem?_append_right (h.length_stories ▸ hle), h.length_stories] at hy''
      obtain ⟨h0, rfl⟩ : i - s.copies.length = 0 ∧ c = c' := by
        simpa [List.getElem?_singleton] using hc''
      rw [h0] at hy''
      obtain rfl := Option.some.inj hy''
      exact ⟨hc, hl, 0, .begun hc _⟩

theorem Rely.placed (s : Chronicle) (c : WorkingCopy) : Rely p s ⟨s.placed c, s.authors⟩ := by
  refine .of_records (fun _ => rfl) fun i c' hc' => ⟨c', ?_, .refl ..⟩
  show (s.copies ++ [c])[i]? = some c'
  rw [List.getElem?_append_left (List.getElem?_eq_some_iff.1 hc').1]
  exact hc'

/-- The scene after one copy and its story have changed. -/
def changed (s : Chronicle) (h : HandleId) (f : WorkingCopy → WorkingCopy) (g : Story → Story) :
    Scene :=
  ⟨{ s.scene.world with copies := s.copies.modify h f }, s.stories.modify h g⟩

theorem after_changed (s : Chronicle) (h : HandleId) (f : WorkingCopy → WorkingCopy)
    (g : Story → Story) : s.after p (s.changed h f g) = ⟨s.changed h f g, s.authors⟩ :=
  after_of_records fun _ => rfl

theorem Holds.changed (hs : Holds L s) {h : HandleId} {f : WorkingCopy → WorkingCopy}
    {g : Story → Story} (start : ∀ y, (g y).start = y.start)
    (told : ∀ c y n, s.copies[h]? = some c → s.stories[h]? = some y → y.Tells s.medium c n →
      ∃ n', (g y).Tells s.medium (f c) n') : Holds L ⟨s.changed h f g, s.authors⟩ := by
  refine hs.of_records (fun _ => rfl) ?_ ?_ hs.shelved
  · show (s.stories.modify h g).length = (s.copies.modify h f).length
    rw [List.length_modify, List.length_modify]
    exact hs.length_stories
  · intro i c' y' hc' hy'
    have hc'' : (s.copies.modify h f)[i]? = some c' := hc'
    have hy'' : (s.stories.modify h g)[i]? = some y' := hy'
    rw [List.getElem?_modify] at hc'' hy''
    obtain ⟨c, hc, rfl⟩ := Option.map_eq_some_iff.1 hc''
    obtain ⟨y, hy, rfl⟩ := Option.map_eq_some_iff.1 hy''
    obtain ⟨h1, h2, n, h3⟩ := hs.told i c y hc hy
    by_cases hi : h = i
    · subst hi
      simp only [if_true]
      rw [start y]
      exact ⟨h1, h2, told c y n hc hy h3⟩
    · simp only [if_neg hi]
      exact ⟨h1, h2, n, h3⟩

theorem Rely.changed {h : HandleId} {f : WorkingCopy → WorkingCopy} {g : Story → Story}
    (ok : ∀ c, s.copies[h]? = some c → Evolves p ⟨s.changed h f g, s.authors⟩ c (f c)) :
    Rely p s ⟨s.changed h f g, s.authors⟩ := by
  refine .of_records (fun _ => rfl) fun i c hc => ?_
  have hi : (s.changed h f g).world.copies[i]? = some (if h = i then f c else c) := by
    show (s.copies.modify h f)[i]? = _
    rw [List.getElem?_modify, hc]
    by_cases hi : h = i <;> simp [hi]
  refine ⟨_, hi, ?_⟩
  by_cases he : h = i
  · subst he
    rw [if_pos rfl]
    exact ok c hc
  · rw [if_neg he]
    exact .refl ..

/-- Putting a copy in place of one is a way of changing it. -/
theorem set_eq_modify (cs : List WorkingCopy) (h : HandleId) (c : WorkingCopy) :
    cs.set h c = cs.modify h fun _ => c := by
  induction cs generalizing h with
  | nil => cases h <;> rfl
  | cons x rest ih =>
    cases h with
    | zero => rfl
    | succ h => rw [List.set_cons_succ, List.modify_succ_cons, ih]

/-! ## Any request -/

/-- Nothing is broken, and to everybody else it is something that the others may do. -/
def Kept (L : Law) (p : Party) (s s' : Chronicle) : Prop :=
  Holds L s' ∧ ∀ p', p ≠ p' → Rely p' s s'

theorem after_scene (s : Chronicle) (p : Party) : s.after p s.scene = s :=
  after_of_records fun _ => rfl

theorem Kept.quiet (h : Holds L s) : Kept L p s (s.after p s.scene) := by
  rw [after_scene]
  exact ⟨h, fun p' _ => .refl p' s⟩

theorem Kept.saved (h : Holds L s) {x : Snapshot} (hx : L.snapshot s.medium x) :
    Kept L p s (s.after p (s.saved x)) := by
  have hr : ∀ stream, (s.saved x).records stream = s.medium.records stream := fun _ => rfl
  rw [after_of_records hr]
  refine ⟨h.of_eq (fun _ => rfl) rfl rfl fun stream x' hx' => ?_,
    fun p' _ => .of_eq (fun _ => rfl) rfl⟩
  rcases Shelf.latest_save hx' with rfl | hx'
  · exact hx
  · exact h.shelved stream x' hx'

theorem Kept.landed (h : Holds L s) {n : Nat} {appends : List Append} {m : Memory}
    (hp : Proper L p s (.commit n appends)) (hm : s.medium.commit appends = .ok m) :
    Kept L p s (s.after p (s.landed m)) :=
  ⟨h.landed hp hm, fun _ hne => .landed hm hne⟩

theorem Kept.placed (h : Holds L s) {c : WorkingCopy} (hc : c.Settled) (hl : L.start s.medium c) :
    Kept L p s (s.after p (s.placed c)) := by
  have hr : ∀ stream, (s.placed c).records stream = s.medium.records stream := fun _ => rfl
  rw [after_of_records hr]
  exact ⟨h.placed hc hl, fun _ _ => .placed s c⟩

/-- A confirmation: by `Proper` nobody else has stored the first of the facts. -/
theorem Kept.confirmed (hs : Holds L s) {h : HandleId} {v : Nat}
    (hp : ∀ c, s.copies[h]? = some c → s.medium.Stores c v ∧
      (c.durable < v → (s.authors c.stream)[c.durable]? = some p)) :
    Kept L p s (s.after p (s.changed h (·.markCommitted v) id)) := by
  rw [after_changed]
  refine ⟨hs.changed (fun _ => rfl) fun c y n hc _ hy => ⟨_, hy.confirm (hp c hc).1⟩,
    fun p' hne => .changed fun c hc => ?_⟩
  obtain ⟨hst, hau⟩ := hp c hc
  refine ⟨rfl, hst.durable_le, fun heq => ?_, hst.le_length, fun hlt => ?_⟩
  · show c.pending <+: c.pending.drop (v - c.durable)
    rw [show v - c.durable = 0 from Nat.sub_eq_zero_of_le (Nat.le_of_eq heq.symm)]
    exact List.prefix_rfl
  · show (s.authors c.stream)[c.durable]? ≠ some p'
    rw [hau hlt]
    exact fun he => hne (Option.some.inj he)

theorem Kept.performed (hs : Holds L s) {h : HandleId} {c : WorkingCopy} {e : Event} {t : Transfer}
    (hc : s.copies[h]? = some c) (ha : c.transfer.apply e = .ok t) :
    Kept L p s (s.after p (s.changed h
      (fun _ => { c with transfer := t, version := c.version + 1, pending := c.pending ++ [e] })
      (·.emit e))) := by
  rw [after_changed]
  refine ⟨hs.changed (fun _ => rfl) fun c' y n hc' _ hy => ?_,
    fun p' _ => .changed fun c' hc' => ?_⟩
  · obtain rfl : c = c' := Option.some.inj (hc ▸ hc')
    exact ⟨n, hy.emit ha⟩
  · obtain rfl : c = c' := Option.some.inj (hc ▸ hc')
    exact ⟨Transfer.id_of_apply ha, Nat.le_refl _, fun _ => List.prefix_append ..,
      fun h => absurd h (Nat.lt_irrefl _), fun h => absurd h (Nat.lt_irrefl _)⟩

theorem Answers.kept {q : Request} {a : q.Answer} (hs : Holds L s) (hp : Proper L p s q)
    (ha : Answers p q s a s') : Kept L p s s' := by
  obtain ⟨⟨ha⟩⟩ := ha
  cases ha with
  | late allowed appends w => exact .quiet hs
  | done q w =>
    cases q with
    | head stream => exact .quiet hs
    | page stream start limit => exact .quiet hs
    | load stream => exact .quiet hs
    | time => exact .quiet hs
    | look h => exact .quiet hs
    | save x => exact .saved hs hp
    | place c => exact .placed hs hp.1 hp.2
    | confirm h v =>
      have := Kept.confirmed (L := L) (p := p) hs hp
      simpa [changed, Scene.told, InMemory.answer] using this
    | commit allowed appends =>
      cases hm : s.medium.commit appends with
      | ok m =>
        have := Kept.landed (p := p) hs hp hm
        simpa [landed, Scene.told, InMemory.answer, Memory.reply, hm] using this
      | error e =>
        have := Kept.quiet (p := p) hs
        simpa [Scene.told, InMemory.answer, Memory.reply, hm] using this
    | perform h o =>
      have hq := Kept.quiet (p := p) hs
      cases hc : s.copies[h]? with
      | none => simpa [Scene.told, InMemory.answer, hc] using hq
      | some c =>
        cases hd : c.transfer.decide s.scene.world.clock o with
        | error x =>
          have he := WorkingCopy.perform_of_decide_error hd
          simpa [Scene.told, InMemory.answer, hc, hd, he] using hq
        | ok e =>
          obtain ⟨t, ht, he⟩ := WorkingCopy.perform_of_decide hd
          have := Kept.performed (p := p) hs hc ht
          simpa [changed, Scene.told, InMemory.answer, hc, hd, he, set_eq_modify] using this

/-! ## The answers -/

/-- Appends have landed, or nothing has changed. -/
theorem Answers.of_commit {allowed : Nat} {appends : List Append} {a : Reply}
    (h : Answers p (.commit allowed appends) s a s') :
    (a = .applied ∧ ∃ m, s.medium.commit appends = .ok m ∧ s' = s.after p (s.landed m)) ∨
      (a ≠ .applied ∧ s' = s) := by
  obtain ⟨⟨h⟩⟩ := h
  rcases h.of_commit with ⟨ha, m, hm, rfl⟩ | ⟨ha, rfl⟩
  · exact .inl ⟨ha, m, hm, rfl⟩
  · exact .inr ⟨ha, after_scene s p⟩

theorem Answers.of_refused {allowed : Nat} {appends : List Append} {e : StoreError}
    (h : Answers p (.commit allowed appends) s (Reply.refused e) s') :
    s.medium.commit appends = .error e ∧ s' = s := by
  obtain ⟨⟨h⟩⟩ := h
  obtain ⟨hm, rfl⟩ := h.of_refused
  exact ⟨hm, after_scene s p⟩

theorem Answers.of_save {x : Snapshot} {a : Except SnapshotError Unit}
    (h : Answers p (.save x) s a s') : s' = ⟨s.saved x, s.authors⟩ := by
  obtain ⟨⟨h⟩⟩ := h
  cases h
  have hr : ∀ stream, (s.saved x).records stream = s.medium.records stream := fun _ => rfl
  exact after_of_records hr

theorem Answers.of_confirm {h : HandleId} {v : Nat} {a : Option WorkingCopy}
    (ha : Answers p (.confirm h v) s a s') :
    a = s.copies[h]?.map (·.markCommitted v) ∧
      s' = ⟨s.changed h (·.markCommitted v) id, s.authors⟩ := by
  obtain ⟨⟨ha⟩⟩ := ha
  obtain ⟨hcopy, rfl⟩ := ha.of_confirm
  refine ⟨hcopy, ?_⟩
  rw [← after_changed (p := p) s h (·.markCommitted v) id]
  simp [changed, Scene.told]

end Chronicle

/-- The rules for one party of the office. -/
def officeRules (L : Law) (p : Party) : Rules Chronicle where
  holds := Chronicle.Holds L
  rely := Chronicle.Rely p
  proper := fun q s => Chronicle.Proper L p s q
  answers := Chronicle.Answers p
  rely_refl := Chronicle.Rely.refl p
  rely_trans := Chronicle.Rely.trans
  holds_answered := fun hs hp ha => (ha.kept hs hp).1

theorem officeRules_shows (L : Law) (p : Party) :
    (officeRules L p).Shows fun s => s.scene.world where
  proper := by
    intro q s hq
    cases q with
    | head | page | load | time | look => trivial
    | commit | save | confirm | place | perform => exact absurd hq (by simp [Request.looks])
  answered := by
    intro q s s' a hq ha
    obtain ⟨⟨ha⟩⟩ := ha
    cases ha with
    | late => exact absurd hq (by simp [Request.looks])
    | done =>
      cases q with
      | head | page | load | time | look => exact ⟨Chronicle.after_scene s p, rfl⟩
      | commit | save | confirm | place | perform => exact absurd hq (by simp [Request.looks])

/-- Where nobody else is there, a dialogue that sticks to the rules is one way of running it. -/
theorem Dialogue.Keeps.of_run {L : Law} {p : Party} {α : Type} {Q : α → Chronicle → Prop}
    {t : Dialogue α} {s : Chronicle} (h : t.Keeps (officeRules L p) Q s)
    (hs : Chronicle.Holds L s) :
    ∃ s', Chronicle.Holds L s' ∧ s'.scene.world = (t.run s.scene.world).2 ∧
      Q (t.run s.scene.world).1 s' := by
  induction t generalizing s with
  | done a => exact ⟨s, hs, rfl, h s (.refl p s) hs⟩
  | ask q next ih =>
    obtain ⟨proper, rest⟩ := h s (.refl p s) hs
    have answered : Chronicle.Answers p q s _ _ := ⟨⟨.done q s.scene.world⟩⟩
    exact ih _ (rest _ _ answered) (answered.kept hs proper).1

/-- Once it holds, nobody can undo it who sticks to the rules. -/
def Lasting (L : Law) (P : Chronicle → Prop) : Prop :=
  ∀ p, (officeRules L p).Stable P

/-- What is lasting is not undone by what a dialogue itself does either: to anybody else it is
something that the others may do. -/
theorem Dialogue.Keeps.frame {L : Law} {p : Party} {α : Type} {P : Chronicle → Prop}
    {Q : α → Chronicle → Prop} {t : Dialogue α} {s : Chronicle} (lasting : Lasting L P) (hs : P s)
    (h : t.Keeps (officeRules L p) Q s) :
    t.Keeps (officeRules L p) (fun a s' => Q a s' ∧ P s') s := by
  induction t generalizing s with
  | done a => exact fun s' hr hi => ⟨h s' hr hi, lasting p hs hr hi⟩
  | ask q next ih =>
    intro s' hr hi
    obtain ⟨hp, hn⟩ := h s' hr hi
    refine ⟨hp, fun a s'' ha => ih a ?_ (hn a s'' ha)⟩
    -- To somebody else the answer is what the others may do.
    obtain ⟨p', hne⟩ := Party.exists_other p
    have hk := Chronicle.Answers.kept hi hp ha
    exact lasting p' (lasting p hs hr hi) (hk.2 p' hne) hk.1

end TransferLedger

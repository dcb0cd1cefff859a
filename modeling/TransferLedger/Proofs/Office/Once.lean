import TransferLedger.Proofs.Office.Faithful
import TransferLedger.Proofs.Office.Handling
import TransferLedger.Proofs.Office.Turns
import TransferLedger.Proofs.Office.Visits

/-!
# Commands are done once or not at all

Between the load of an attempt and its commit the others may have stored anything, and a handler
makes as many attempts as it likes.  Still a command that is acknowledged has stored one record,
behind exactly the facts that it was decided on, and a command that has failed has stored none
(`Office.once_of_handle`).

That is what `CommandHandler.keeps_handle` says if one looks at what is one's own: it is nothing
before a record has landed, and that record afterwards.  What the record was decided on is known
from the law that copies are faithful.
-/

set_option autoImplicit false

namespace TransferLedger

open Chronicle

theorem Append.onto_singleton (stream : String) (a : Append) :
    Append.onto stream [a] = if stream = a.stream then a.records else [] := by
  rw [Append.onto_cons, Append.onto_nil, List.append_nil]
  by_cases h : stream = a.stream
  · rw [if_pos h, if_pos h.symm]
  · rw [if_neg h, if_neg (Ne.symm h)]

/-- A visitor's concern: nothing is his until his record has landed, and then it is that record,
where the copy was. -/
def Concern.once (log : Log) : Concern .faithful none log where
  before := Owns none fun _ => []
  after := fun c e s => ∃ r, Owns none (fun stream => if stream = c.stream then [r] else []) s ∧
    (s.medium.records c.stream)[c.durable]? = some r ∧ r.Carries e
  stable_before := fun _ _ h hr hs => h.rely hr hs
  stable_after := fun _ _ _ _ ⟨r, howns, hat, hc⟩ hr hs =>
    ⟨r, howns.rely hr hs, hr.within.getElem? hat, hc⟩
  saved := fun _ _ _ _ ⟨r, howns, hat, hc⟩ => ⟨r, ⟨howns.noted, howns.signed_eq⟩, hat, hc⟩
  landed := by
    intro s m c e a hs howns ha hm
    obtain ⟨head, now, hv, rfl⟩ := ha
    have hr : log.sealer.record c.stream head (e.entry now) ∈
        (⟨[⟨c.stream, c.durable, [log.sealer.record c.stream head (e.entry now)]⟩]⟩ :
          Batch).records :=
      List.mem_singleton_self _
    -- The append has landed, so the stream had the version that it expects.
    obtain ⟨-, hat⟩ := landed_of_mem hs.orderly hm hr
    have hseq : (log.sealer.record c.stream head (e.entry now)).sequence - 1 = c.durable := hv
    rw [hseq] at hat
    refine ⟨_, ?_, hat, Record.carries_entry rfl⟩
    have hafter := howns.after (Memory.within_commit hm : s.medium.Within (s.landed m).world.medium)
    have hnew : (fun stream => [] ++
        ((s.landed m).records stream).drop (s.medium.records stream).length) = fun stream =>
        if stream = c.stream then [log.sealer.record c.stream head (e.entry now)] else [] := by
      funext stream
      show [] ++ (m.records stream).drop _ = _
      rw [Memory.records_commit hm, List.drop_left, Append.onto_singleton]
      rfl
    rwa [hnew] at hafter

namespace Office

variable {allowed : Errand → Prop} {clock : Instant} {o o' : Office}

theorem sound_of_reaches_faithful (reached : Reaches allowed (opening clock .empty) o) :
    ∃ authors, Sound .faithful o authors ∧ Owns none (fun _ => []) ⟨o.scene, authors⟩ :=
  sound_of_reaches (fun _ _ _ _ _ _ _ => trivial) reached

/-- Somebody has a command handled while the clerks go on.  If it is acknowledged he has added one
record, at the version that he is told, of the fact that the operation becomes; and what the stream
holds before that version makes a copy on which the operation is accepted.  If the command fails he
has added nothing. -/
theorem once_of_handle (reached : Reaches allowed (opening clock .empty) o) {h : CommandHandler}
    {id : CommandId} {cmd : Command} {result : Except CommandError Acknowledgment}
    {xs : List (Exchange Office)}
    (led : (h.handle id cmd).Led (Step allowed) Serves o xs result o') :
    (∀ ack, result = .ok ack →
      (ack.command = id ∧ ack.kind = cmd.kind ∧ ack.transfer = cmd.transfer ∧
        0 < ack.attempts ∧ ack.attempts ≤ h.attempts) ∧
      ∃ r now b c,
        (∀ stream, Exchange.allAdded medium xs stream = if stream = ack.transfer then [r] else []) ∧
        0 < ack.version ∧ (o'.scene.records ack.transfer)[ack.version - 1]? = some r ∧
        r.sequence = ack.version ∧ r.event = .ok (cmd.operation.event ack.transfer now) ∧
        (Rebuilt.blank ack.transfer).takeAll ack.transfer
          ((o'.scene.records ack.transfer).take (ack.version - 1)) = .ok b ∧
        b.copy.perform now cmd.operation = .ok c) ∧
    (∀ e, result = .error e → ∀ stream, Exchange.allAdded medium xs stream = []) := by
  obtain ⟨authors, hs, howns⟩ := sound_of_reaches_faithful reached
  obtain ⟨authors', hs', hQ, hadded⟩ := hs.visited (fun _ _ _ _ _ _ _ => trivial) howns
    (CommandHandler.keeps_handle (fun _ _ _ => trivial) (.once h.log) id cmd howns) led
  refine ⟨fun ack hres => ?_, fun e hres stream => ?_⟩
  · subst hres
    obtain ⟨hack, c₀, c, now, ⟨hset, hstream, hfaithful⟩, hperform, hv, r, hmine, hat, hcar⟩ := hQ
    obtain ⟨e, t, -, happ, hc⟩ := WorkingCopy.decide_of_perform hperform
    have hcs : c.stream = cmd.transfer := by
      rw [hc, ← hstream]
      exact Transfer.id_of_apply happ
    have hcd : c.durable = ack.version - 1 := by
      rw [hc, hv, Nat.add_sub_cancel, hset.2]
    have hat' : (o'.scene.records cmd.transfer)[ack.version - 1]? = some r := by
      rw [← hcs, ← hcd]
      exact hat
    have hpos : 0 < ack.version := by omega
    have hseq := (hs'.holds.orderly.sequence hat').2
    obtain ⟨b, hb, hbc⟩ := hfaithful.replay hs'.holds.orderly hset
    rw [hstream, show c₀.version = ack.version - 1 by omega] at hb
    -- His own records are those of his exchanges, and the one that the concern speaks of.
    have hown (stream : String) : Exchange.allAdded medium xs stream =
        if stream = cmd.transfer then [r] else [] := by
      have := (hadded.signed_eq stream).symm.trans (hmine.signed_eq stream)
      rwa [hcs] at this
    rw [hack.2.2.1]
    exact ⟨⟨hack.1, hack.2.1, rfl, hack.2.2.2⟩, r, now, b, c, hown, hpos, hat', by omega,
      Record.event_of_carries hcar, hb, by rw [hbc]; exact hperform⟩
  · subst hres
    have hnone : Owns none (fun _ => []) ⟨o'.scene, authors'⟩ := hQ
    exact (hadded.signed_eq stream).symm.trans (hnone.signed_eq stream)

/-- A transfer is to be opened, in one attempt. -/
def openOnce : Dialogue (Except CommandError Acknowledgment) :=
  CommandHandler.handle ⟨.quick, false, 1⟩ ⟨.replicate 16 0⟩
    ⟨"t", .initiate ⟨100, "EUR", "a", "b"⟩⟩

/-- Just before the commit a clerk writes to a stream. -/
def rivalBeforeCommit (stream : String) : List (List Turn) :=
  [[], [], [], [],
    [.begins 0 (.append .quick stream [⟨"x", "", .startOf2025⟩] 0), .serve 0 2]]

/-- A rival on another stream does no harm, and one on the same stream is the end of the attempt. -/
theorem once_of_openOnce :
    (∃ ack r,
      (playVisit openOnce (rivalBeforeCommit "u") (opening .startOf2025 .empty)).2.1 = .ok ack ∧
      ack.version = 1 ∧ ∀ stream, Exchange.allAdded medium
        (playVisit openOnce (rivalBeforeCommit "u") (opening .startOf2025 .empty)).1 stream =
          if stream = "t" then [r] else []) ∧
    (playVisit openOnce (rivalBeforeCommit "t") (opening .startOf2025 .empty)).2.1 =
      .error (.exhausted "t" 1) ∧
    ∀ stream, Exchange.allAdded medium
      (playVisit openOnce (rivalBeforeCommit "t") (opening .startOf2025 .empty)).1 stream = [] := by
  have may (stream : String) : ∀ turns ∈ rivalBeforeCommit stream, ∀ turn ∈ turns,
      ∀ e ∈ turn.errand?, True := fun _ _ _ _ _ _ => trivial
  have won := once_of_handle .refl
    (led_playVisit openOnce (may "u") (opening .startOf2025 .empty))
  have lost := once_of_handle .refl
    (led_playVisit openOnce (may "t") (opening .startOf2025 .empty))
  have hwon : (playVisit openOnce (rivalBeforeCommit "u") (opening .startOf2025 .empty)).2.1 =
      .ok ⟨⟨.replicate 16 0⟩, .initiate, "t", 1, 1⟩ := rfl
  have hlost : (playVisit openOnce (rivalBeforeCommit "t") (opening .startOf2025 .empty)).2.1 =
      .error (.exhausted "t" 1) := rfl
  obtain ⟨-, r, now, b, c, hadded, -⟩ := won.1 _ hwon
  exact ⟨⟨_, r, hwon, rfl, hadded⟩, hlost, lost.2 _ hlost⟩

end Office

end TransferLedger

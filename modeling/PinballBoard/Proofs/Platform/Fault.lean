import PinballBoard.Platform.Error
import PinballBoard.Proofs.Link.Failure

/-!
# What a fault says about the stream

A failed call is classified twice: on the link by `LinkError.isTransport`, and, once it has been
sorted among the faults of devices, by `DeviceError.isTransport`. Neither looks at the stream. So
what they say is right only if each fault leaves the connection in one way.

It does. A call that fails is turned away before it is in line, fails with its stream, or fails with
a fault of the codec while the stream stays open (`Connection.Change.cases_of_failed`). The codec
has no faults of the stream of its own, so the second and the third case do not meet.

## Calls of the wrong kind

Sorting keeps the second and the third case apart (`DeviceError.isTransport_ofLink`), but it has no
place for the first one. A command that is sent although somebody has to read its reply, or the
other way round, is turned away without a look at the stream; `DeviceError.ofLink` takes it for a
fault of the link, and so it counts as the end of a link that is as well as it was before.
-/

namespace PinballBoard

theorem DeviceError.isTransport_ofProtocol (e : ProtocolError) :
    (ofProtocol e).isTransport = e.isIo := by
  cases e <;> rfl

theorem DeviceError.isTransport_ofLink {e : LinkError} (h : e.isTransport = true) :
    (ofLink e).isTransport = true := by
  cases e with
  | replyExpected | noReplyExpected | protocol => cases h
  | _ => rfl

theorem DeviceError.isTransport_of_refusal {call : Call} {e : LinkError}
    (h : call.refusal = some e) : (ofLink e).isTransport = true := by
  cases call with
  | send | request =>
    simp only [Call.refusal] at h
    split at h <;> cases h
    rfl
  | probe | close => cases h

/-! ## The law -/

namespace Usage

open Connection

variable {u : Usage} {call : Call} {during : List Turn} {e : LinkError}

/-- A call of the right kind fails with its stream, or with a fault of the codec. -/
private theorem cases_of_ends (hkind : call.refusal = none)
    (hends : u.Ends (.call call :: during) u.calls.length (.failed e)) :
    let c := (u.run (.call call :: during)).connection
    (e.isTransport = true ∧ c.link = none) ∨
      ∃ e', e = .protocol e' ∧ e'.isIo = false ∧ c.link ≠ none := by
  intro c
  obtain ⟨earlier, last, hturns, hmem⟩ := hends
  have hrun : c = ((u.run earlier).step last).connection :=
    congrArg Usage.connection ((congrArg u.run hturns).trans (run_append u earlier [last]))
  obtain ⟨a, ha, hchange⟩ := (u.run earlier).change_turn last
  rw [hrun]
  obtain ⟨call', hcall', hrefusal, -⟩ | hfault | ⟨e', he', hio, hlink, -⟩ :=
    hchange.cases_of_failed hmem
  · obtain ⟨hlast, ht⟩ := ha _ _ hcall'
    obtain ⟨rfl, rfl⟩ | ⟨hlt, -⟩ := made_before (u := u) hturns
    · cases hlast
      rw [hkind] at hrefusal
      cases hrefusal
    · exact absurd ht (Nat.ne_of_lt hlt)
  · exact .inl hfault
  · exact .inr ⟨e', he', hio, hlink⟩

/-- A call of the wrong kind ends in the turn in which it is made, and touches nothing. -/
private theorem eq_of_refusal (hall : ∀ turns, (u.run turns).Sound) {command : Command}
    (hcall : call.command? = some command) {e' : LinkError} (hrefusal : call.refusal = some e')
    (hends : u.Ends (.call call :: during) u.calls.length (.failed e)) :
    e = e' ∧ during = [] ∧ (u.run (.call call :: during)).connection = u.connection := by
  have hstep := step_call_of_refusal (u := u) hrefusal
  obtain ⟨earlier, last, hturns, hmem⟩ := hends
  cases earlier with
  | nil =>
    obtain ⟨rfl, rfl⟩ := List.cons.inj hturns
    have hnoted : u.noted (.call call) = [.settled u.calls.length (.failed e')] := by
      simp [noted, Connection.step, Connection.enter, hrefusal]
    have hsame : Event.settled u.calls.length (.failed e) ∈ u.noted (.call call) := hmem
    rw [hnoted] at hsame
    obtain rfl : e = e' := by simpa using hsame
    refine ⟨rfl, rfl, ?_⟩
    change (u.step (.call call)).connection = u.connection
    rw [hstep]
  | cons first earlier =>
    -- it has ended in its first turn, so it cannot end again
    obtain ⟨rfl, -⟩ := List.cons.inj hturns
    have hgone : (u.step (.call call)).Gone u.calls.length := by
      refine (hall [.call call]).settled_gone _ (.failed e') ?_
      change _ ∈ (u.step (.call call)).events
      simp [hstep]
    obtain ⟨hnil, -⟩ | ⟨-, hcalls⟩ := made_before (u := u) hturns
    · cases hnil
    · have hsound : ((u.step (.call call)).run earlier).Sound := hall (.call call :: earlier)
      refine absurd hmem (hsound.not_noted_of_gone (hgone.run earlier) hcalls ?_ last _)
      rintro rfl
      cases hcall

/-- **A fault tells what has become of the stream.** A task sends or asks something, in any state
that a connection can get into, and its call fails. If the call is of the right kind for its command
then its fault, sorted among the faults of devices, counts as the end of the link just if there is
no stream any more, or there was none. If it is not, the call ends at once and the connection is
what it was; but its fault is counted as the end of the link all the same. -/
theorem classified_run (peer : String) (before during : List Turn) {call : Call}
    {command : Command} (hcall : call.command? = some command) {e : LinkError}
    (hends : ((fresh peer).run before).Ends (.call call :: during)
      ((fresh peer).run before).calls.length (.failed e)) :
    let u := (fresh peer).run before
    let c := (u.run (.call call :: during)).connection
    (call.refusal = none →
      ((DeviceError.ofLink e).isTransport = true ↔ c.link = none ∨ e = .notConnected)) ∧
    ∀ e', call.refusal = some e' →
      e = e' ∧ during = [] ∧ c = u.connection ∧ (DeviceError.ofLink e).isTransport = true := by
  intro u c
  have hall : ∀ turns, (u.run turns).Sound := by
    intro turns
    rw [← run_append]
    exact sound_run peer _
  refine ⟨fun hkind ↦ ?_, fun e' hrefusal ↦ ?_⟩
  · obtain ⟨htransport, hlink⟩ | ⟨e', rfl, he', hlink⟩ := cases_of_ends hkind hends
    · exact iff_of_true (DeviceError.isTransport_ofLink htransport) (.inl hlink)
    · have hfalse : (DeviceError.ofLink (.protocol e')).isTransport = false :=
        (DeviceError.isTransport_ofProtocol e').trans he'
      refine iff_of_false (by simp [hfalse]) ?_
      rintro (hnone | hclosed)
      · exact hlink hnone
      · cases hclosed
  · obtain ⟨rfl, hduring, hsame⟩ := eq_of_refusal hall hcall hrefusal hends
    exact ⟨rfl, hduring, hsame, DeviceError.isTransport_of_refusal hrefusal⟩

/-- The board hangs up on a question: this ends the link, and counts as its end. There is no tenth
display: this is the fault of who asked for it, and the link is still there. -/
theorem classified_run_hangup :
    let lost : List Turn := [.act .proceed, .act (.accept 1), .act .flush, .act .ends]
    let e : LinkError := .protocol (.invalidDisplay "display 9 has no command code (max 6)")
    (((fresh "board").run (.call (.request .identify) :: lost)).connection.link = none ∧
      (DeviceError.ofLink (.lost "board closed the connection")).isTransport = true) ∧
    ((fresh "board").run [.call (.send (.showText 9 "A")), .act .proceed]).connection.link ≠ none ∧
      (DeviceError.ofLink e).isTransport = false := by
  intro lost e
  have hlost : (fresh "board").Ends (.call (.request .identify) :: lost) 0
      (.failed (.lost "board closed the connection")) :=
    ⟨.call (.request .identify) :: lost.dropLast, .act .ends, rfl, by decide +kernel⟩
  have hrejected : (fresh "board").Ends [.call (.send (.showText 9 "A")), .act .proceed] 0
      (.failed e) := ⟨[.call (.send (.showText 9 "A"))], .act .proceed, rfl, by decide +kernel⟩
  have hgone := (classified_run "board" [] lost (by rfl) hlost).1 rfl
  have hstays := (classified_run "board" [] [.act .proceed] (by rfl) hrejected).1 rfl
  refine ⟨⟨(hgone.mp rfl).resolve_right (by decide), rfl⟩, fun hnone ↦ ?_, rfl⟩
  cases hstays.mpr (.inl hnone)

/-- A reset is sent as if it had no answer. It is turned away and the stream is as it was, but the
fault counts as the end of the link. -/
theorem turnedAway_isTransport :
    let u := fresh "board"
    let turns : List Turn := [.call (.send .reset)]
    u.Ends turns 0 (.failed (.replyExpected "Reset")) ∧
      (u.run turns).connection = u.connection ∧ (u.run turns).connection.link ≠ none ∧
      (DeviceError.ofLink (.replyExpected "Reset")).isTransport = true :=
  ⟨⟨[], .call (.send .reset), rfl, by decide +kernel⟩, rfl, by decide, rfl⟩

end Usage

end PinballBoard

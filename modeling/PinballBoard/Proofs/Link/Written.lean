import Mathlib.Data.List.Sort
import PinballBoard.Proofs.Link.Smooth

/-!
# What a host has written

Between the frames of a host stand the polls. A poll may be cancelled, and then a part of it is
never written; the part is all of it, since its frame is a single byte. So what the stream has taken
are whole frames, whatever has become of the polls, as soon as the calls of the host have ended
(`Usage.written_of_ended`), and without the polls they are the frames of the calls of the host.

The calls of the host stand in the order of their tickets, and so do the commands that the codec has
accepted. So it is enough to see that they are the same.
-/

namespace PinballBoard

/-- The commands of some calls, as far as they have frames. -/
def Call.sendable (calls : List Call) : List Command :=
  (calls.filterMap Call.command?).filter fun command ↦ decide command.HasFrame

theorem Call.sendable_append (calls more : List Call) :
    sendable (calls ++ more) = sendable calls ++ sendable more := by
  simp [sendable]

/-- The commands that are no polls. -/
def Command.withoutPolls (commands : List Command) : List Command :=
  commands.filter fun command ↦ decide (command ≠ .pollChanges)

/-- The calls that are no polls. -/
def Call.hosts (calls : List Call) : List Call :=
  calls.filter fun call ↦ call.command? != some .pollChanges

theorem Call.hosts_append (calls more : List Call) :
    hosts (calls ++ more) = hosts calls ++ hosts more :=
  List.filter_append ..

theorem Call.withoutPolls_sendable (calls : List Call) :
    Command.withoutPolls (sendable calls) = sendable (hosts calls) := by
  rw [Command.withoutPolls, sendable, sendable, hosts, List.filter_comm]
  congr 1
  induction calls with
  | nil => rfl
  | cons call calls ih =>
    cases hcommand : call.command? with
    | none => simpa [hcommand] using ih
    | some command => by_cases hpoll : command = .pollChanges <;> simpa [hcommand, hpoll] using ih

namespace Command

theorem withoutPolls_append (commands more : List Command) :
    withoutPolls (commands ++ more) = withoutPolls commands ++ withoutPolls more :=
  List.filter_append ..

/-- If some bytes end among polls behind all other commands, they end between two of them. -/
theorem frames_of_prefix {commands : List Command} {written : Bytes}
    (h : written <+: frames commands)
    (hpast : ∀ earlier command later, commands = earlier ++ command :: later →
      command ≠ .pollChanges → frames (earlier ++ [command]) <+: written) :
    ∃ begun, written = frames begun ∧ begun <+: commands ∧
      withoutPolls begun = withoutPolls commands := by
  induction commands using List.reverseRecOn with
  | nil => exact ⟨[], List.prefix_nil.mp h, List.prefix_rfl, rfl⟩
  | append_singleton commands command ih =>
    by_cases hpoll : command = .pollChanges
    · subst hpoll
      have hlast : frames (commands ++ [.pollChanges]) = frames commands ++ [Code.pollChanges] := by
        rw [frames_append]
        rfl
      rw [hlast] at h
      rcases List.prefix_concat_iff.mp h with hall | hshort
      · exact ⟨_, hall.trans hlast.symm, List.prefix_rfl, rfl⟩
      · obtain ⟨begun, hwritten, hbegun, hsame⟩ := ih hshort fun earlier command later heq ↦
          hpast earlier command (later ++ [.pollChanges]) (by simp [heq])
        refine ⟨begun, hwritten, hbegun.trans (List.prefix_append _ _), ?_⟩
        rw [hsame, withoutPolls_append]
        exact (List.append_nil _).symm
    · have hall : frames (commands ++ [command]) <+: written := hpast commands command [] rfl hpoll
      exact ⟨_, h.eq_of_length_le hall.length_le, List.prefix_rfl, rfl⟩

end Command

/-- What stands in ascending order is known from what stands there. -/
theorem eq_of_ascending {α : Type} {xs ys : List (Ticket × α)}
    (hxs : (xs.map Prod.fst).Pairwise (· < ·)) (hys : (ys.map Prod.fst).Pairwise (· < ·))
    (h : ∀ p, p ∈ xs ↔ p ∈ ys) : xs = ys := by
  let before (p q : Ticket × α) : Prop := p.1 < q.1
  have : Std.Irrefl before := ⟨fun p ↦ Nat.lt_irrefl p.1⟩
  have : Std.Antisymm before := ⟨fun _ _ hlt hgt ↦ absurd hlt (Nat.lt_asymm hgt)⟩
  rw [List.pairwise_map] at hxs hys
  exact List.Pairwise.eq_of_mem_iff (r := before) hxs hys h

/-- The commands of some calls, each with its ticket. -/
def Call.ticketed (calls : List Call) : List (Ticket × Command) :=
  calls.zipIdx.filterMap fun p ↦ p.1.command?.map (p.2, ·)

namespace Call

variable {calls : List Call}

theorem mem_ticketed {p : Ticket × Command} :
    p ∈ ticketed calls ↔ (calls[p.1]?).bind command? = some p.2 := by
  obtain ⟨t, command⟩ := p
  simp [ticketed, List.mem_zipIdx_iff_getElem?, Option.bind_eq_some_iff]

theorem map_snd_ticketed (calls : List Call) :
    (ticketed calls).map Prod.snd = calls.filterMap command? := by
  conv_rhs => rw [← List.zipIdx_map_fst 0 calls, List.filterMap_map]
  rw [ticketed, List.map_filterMap]
  refine List.filterMap_congr fun p _ ↦ ?_
  simp [Function.comp_def]

theorem ticketed_lt (calls : List Call) : ((ticketed calls).map Prod.fst).Pairwise (· < ·) := by
  have hsub : ((ticketed calls).map Prod.fst).Sublist (calls.zipIdx.map Prod.snd) := by
    rw [ticketed]
    induction calls.zipIdx with
    | nil => exact .slnil
    | cons p ps ih =>
      cases hcommand : p.1.command? with
      | none => simpa [hcommand] using ih.cons p.2
      | some command => simpa [hcommand] using ih.cons_cons p.2
  refine List.Pairwise.sublist hsub ?_
  rw [List.zipIdx_map_snd]
  exact List.pairwise_lt_range'

end Call

namespace Usage

variable {u : Usage}

/-- Whoever has a frame and whose call has ended well has had his command accepted, and the stream
has taken it and all before it. -/
private theorem Settled.accepted_of_endsWell (h : u.Settled) {t : Ticket} {call : Call}
    {command : Command} {outcome : Outcome} (hcall : u.calls[t]? = some call)
    (hcommand : call.command? = some command) (hframe : command.HasFrame)
    (hsettled : Event.settled t outcome ∈ u.events) (hended : call.EndsWell outcome) :
    ∃ earlier, earlier ++ [(t, command)] <+: u.encoded ∧
      Command.frames ((earlier ++ [(t, command)]).map Prod.snd) <+: u.written := by
  have hwell : ∀ e, outcome ≠ .failed e := by
    cases call with
    | send command' =>
      cases hcommand
      rcases hended with ⟨-, rfl⟩ | ⟨e, hencode, -⟩
      · exact nofun
      · rw [Command.HasFrame, hencode] at hframe
        cases hframe
    | request =>
      obtain ⟨reply, rfl⟩ := hended
      exact nofun
    | probe | close => cases hcommand
  obtain ⟨before, after, hevents⟩ := List.append_of_mem hsettled
  obtain ⟨⟨earlier, hencoded⟩, hwritten⟩ := h.ended_well before t outcome after command hevents
    hwell (by rw [hcall]; exact hcommand)
  refine ⟨earlier, ?_, ?_⟩
  · rw [Usage.encoded, hevents, Trace.encoded_append, hencoded]
    exact List.prefix_append _ _
  · rw [← hencoded]
    change Trace.frames before <+: _
    rw [← hwritten, Usage.written, hevents, Trace.written_append]
    exact List.prefix_append _ _

/-- What is accepted can be sent, and somebody has asked for it. -/
def Accepted (u : Usage) : Prop := ∀ p ∈ u.encoded, p.2.HasFrame ∧
  ∃ call, u.calls[p.1]? = some call ∧ call.command? = some p.2

/-- Each command of the host has been sent, or has no frame. -/
def EndedWell (u : Usage) : Prop :=
  ∀ t call command, u.calls[t]? = some call → call.command? = some command →
    command ≠ .pollChanges →
      ∃ outcome, Event.settled t outcome ∈ u.events ∧ call.EndsWell outcome

/-- What the host has sent has been written, with all that was accepted before it. -/
private theorem Settled.frames_prefix (h : u.Settled) (haccepted : u.Accepted)
    (hlt : (u.encoded.map Prod.fst).Pairwise (· < ·)) (hended : u.EndedWell)
    {earlier later : List Command} {command : Command}
    (hsplit : u.encoded.map Prod.snd = earlier ++ command :: later)
    (hpoll : command ≠ .pollChanges) : Command.frames (earlier ++ [command]) <+: u.written := by
  obtain ⟨xs, ys, hencoded, rfl, hys⟩ := List.map_eq_append_iff.mp hsplit
  obtain ⟨⟨t, command⟩, ys, rfl, rfl, rfl⟩ := List.map_eq_cons_iff.mp hys
  obtain ⟨hframe, call, hcall, hcommand⟩ := haccepted (t, command) (by simp [hencoded])
  obtain ⟨outcome, hsettled, hwell⟩ := hended t call command hcall hcommand hpoll
  obtain ⟨xs', hxs', hwritten⟩ := h.accepted_of_endsWell hcall hcommand hframe hsettled hwell
  -- the ticket stands at one place only
  have hxs : xs ++ [(t, command)] <+: u.encoded := ⟨ys, by simp [hencoded]⟩
  have hshort : xs ++ [(t, command)] <+: xs' ++ [(t, command)] := by
    rcases List.prefix_or_prefix_of_prefix hxs hxs' with hshort | hlong
    · exact hshort
    · rcases List.prefix_concat_iff.mp hlong with hsame | hwithin
      · exact hsame ▸ List.prefix_rfl
      · have hmem : (t, command) ∈ xs := hwithin.subset (by simp)
        rw [hencoded, List.map_append, List.pairwise_append] at hlt
        exact absurd (hlt.2.2 t (List.mem_map_of_mem hmem) t (by simp)) (Nat.lt_irrefl t)
  obtain ⟨more, hmore⟩ := hshort.map Prod.snd
  refine List.IsPrefix.trans ?_ hwritten
  rw [← hmore, List.map_append, Command.frames_append _ more]
  exact List.prefix_append _ _

/-- What has been accepted is what the host has asked for, but for the polls. -/
private theorem Settled.withoutPolls_encoded (h : u.Settled) (haccepted : u.Accepted)
    (hlt : (u.encoded.map Prod.fst).Pairwise (· < ·)) (hended : u.EndedWell) :
    Command.withoutPolls (u.encoded.map Prod.snd) =
      Command.withoutPolls (Call.sendable u.calls) := by
  let wanted (p : Ticket × Command) : Bool := decide p.2.HasFrame && decide (p.2 ≠ .pollChanges)
  have hwanted : u.encoded.filter (fun p ↦ decide (p.2 ≠ .pollChanges)) =
      (Call.ticketed u.calls).filter wanted := by
    refine eq_of_ascending (hlt.sublist (List.filter_sublist.map _))
      ((Call.ticketed_lt u.calls).sublist (List.filter_sublist.map _)) fun p ↦ ?_
    rw [List.mem_filter, List.mem_filter, Call.mem_ticketed]
    constructor
    · rintro ⟨hp, hpoll⟩
      obtain ⟨hframe, call, hcall, hcommand⟩ := haccepted p hp
      rw [hcall]
      exact ⟨hcommand, by simpa [wanted, hframe] using hpoll⟩
    · rintro ⟨hbind, hp⟩
      obtain ⟨call, hcall, hcommand⟩ := Option.bind_eq_some_iff.mp hbind
      obtain ⟨hframe, hpoll⟩ : p.2.HasFrame ∧ p.2 ≠ .pollChanges := by simpa [wanted] using hp
      obtain ⟨outcome, hsettled, hwell⟩ := hended p.1 call p.2 hcall hcommand hpoll
      obtain ⟨xs, hxs, -⟩ := h.accepted_of_endsWell hcall hcommand hframe hsettled hwell
      exact ⟨hxs.subset (by simp), decide_eq_true hpoll⟩
  calc Command.withoutPolls (u.encoded.map Prod.snd)
      = (u.encoded.filter fun p ↦ decide (p.2 ≠ .pollChanges)).map Prod.snd := by
        rw [Command.withoutPolls, List.filter_map]
        rfl
    _ = ((Call.ticketed u.calls).filter wanted).map Prod.snd := by rw [hwanted]
    _ = Command.withoutPolls (Call.sendable u.calls) := by
        rw [Call.sendable, Command.withoutPolls, ← Call.map_snd_ticketed, List.filter_filter,
          List.filter_map]
        simp only [Function.comp_def, wanted, Bool.and_comm]

/-- **When the calls of the host have ended well, whole frames have been written, and but for the
polls they are those of the host.** -/
theorem written_of_ended (peer : String) (turns : List Turn)
    (hended : ((fresh peer).run turns).EndedWell) :
    ∃ commands, ((fresh peer).run turns).written = Command.frames commands ∧
      (∀ command ∈ commands, command.HasFrame) ∧
      Command.withoutPolls commands =
        Command.withoutPolls (Call.sendable ((fresh peer).run turns).calls) := by
  have horderly := (sound_run peer turns).orderly
  have hframed := framed_run peer turns
  have hsettled := settled_run peer turns
  have haccepted : ((fresh peer).run turns).Accepted :=
    fun p hp ↦ ⟨hframed.hasFrame p hp, horderly.encoded_call p hp⟩
  have hlt := horderly.encoded_lt
  obtain ⟨commands, hwritten, hbegun, hsame⟩ := Command.frames_of_prefix
    (hframed.inOrder _ List.prefix_rfl)
    fun _ _ _ hsplit hpoll ↦ hsettled.frames_prefix haccepted hlt hended hsplit hpoll
  refine ⟨commands, hwritten, fun command hcommand ↦ ?_,
    hsame.trans (hsettled.withoutPolls_encoded haccepted hlt hended)⟩
  obtain ⟨p, hp, rfl⟩ := List.mem_map.mp (hbegun.subset hcommand)
  exact (haccepted p hp).1

end Usage

end PinballBoard

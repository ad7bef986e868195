import PinballBoard.Proofs.Link.Conservation

/-!
# How long a string can get

A string reply has no length in front of it. It ends with its terminator, and `Limit.stringReply` is
there for a board that never sends one: without a limit the host would keep all it ever sends.

The limit is held against what has arrived when somebody looks, and only if no terminator is among
it (`look_string`). So there are two halves. As long as the terminator is missing the limit holds:
once too much has arrived, every look fails, whatever is done in between (`Overlong.handles`). The
arrival of the terminator ends this. A string that nobody has looked at before it was complete can
be of any length, and so can one that has been refused many times.

What is left of a limit on the strings themselves comes from looking. Who has looked in vain, and
has not been refused, has at most the limit in front of him; all that the string can still grow by
is what is fed from then on (`Capped.bounded`). Who feeds byte by byte and looks after each
of them, and takes a refusal for the end, never reads a string beyond the limit.
-/

namespace PinballBoard

namespace Link

variable {l l' : Link} {look handling : Handling} {handled : Handled}

/-! ## One look -/

/-- What comes of a look for a string. -/
theorem look_string (hpending : l.codec.pending = some .string)
    (hlooks : look = .decode ∨ look = .decodeAtEnd) :
    (∃ data rest, Code.terminator ∉ data ∧ l.incoming = data ++ Code.terminator :: rest ∧
        (l.handle look).2 = .replied (.string data)) ∨
      (Code.terminator ∉ l.incoming ∧ Limit.stringReply < l.incoming.length ∧
        (l.handle look).2 = .failed (.stringTooLong Limit.stringReply)) ∨
      (Code.terminator ∉ l.incoming ∧ l.incoming.length ≤ Limit.stringReply ∧
        ((l.handle look).2 = .nothing ∨ (l.handle look).2 = .failed Codec.remainingBytes)) := by
  obtain ⟨reply, rest, hparse, hdecode⟩ | ⟨hnone, hshort, hdecode⟩ | ⟨hnone, hover, hdecode⟩ :=
    Codec.decode_of_pending l.incoming hpending
  · left
    rw [ReplyKind.parse?_string] at hparse
    obtain ⟨⟨data, rest'⟩, hsplit, heq⟩ := Option.map_eq_some_iff.mp hparse
    obtain ⟨rfl, rfl⟩ : .string data = reply ∧ rest' = rest := by simpa using heq
    obtain ⟨hincoming, hdata⟩ := eq_append_of_splitString? hsplit
    refine ⟨data, rest', hdata, hincoming, ?_⟩
    rcases hlooks with rfl | rfl <;> simp [handle, Codec.decodeAtEnd, hdecode, takeOut]
  · refine .inr (.inr ⟨ReplyKind.not_mem_of_parse?_string hnone,
      ReplyKind.length_le_of_not_overrun hnone hshort, ?_⟩)
    rcases hlooks with rfl | rfl
    · exact .inl (by simp [handle, hdecode, takeOut])
    · by_cases hempty : l.incoming = []
      · exact .inl (by simp [handle, Codec.decodeAtEnd, Codec.decode_nil, takeOut, hempty])
      · exact .inr (by simp [handle, Codec.decodeAtEnd, hdecode, takeOut, hempty])
  · refine .inr (.inl ⟨ReplyKind.not_mem_of_parse?_string hnone,
      ((ReplyKind.overrun_iff hnone).mp hover).2, ?_⟩)
    rcases hlooks with rfl | rfl <;> simp [handle, Codec.decodeAtEnd, hdecode, takeOut]

/-- A look that finds a string finds what stands in front of the first terminator. -/
theorem replied_string_iff (hpending : l.codec.pending = some .string)
    (hlooks : look = .decode ∨ look = .decodeAtEnd) (data : Bytes) :
    (l.handle look).2 = .replied (.string data) ↔
      Code.terminator ∉ data ∧ ∃ rest, l.incoming = data ++ Code.terminator :: rest := by
  constructor
  · intro hreplied
    obtain ⟨data', rest, hdata, hincoming, hfound⟩ | ⟨-, -, hfailed⟩ | ⟨-, -, hnone | hfailed⟩ :=
      look_string hpending hlooks
    · cases hfound.symm.trans hreplied
      exact ⟨hdata, rest, hincoming⟩
    · cases hfailed.symm.trans hreplied
    · cases hnone.symm.trans hreplied
    · cases hfailed.symm.trans hreplied
  · rintro ⟨hdata, rest, hincoming⟩
    have hparse : ReplyKind.string.parse? l.incoming = some (.string data, rest) := by
      rw [hincoming, ReplyKind.parse?_string, splitString?_append rest hdata, Option.map_some]
    have hdecode := Codec.decode_of_parse? hpending hparse
    rcases hlooks with rfl | rfl <;> simp [handle, Codec.decodeAtEnd, hdecode, takeOut]

/-- A look is refused just if too much has arrived, and no terminator among it. -/
theorem failed_tooLong_iff (hpending : l.codec.pending = some .string)
    (hlooks : look = .decode ∨ look = .decodeAtEnd) :
    (l.handle look).2 = .failed (.stringTooLong Limit.stringReply) ↔
      Limit.stringReply < l.incoming.length ∧ Code.terminator ∉ l.incoming := by
  obtain ⟨data, rest, -, hincoming, hfound⟩ | ⟨hnone, hlong, hfailed⟩ |
    ⟨hnone, hshort, hmissed⟩ := look_string hpending hlooks
  · rw [hfound, hincoming]
    simp
  · exact iff_of_true hfailed ⟨hlong, hnone⟩
  · refine iff_of_false ?_ fun h ↦ Nat.not_lt.mpr hshort h.1
    rcases hmissed with hmissed | hmissed <;> simp [hmissed, Codec.remainingBytes]

/-- Who has looked in vain, and was not refused, has at most the limit in front of him. -/
theorem length_le_of_missed (hpending : l.codec.pending = some .string)
    (hlooks : look = .decode ∨ look = .decodeAtEnd)
    (hmissed : ∀ reply, (l.handle look).2 ≠ .replied reply)
    (hallowed : (l.handle look).2 ≠ .failed (.stringTooLong Limit.stringReply)) :
    l.incoming.length ≤ Limit.stringReply := by
  obtain ⟨data, rest, -, -, hfound⟩ | ⟨-, -, hfailed⟩ | ⟨-, hshort, -⟩ :=
    look_string hpending hlooks
  · exact absurd hfound (hmissed _)
  · exact absurd hfailed hallowed
  · exact hshort

theorem incoming_of_replied {reply : Reply} (h : (l.handle handling).2 = .replied reply) :
    ∃ rest, l.incoming = reply.wire ++ rest := by
  have hhandles := handles_handle l handling
  rw [h] at hhandles
  generalize (l.handle handling).1 = l' at hhandles
  cases hhandles with
  | replies hlooks hpending hincoming => exact ⟨_, hincoming⟩
  | misses hlooks hnone => simp at hnone

/-! ## While the terminator is missing -/

/-- More of a string has arrived than may arrive without its terminator. -/
structure Overlong (l : Link) : Prop where
  pending : l.codec.pending = some .string
  long : Limit.stringReply < l.incoming.length
  unended : Code.terminator ∉ l.incoming

/-- Whatever is done with it, as long as no terminator is fed, no string comes out of it. -/
theorem Overlong.handles (h : l.Overlong) (hhandles : Handles l handling l' handled)
    (hfeeds : ∀ chunk, handling = .feed chunk → Code.terminator ∉ chunk) :
    l'.Overlong ∧ Log.repliedIn? (handling, handled) = none := by
  cases hhandles with
  | accepts hidle =>
    rw [h.pending] at hidle
    cases hidle
  | refuses => exact ⟨h, rfl⟩
  | feeds chunk =>
    refine ⟨⟨by rw [received_codec, h.pending], ?_, ?_⟩, rfl⟩
    · rw [received_incoming, List.length_append]
      exact Nat.lt_add_right _ h.long
    · rw [received_incoming, List.mem_append]
      exact not_or.mpr ⟨h.unended, hfeeds chunk rfl⟩
  | @replies _ reply rest hlooks hpending hincoming =>
    -- a string would have brought its terminator with it
    cases reply with
    | byte value =>
      rw [h.pending] at hpending
      cases hpending
    | string data =>
      refine absurd ?_ h.unended
      rw [hincoming, Reply.wire]
      simp
  | misses hlooks hnone =>
    refine ⟨h, ?_⟩
    rcases hnone with rfl | ⟨e, rfl⟩ <;> rcases hlooks with rfl | rfl <;> rfl

theorem work_append (handlings : List Handling) (handling : Handling) :
    work (handlings ++ [handling]) = workOn (work handlings) handling := by
  rw [work, List.foldl_append]
  rfl

theorem overlong_work {handlings more : List Handling} (h : (work handlings).1.Overlong)
    (hfeeds : ∀ chunk, .feed chunk ∈ more → Code.terminator ∉ chunk) :
    (work (handlings ++ more)).1.Overlong ∧
      (work (handlings ++ more)).2.replies = (work handlings).2.replies := by
  induction more using List.reverseRecOn with
  | nil =>
    rw [List.append_nil]
    exact ⟨h, rfl⟩
  | append_singleton more handling ih =>
    obtain ⟨hlong, hreplies⟩ := ih fun chunk hchunk ↦ hfeeds chunk (List.mem_append_left _ hchunk)
    obtain ⟨hlong', hnone⟩ := hlong.handles (handles_handle _ handling) fun chunk hchunk ↦
      hfeeds chunk (by simp [hchunk])
    rw [← List.append_assoc, work_append]
    exact ⟨hlong', (Log.replies_append_of_none _ _ hnone).trans hreplies⟩

/-! ## The law -/

/-- What comes of doing one thing more. -/
def next (handlings : List Handling) (handling : Handling) : Handled :=
  ((work handlings).1.handle handling).2

/-- A string is outstanding, and somebody looks for it. -/
def Seeks (handlings : List Handling) (look : Handling) : Prop :=
  (work handlings).2.Outstanding .string ∧ (look = .decode ∨ look = .decodeAtEnd)

theorem Seeks.pending {handlings : List Handling} (h : Seeks handlings look) :
    (work handlings).1.codec.pending = some .string :=
  ((balanced_work handlings).pending .string).mpr h.1

/-- What the limit on strings is worth after some work with codec and buffers. -/
structure Capped (handlings : List Handling) : Prop where
  /-- What is there are the bytes that have been fed and are of no reply that has been decoded. -/
  unread : (work handlings).2.fed =
    (work handlings).2.replies.flatMap Reply.wire ++ (work handlings).1.incoming
  /-- A look for a string is refused just if more than 256 bytes are there and no terminator is
  among them. -/
  tooLong_iff : ∀ look, Seeks handlings look →
    (next handlings look = .failed (.stringTooLong 256) ↔
      256 < (work handlings).1.incoming.length ∧ Code.terminator ∉ (work handlings).1.incoming)
  /-- A string whose terminator is there is found, however long it is and however it has come. -/
  found_iff : ∀ look, Seeks handlings look → ∀ data,
    (next handlings look = .replied (.string data) ↔
      Code.terminator ∉ data ∧
        ∃ rest, (work handlings).1.incoming = data ++ Code.terminator :: rest)
  /-- Who has been refused goes on to be refused, and nothing is decoded, until a terminator is
  fed. -/
  stays : ∀ look, Seeks handlings look → next handlings look = .failed (.stringTooLong 256) →
    ∀ more, (∀ chunk, .feed chunk ∈ more → Code.terminator ∉ chunk) →
      (work (handlings ++ more)).2.replies = (work handlings).2.replies ∧
      ∀ again, again = .decode ∨ again = .decodeAtEnd →
        next (handlings ++ more) again = .failed (.stringTooLong 256)
  /-- Who has looked in vain and has not been refused finds a string later that is longer than 256
  bytes by less than what has been fed since. -/
  bounded : ∀ look, Seeks handlings look → (∀ reply, next handlings look ≠ .replied reply) →
    next handlings look ≠ .failed (.stringTooLong 256) → ∀ more since,
      (work (handlings ++ look :: more)).2.replies = (work handlings).2.replies →
      (work (handlings ++ look :: more)).2.fed = (work handlings).2.fed ++ since →
      ∀ later data, next (handlings ++ look :: more) later = .replied (.string data) →
        data.length < 256 + since.length

/-- **What the limit on strings is worth.** -/
theorem capped_work (handlings : List Handling) : Capped handlings := by
  have h := balanced_work handlings
  refine ⟨h.fed, fun look hseeks ↦ failed_tooLong_iff hseeks.pending hseeks.2,
    fun look hseeks ↦ replied_string_iff hseeks.pending hseeks.2,
    fun look hseeks hfailed more hfeeds ↦ ?_, ?_⟩
  · obtain ⟨hlong, hunended⟩ := (failed_tooLong_iff hseeks.pending hseeks.2).mp hfailed
    obtain ⟨hover, hreplies⟩ := overlong_work ⟨hseeks.pending, hlong, hunended⟩ hfeeds
    refine ⟨hreplies, fun again hagain ↦ ?_⟩
    exact (failed_tooLong_iff hover.pending hagain).mpr ⟨hover.long, hover.unended⟩
  · intro look hseeks hmissed hallowed more since hreplies hfed later data hfound
    have hshort := length_le_of_missed hseeks.pending hseeks.2 hmissed hallowed
    -- nothing has been read in between, so what is there now is what was there and what is new
    have hincoming : (work (handlings ++ look :: more)).1.incoming =
        (work handlings).1.incoming ++ since := by
      have hboth := (balanced_work (handlings ++ look :: more)).fed
      rw [hreplies, hfed, h.fed, List.append_assoc] at hboth
      exact (List.append_cancel_left hboth).symm
    obtain ⟨rest, hrest⟩ := incoming_of_replied hfound
    have hlength := congrArg List.length (hincoming.symm.trans hrest)
    simp only [Reply.wire, List.length_append, List.length_cons, List.length_nil] at hlength
    have hlimit : Limit.stringReply = 256 := rfl
    omega

/-- A string as long as the limit comes through, if its terminator is all that is fed between two
looks. -/
example :
    (work [.encode .firmwareVersion, .feed (List.replicate 256 65), .decode,
      .feed [Code.terminator], .decode]).2.map Prod.snd =
        [.accepted, .fed, .nothing, .fed, .replied (.string (List.replicate 256 65))] := by
  decide +kernel

/-- The limit does not bound the strings. 257 bytes that arrive with their terminator are a reply;
and if they arrive without it and are refused, they are a reply as soon as it has arrived too. -/
theorem uncapped_work :
    let long : Bytes := List.replicate 257 65
    256 < long.length ∧
      (work [.encode .firmwareVersion, .feed (long ++ [Code.terminator]), .decode]).2.map Prod.snd =
        [.accepted, .fed, .replied (.string long)] ∧
      (work [.encode .firmwareVersion, .feed long, .decode, .feed [Code.terminator],
          .decode]).2.map Prod.snd =
        [.accepted, .fed, .failed (.stringTooLong 256), .fed, .replied (.string long)] := by
  decide +kernel

end Link

end PinballBoard

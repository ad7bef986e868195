import PinballBoard.Proofs.Platform.Inquiry

/-!
# What a host is told that asks questions in turn

A host asks one question after the other on a connection that has just been opened, and goes on
whatever it is told. Then what it is told is the parse of the bytes that the stream brings, front to
back, by the shapes of the replies that it waits for (`Reply.parseAll`). How the bytes are cut into
chunks, and how many of them have arrived when a question is asked, does not matter; nor does the
deadline, as the bench has no reason to let time pass before the stream has come to its end.

Strings that run past the limit are left out. Whether such a string is found out depends on whether
its end arrives with the byte after the limit, so there the cut does matter.
-/

namespace PinballBoard

/-- The replies to some commands that some bytes contain, front to back, and the bytes behind the
last of them. -/
def Reply.parseAll : List Command → Bytes → List Reply × Bytes := parseWhile fun _ _ ↦ true

/-- None of the strings that answer some commands runs past the limit, whether it ends or not. -/
def StringsFit : List Command → Bytes → Prop
  | [], _ => True
  | command :: commands, bytes =>
    ¬command.Overrun bytes ∧
      ∀ reply rest, command.parse? bytes = some (reply, rest) → StringsFit commands rest

/-- A task that asks some commands in turn, whatever it is told, and shows what it has been told. -/
def inquiries (told : List Outcome) : List Command → Dialogue (List Outcome) Unit
  | [] => .done told ()
  | command :: commands =>
    .ask told (.request command) fun outcome ↦ inquiries (told ++ [outcome]) commands

namespace Bench

variable {σ : Type} {holds : σ → Bytes → StreamEnd → Prop} {peer : String}
  {bytes : Bytes} {e : StreamEnd} {b : Bench σ}

/-- What a host has been told that has asked some commands in turn where `bytes` and then `e` were
to be read, and how it stands. -/
structure Parsed (holds : σ → Bytes → StreamEnd → Prop) (peer : String) (commands : List Command)
    (bytes : Bytes) (e : StreamEnd) (told : List Outcome)
    (result : (List Outcome × Option Unit) × Bench σ) : Prop where
  /-- If the bytes contain all replies, the host is told these, and what is left is still there. -/
  complete : (Reply.parseAll commands bytes).1.length = commands.length →
    result.1 = (told ++ (Reply.parseAll commands bytes).1.map .reply, some ()) ∧
      result.2.Resting holds peer (Reply.parseAll commands bytes).2 e
  /-- If they do not and nothing more comes, the host waits for the next reply for ever. -/
  hanging : (Reply.parseAll commands bytes).1.length < commands.length →
    e.failure? peer (Reply.parseAll commands bytes).2 = none →
    result.1 = (told ++ (Reply.parseAll commands bytes).1.map .reply, none)
  /-- If the stream comes to its end, the next request tells so, and the connection is closed. -/
  failing : ∀ error, (Reply.parseAll commands bytes).1.length < commands.length →
    e.failure? peer (Reply.parseAll commands bytes).2 = some error →
    result.1 = (told ++ ((Reply.parseAll commands bytes).1.map .reply ++ .failed error ::
        List.replicate (commands.length - (Reply.parseAll commands bytes).1.length - 1)
          (.failed .notConnected)), some ()) ∧ result.2.Closed peer

private theorem Parsed.cons {command : Command} {commands : List Command} {reply : Reply}
    {rest : Bytes} {told : List Outcome} {result : (List Outcome × Option Unit) × Bench σ}
    (h : Parsed holds peer commands rest e (told ++ [.reply reply]) result)
    (hall : Reply.parseAll (command :: commands) bytes =
      (reply :: (Reply.parseAll commands rest).1, (Reply.parseAll commands rest).2)) :
    Parsed holds peer (command :: commands) bytes e told result := by
  have htold : ∀ outcomes : List Outcome, told ++ [.reply reply] ++ outcomes =
      told ++ (.reply reply :: outcomes) := by
    intro outcomes
    rw [List.append_assoc, List.singleton_append]
  constructor
  · intro hlength
    rw [hall] at hlength ⊢
    obtain ⟨hresult, hrest⟩ := h.complete (Nat.succ.inj hlength)
    rw [htold] at hresult
    exact ⟨hresult, hrest⟩
  · intro hless hnone
    rw [hall] at hless hnone ⊢
    rw [h.hanging (Nat.lt_of_succ_lt_succ hless) hnone, htold]
    rfl
  · intro error hless herror
    rw [hall] at hless herror ⊢
    obtain ⟨hresult, hclosed⟩ := h.failing error (Nat.lt_of_succ_lt_succ hless) herror
    rw [htold] at hresult
    refine ⟨?_, hclosed⟩
    rw [hresult, List.length_cons, List.length_cons, Nat.succ_sub_succ]
    rfl

variable [ByteStream σ]

theorem converse_ask {τ α : Type} (deadline : Nat) (state : τ) (command : Command)
    (next : Outcome → Dialogue τ α) (b : Bench σ) :
    b.converse deadline (.ask state (.request command) next) =
      match b.inquire deadline command with
      | (some outcome, b') => b'.converse deadline (next outcome)
      | (none, b') => ((state, none), b') := by
  rw [converse]
  rfl

theorem converse_of_closed (commands : List Command)
    (hkinds : ∀ c ∈ commands, c.replyKind ≠ none) (h : b.Closed peer) (told : List Outcome)
    (deadline : Nat) :
    ∃ b', b.converse deadline (inquiries told commands) =
      ((told ++ List.replicate commands.length (.failed .notConnected), some ()), b') ∧
        b'.Closed peer := by
  induction commands generalizing b told with
  | nil => exact ⟨b, by simp [inquiries, converse], h⟩
  | cons command commands ih =>
    obtain ⟨kind, hkind⟩ := Option.ne_none_iff_exists'.mp (hkinds command List.mem_cons_self)
    obtain ⟨b', htold, -, hclosed⟩ := told_of_closed h hkind deadline
    obtain ⟨b'', hrest, hclosed⟩ := ih (fun c hc ↦ hkinds c (List.mem_cons_of_mem _ hc)) hclosed
      (told ++ [.failed .notConnected])
    refine ⟨b'', ?_, hclosed⟩
    rw [inquiries, converse_ask, htold]
    simp only [hrest]
    rw [List.append_assoc, List.length_cons, List.replicate_succ, List.singleton_append]

/-- On an open connection the host is told the parse of what is to be read. -/
theorem parsed_of_resting (hsupply : Supplies holds) (commands : List Command)
    (hkinds : ∀ c ∈ commands, c.replyKind ≠ none) (hfit : StringsFit commands bytes)
    (h : b.Resting holds peer bytes e) (told : List Outcome) (deadline : Nat) :
    Parsed holds peer commands bytes e told (b.converse deadline (inquiries told commands)) := by
  induction commands generalizing b told bytes with
  | nil =>
    refine ⟨fun _ ↦ ⟨?_, h⟩, fun hless ↦ ?_, fun error hless ↦ ?_⟩
    · simp [inquiries, converse, Reply.parseAll, Reply.parseWhile]
    · exact absurd hless (Nat.not_lt_zero _)
    · exact absurd hless (Nat.not_lt_zero _)
  | cons command commands ih =>
    obtain ⟨kind, hkind⟩ := Option.ne_none_iff_exists'.mp (hkinds command List.mem_cons_self)
    have hmore : ∀ c ∈ commands, c.replyKind ≠ none :=
      fun c hc ↦ hkinds c (List.mem_cons_of_mem _ hc)
    have hcommand := Command.parse?_eq hkind bytes
    have htold := (told_of_resting hsupply h hkind deadline).2
    rw [inquiries, converse_ask]
    generalize b.inquire deadline command = answer at htold ⊢
    cases htold with
    | @replied b' reply rest hparse hresting =>
      have hparse : command.parse? bytes = some (reply, rest) := hcommand.trans hparse
      exact (ih hmore (hfit.2 reply rest hparse) hresting (told ++ [.reply reply])).cons
        (Reply.parseWhile_of_good hparse rfl commands)
    -- the first command stays without a reply, so the parse ends here
    | waits hparse _ he =>
      have hall : Reply.parseAll (command :: commands) bytes = ([], bytes) :=
        Reply.parseWhile_of_missing (hcommand.trans hparse)
      subst he
      refine ⟨fun hlength ↦ ?_, fun hless hnone ↦ ?_, fun error hless herror ↦ ?_⟩
      · rw [hall] at hlength
        cases hlength
      · rw [hall, List.map_nil, List.append_nil]
      · cases herror
    | @fails b' error hparse _ herror hclosed =>
      have hall : Reply.parseAll (command :: commands) bytes = ([], bytes) :=
        Reply.parseWhile_of_missing (hcommand.trans hparse)
      obtain ⟨b'', hrest, hclosed⟩ := converse_of_closed commands hmore hclosed
        (told ++ [.failed error]) deadline
      refine ⟨fun hlength ↦ ?_, fun hless hnone ↦ ?_, fun error' hless herror' ↦ ?_⟩
      · rw [hall] at hlength
        cases hlength
      · rw [hall, herror] at hnone
        cases hnone
      · rw [hall, herror] at herror'
        cases herror'
        rw [hall]
        simp only [hrest]
        refine ⟨?_, hclosed⟩
        simp
    | overruns hover => exact absurd ((Command.overrun_iff hkind).mpr hover) hfit.1

/-- **Replies are the parse of the stream.** A host that asks some commands in turn on a connection
that has just been opened is told the replies that the bytes of the stream contain, front to back,
and then how the stream ends. No byte is skipped, and none is used twice. And a reply that has
already been received is returned without a look at the stream: whatever is true of the stream, and
kept by writing, is still true afterwards. -/
theorem replies_parsed (hsupply : Supplies holds) (commands : List Command)
    (hkinds : ∀ c ∈ commands, c.replyKind ≠ none) (bytes : Bytes)
    (hfit : StringsFit commands bytes) (e : StreamEnd) (peer : String) (stream : σ)
    (hstream : holds stream bytes e) (deadline : Nat) :
    Parsed holds peer commands bytes e []
        ((ofStream peer stream).converse deadline (inquiries [] commands)) ∧
      (Reply.parseAll commands bytes).1.length ≤ commands.length ∧
      bytes = (Reply.parseAll commands bytes).1.flatMap Reply.wire ++
        (Reply.parseAll commands bytes).2 ∧
      ∀ (good : σ → Prop) (b : Bench σ) command kind incoming spent reply rest, TakesAll good →
        good b.stream → b.session.poll = none → b.outcomes = [] →
        b.session.connection = .resting peer ⟨.idle, [], incoming, spent⟩ →
        command.replyKind = some kind → kind.parse? incoming = some (reply, rest) →
        ∃ b' spent', b.inquire deadline command = (some (.reply reply), b') ∧ good b'.stream ∧
          b'.session.connection = .resting peer ⟨.idle, [], rest, spent'⟩ := by
  have hresting := resting_ofStream peer hstream
  refine ⟨parsed_of_resting hsupply commands hkinds hfit hresting [] deadline,
    Reply.length_parseWhile_le _ commands bytes,
    Reply.eq_append_parseWhile _ commands bytes, ?_⟩
  intro good b command kind incoming spent reply rest hgood hs hpoll hb hconnection hkind hparse
  exact told_of_received hgood hs hpoll hb hconnection hkind hparse deadline

/-- A string in two chunks, a count in the second of them, and then the end. -/
theorem replies_parsed_of_chunks :
    ((ofStream "board" (⟨[.chunk [76, 73], .chunk [83, 0, 36], .ended], .open, 0, .finishing⟩ :
        ScriptedStream)).converse 0 (inquiries [] [.identify, .countLamps, .countCoils])).1 =
      ([.reply (.string [76, 73, 83]), .reply (.byte 36),
        .failed (.lost "board closed the connection")], some ()) := by
  have hstream : ScriptedStream.Brings
      ⟨[.chunk [76, 73], .chunk [83, 0, 36], .ended], .open, 0, .finishing⟩
      [76, 73, 83, 0, 36] .ended :=
    ⟨rfl, [[76, 73], [83, 0, 36]], [.ended], by decide, rfl, rfl, .ended []⟩
  have hfit : StringsFit [.identify, .countLamps, .countCoils] [76, 73, 83, 0, 36] := by
    refine ⟨fun ⟨_, _, hover⟩ ↦ absurd hover.2 (by decide), fun reply rest hparse ↦ ?_⟩
    cases hparse
    refine ⟨fun ⟨_, _, hover⟩ ↦ absurd hover.2 (by decide), fun reply rest hparse ↦ ?_⟩
    cases hparse
    exact ⟨fun ⟨_, _, hover⟩ ↦ absurd hover.2 (by decide), fun reply rest hparse ↦ nomatch hparse⟩
  have h := replies_parsed ScriptedStream.supplies [.identify, .countLamps, .countCoils] (by decide)
    [76, 73, 83, 0, 36] hfit .ended "board" _ hstream 0
  exact (h.1.failing _ (by decide) rfl).1

end Bench

end PinballBoard

import PinballBoard.Proofs.Program.OneShot
import PinballBoard.Simulator.Rehearsal

/-!
# Plans

A program makes calls, as a task does, and two things besides that are no calls: it starts to poll
and it stops polling. `Plan` is such a program written down, and `Order.plan` is what the program
does with an order. It starts the board, starts to poll, carries the order out, and then shuts down,
whatever has come of it.

The rehearsed program is this plan, followed at a bench (`Scene.attend_eq_follow`), and with a board
that does well it is one of the runs of the plan, up to its end (`Scene.exists_run`). So what is
true of the plan on any schedule is true of the program.

`Plan.Serves` says where a plan leads as long as its calls end as they do with a compliant board.
Such a program always starts to poll once and always shuts down.
-/

namespace PinballBoard

/-- How a program with a result in `α` comes to its end. -/
inductive ProgramEnd (α : Type) where
  | finished (result : α)
  /-- The program has asked for a channel that there cannot be. -/
  | crashed

/-- A program with a result in `α`. -/
inductive Plan (α : Type) where
  /-- The program has come to its end. -/
  | ended (ending : ProgramEnd α)
  /-- The program makes a call and goes on as the call ends. -/
  | call (call : Call) (next : Outcome → Plan α)
  /-- The program starts to poll with what it has found out. -/
  | beginPolling (discovery : Discovery) (next : Plan α)
  /-- The program stops polling. -/
  | cancelPolling (next : Plan α)

namespace Plan

variable {α : Type}

/-- The program ends the stream and comes to its end. -/
def closing (result : α) : Plan α := .call .close fun _ ↦ .ended (.finished result)

/-- The program shuts down: the poll loop first, then the stream. -/
def shutDown (result : α) : Plan α := .cancelPolling (.closing result)

end Plan

/-- A task, and then what the program does with its result. -/
def Dialogue.plan {σ α β : Type} : Dialogue σ α → (α → Plan β) → Plan β
  | done _ result, k => k result
  | ask _ call next, k => .call call fun outcome ↦ (next outcome).plan k

/-- What the program does with an order. To monitor has no end, and is nothing here. -/
def Order.plan (order : Order) : Plan (Except Failure (List String)) :=
  Platform.start.plan fun
    | .error e => .ended (.finished (.error (.starting e)))
    | .ok discovery => .beginPolling discovery <|
      ((order.oneShot? discovery.profile).getD (.done () (.ok []))).plan fun result ↦
        .shutDown (result.mapError .ofDevice)

/-! ## Plans at a bench -/

namespace Bench

variable {σ τ α β : Type} [ByteStream σ] (options : PlatformOptions)

/-- Follow a plan to its end. The host is patient up to a deadline, and anew when it has started to
poll and when it has stopped; there is no end if it has lost its patience. -/
def follow : Nat → Plan α → Bench σ → Option (ProgramEnd α) × Bench σ
  | _, .ended ending, b => (some ending, b)
  | deadline, .call call next, b =>
    let (ticket, b) := b.enter call
    match b.await deadline ticket with
    | (some outcome, b) => follow deadline (next outcome) b
    | (none, b) => (none, b)
  | _, .beginPolling discovery next, b =>
    match b.beginPolling? discovery options with
    | some b => follow (b.session.clock + patience) next b
    | none => (some .crashed, b)
  | _, .cancelPolling next, b =>
    let b := b.move .cancelPolling
    follow (b.session.clock + patience) next b

/-- A task is followed by taking part in it. -/
theorem follow_plan (deadline : Nat) (d : Dialogue τ α) (k : α → Plan β) (b : Bench σ) :
    follow options deadline (d.plan k) b =
      match converse deadline d b with
      | ((_, some result), b) => follow options deadline (k result) b
      | ((_, none), b) => (none, b) := by
  induction d generalizing b with
  | done state result => rfl
  | ask state call next ih =>
    rw [Dialogue.plan, follow, converse]
    dsimp only
    cases hawait : (b.enter call).2.await deadline (b.enter call).1 with
    | mk outcome? later =>
      cases outcome? with
      | none => rfl
      | some outcome => exact ih outcome later

theorem settle_follow_shutDown {deadline : Nat} {result : α} {ending : ProgramEnd α}
    {b later : Bench σ}
    (h : follow options deadline (.shutDown result) b = (some ending, later)) :
    ending = .finished result ∧ later.settle = b.shutDown := by
  have hplan : Plan.closing result =
      (Dialogue.single .close fun _ ↦ ()).plan fun _ ↦ .ended (.finished result) := rfl
  rw [Plan.shutDown, follow, hplan, follow_plan] at h
  rw [Bench.shutDown, perform]
  generalize converse _ (Dialogue.single .close fun _ ↦ ()) (b.move .cancelPolling) = ended at h ⊢
  obtain ⟨⟨state, _ | _⟩, later'⟩ := ended
  · cases h
  · cases h
    exact ⟨rfl, rfl⟩

end Bench

/-- What is seen of a program that has come to its end at a bench. -/
def Transcript.ofEnd (b : Bench BoardLine) : ProgramEnd (Except Failure (List String)) → Transcript
  | .finished (.ok lines) => .ofBench .success lines b
  | .finished (.error f) => .ofBench (.failure f) [] b
  | .crashed => .ofBench .crashed [] b

/-- **The rehearsed program follows the plan of its order**, if it comes to the end of it. -/
theorem Scene.attend_eq_follow (s : Scene) (settings : Settings) (endpoint : Endpoint)
    {order : Order} (horder : order ≠ .monitor) {line : BoardLine}
    (hconnect : s.connect endpoint = .ok line)
    {ending : ProgramEnd (Except Failure (List String))} {b : Bench BoardLine}
    (hfollow : (Bench.ofStream endpoint.text line).follow settings.options Bench.patience
      order.plan = (some ending, b)) :
    ∃ later, (later = b ∨ later = b.settle) ∧
      s.attend settings endpoint order = .ofEnd later ending := by
  have hstart : (Bench.ofStream endpoint.text line).perform Platform.start =
      Bench.converse Bench.patience Platform.start (Bench.ofStream endpoint.text line) := by
    rw [Bench.perform]
    exact congrArg (Bench.converse · _ _) (Nat.zero_add _)
  rw [attend, hconnect]
  dsimp only
  rw [Bench.launch, hstart]
  rw [Order.plan, Bench.follow_plan] at hfollow
  generalize Bench.converse Bench.patience Platform.start (.ofStream endpoint.text line) = started
    at hfollow ⊢
  obtain ⟨⟨state, _ | _ | discovery⟩, started⟩ := started
  · cases hfollow
  · cases hfollow
    exact ⟨b, .inl rfl, rfl⟩
  obtain ⟨task, htask⟩ : ∃ task, order.oneShot? discovery.profile = some task := by
    cases order with
    | monitor => exact absurd rfl horder
    | info | pulse | lamp | display => exact ⟨_, rfl⟩
  dsimp only at hfollow ⊢
  rw [Bench.follow] at hfollow
  cases hpolling : started.beginPolling? discovery settings.options with
  | none =>
    rw [hpolling] at hfollow
    cases hfollow
    exact ⟨b, .inl rfl, rfl⟩
  | some polling =>
    rw [hpolling] at hfollow
    dsimp only at hfollow ⊢
    rw [htask, Option.getD_some, Bench.follow_plan] at hfollow
    rw [carryOut, htask]
    dsimp only at hfollow ⊢
    rw [Bench.perform]
    generalize Bench.converse (polling.session.clock + Bench.patience) task polling = ended
      at hfollow ⊢
    obtain ⟨⟨state', _ | ended⟩, worked⟩ := ended
    · cases hfollow
    obtain ⟨rfl, hsettled⟩ := Bench.settle_follow_shutDown settings.options hfollow
    refine ⟨b.settle, .inr rfl, ?_⟩
    rw [hsettled]
    cases ended <;> rfl

/-! ## Plans with a compliant board -/

/-- As long as its calls end as they do on this board, the program makes calls of a host, starts to
poll once, and shuts down with a result. This is true of the calls that it makes up to then and of
its end, be it there or at the start of the poll loop. -/
def Plan.Serves {α : Type} (i : Identity) : Bool → (List Call → ProgramEnd α → Prop) → Plan α → Prop
  | _, _, .ended _ => False
  | polls, P, .call made next =>
    made.IsHosts ∧ ∀ outcome, i.Allows made outcome →
      (next outcome).Serves i polls fun calls ↦ P (made :: calls)
  | polls, P, .beginPolling _ next => polls = false ∧ P [] .crashed ∧ next.Serves i true P
  | polls, P, .cancelPolling next =>
    polls = true ∧ ∃ result, next = .closing result ∧ P [] (.finished result)

theorem Dialogue.Yields.serves {σ α β : Type} {i : Identity} {P : List Call → α → Prop}
    {Q : List Call → ProgramEnd β → Prop} {d : Dialogue σ α} {k : α → Plan β} {polls : Bool}
    (h : d.Yields Call.IsHosts i.Allows P)
    (hk : ∀ calls result, P calls result →
      (k result).Serves i polls fun more ↦ Q (calls ++ more)) : (d.plan k).Serves i polls Q := by
  induction d generalizing P Q with
  | done state result => exact hk [] result h
  | ask state call next ih =>
    refine ⟨h.1, fun outcome hallowed ↦ ih outcome (h.2 outcome hallowed) ?_⟩
    intro calls result hresult
    exact hk (call :: calls) result hresult

namespace Order

/-- What the program has sent when it shuts down, and how it ends: the handshake, and then the
frames of the order and success, or nothing more and failure. A program that crashes has sent the
handshake. -/
def Ends (i : Identity) (order : Order) (calls : List Call) :
    ProgramEnd (Except Failure (List String)) → Prop
  | .finished result =>
    (Call.sendable calls).map Command.frame =
        Handshake.frames ++ (order.frames? i.profile).getD [] ∧
      match order.frames? i.profile with
      | some _ => result = .ok (order.lines i)
      | none => ∃ f, result = .error f
  | .crashed => (Call.sendable calls).map Command.frame = Handshake.frames

/-- The program shuts down in any case. -/
theorem serves_plan (i : Identity) {order : Order} (horder : order ≠ .monitor) :
    order.plan.Serves i false (order.Ends i) := by
  obtain ⟨task, htask, hyields⟩ := yields_oneShot i horder
  refine (Platform.yields_start i).serves ?_
  rintro calls result ⟨hframes, table, rfl⟩
  have hcrash : order.Ends i (calls ++ []) .crashed := by rwa [List.append_nil, Ends]
  refine ⟨rfl, hcrash, ?_⟩
  rw [htask, Option.getD_some]
  refine hyields.serves fun more result hserves ↦ ⟨rfl, _, rfl, ?_⟩
  change order.Ends i (calls ++ (more ++ [])) _
  unfold Serves at hserves
  rw [Ends, List.append_nil, Call.sendable_append, List.map_append, hframes]
  cases hcase : order.frames? i.profile with
  | some frames =>
    rw [hcase] at hserves
    obtain ⟨hmore, rfl⟩ := hserves
    exact ⟨by rw [hmore, Option.getD_some], rfl⟩
  | none =>
    rw [hcase] at hserves
    obtain ⟨hnothing, e, rfl⟩ := hserves
    exact ⟨by rw [hnothing]; rfl, _, rfl⟩

end Order

end PinballBoard

import Mathlib.Data.List.Basic
import Mathlib.Data.List.Pairwise
import PinballBoard.Proofs.Link.Change

/-!
# Order in the line

Calls are numbered in the order in which they are made. This file holds the one invariant that says
that nothing overtakes: the tasks in line stand in the order of their tickets, those that have had
the lock came before all that still wait for it, and the commands that the codec has accepted are
commands of some of them, in the same order.

## The passage of a call

A call that is not refused goes through the same few moments, whatever its end:

```text
enqueue ─> lock ─> encode ─> read ─> (gone)
```

`Orderly` is kept by each of these moments and by leaving the line at any point. A step of a
connection is made of at most three of them, so its proof is a word in these five lemmas. For that
the moment between getting the lock and handing the command to the codec counts as draining, however
short it is.
-/

namespace PinballBoard

theorem getElem?_append_of_some {α : Type} {xs : List α} {i : Nat} {x : α} (h : xs[i]? = some x)
    (ys : List α) : (xs ++ ys)[i]? = some x := by
  have hlt : i < xs.length := (List.getElem?_eq_some_iff.mp h).choose
  rw [List.getElem?_append_left hlt, h]

/-- The line, seen against the calls that have been made, those that have got the lock and those
whose commands the codec has accepted, each oldest first. -/
structure Orderly (calls : List Call) (line : List Caller) (locked : List Ticket)
    (encoded : List (Ticket × Command)) : Prop where
  /-- Only the head has run. -/
  tail_waiting : ∀ k ∈ line.tail, k.stage = .waiting
  /-- Who stands in line has made the call of his ticket. -/
  call_of : ∀ k ∈ line, calls[k.ticket]? = some k.call
  /-- Nobody stands in line for nothing. -/
  not_refused : ∀ k ∈ line, k.call.refusal = none
  line_lt : (line.map (·.ticket)).Pairwise (· < ·)
  locked_lt : locked.Pairwise (· < ·)
  locked_bound : ∀ t ∈ locked, t < calls.length
  /-- Who waits has come after all that have had the lock. -/
  waiting_after : ∀ k ∈ line, k.stage = .waiting → ∀ t ∈ locked, t < k.ticket
  encoded_locked : (encoded.map Prod.fst).Sublist locked
  encoded_call : ∀ p ∈ encoded, ∃ call, calls[p.1]? = some call ∧ call.command? = some p.2
  /-- Who drains has got the lock last, and nothing of his has been encoded. -/
  draining_last : ∀ k ∈ line, k.stage = .draining →
    ∃ earlier, locked = earlier ++ [k.ticket] ∧ (encoded.map Prod.fst).Sublist earlier
  /-- The command of whoever writes or reads has been encoded last. -/
  encoded_last : ∀ k ∈ line, k.stage = .writing ∨ k.stage = .reading →
    ∃ earlier command, k.call.command? = some command ∧
      encoded = earlier ++ [(k.ticket, command)]
  /-- Only who has asked something reads. -/
  reading_request : ∀ k ∈ line, k.stage = .reading → ∃ command, k.call = .request command

namespace Orderly

variable {calls : List Call} {line rest : List Caller} {locked : List Ticket}
  {encoded : List (Ticket × Command)} {k : Caller}

theorem init : Orderly [] [] [] [] := by
  constructor <;> simp

/-! ## What follows from it -/

theorem ticket_lt (h : Orderly calls line locked encoded) (hk : k ∈ line) :
    k.ticket < calls.length :=
  (List.getElem?_eq_some_iff.mp (h.call_of k hk)).choose

/-- Who stands behind has come later. -/
theorem head_lt (h : Orderly calls (k :: rest) locked encoded) {k' : Caller} (hk' : k' ∈ rest) :
    k.ticket < k'.ticket := by
  have hlt := h.line_lt
  rw [List.map_cons, List.pairwise_cons] at hlt
  exact hlt.1 _ (List.mem_map_of_mem hk')

theorem head_le (h : Orderly calls line locked encoded) (hline : line = k :: rest) {k' : Caller}
    (hk' : k' ∈ line) : k.ticket ≤ k'.ticket := by
  subst hline
  rcases List.mem_cons.mp hk' with rfl | hbehind
  · exact Nat.le_refl _
  · exact Nat.le_of_lt (h.head_lt hbehind)

theorem ticket_ne_head (h : Orderly calls (k :: rest) locked encoded) {k' : Caller}
    (hk' : k' ∈ rest) : k'.ticket ≠ k.ticket := Nat.ne_of_gt (h.head_lt hk')

theorem encoded_lt (h : Orderly calls line locked encoded) :
    (encoded.map Prod.fst).Pairwise (· < ·) :=
  h.locked_lt.sublist h.encoded_locked

theorem encoded_bound (h : Orderly calls line locked encoded) {p : Ticket × Command}
    (hp : p ∈ encoded) : p.1 < calls.length :=
  h.locked_bound _ (h.encoded_locked.subset (List.mem_map_of_mem hp))

theorem not_encoded_of_waiting (h : Orderly calls line locked encoded) (hk : k ∈ line)
    (hstage : k.stage = .waiting) {p : Ticket × Command} (hp : p ∈ encoded) : p.1 < k.ticket :=
  h.waiting_after k hk hstage _ (h.encoded_locked.subset (List.mem_map_of_mem hp))

theorem not_encoded_of_draining (h : Orderly calls line locked encoded) (hk : k ∈ line)
    (hstage : k.stage = .draining) {p : Ticket × Command} (hp : p ∈ encoded) : p.1 < k.ticket := by
  obtain ⟨earlier, hlocked, hsub⟩ := h.draining_last k hk hstage
  have hmem : p.1 ∈ earlier := hsub.subset (List.mem_map_of_mem hp)
  have hlt := h.locked_lt
  rw [hlocked, List.pairwise_append] at hlt
  exact hlt.2.2 _ hmem _ (List.mem_singleton_self _)

theorem locked_of_stage (h : Orderly calls line locked encoded) (hk : k ∈ line)
    (hstage : k.stage ≠ .waiting) : k.ticket ∈ locked := by
  have hbusy : k.stage = .writing ∨ k.stage = .reading → k.ticket ∈ locked := by
    intro hbusy
    obtain ⟨earlier, command, -, hlast⟩ := h.encoded_last k hk hbusy
    refine h.encoded_locked.subset (List.mem_map.mpr ⟨(k.ticket, command), ?_, rfl⟩)
    simp [hlast]
  cases hcase : k.stage with
  | waiting => exact absurd hcase hstage
  | draining =>
    obtain ⟨earlier, hlocked, -⟩ := h.draining_last k hk hcase
    simp [hlocked]
  | writing => exact hbusy (.inl hcase)
  | reading => exact hbusy (.inr hcase)

/-! ## The passage of a call -/

theorem refuse (h : Orderly calls line locked encoded) (call : Call) :
    Orderly (calls ++ [call]) line locked encoded where
  tail_waiting := h.tail_waiting
  call_of k hk := getElem?_append_of_some (h.call_of k hk) _
  not_refused := h.not_refused
  line_lt := h.line_lt
  locked_lt := h.locked_lt
  locked_bound t ht := by
    rw [List.length_append]
    exact Nat.lt_add_right _ (h.locked_bound t ht)
  waiting_after := h.waiting_after
  encoded_locked := h.encoded_locked
  encoded_call p hp := by
    obtain ⟨old, hold, hcommand⟩ := h.encoded_call p hp
    exact ⟨old, getElem?_append_of_some hold _, hcommand⟩
  draining_last := h.draining_last
  encoded_last := h.encoded_last
  reading_request := h.reading_request

theorem enqueue (h : Orderly calls line locked encoded) {call : Call}
    (hcall : call.refusal = none) :
    Orderly (calls ++ [call]) (line ++ [⟨calls.length, call, .waiting⟩]) locked encoded := by
  have hr := h.refuse call
  -- every fact about all tasks in line has to be checked for the new one only
  have hall : ∀ {P : Caller → Prop}, (∀ k ∈ line, P k) → P ⟨calls.length, call, .waiting⟩ →
      ∀ k ∈ line ++ [⟨calls.length, call, .waiting⟩], P k := by
    intro P hline hnew k hk
    rcases List.mem_append.mp hk with hk | hk
    · exact hline k hk
    · rw [List.mem_singleton.mp hk]
      exact hnew
  refine ⟨?_, hall hr.call_of (by simp), hall hr.not_refused hcall, ?_, hr.locked_lt,
    hr.locked_bound, hall hr.waiting_after fun _ t ht ↦ h.locked_bound t ht, hr.encoded_locked,
    hr.encoded_call, hall hr.draining_last (by simp), hall hr.encoded_last (by simp),
    hall hr.reading_request (by simp)⟩
  · cases line with
    | nil => simp
    | cons head tail =>
      intro k hk
      rcases List.mem_append.mp hk with hk | hk
      · exact h.tail_waiting k hk
      · rw [List.mem_singleton.mp hk]
  · rw [List.map_append, List.pairwise_append]
    refine ⟨h.line_lt, List.pairwise_singleton _ _, fun t ht t' ht' ↦ ?_⟩
    obtain ⟨k, hk, rfl⟩ := List.mem_map.mp ht
    rw [List.map_singleton, List.mem_singleton] at ht'
    exact ht' ▸ h.ticket_lt hk

theorem leave (h : Orderly calls line locked encoded) (hsub : rest.Sublist line) :
    Orderly calls rest locked encoded where
  tail_waiting k hk := h.tail_waiting k (hsub.tail.subset hk)
  call_of k hk := h.call_of k (hsub.subset hk)
  not_refused k hk := h.not_refused k (hsub.subset hk)
  line_lt := h.line_lt.sublist (hsub.map _)
  locked_lt := h.locked_lt
  locked_bound := h.locked_bound
  waiting_after k hk := h.waiting_after k (hsub.subset hk)
  encoded_locked := h.encoded_locked
  encoded_call := h.encoded_call
  draining_last k hk := h.draining_last k (hsub.subset hk)
  encoded_last k hk := h.encoded_last k (hsub.subset hk)
  reading_request k hk := h.reading_request k (hsub.subset hk)

/-- Where only the head has changed, only the head has to be checked. -/
private theorem forall_head {P : Caller → Prop} {k' : Caller} (h : ∀ k'' ∈ k :: rest, P k'')
    (hhead : P k') : ∀ k'' ∈ k' :: rest, P k'' :=
  List.forall_mem_cons.mpr ⟨hhead, (List.forall_mem_cons.mp h).2⟩

theorem lock (h : Orderly calls (k :: rest) locked encoded) (hstage : k.stage = .waiting) :
    Orderly calls ({ k with stage := .draining } :: rest) (locked ++ [k.ticket]) encoded := by
  have hk : k ∈ k :: rest := List.mem_cons_self
  have hlt := h.line_lt
  rw [List.map_cons, List.pairwise_cons] at hlt
  -- the tasks behind the head wait, so no later stage has to be considered for them
  have hrest : ∀ k' ∈ rest, k'.stage = .waiting := h.tail_waiting
  refine ⟨h.tail_waiting, ?_, ?_, by simpa using h.line_lt, ?_, ?_, ?_, ?_, h.encoded_call, ?_, ?_,
    ?_⟩
  · exact forall_head h.call_of (h.call_of k hk)
  · exact forall_head h.not_refused (h.not_refused k hk)
  · rw [List.pairwise_append]
    refine ⟨h.locked_lt, List.pairwise_singleton _ _, fun t ht t' ht' ↦ ?_⟩
    rw [List.mem_singleton.mp ht']
    exact h.waiting_after k hk hstage t ht
  · intro t ht
    rcases List.mem_append.mp ht with ht | ht
    · exact h.locked_bound t ht
    · exact List.mem_singleton.mp ht ▸ h.ticket_lt hk
  · refine List.forall_mem_cons.mpr ⟨by simp, fun k' hk' hstage' t ht ↦ ?_⟩
    rcases List.mem_append.mp ht with ht | ht
    · exact h.waiting_after k' (List.mem_cons_of_mem _ hk') hstage' t ht
    · exact List.mem_singleton.mp ht ▸ hlt.1 _ (List.mem_map_of_mem hk')
  · exact h.encoded_locked.trans (List.sublist_append_left _ _)
  · refine List.forall_mem_cons.mpr ⟨fun _ ↦ ⟨locked, rfl, h.encoded_locked⟩, ?_⟩
    intro k' hk' hdrain
    simp [hrest k' hk'] at hdrain
  · refine List.forall_mem_cons.mpr ⟨by simp, fun k' hk' hbusy ↦ ?_⟩
    simp [hrest k' hk'] at hbusy
  · exact forall_head h.reading_request (by simp)

theorem encode (h : Orderly calls (k :: rest) locked encoded) (hstage : k.stage = .draining)
    {command : Command} (hcommand : k.call.command? = some command) :
    Orderly calls ({ k with stage := .writing } :: rest) locked
      (encoded ++ [(k.ticket, command)]) := by
  have hk : k ∈ k :: rest := List.mem_cons_self
  have hrest : ∀ k' ∈ rest, k'.stage = .waiting := h.tail_waiting
  refine ⟨h.tail_waiting, ?_, ?_, by simpa using h.line_lt, h.locked_lt, h.locked_bound, ?_, ?_, ?_,
    ?_, ?_, ?_⟩
  · exact forall_head h.call_of (h.call_of k hk)
  · exact forall_head h.not_refused (h.not_refused k hk)
  · exact forall_head h.waiting_after (by simp)
  · obtain ⟨earlier, hlocked, hsub⟩ := h.draining_last k hk hstage
    rw [List.map_append, hlocked]
    exact hsub.append (List.Sublist.refl _)
  · intro p hp
    rcases List.mem_append.mp hp with hp | hp
    · exact h.encoded_call p hp
    · rw [List.mem_singleton.mp hp]
      exact ⟨k.call, h.call_of k hk, hcommand⟩
  · refine List.forall_mem_cons.mpr ⟨by simp, fun k' hk' hdrain ↦ ?_⟩
    simp [hrest k' hk'] at hdrain
  · refine List.forall_mem_cons.mpr ⟨fun _ ↦ ⟨encoded, command, hcommand, rfl⟩,
      fun k' hk' hbusy ↦ ?_⟩
    simp [hrest k' hk'] at hbusy
  · exact forall_head h.reading_request (by simp)

theorem read (h : Orderly calls (k :: rest) locked encoded)
    (hstage : k.stage = .writing ∨ k.stage = .reading)
    (hcall : ∃ command, k.call = .request command) :
    Orderly calls ({ k with stage := .reading } :: rest) locked encoded := by
  have hk : k ∈ k :: rest := List.mem_cons_self
  refine ⟨h.tail_waiting, ?_, ?_, by simpa using h.line_lt, h.locked_lt, h.locked_bound, ?_,
    h.encoded_locked, h.encoded_call, ?_, ?_, ?_⟩
  · exact forall_head h.call_of (h.call_of k hk)
  · exact forall_head h.not_refused (h.not_refused k hk)
  · exact forall_head h.waiting_after (by simp)
  · exact forall_head h.draining_last (by simp)
  · exact forall_head h.encoded_last fun _ ↦ h.encoded_last k hk hstage
  · exact forall_head h.reading_request fun _ ↦ hcall

end Orderly

end PinballBoard

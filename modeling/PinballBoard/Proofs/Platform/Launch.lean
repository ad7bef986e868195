import PinballBoard.Proofs.Platform.AllOrNothing
import PinballBoard.Settings.Json

/-!
# From a document to a running platform

The capacity of the channel for events goes a long way: from a document of the settings through
their options to the channel, which is made when the board has been reset and has answered
everything. A channel must have a place and must not have more places than it can count.

The options see to the first: they ask for one place at least. Nobody sees to the second. A field of
the settings holds eight times as many numbers as there are capacities, and a document may give any
of them, so a document that is accepted can crash the host behind the handshake
(`launch_crashed`). Up to the greatest capacity of a channel, no accepted document does
(`launch_of_accepted`).
-/

namespace PinballBoard

theorem Settings.capacity_pos_of_accepted {text : String} {options : PlatformOptions}
    (h : (ofText text).map Settings.options = .ok options) : 0 < options.eventCapacity := by
  cases htext : ofText text with
  | error e =>
    rw [htext] at h
    cases h
  | ok s =>
    rw [htext] at h
    obtain rfl := Except.ok.inj h
    exact Nat.lt_of_lt_of_le Nat.one_pos (Nat.le_max_left ..)

namespace Bench

variable {σ : Type} [ByteStream σ] {discovery : Discovery} {options : PlatformOptions}

private theorem launch_of_pos (hpos : 0 < options.eventCapacity) {b later : Bench σ} {state : Unit}
    (hstarted : b.perform Platform.start = ((state, some (.ok discovery)), later)) :
    b.launch options =
      if options.eventCapacity ≤ Channel.greatestCapacity then
        .running discovery (later.beginPolling discovery options)
      else .crashed later := by
  rw [launch, hstarted]
  dsimp only
  rw [beginPolling?, Session.beginPolling?_eq]
  by_cases hcapacity : options.eventCapacity ≤ Channel.greatestCapacity
  · rw [if_pos ⟨hpos, hcapacity⟩, if_pos hcapacity]
    rfl
  · rw [if_neg fun hall ↦ hcapacity hall.2, if_neg hcapacity]
    rfl

/-- **An accepted document starts the platform with every board that introduces itself, or crashes
it, and the greatest capacity alone decides which.** -/
theorem launch_of_accepted {text : String}
    (haccepted : (Settings.ofText text).map Settings.options = .ok options) {b later : Bench σ}
    {state : Unit} (hstarted : b.perform Platform.start = ((state, some (.ok discovery)), later)) :
    b.launch options =
      if options.eventCapacity ≤ Channel.greatestCapacity then
        .running discovery (later.beginPolling discovery options)
      else .crashed later :=
  launch_of_pos (Settings.capacity_pos_of_accepted haccepted) hstarted

/-- What a board with one lamp says, with all its switches open. -/
def introduction : Bytes := [0, 76, 73, 83, 89, 49, 0, 1, 2, 3] ++ List.replicate 64 0

/-- A bench with this board. -/
def introduced : Bench ScriptedStream :=
  ofStream "board" ⟨[.chunk introduction, .ended], .open, 0, .blocked⟩

/-- What its handshake finds out. -/
def discovered : Discovery := ⟨⟨.system1, 1, 2, 3⟩, ⟨Vector.replicate 64 (some false)⟩⟩

private theorem perform_introduced :
    introduced.perform Platform.start =
      (((), some (.ok discovered)), (introduced.perform Platform.start).2) := by
  have hresult : (introduced.perform Platform.start).1.2 = some (.ok discovered) := by
    decide +kernel
  rw [← hresult]

/-- The greatest capacity that there is. -/
theorem launch_of_accepted_greatest :
    (Settings.ofText "\x7b\"event_capacity\": 2305843009213693951\x7d").map Settings.options =
        .ok ⟨2305843009213693951, 1⟩ ∧
      introduced.launch ⟨2305843009213693951, 1⟩ = .running discovered
        ((introduced.perform Platform.start).2.beginPolling discovered
          ⟨2305843009213693951, 1⟩) := by
  have haccepted : (Settings.ofText "\x7b\"event_capacity\": 2305843009213693951\x7d").map
      Settings.options = .ok ⟨2305843009213693951, 1⟩ := by decide +kernel
  refine ⟨haccepted, ?_⟩
  rw [launch_of_accepted haccepted perform_introduced]
  exact if_pos (by decide)

/-- **An accepted document can crash the host**, when the board has been asked everything and has
answered. -/
theorem launch_crashed :
    (Settings.ofText "\x7b\"event_capacity\": 18446744073709551615\x7d").map Settings.options =
        .ok ⟨18446744073709551615, 1⟩ ∧
      (introduced.perform Platform.start).1.2 = some (.ok discovered) ∧
      (introduced.perform Platform.start).2.written = Handshake.questions ∧
      introduced.launch ⟨18446744073709551615, 1⟩ =
        .crashed (introduced.perform Platform.start).2 := by
  refine ⟨by decide +kernel, congrArg (·.1.2) perform_introduced, by decide +kernel, ?_⟩
  rw [launch_of_pos (by decide) perform_introduced]
  exact if_neg (by decide)

end Bench

end PinballBoard

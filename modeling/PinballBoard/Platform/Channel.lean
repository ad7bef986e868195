import PinballBoard.Platform.Error
import PinballBoard.Switch.Address

/-!
# Events for the host

What the board reports on its own reaches the host through a channel of bounded length. The sender
looks for room first and waits if there is none, so the channel never drops an event that the host
could still take; only a host that has gone away makes events vanish.
-/

namespace PinballBoard

/-- What the host hears without having asked. -/
inductive PlatformEvent where
  | switchChanged (switch : Switch) (active : Bool)
  /-- The last event: no change will be heard of any more. -/
  | pollFailed (error : DeviceError)
deriving DecidableEq, Repr

/-- An event as the host reads it. -/
inductive Notice where
  /-- A switch has changed, as somebody reports. -/
  | switchChanged (number : UInt8) (active : Bool) (source : String)
  | pollFailed (text : String)
deriving DecidableEq, Repr

/-- What the host reads of an event. -/
def PlatformEvent.notice : PlatformEvent → Notice
  | switchChanged switch active => .switchChanged switch.number active boardName
  | pollFailed error => .pollFailed error.message

/-- A queue of events, bounded as long as somebody takes them. -/
structure Channel where
  capacity : Nat
  /-- What the host has not taken yet, oldest first. -/
  queue : List PlatformEvent
  /-- The host has gone away and takes nothing any more. -/
  abandoned : Bool
deriving DecidableEq, Repr

/-- What becomes of an event that is offered to a channel. -/
inductive Offer where
  | enqueued (channel : Channel)
  | full
  | abandoned
deriving DecidableEq, Repr

namespace Channel

/-- A channel that nothing has been put into. -/
def empty (capacity : Nat) : Channel := ⟨capacity, [], false⟩

/-- The greatest capacity of a channel. It counts its places in a word of 64 bits, three of which it
keeps for other uses. -/
def greatestCapacity : Nat := (UInt64.size - 1) >>> 3

/-- A new channel. There is none without places and none with more than can be counted, and whoever
asks for one crashes. -/
def make? (capacity : Nat) : Option Channel :=
  if 0 < capacity ∧ capacity ≤ greatestCapacity then some (empty capacity) else none

/-- Put an event behind the others if there is room and somebody to take it. -/
def offer (c : Channel) (event : PlatformEvent) : Offer :=
  if c.abandoned then .abandoned
  else if c.queue.length < c.capacity then .enqueued { c with queue := c.queue ++ [event] }
  else .full

/-- Take the oldest event. -/
def take? (c : Channel) : Option (PlatformEvent × Channel) :=
  match c.queue with
  | event :: queue => some (event, { c with queue })
  | [] => none

/-- The host goes away, and what it has not taken is lost. -/
def abandon (c : Channel) : Channel := { c with queue := [], abandoned := true }

end Channel

end PinballBoard

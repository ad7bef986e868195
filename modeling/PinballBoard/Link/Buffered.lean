import PinballBoard.Wire.Codec

/-!
# The two ends of a stream

Between the codec and the stream stand two buffers. What a command writes waits in one until the
stream has taken it, and what the stream has brought waits in the other until a reply is made of it.
Bytes leave both at the front, so that neither direction ever skips or repeats one.

## How much one read brings

Received bytes lie one behind the other in a store of fixed size. The place of a byte that has
become part of a reply is not free again at once: only when the store is full to its end do the
bytes that are left move to its front. So a read brings at most what is free behind them, and a
string that reaches over the end of the store takes two reads. That can be seen, because a string
is too long only where its end has not come yet.

The store never has to grow. The stream is read only while a reply is incomplete, and an incomplete
reply has at most `Limit.stringReply` bytes.
-/

namespace PinballBoard

/-- An open stream as the host sees it: the codec and the bytes on their way. -/
structure Link where
  codec : Codec
  /-- Encoded, and not yet taken by the stream. -/
  outgoing : Bytes
  /-- Received, and not yet part of a reply. -/
  incoming : Bytes
  /-- The places in the store in front of `incoming`. -/
  spent : Nat
deriving DecidableEq, Repr

namespace Link

/-- A stream that has just been opened. -/
def fresh : Link := ⟨.idle, [], [], 0⟩

/-- The number of places in the store of received bytes. -/
def storeSize : Nat := 8192

/-- The free places behind the received bytes. -/
def room (l : Link) : Nat := storeSize - l.spent - l.incoming.length

/-- Move the received bytes to the front of the store if there is no place behind them. -/
def makeRoom (l : Link) : Link := if l.room = 0 then { l with spent := 0 } else l

/-- The number of bytes that the next read may bring. -/
def readLimit (l : Link) : Nat := l.makeRoom.room

/-- Put the frame of a command behind the bytes that wait to be written. -/
def submit (l : Link) (command : Command) : Except ProtocolError Link :=
  (l.codec.encode command).map fun (codec, frame) ↦
    { l with codec := codec, outgoing := l.outgoing ++ frame }

/-- The stream has taken some bytes. -/
def taken (l : Link) (count : Nat) : Link := { l with outgoing := l.outgoing.drop count }

/-- There is always a place for the next byte, as long as the store could hold it. -/
theorem readLimit_pos (l : Link) (h : l.incoming.length < storeSize) : 0 < l.readLimit := by
  unfold readLimit makeRoom
  split
  · simp only [room]
    omega
  · omega

/-- The stream has brought some bytes. -/
def received (l : Link) (chunk : Bytes) : Link :=
  { l.makeRoom with incoming := l.incoming ++ chunk }

/-- A reply has been made of the received bytes, and these are left. -/
def answered (l : Link) (rest : Bytes) : Link :=
  { l with
    codec := .idle
    incoming := rest
    spent := l.spent + (l.incoming.length - rest.length) }

end Link

/-! ## Worked by hand

A connection always does the same few things with its codec and its buffers, one after the other.
Whoever has the three in his own hands can do them in any order. -/

/-- What can be done with a codec and its buffers. -/
inductive Handling where
  /-- Put the frame of a command behind the bytes that wait to be written. -/
  | encode (command : Command)
  /-- Put some bytes behind those that have been received. -/
  | feed (chunk : Bytes)
  /-- Look for a reply. -/
  | decode
  /-- Look for a reply when nothing more will arrive. -/
  | decodeAtEnd
deriving DecidableEq, Repr

/-- What comes of it. -/
inductive Handled where
  | accepted
  | refused (error : ProtocolError)
  | fed
  | replied (reply : Reply)
  /-- There is no reply yet. -/
  | nothing
  | failed (error : ProtocolError)
deriving DecidableEq, Repr

namespace Link

/-- Take out what the codec has found. -/
def takeOut (l : Link) : Decoded → Link × Handled
  | .reply reply rest => (l.answered rest, .replied reply)
  | .incomplete => (l, .nothing)
  | .failed e => (l, .failed e)

/-- Do one thing. What goes wrong changes nothing. -/
def handle (l : Link) : Handling → Link × Handled
  | .encode command =>
    match l.submit command with
    | .ok l => (l, .accepted)
    | .error e => (l, .refused e)
  | .feed chunk => (l.received chunk, .fed)
  | .decode => l.takeOut (l.codec.decode l.incoming)
  | .decodeAtEnd => l.takeOut (l.codec.decodeAtEnd l.incoming)

end Link

end PinballBoard

import PinballBoard.Link.Stream
import PinballBoard.Simulator.Script

/-!
# Streams that do as they are told

What a task makes of a stream should depend on the bytes that the stream brings and on how it ends,
and on nothing else: not on how many bytes it takes or brings at a time, and not on what kind of
stream it is. So the theorems about whole tasks speak of any type of streams, and of any way to say
what a stream of this type still has to bring. `Supplies` collects what that way has to promise, and
`TakesAll` the part of it that concerns writing only.

A chunk is never empty and never longer than the read allows. Otherwise the stream is free, so a
statement about all supplies is a statement about all ways to cut its bytes. That scripted streams
are supplies (`ScriptedStream.supplies`) says that there is one for every list of chunks and every
end.
-/

namespace PinballBoard

/-- What a stream does when it has brought all its bytes. -/
inductive StreamEnd where
  /-- It brings nothing more and does not say so. -/
  | hangs
  /-- It says that there will be no more. -/
  | ended
  | failed (detail : String)
deriving DecidableEq, Repr

/-- What the stream answers then when it is asked for bytes. -/
def StreamEnd.status : StreamEnd → ReadStatus
  | .hangs => .notReady
  | .ended => .ended
  | .failed detail => .failed detail

/-- The failure of a request whose reply is not complete when the stream has come to its end, with
the bytes of the reply that have arrived. A stream that hangs is no failure. -/
def StreamEnd.failure? (peer : String) (arrived : Bytes) : StreamEnd → Option LinkError
  | .hangs => none
  | .ended =>
    some (if arrived = [] then .lost (peer ++ " closed the connection")
      else .io "bytes remaining on stream")
  | .failed detail => some (.io detail)

section Laws

variable {σ : Type} [ByteStream σ]

/-- The stream takes whatever it is given, some bytes at a time, and passes it on. -/
structure TakesAll (good : σ → Prop) : Prop where
  write : ∀ s bytes, good s → bytes ≠ [] → ∃ count s', 0 < count ∧
    ByteStream.write s bytes = (.accepted count, s') ∧ good s'
  flush : ∀ s, good s → ∃ s', ByteStream.flush s = (.finished, s') ∧ good s'

/-- A stream that `holds` some bytes and an end takes whatever it is given, and brings these bytes,
some at a time, and then this end. -/
structure Supplies (holds : σ → Bytes → StreamEnd → Prop) : Prop where
  takesAll : ∀ bytes e, TakesAll fun s ↦ holds s bytes e
  brings : ∀ s bytes e limit, holds s bytes e → bytes ≠ [] → 0 < limit →
    ∃ chunk rest s', chunk ≠ [] ∧ chunk.length ≤ limit ∧ bytes = chunk ++ rest ∧
      ByteStream.read s limit = (.chunk chunk, s') ∧ holds s' rest e
  finishes : ∀ s e limit, holds s [] e → 0 < limit →
    ∃ s', ByteStream.read s limit = (e.status, s')

end Laws

/-! ## Scripted streams -/

namespace ScriptedStream

/-- The items with which a script comes to its end. -/
inductive Ends : StreamEnd → List ScriptItem → Prop where
  | hangs : Ends .hangs []
  | ended (items : List ScriptItem) : Ends .ended (.ended :: items)
  | failed (items : List ScriptItem) : Ends (.failed "scripted read error") (.failed :: items)

/-- A script that takes everything and brings some bytes, in chunks of any size, and an end. -/
structure Brings (s : ScriptedStream) (bytes : Bytes) (e : StreamEnd) : Prop where
  writes_open : s.writes = .open
  items_eq : ∃ (chunks : List Bytes) (rest : List ScriptItem), (∀ chunk ∈ chunks, chunk ≠ []) ∧
    chunks.flatten = bytes ∧ s.items = chunks.map .chunk ++ rest ∧ Ends e rest

/-- **Every way to cut some bytes is a supply of them.** -/
theorem supplies : Supplies Brings where
  takesAll bytes e := by
    constructor
    · intro s out hs hout
      refine ⟨out.length, s, List.length_pos_iff.mpr hout, ?_, hs⟩
      simp [ByteStream.write, write, hs.writes_open]
    · exact fun s hs ↦ ⟨s, rfl, hs⟩
  brings s bytes e limit hs hbytes hlimit := by
    obtain ⟨hopen, chunks, rest, hchunks, rfl, hitems, hend⟩ := hs
    cases chunks with
    | nil => exact absurd rfl hbytes
    | cons chunk chunks =>
      have hchunk : chunk ≠ [] := hchunks chunk List.mem_cons_self
      have hmore : ∀ c ∈ chunks, c ≠ [] := fun c hc ↦ hchunks c (List.mem_cons_of_mem _ hc)
      by_cases hlength : chunk.length ≤ limit
      · refine ⟨chunk, chunks.flatten, { s with items := chunks.map .chunk ++ rest }, hchunk,
          hlength, rfl, ?_, hopen, chunks, rest, hmore, rfl, rfl, hend⟩
        simp [ByteStream.read, read, hitems, hlength, List.take_of_length_le hlength]
      · -- what is too long for one read is cut once more
        have hlong : limit < chunk.length := Nat.lt_of_not_le hlength
        refine ⟨chunk.take limit, chunk.drop limit ++ chunks.flatten,
          { s with items := (chunk.drop limit :: chunks).map .chunk ++ rest }, ?_, ?_, ?_, ?_,
          hopen, chunk.drop limit :: chunks, rest, ?_, rfl, rfl, hend⟩
        · rw [Ne, List.take_eq_nil_iff]
          exact not_or.mpr ⟨Nat.ne_of_gt hlimit, hchunk⟩
        · exact List.length_take_le limit chunk
        · rw [List.flatten_cons, ← List.append_assoc, List.take_append_drop]
        · simp [ByteStream.read, read, hitems, hlength]
        · refine List.forall_mem_cons.mpr ⟨?_, hmore⟩
          rw [Ne, List.drop_eq_nil_iff]
          exact hlength
  finishes s e limit hs hlimit := by
    obtain ⟨hopen, chunks, rest, hchunks, hflatten, hitems, hend⟩ := hs
    cases chunks with
    | nil => cases hend <;> exact ⟨s, by simp [ByteStream.read, read, hitems, StreamEnd.status]⟩
    | cons chunk chunks =>
      rw [List.flatten_cons, List.append_eq_nil_iff] at hflatten
      exact absurd hflatten.1 (hchunks chunk List.mem_cons_self)

end ScriptedStream

end PinballBoard

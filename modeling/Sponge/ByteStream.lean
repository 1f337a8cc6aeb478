/-
# The byte stream

`ByteStream` of `byte_stream.cc`: a bounded FIFO between a writer and a
reader, with two flags, `inputEnded` (the writer is done) and `error` (the
connection was reset). A stream carries the two facts every operation keeps:
the buffer fits the capacity, and what was written is what was read and what
is still buffered. The byte counters are naturals: no run transfers 2^64
bytes.

Key definitions: `ByteStream.write`, `ByteStream.read`, `ByteStream.room`.
Key theorems: `ByteStream.write_fst`, `ByteStream.write_snd_buffer`,
`ByteStream.read_append`.
-/
import Mathlib.Data.List.Basic
import Mathlib.Tactic

namespace Sponge

/-- A `std::string` of bytes. -/
abbrev Bytes := List UInt8

structure ByteStream where
  capacity : ℕ
  bytesWritten : ℕ
  bytesRead : ℕ
  buffer : Bytes
  error : Bool
  inputEnded : Bool
  fits : buffer.length ≤ capacity
  count : bytesWritten = bytesRead + buffer.length
  deriving DecidableEq

namespace ByteStream

/-- The constructor. -/
def init (capacity : ℕ) : ByteStream where
  capacity := capacity
  bytesWritten := 0
  bytesRead := 0
  buffer := []
  error := false
  inputEnded := false
  fits := Nat.zero_le _
  count := rfl

/-- `write`: as many bytes as fit, none once the stream is ended or in error.
The number accepted and the stream after. -/
def write (s : ByteStream) (data : Bytes) : ℕ × ByteStream :=
  if data = [] ∨ s.error = true ∨ s.inputEnded = true then (0, s)
  else
    let space := s.capacity - s.buffer.length
    let toWrite := min space data.length
    (toWrite,
      { s with
        buffer := s.buffer ++ data.take toWrite
        bytesWritten := s.bytesWritten + toWrite
        fits := by
          have := s.fits
          simp only [List.length_append, List.length_take, toWrite, space]
          omega
        count := by
          have := s.count
          simp only [List.length_append, List.length_take, toWrite, space]
          omega })

/-- `eof`: the input is ended and everything is read. -/
def eof (s : ByteStream) : Bool := s.inputEnded && s.buffer.isEmpty

def peekOutput (s : ByteStream) (len : ℕ) : Bytes :=
  if len = 0 ∨ s.buffer = [] ∨ s.error = true then []
  else s.buffer.take (min len s.buffer.length)

def popOutput (s : ByteStream) (len : ℕ) : ByteStream :=
  if len = 0 ∨ s.eof = true ∨ s.error = true then s
  else
    let toPop := min len s.buffer.length
    { s with
      buffer := s.buffer.drop toPop
      bytesRead := s.bytesRead + toPop
      fits := by
        have := s.fits
        simp only [List.length_drop]
        omega
      count := by
        have := s.count
        simp only [List.length_drop, toPop]
        omega }

/-- `read`: copy, then pop. -/
def read (s : ByteStream) (len : ℕ) : Bytes × ByteStream := (s.peekOutput len, s.popOutput len)

def endInput (s : ByteStream) : ByteStream := { s with inputEnded := true }

def setError (s : ByteStream) : ByteStream := { s with error := true }

def remainingCapacity (s : ByteStream) : ℕ := s.capacity - s.buffer.length

/-! ### What a write accepts -/

/-- The bytes a write can still place: the free space, or nothing once the
stream is ended or in error. -/
def room (s : ByteStream) : ℕ :=
  if s.error = true ∨ s.inputEnded = true then 0 else s.capacity - s.buffer.length

/-- A stream that accepts writes. -/
def Open (s : ByteStream) : Prop := s.error = false ∧ s.inputEnded = false

instance (s : ByteStream) : Decidable s.Open := inferInstanceAs (Decidable (_ ∧ _))

theorem room_of_open {s : ByteStream} (h : s.Open) : s.room = s.capacity - s.buffer.length := by
  simp [room, h.1, h.2]

theorem room_of_not_open {s : ByteStream} (h : ¬ s.Open) : s.room = 0 := by
  unfold room
  rw [if_pos]
  by_contra hc
  simp only [not_or, Bool.not_eq_true] at hc
  exact h hc

/-- A write takes as many bytes as there is room for. -/
theorem write_takes (s : ByteStream) (data : Bytes) : (s.write data).1 = min s.room data.length ∧
    (s.write data).2.buffer = s.buffer ++ data.take (min s.room data.length) ∧
    (s.write data).2.bytesWritten = s.bytesWritten + min s.room data.length := by
  unfold write room
  by_cases hb : s.error = true ∨ s.inputEnded = true
  · rw [if_pos (Or.inr hb), if_pos hb]
    simp
  · rw [if_neg hb]
    by_cases hd : data = []
    · simp [hd]
    · rw [if_neg (not_or.mpr ⟨hd, hb⟩)]
      exact ⟨rfl, rfl, rfl⟩

@[simp] theorem write_fst (s : ByteStream) (data : Bytes) :
    (s.write data).1 = min s.room data.length := (write_takes s data).1

@[simp] theorem write_snd_buffer (s : ByteStream) (data : Bytes) :
    (s.write data).2.buffer = s.buffer ++ data.take (min s.room data.length) := (write_takes s data).2.1

@[simp] theorem write_snd_bytesWritten (s : ByteStream) (data : Bytes) :
    (s.write data).2.bytesWritten = s.bytesWritten + min s.room data.length := (write_takes s data).2.2

/-- What a write leaves alone. -/
theorem write_snd_frame (s : ByteStream) (data : Bytes) :
    (s.write data).2.capacity = s.capacity ∧ (s.write data).2.bytesRead = s.bytesRead ∧
      (s.write data).2.error = s.error ∧ (s.write data).2.inputEnded = s.inputEnded := by
  unfold write
  split <;> exact ⟨rfl, rfl, rfl, rfl⟩

@[simp] theorem write_snd_capacity (s : ByteStream) (data : Bytes) :
    (s.write data).2.capacity = s.capacity := (write_snd_frame s data).1

@[simp] theorem write_snd_bytesRead (s : ByteStream) (data : Bytes) :
    (s.write data).2.bytesRead = s.bytesRead := (write_snd_frame s data).2.1

@[simp] theorem write_snd_error (s : ByteStream) (data : Bytes) :
    (s.write data).2.error = s.error := (write_snd_frame s data).2.2.1

@[simp] theorem write_snd_inputEnded (s : ByteStream) (data : Bytes) :
    (s.write data).2.inputEnded = s.inputEnded := (write_snd_frame s data).2.2.2

theorem write_of_not_open {s : ByteStream} (h : ¬ s.Open) (data : Bytes) : s.write data = (0, s) := by
  unfold write
  rw [if_pos]
  right
  by_contra hc
  simp only [not_or, Bool.not_eq_true] at hc
  exact h hc

/-- A write uses up its share of the room. -/
theorem write_snd_room (s : ByteStream) (data : Bytes) :
    (s.write data).2.room = s.room - min s.room data.length := by
  by_cases h : s.Open
  · have h' : (s.write data).2.Open := by simpa [Open] using h
    rw [room_of_open h', room_of_open h]
    have := s.fits
    simp only [write_snd_capacity, write_snd_buffer, List.length_append, List.length_take,
      room_of_open h]
    omega
  · rw [write_of_not_open h, room_of_not_open h]
    simp

/-- `b` is `a` after the bytes `d` were written to it, and nothing else. -/
structure Wrote (a b : ByteStream) (d : Bytes) : Prop where
  buffer : b.buffer = a.buffer ++ d
  bytesWritten : b.bytesWritten = a.bytesWritten + d.length
  room : d.length + b.room = a.room
  capacity : b.capacity = a.capacity
  bytesRead : b.bytesRead = a.bytesRead
  error : b.error = a.error
  inputEnded : b.inputEnded = a.inputEnded

theorem Wrote.refl (s : ByteStream) : Wrote s s [] :=
  ⟨(List.append_nil _).symm, rfl, Nat.zero_add _, rfl, rfl, rfl, rfl⟩

theorem Wrote.trans {a b c : ByteStream} {d d' : Bytes} (h : Wrote a b d) (h' : Wrote b c d') :
    Wrote a c (d ++ d') where
  buffer := by rw [h'.buffer, h.buffer, List.append_assoc]
  bytesWritten := by rw [h'.bytesWritten, h.bytesWritten, List.length_append, Nat.add_assoc]
  room := by rw [List.length_append, Nat.add_assoc, h'.room, h.room]
  capacity := h'.capacity.trans h.capacity
  bytesRead := h'.bytesRead.trans h.bytesRead
  error := h'.error.trans h.error
  inputEnded := h'.inputEnded.trans h.inputEnded

theorem write_wrote (s : ByteStream) (data : Bytes) :
    Wrote s (s.write data).2 (data.take (min s.room data.length)) where
  buffer := write_snd_buffer s data
  bytesWritten := by rw [write_snd_bytesWritten, List.length_take]; omega
  room := by rw [write_snd_room, List.length_take]; omega
  capacity := write_snd_capacity s data
  bytesRead := write_snd_bytesRead s data
  error := write_snd_error s data
  inputEnded := write_snd_inputEnded s data

/-! ### What a read returns -/

/-- The bytes a read of `len` takes off the buffer. -/
theorem popOutput_buffer (s : ByteStream) (len : ℕ) :
    (s.popOutput len).buffer = s.buffer.drop (if s.error = true then 0 else len) := by
  unfold popOutput eof
  by_cases he : s.error = true
  · simp [he]
  · simp only [he, or_false, Bool.false_eq_true, ↓reduceIte]
    split
    · rename_i h
      rcases h with h | h
      · simp [h]
      · simp only [Bool.and_eq_true, List.isEmpty_iff] at h
        simp [h.2]
    · simp only
      rcases le_total len s.buffer.length with hl | hl
      · rw [min_eq_left hl]
      · rw [min_eq_right hl, List.drop_length, List.drop_of_length_le hl]

theorem peekOutput_eq (s : ByteStream) (len : ℕ) :
    s.peekOutput len = s.buffer.take (if s.error = true then 0 else len) := by
  unfold peekOutput
  by_cases he : s.error = true
  · simp [he]
  · simp only [he, or_false, Bool.false_eq_true, ↓reduceIte]
    split
    · rename_i h
      rcases h with h | h <;> simp [h]
    · rcases le_total len s.buffer.length with hl | hl
      · rw [min_eq_left hl]
      · rw [min_eq_right hl, List.take_length, List.take_of_length_le hl]

/-- A read splits the buffer: what it returns and what it leaves. -/
theorem read_append (s : ByteStream) (len : ℕ) :
    (s.read len).1 ++ (s.read len).2.buffer = s.buffer := by
  simp only [read, peekOutput_eq, popOutput_buffer, List.take_append_drop]

/-- A read that returns nothing changes nothing. -/
theorem popOutput_of_peek_nil {s : ByteStream} {len : ℕ} (h : s.peekOutput len = []) : s.popOutput len = s := by
  unfold popOutput
  split
  · rfl
  · rename_i hc
    simp only [not_or, Bool.not_eq_true] at hc
    obtain ⟨h1, h2, h3⟩ := hc
    rw [peekOutput_eq, h3, if_neg Bool.false_ne_true, List.take_eq_nil_iff] at h
    have hb : s.buffer = [] := h.resolve_left h1
    cases s
    simp only at hb
    subst hb
    simp

theorem read_length_le (s : ByteStream) (len : ℕ) : (s.read len).1.length ≤ len := by
  simp only [read, peekOutput_eq, List.length_take]
  split <;> omega

theorem popOutput_frame (s : ByteStream) (len : ℕ) :
    (s.popOutput len).capacity = s.capacity ∧ (s.popOutput len).bytesWritten = s.bytesWritten ∧
      (s.popOutput len).error = s.error ∧ (s.popOutput len).inputEnded = s.inputEnded := by
  unfold popOutput
  split <;> exact ⟨rfl, rfl, rfl, rfl⟩

@[simp] theorem popOutput_capacity (s : ByteStream) (len : ℕ) :
    (s.popOutput len).capacity = s.capacity := (popOutput_frame s len).1

@[simp] theorem popOutput_bytesWritten (s : ByteStream) (len : ℕ) :
    (s.popOutput len).bytesWritten = s.bytesWritten := (popOutput_frame s len).2.1

@[simp] theorem popOutput_error (s : ByteStream) (len : ℕ) :
    (s.popOutput len).error = s.error := (popOutput_frame s len).2.2.1

@[simp] theorem popOutput_inputEnded (s : ByteStream) (len : ℕ) :
    (s.popOutput len).inputEnded = s.inputEnded := (popOutput_frame s len).2.2.2

theorem read_bytesRead (s : ByteStream) (len : ℕ) :
    (s.read len).2.bytesRead = s.bytesRead + (s.read len).1.length := by
  have h1 := congrArg List.length (read_append s len)
  have h2 := s.count
  have h3 := (s.read len).2.count
  have h4 : (s.read len).2.bytesWritten = s.bytesWritten := popOutput_bytesWritten s len
  rw [List.length_append] at h1
  omega

/-- Reading only advances the reader. -/
theorem bytesRead_le_popOutput (s : ByteStream) (len : ℕ) :
    s.bytesRead ≤ (s.popOutput len).bytesRead := by
  unfold popOutput
  split
  · exact le_rfl
  · exact Nat.le_add_right _ _

theorem endInput_of_ended {s : ByteStream} (h : s.inputEnded = true) : s.endInput = s := by
  cases s
  simp only at h
  subst h
  rfl

end ByteStream
end Sponge

/-
# Parsing and unparsing

`parser.hh` and `buffer.hh`: a `NetParser` takes integers in network byte
order off the front of a buffer and remembers the first thing that went wrong;
`NetUnparser` appends them to a string. A `Buffer` is its bytes, a
`BufferList` the list of its buffers.

Key definitions: `NetParser.parseInt`, `NetUnparser.u16`, `BufferList.toBuffer`.
Key theorems: `NetParser.parseInt_append`, `NetParser.u32_append`.
-/
import Sponge.ByteStream
import Sponge.Lib.BigEndian

namespace Sponge

/-- What the code throws. -/
inductive Exception where
  | runtimeError (what : String)
  | outOfRange (what : String)
  deriving DecidableEq

/-- The outcome of a call: its value, or what it threw. -/
abbrev Result (α : Type) := Except Exception α

theorem Result.map_eq_ok {α β : Type} {x : Result α} {f : α → β} {b : β} :
    x.map f = .ok b ↔ ∃ a, x = .ok a ∧ f a = b := by
  cases x with
  | error e => simp [Except.map]
  | ok a => simp [Except.map]

inductive ParseResult where
  | noError | badChecksum | packetTooShort | wrongIPVersion | headerTooShort | truncatedPacket | unsupported
  deriving DecidableEq

abbrev BufferList := List Bytes

namespace BufferList

def size (bufs : BufferList) : ℕ := (bufs.map List.length).sum

def concatenate (bufs : BufferList) : Bytes := bufs.flatten

/-- `operator Buffer`: only for a list that is contiguous. -/
def toBuffer : BufferList → Result Bytes
  | [] => .ok []
  | [buf] => .ok buf
  | _ => .error (.runtimeError
      "BufferList: please use concatenate() to combine a multi-Buffer BufferList into one Buffer")

end BufferList

structure NetParser where
  buffer : Bytes
  error : ParseResult := .noError
  deriving DecidableEq

namespace NetParser

open BigEndian

/-- `_check_size`. -/
def checkSize (p : NetParser) (size : ℕ) : NetParser :=
  if p.buffer.length < size then { p with error := .packetTooShort } else p

/-- `_parse_int`, for an integer of `len` bytes. -/
def parseInt (p : NetParser) (len : ℕ) : ℕ × NetParser :=
  let p := p.checkSize len
  if p.error ≠ .noError then (0, p)
  else (ofBytes (p.buffer.take len), { p with buffer := p.buffer.drop len })

def u32 (p : NetParser) : UInt32 × NetParser := ((UInt32.ofNat (p.parseInt 4).1), (p.parseInt 4).2)

def u16 (p : NetParser) : UInt16 × NetParser := ((UInt16.ofNat (p.parseInt 2).1), (p.parseInt 2).2)

def u8 (p : NetParser) : UInt8 × NetParser := ((UInt8.ofNat (p.parseInt 1).1), (p.parseInt 1).2)

def removePrefix (p : NetParser) (n : ℕ) : NetParser :=
  let p := p.checkSize n
  if p.error ≠ .noError then p else { p with buffer := p.buffer.drop n }

end NetParser

namespace NetUnparser

open BigEndian

def u32 (s : Bytes) (val : UInt32) : Bytes := s ++ toBytes 4 val.toNat

def u16 (s : Bytes) (val : UInt16) : Bytes := s ++ toBytes 2 val.toNat

def u8 (s : Bytes) (val : UInt8) : Bytes := s ++ toBytes 1 val.toNat

end NetUnparser

/-- `resize` to no less than there is. -/
theorem takeD_eq_append {α : Type} {l : List α} {n : ℕ} (h : l.length ≤ n) (a : α) :
    l.takeD n a = l ++ List.replicate (n - l.length) a := by
  induction n generalizing l with
  | zero =>
    obtain rfl := List.eq_nil_of_length_eq_zero (Nat.le_zero.mp h)
    rfl
  | succ n ih =>
    cases l with
    | nil => rw [List.takeD_nil, List.length_nil, Nat.sub_zero, List.nil_append]
    | cons b l =>
      have hl : l.length ≤ n := Nat.le_of_succ_le_succ h
      rw [List.takeD_succ, List.tail_cons, ih hl, List.length_cons, Nat.succ_sub_succ]
      rfl

namespace BufferList

theorem size_eq (bufs : BufferList) : bufs.size = bufs.concatenate.length := List.length_flatten.symm

@[simp] theorem size_singleton (buf : Bytes) : size [buf] = buf.length := Nat.add_zero _

end BufferList

/-! ### Reading what there is -/

namespace NetParser

open BigEndian

variable {rest : Bytes}

/-- A parser that meets no error reads the first `len` bytes and goes on
behind them. -/
theorem parseInt_append {bytes : Bytes} {len : ℕ} (h : bytes.length = len) :
    parseInt ⟨bytes ++ rest, .noError⟩ len = (ofBytes bytes, ⟨rest, .noError⟩) := by
  have hsize : checkSize ⟨bytes ++ rest, .noError⟩ len = ⟨bytes ++ rest, .noError⟩ := by
    apply if_neg
    show ¬ (bytes ++ rest).length < len
    rw [List.length_append]
    omega
  unfold parseInt
  rw [hsize]
  subst h
  simp

theorem parseInt_toBytes {n len : ℕ} (h : n < 256 ^ len) :
    parseInt ⟨toBytes len n ++ rest, .noError⟩ len = (n, ⟨rest, .noError⟩) := by
  rw [parseInt_append (toBytes_length _ _), ofBytes_toBytes, Nat.mod_eq_of_lt h]

@[simp] theorem u32_append (n : UInt32) : u32 ⟨toBytes 4 n.toNat ++ rest, .noError⟩ = (n, ⟨rest, .noError⟩) := by
  have hlt : n.toNat < 256 ^ 4 := lt_of_lt_of_eq n.toNat_lt (by norm_num)
  unfold u32
  rw [parseInt_toBytes hlt, UInt32.ofNat_toNat]

@[simp] theorem u16_append (n : UInt16) : u16 ⟨toBytes 2 n.toNat ++ rest, .noError⟩ = (n, ⟨rest, .noError⟩) := by
  have hlt : n.toNat < 256 ^ 2 := lt_of_lt_of_eq n.toNat_lt (by norm_num)
  unfold u16
  rw [parseInt_toBytes hlt, UInt16.ofNat_toNat]

@[simp] theorem u8_append (n : UInt8) : u8 ⟨toBytes 1 n.toNat ++ rest, .noError⟩ = (n, ⟨rest, .noError⟩) := by
  have hlt : n.toNat < 256 ^ 1 := lt_of_lt_of_eq n.toNat_lt (by norm_num)
  unfold u8
  rw [parseInt_toBytes hlt, UInt8.ofNat_toNat]

/-! ### Reading what there may be -/

/-- `p'` is `p` behind `n` more bytes, unless it is in error. -/
def Reads (p : NetParser) (n : ℕ) (p' : NetParser) : Prop :=
  p'.error = .noError → p.error = .noError ∧ n ≤ p.buffer.length ∧ p'.buffer = p.buffer.drop n

theorem Reads.trans {p p' p'' : NetParser} {m n : ℕ} (h : Reads p m p') (h' : Reads p' n p'') :
    Reads p (m + n) p'' := by
  intro he
  obtain ⟨he', hn, hb'⟩ := h' he
  obtain ⟨hp, hm, hb⟩ := h he'
  rw [hb, List.length_drop] at hn
  refine ⟨hp, by omega, ?_⟩
  rw [hb', hb, List.drop_drop]

theorem parseInt_reads (p : NetParser) (len : ℕ) : Reads p len (p.parseInt len).2 := by
  intro he
  unfold parseInt checkSize at he ⊢
  by_cases hlen : p.buffer.length < len
  · simp [hlen] at he
  · simp only [if_neg hlen] at he ⊢
    by_cases hp : p.error = .noError
    · exact ⟨hp, Nat.not_lt.mp hlen, by simp [hp]⟩
    · simp [hp] at he

/-- With enough bytes left a parser reads them. -/
theorem parseInt_eq {buffer : Bytes} {len : ℕ} (h : len ≤ buffer.length) :
    parseInt ⟨buffer, .noError⟩ len = (ofBytes (buffer.take len), ⟨buffer.drop len, .noError⟩) := by
  conv_lhs => rw [← List.take_append_drop len buffer]
  rw [parseInt_append (List.length_take_of_le h)]

theorem removePrefix_noError {p : NetParser} {n : ℕ} :
    (p.removePrefix n).error = .noError ↔ p.error = .noError ∧ n ≤ p.buffer.length := by
  unfold removePrefix checkSize
  by_cases hlen : p.buffer.length < n
  · simp only [if_pos hlen]
    have : ¬ n ≤ p.buffer.length := by omega
    simp [this]
  · simp only [if_neg hlen]
    have : n ≤ p.buffer.length := by omega
    by_cases he : p.error = .noError
    · simp [he, this]
    · simp [he]

theorem removePrefix_eq {buffer : Bytes} {n : ℕ} (h : n ≤ buffer.length) :
    removePrefix ⟨buffer, .noError⟩ n = ⟨buffer.drop n, .noError⟩ := by
  have hsize : checkSize ⟨buffer, .noError⟩ n = ⟨buffer, .noError⟩ := if_neg (Nat.not_lt.mpr h)
  unfold removePrefix
  rw [hsize]
  rfl

/-- The padding of a header is skipped. -/
theorem removePrefix_replicate (n : ℕ) (rest : Bytes) :
    removePrefix ⟨List.replicate n 0 ++ rest, .noError⟩ n = ⟨rest, .noError⟩ := by
  rw [removePrefix_eq (by simp), List.drop_left' (List.length_replicate ..)]

end NetParser
end Sponge

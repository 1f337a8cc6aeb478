/-
# The stream reassembler

`push_substring` of `stream_reassembler.cc`, statement by statement: the new
start past the stored piece at the left (`newIdx`), the clipping against the
pieces at the right (`clip`), the window check, the write or the insertion
(`store`), the assembly loop (`assemble`) and the end-of-stream bookkeeping
(`finish`). `size_t` sums that involve an index or the capacity are taken
modulo 2^64 and the signed `data_size` is `toSSize`, as in the source; the
byte counters are naturals. `none` is a failed assertion or an out-of-range
`substr`.

Key definitions: `StreamReassembler.newIdx`, `StreamReassembler.clip`,
`StreamReassembler.store`, `StreamReassembler.assemble`,
`StreamReassembler.pushSubstring`.
-/
import Sponge.ByteStream
import Sponge.Lib.Pieces

namespace Sponge

open Pieces

/-- A `size_t` value read as a `ssize_t`. -/
def toSSize (x : ℤ) : ℤ := if x % 2 ^ 64 < 2 ^ 63 then x % 2 ^ 64 else x % 2 ^ 64 - 2 ^ 64

theorem toSSize_of_range {x : ℤ} (h1 : -2 ^ 63 ≤ x) (h2 : x < 2 ^ 63) : toSSize x = x := by
  unfold toSSize
  split <;> omega

structure StreamReassembler where
  unassembleStrs : Store UInt8
  nextAssembledIdx : ℕ
  unassembledBytesNum : ℕ
  eofIdx : ℕ
  output : ByteStream
  capacity : ℕ
  deriving DecidableEq

namespace StreamReassembler

/-- The constructor; `_eof_idx(-1)` is the largest `size_t`. -/
def init (capacity : ℕ) : StreamReassembler where
  unassembleStrs := []
  nextAssembledIdx := 0
  unassembledBytesNum := 0
  eofIdx := 2 ^ 64 - 1
  output := ByteStream.init capacity
  capacity := capacity

/-- The new start of a substring: past the stored piece it starts in, else
past what is assembled. -/
def newIdx (r : StreamReassembler) (index : ℕ) : ℕ :=
  match lastLE r.unassembleStrs index with
  | some (upIdx, upData) =>
    if index < (upIdx + upData.length) % 2 ^ 64 then (upIdx + upData.length) % 2 ^ 64 else index
  | none => if index < r.nextAssembledIdx then r.nextAssembledIdx else index

/-- The clipping loop over the pieces at the right of `newIdx`: the pieces
left, the size of the substring after it, the counter of stored bytes. -/
def clip (newIdx : ℕ) (dataSize : ℤ) : Store UInt8 → ℕ → Store UInt8 × ℤ × ℕ
  | [], num => ([], dataSize, num)
  | (downIdx, downData) :: strs, num =>
    let dataEndPos := ((newIdx + dataSize) % 2 ^ 64).toNat
    if downIdx < dataEndPos then
      if dataEndPos < (downIdx + downData.length) % 2 ^ 64 then
        ((downIdx, downData) :: strs, downIdx - newIdx, num)
      else clip newIdx dataSize strs (num - downData.length)
    else ((downIdx, downData) :: strs, dataSize, num)

/-- The end of the window. -/
def firstUnacceptableIdx (r : StreamReassembler) : ℕ :=
  (r.nextAssembledIdx + r.capacity - r.output.buffer.length) % 2 ^ 64

/-- What is left of the substring is written, or stored at its index. What a
write leaves over is stored. -/
def store (r : StreamReassembler) (newIdx : ℕ) (newData : Bytes) : StreamReassembler :=
  if newIdx = r.nextAssembledIdx then
    let (writeByte, output) := r.output.write newData
    let r := { r with output, nextAssembledIdx := r.nextAssembledIdx + writeByte }
    if writeByte < newData.length then
      { r with
        unassembledBytesNum := r.unassembledBytesNum + (newData.drop writeByte).length
        unassembleStrs := insert r.nextAssembledIdx (newData.drop writeByte) r.unassembleStrs }
    else r
  else
    { r with
      unassembledBytesNum := r.unassembledBytesNum + newData.length
      unassembleStrs := insert newIdx newData r.unassembleStrs }

/-- The assembly loop over the map, from its first piece. A write that is cut
short puts the rest under its own index, drops the old key and stops. -/
def assemble : Store UInt8 → StreamReassembler → Option StreamReassembler
  | [], r => some { r with unassembleStrs := [] }
  | (k, s) :: strs, r =>
    -- assert(_next_assembled_idx <= iter->first)
    if k < r.nextAssembledIdx then none
    else if k = r.nextAssembledIdx then
      let (writeNum, output) := r.output.write s
      let next := r.nextAssembledIdx + writeNum
      if writeNum < s.length then
        some { r with
          output
          nextAssembledIdx := next
          unassembledBytesNum := r.unassembledBytesNum + (s.length - writeNum) - s.length
          unassembleStrs := erase k (insert next (s.drop writeNum) ((k, s) :: strs)) }
      else
        assemble strs { r with
          output
          nextAssembledIdx := next
          unassembledBytesNum := r.unassembledBytesNum - s.length }
    else some { r with unassembleStrs := (k, s) :: strs }

/-- The end of `push_substring`: the end of the stream is recorded and acted on. -/
def finish (r : StreamReassembler) (endIdx : ℕ) (eof : Bool) : StreamReassembler :=
  let eofIdx := if eof then endIdx else r.eofIdx
  { r with eofIdx, output := if eofIdx ≤ r.nextAssembledIdx then r.output.endInput else r.output }

def pushSubstring (r : StreamReassembler) (data : Bytes) (index : ℕ) (eof : Bool) :
    Option StreamReassembler :=
  let newIdx := r.newIdx index
  let dataStartPos := newIdx - index
  let left := r.unassembleStrs.takeWhile (·.1 < newIdx)
  let (strs, dataSize, num) :=
    clip newIdx (toSSize (data.length - dataStartPos)) (lowerBound r.unassembleStrs newIdx) r.unassembledBytesNum
  let clipped := { r with unassembleStrs := left ++ strs, unassembledBytesNum := num }
  if r.firstUnacceptableIdx ≤ newIdx then some clipped
  else if 0 < dataSize then
    -- substr(data_start_pos, data_size) throws past the end
    if data.length < dataStartPos then none
    else
      let stored := clipped.store newIdx ((data.drop dataStartPos).take dataSize.toNat)
      (assemble stored.unassembleStrs stored).map (·.finish ((index + data.length) % 2 ^ 64) eof)
  else
    (assemble clipped.unassembleStrs clipped).map (·.finish ((index + data.length) % 2 ^ 64) eof)

def unassembledBytes (r : StreamReassembler) : ℕ := r.unassembledBytesNum

def empty (r : StreamReassembler) : Bool := r.unassembledBytesNum == 0

def read (r : StreamReassembler) (len : ℕ) : Bytes × StreamReassembler :=
  ((r.output.read len).1, { r with output := (r.output.read len).2 })

end StreamReassembler
end Sponge

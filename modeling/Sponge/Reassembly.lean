/-
# Reassembly

A reassembler and its reader, run together: `push_substring` calls in any
order, with any overlap and repetition, between reads of any length. If every
substring is a piece of one sequence `S`, the reader gets `S` in order: what
was read and what is buffered is always the first `bytes_written` bytes of it,
and the stream ends at the end of `S` only.

`Assembles S fin got r` is the invariant. It also serves a sequence that still
grows: `fin` says that `S` is complete, and until then no end of stream is
known (`Assembles.mono`).

Key definitions: `Reassembly.step`, `StreamReassembler.Assembles`.
Key theorems: `StreamReassembler.Assembles.push`, `Reassembly.assembles_in_order`.
-/
import Sponge.PushSpec
import Sponge.Lib.Runs

namespace Sponge
namespace StreamReassembler

open Pieces

/-- The reader got `got` of the sequence `S`, of which the reassembler holds
pieces only. `fin`: the sequence is complete. -/
structure Assembles (S : Bytes) (fin : Prop) (got : Bytes) (r : StreamReassembler) : Prop where
  wf : WF r
  history : got ++ r.output.buffer = S.take r.output.bytesWritten
  written_le : r.output.bytesWritten ≤ S.length
  pieces : ∀ p ∈ r.unassembleStrs, Holds S p
  eof : r.eofIdx = 2 ^ 64 - 1 ∨ fin ∧ r.eofIdx = S.length
  ended : r.output.inputEnded = true → fin ∧ r.output.bytesWritten = S.length

namespace Assembles

variable {S got : Bytes} {fin : Prop} {r : StreamReassembler}

theorem start (S : Bytes) (fin : Prop) (capacity : ℕ) : Assembles S fin [] (init capacity) where
  wf := init_wf capacity
  history := rfl
  written_le := Nat.zero_le _
  pieces := fun _ h => by cases h
  eof := Or.inl rfl
  ended := fun h => by cases h

/-- Written bytes continue the sequence. -/
theorem take_append {S d : Bytes} {n : ℕ} (h : Holds S (n, d)) : S.take n ++ d = S.take (n + d.length) := by
  rw [List.take_add]
  exact congrArg _ (List.prefix_iff_eq_take.mp h)

/-- A piece of the sequence keeps the invariant, whatever it overlaps. An empty
one may lie anywhere. -/
theorem push (h : Assembles S fin got r) (hS : S.length < 2 ^ 63) {data : Bytes} {index : ℕ} {eof : Bool}
    (hp : Holds S (index, data)) (hle : index + data.length < 2 ^ 64)
    (he : eof = true → fin ∧ index + data.length = S.length) :
    ∃ r', r.pushSubstring data index eof = some r' ∧ Assembles S fin got r' ∧
      r.output.bytesWritten ≤ r'.output.bytesWritten ∧
      (r.output.inputEnded = true → r'.output.inputEnded = true) := by
  have hnext := h.wf.next_eq
  have hbw := h.written_le
  have hdata : data.length < 2 ^ 63 := by
    have := hp.length_le
    simp only [List.length_drop] at this
    omega
  have hok : PushOk r data index := ⟨hdata, by omega, Or.inl hle⟩
  obtain ⟨r', d, hr', hd⟩ := push_spec h.wf (show index < 2 ^ 64 by omega) hok eof
  obtain ⟨hd₁, hd₂⟩ := hd.holds S hp h.pieces
  have hbw' : r'.output.bytesWritten = r.output.bytesWritten + d.length := by
    rw [← hd.wf.next_eq, hd.next, hnext]
  have hlen := hd₁.length_le
  simp only [List.length_drop] at hlen
  refine ⟨r', hr', ⟨hd.wf, ?_, by omega, hd₂, ?_, fun hend => ?_⟩, by omega, hd.still_ended⟩
  · rw [hd.buffer, ← List.append_assoc, h.history, hbw', ← hnext]
    exact take_append hd₁
  · rcases hd.eofIdx with h1 | ⟨h1, h2⟩
    · rw [h1]; exact h.eof
    · rw [h2]; exact Or.inr (he h1)
  · have hfin : ∀ {n}, fin → S.length ≤ n → n ≤ S.length → fin ∧ n = S.length :=
      fun hf h1 h2 => ⟨hf, le_antisymm h2 h1⟩
    rcases hd.ended hend with h1 | h1
    · obtain ⟨h2, h3⟩ := h.ended h1
      exact hfin h2 (by omega) (by omega)
    · have hn' := hd.wf.next_eq
      rcases hd.eofIdx with h2 | ⟨h2, h3⟩
      · rcases h.eof with h3 | ⟨h3, h4⟩
        · omega
        · exact hfin h3 (by omega) (by omega)
      · obtain ⟨h4, h5⟩ := he h2
        exact hfin h4 (by omega) (by omega)

theorem read (h : Assembles S fin got r) (len : ℕ) :
    Assembles S fin (got ++ (r.read len).1) (r.read len).2 where
  wf := read_wf h.wf len
  history := by
    simp only [StreamReassembler.read]
    rw [List.append_assoc, ByteStream.read_append, h.history]
    exact congrArg (S.take ·) (ByteStream.popOutput_bytesWritten _ _).symm
  written_le := (ByteStream.popOutput_bytesWritten _ _).le.trans h.written_le
  pieces := h.pieces
  eof := h.eof
  ended := fun hc => by
    simp only [StreamReassembler.read, ByteStream.read, ByteStream.popOutput_inputEnded,
      ByteStream.popOutput_bytesWritten] at hc ⊢
    exact h.ended hc

theorem setError (h : Assembles S fin got r) : Assembles S fin got { r with output := r.output.setError } where
  wf := setError_wf h.wf
  history := h.history
  written_le := h.written_le
  pieces := h.pieces
  eof := h.eof
  ended := h.ended

/-- The sequence may grow until it is complete. -/
theorem mono {S' : Bytes} {fin' : Prop} (h : Assembles S fin got r) (hS : S <+: S') (hfin : fin → S' = S ∧ fin') :
    Assembles S' fin' got r where
  wf := h.wf
  history := by
    rw [h.history]
    obtain ⟨t, rfl⟩ := hS
    exact (List.take_append_of_le_length h.written_le).symm
  written_le := h.written_le.trans hS.length_le
  pieces := fun p hp => (h.pieces p hp).mono hS
  eof := h.eof.imp_right fun ⟨h1, h2⟩ => ⟨(hfin h1).2, by rw [h2, (hfin h1).1]⟩
  ended := fun hc => by
    obtain ⟨h1, h2⟩ := h.ended hc
    exact ⟨(hfin h1).2, by rw [h2, (hfin h1).1]⟩

end Assembles
end StreamReassembler

/-! ### A reassembler and its reader -/

/-- A reassembler and the bytes its reader got. -/
structure Reassembly where
  reassembler : StreamReassembler
  got : Bytes
  deriving DecidableEq

namespace Reassembly

open StreamReassembler Pieces

inductive Op where
  | push (data : Bytes) (index : ℕ) (eof : Bool)
  | read (len : ℕ)

def start (capacity : ℕ) : Reassembly := ⟨init capacity, []⟩

def step (t : Reassembly) : Op → Option Reassembly
  | .push data index eof => (t.reassembler.pushSubstring data index eof).map (⟨·, t.got⟩)
  | .read len => some ⟨(t.reassembler.read len).2, t.got ++ (t.reassembler.read len).1⟩

/-- A push of a piece of `S`, with `eof` at the end of `S` only. -/
def PieceOf (S : Bytes) : Op → Prop
  | .push data index eof =>
    index + data.length ≤ S.length ∧ data = (S.drop index).take data.length ∧
      (eof = true → index + data.length = S.length)
  | .read _ => True

theorem step_assembles {S : Bytes} (hS : S.length < 2 ^ 63) {t : Reassembly} {op : Op}
    (h : Assembles S True t.got t.reassembler) (hop : PieceOf S op) :
    ∃ t', step t op = some t' ∧ Assembles S True t'.got t'.reassembler ∧
      t.reassembler.output.bytesWritten ≤ t'.reassembler.output.bytesWritten := by
  cases op with
  | push data index eof =>
    obtain ⟨h1, h2, h3⟩ := hop
    obtain ⟨r', hr', ha, hb, -⟩ := h.push hS (List.prefix_iff_eq_take.mpr h2) (by omega) fun he => ⟨trivial, h3 he⟩
    exact ⟨⟨r', t.got⟩, by simp only [step, hr', Option.map_some], ha, hb⟩
  | read len =>
    exact ⟨_, rfl, h.read len, (ByteStream.popOutput_bytesWritten _ _).ge⟩

theorem run_assembles {S : Bytes} (hS : S.length < 2 ^ 63) {t : Reassembly} {ops : List Op}
    (h : Assembles S True t.got t.reassembler) (hops : ∀ op ∈ ops, PieceOf S op) :
    ∃ t', Runs.run step t ops = some t' ∧ Assembles S True t'.got t'.reassembler ∧
      t.reassembler.output.bytesWritten ≤ t'.reassembler.output.bytesWritten := by
  refine Runs.run_total (fun t₁ op hI hop => ?_) ⟨h, le_rfl⟩ hops
  obtain ⟨t₂, h1, h2, h3⟩ := step_assembles hS hI.1 hop
  exact ⟨t₂, h1, h2, hI.2.trans h3⟩

/-- **In order**: no call fails, the reader always has a prefix of `S`, of
length `bytes_written`, which never decreases, and the stream is ended at the
end of `S` only. -/
theorem assembles_in_order {S : Bytes} (hS : S.length < 2 ^ 62) (capacity : ℕ) {ops₁ ops₂ : List Op}
    (h : ∀ op ∈ ops₁ ++ ops₂, PieceOf S op) :
    ∃ t₁ t₂, Runs.run step (start capacity) ops₁ = some t₁ ∧
      Runs.run step (start capacity) (ops₁ ++ ops₂) = some t₂ ∧
      t₁.reassembler.output.bytesWritten ≤ t₂.reassembler.output.bytesWritten ∧
      t₂.got ++ t₂.reassembler.output.buffer = S.take t₂.reassembler.output.bytesWritten ∧
      (t₂.reassembler.output.inputEnded = true → t₂.reassembler.output.bytesWritten = S.length) := by
  have hS' : S.length < 2 ^ 63 := by omega
  obtain ⟨t₁, h1, i1, -⟩ := run_assembles hS' (t := start capacity) (Assembles.start S True capacity)
    fun op hop => h op (List.mem_append_left _ hop)
  obtain ⟨t₂, h2, i2, hle⟩ := run_assembles hS' i1 fun op hop => h op (List.mem_append_right _ hop)
  exact ⟨t₁, t₂, h1, Runs.run_append_eq_some.mpr ⟨t₁, h1, h2⟩, hle, i2.history, fun hc => (i2.ended hc).2⟩

/-- "abcd" through a window of three bytes, out of order and overlapping. -/
theorem assembles_in_order_abcd :
    ∃ t₁ t₂, Runs.run step (start 3) [.push [99, 100] 2 true] = some t₁ ∧
      Runs.run step (start 3) ([.push [99, 100] 2 true] ++
        [.push [97, 98, 99] 0 false, .read 2, .push [98, 99, 100] 1 true]) = some t₂ ∧
      t₁.reassembler.output.bytesWritten ≤ t₂.reassembler.output.bytesWritten ∧
      t₂.got ++ t₂.reassembler.output.buffer = [97, 98, 99, 100].take t₂.reassembler.output.bytesWritten ∧
      (t₂.reassembler.output.inputEnded = true → t₂.reassembler.output.bytesWritten = 4) :=
  assembles_in_order (S := [97, 98, 99, 100]) (by decide) 3 fun op hop => by
    simp only [List.cons_append, List.nil_append, List.mem_cons, List.not_mem_nil, or_false] at hop
    rcases hop with rfl | rfl | rfl | rfl <;> simp [PieceOf]

end Reassembly
end Sponge

/-
# How far `fill_window` goes

A sequence number is used up by the SYN, by each byte of the stream and by the
FIN. `fill_window` sends up to the end of the window or up to the end of what
there is to send, whichever comes first, in segments of whatever size, and the
closed form holds in every state that the calls of an owner lead to.

Key definitions: `TCPSender.Call`, `TCPSender.call`.
Key theorems: `TCPSender.WF.fillWindow_next`, `TCPSender.fillWindow_exact`.
-/
import Sponge.FlowControl
import Sponge.Handshake

namespace Sponge
namespace TCPSender

/-- The public calls of a sender, those of its stream's writer, and an owner
that takes a segment out of the queue. -/
inductive Call where
  | write (data : Bytes)
  | endInput
  | setError
  | fillWindow
  | ackReceived (ackno : WrappingInt32) (windowSize : UInt16)
  | tick (msSinceLastTick : ℕ)
  | sendEmptySegment
  | popSegment

def call (s : TCPSender) : Call → TCPSender
  | .write data => (s.write data).2
  | .endInput => s.endInput
  | .setError => s.setError
  | .fillWindow => s.fillWindow
  | .ackReceived ackno windowSize => s.ackReceived ackno windowSize
  | .tick msSinceLastTick => s.tick msSinceLastTick
  | .sendEmptySegment => s.sendEmptySegment
  | .popSegment => { s with segmentsOut := s.segmentsOut.tail }

variable {s : TCPSender}

theorem WF.call (h : WF s) (c : Call) : WF (s.call c) := by
  cases c with
  | write data => exact h.write data
  | endInput => exact h.endInput
  | setError => exact h.setError
  | fillWindow => exact h.fillWindow
  | ackReceived ackno windowSize => exact h.ackReceived ackno windowSize
  | tick ms => exact h.tick ms
  | sendEmptySegment => exact h.sendEmptySegment
  | popSegment => exact h.congr rfl rfl rfl rfl rfl rfl

theorem calls_wf (capacity : ℕ) (rt : UInt16) (isn : WrappingInt32) (calls : List Call) :
    WF (calls.foldl call (init capacity rt isn)) :=
  List.foldlRecOn calls call (init_wf capacity rt isn) fun _ h c _ => h.call c

/-! ### The two bounds -/

/-- Before the FIN, the sequence numbers used are those of the SYN and of what is read. -/
theorem WF.next_le (h : WF s) (hfin : s.finSent = false) : s.nextSeqno ≤ s.stream.bytesWritten + 1 := by
  have hcount := s.stream.count
  rcases Nat.eq_zero_or_pos s.nextSeqno with h0 | h0
  · omega
  · have hnext := h.later h0
    rw [hfin, if_neg Bool.false_ne_true] at hnext
    omega

/-- With the FIN, all of them are used. -/
theorem WF.next_of_finSent (h : WF s) (hfin : s.finSent = true) : s.nextSeqno = s.stream.bytesWritten + 2 := by
  have hpos : 0 < s.nextSeqno := by
    by_contra h0
    have hc := (h.first (by omega)).2
    rw [hfin] at hc
    cases hc
  have hnext := h.later hpos
  have hcount := s.stream.count
  rw [(h.fin hfin).2, List.length_nil] at hcount
  rw [hfin, if_pos rfl] at hnext
  omega

/-- All there is to send: the SYN, the bytes, and the FIN of an ended stream. -/
theorem WF.next_le_end (h : WF s) :
    s.nextSeqno ≤ 1 + s.stream.bytesWritten + if s.stream.inputEnded then 1 else 0 := by
  cases hfin : s.finSent with
  | false =>
    apply (h.next_le hfin).trans
    omega
  | true => simp only [h.next_of_finSent hfin, (h.fin hfin).1, ↓reduceIte]; omega

theorem WF.fillWindow_next_le (h : WF s) : s.fillWindow.nextSeqno ≤
    max s.nextSeqno (min (s.lastAckSeqno + s.currentWindow)
      (1 + s.stream.bytesWritten + if s.stream.inputEnded then 1 else 0)) := by
  obtain ⟨segs, -, hchain, hwindow⟩ := fillWindow_sends h.acked_le
  have hframe := fillWindow_frame s
  have hend := h.fillWindow.next_le_end
  rw [hframe.bytesWritten, hframe.inputEnded] at hend
  rcases hwindow with rfl | hwindow
  · have hsame : s.nextSeqno = s.fillWindow.nextSeqno := hchain
    exact hsame ▸ le_max_left _ _
  · exact (le_min hwindow hend).trans (le_max_right _ _)

/-- The loop stops with the FIN, at the end of the window, or when the stream
has nothing for it. -/
theorem WF.le_fillWindow_next (h : WF s) (herr : s.stream.error = false) :
    min (s.lastAckSeqno + s.currentWindow) (1 + s.stream.bytesWritten + if s.stream.inputEnded then 1 else 0) ≤
      s.fillWindow.nextSeqno := by
  have hwf := h.fillWindow
  have hframe := fillWindow_frame s
  have hidle : s.fillWindow.Idle := fillWindow_idle h.acked_le
  cases hfin : s.fillWindow.finSent with
  | true =>
    have hnext := hwf.next_of_finSent hfin
    rw [hframe.bytesWritten] at hnext
    apply (min_le_right _ _).trans
    split_ifs <;> omega
  | false =>
    have h0 : s.fillWindow.nextSeqno ≠ 0 := fun hc => not_idle_of_zero hc hfin hidle
    by_cases hroom : s.fillWindow.bytesInFlight < s.fillWindow.currentWindow
    · have hwait := (idle_iff_blocked h0 hfin).mp hidle h0 hroom
      simp only [ByteStream.Waiting, ByteStream.eof, hframe.error, herr, and_true, not_or, not_not, Bool.and_eq_true,
        List.isEmpty_iff, hframe.inputEnded] at hwait
      obtain ⟨hbuf, hopen⟩ := hwait
      have hended : s.stream.inputEnded = false := by
        rw [← Bool.not_eq_true]
        exact fun hc => hopen ⟨hc, hbuf⟩
      have hnext := hwf.later (Nat.pos_of_ne_zero h0)
      have hcount := s.fillWindow.stream.count
      rw [hbuf, List.length_nil, hframe.bytesWritten] at hcount
      rw [hfin, if_neg Bool.false_ne_true] at hnext
      apply (min_le_right _ _).trans
      rw [hended, if_neg Bool.false_ne_true]
      omega
    · apply (min_le_left _ _).trans
      rw [hframe.currentWindow] at hroom
      have hlast := hframe.lastAck
      have hacked := hwf.acked_le
      unfold bytesInFlight at hroom
      omega

/-- **`fill_window` sends what is allowed, and all of it.** -/
theorem WF.fillWindow_next (h : WF s) (herr : s.stream.error = false) : s.fillWindow.nextSeqno =
    max s.nextSeqno (min (s.lastAckSeqno + s.currentWindow)
      (1 + s.stream.bytesWritten + if s.stream.inputEnded then 1 else 0)) := by
  apply le_antisymm h.fillWindow_next_le
  apply max_le
  · obtain ⟨segs, -, hchain, -⟩ := fillWindow_sends h.acked_le
    exact hchain.le
  · exact h.le_fillWindow_next herr

/-- More passes of the loop change nothing. -/
theorem fillLoop_more (hfin : s.finSent = false) (hle : s.lastAckSeqno ≤ s.nextSeqno) (n : ℕ) :
    fillLoop (s.currentWindow + n) s.currentWindow s = s.fillWindow := by
  induction n with
  | zero =>
    unfold fillWindow
    rw [hfin, if_neg Bool.false_ne_true, Nat.add_zero]
  | succ n ih =>
    have hfuel : s.currentWindow - s.bytesInFlight ≤ s.currentWindow + n := by omega
    exact (fillLoop_fuel hfin hle hfuel).trans ih

/-- In every state an owner can reach, the loop ends, and the next sequence
number is the closed form. -/
theorem fillWindow_exact (capacity : ℕ) (rt : UInt16) (isn : WrappingInt32) (calls : List Call)
    (herr : (calls.foldl call (init capacity rt isn)).stream.error = false)
    (hfin : (calls.foldl call (init capacity rt isn)).finSent = false) :
    let s := calls.foldl call (init capacity rt isn)
    (∀ n, fillLoop (s.currentWindow + n) s.currentWindow s = s.fillWindow) ∧
      s.fillWindow.nextSeqno = max s.nextSeqno (min (s.lastAckSeqno + max 1 s.windowSize.toNat)
        (1 + s.stream.bytesWritten + if s.stream.inputEnded then 1 else 0)) := by
  intro s
  have h : WF s := calls_wf capacity rt isn calls
  refine ⟨fillLoop_more hfin h.acked_le, ?_⟩
  rw [max_comm 1, ← Flow.currentWindow_eq]
  exact h.fillWindow_next herr

/-- Eight bytes and the end of the stream wait behind a window of four. -/
def fourCalls : List Call :=
  [.fillWindow, .ackReceived ⟨1⟩ 4, .write [97, 98, 99, 100, 101, 102, 103, 104], .endInput]

theorem fillWindow_exact_four : (fourCalls.foldl call (init 64 1000 ⟨0⟩)).fillWindow.nextSeqno = 5 := by
  have herr : (fourCalls.foldl call (init 64 1000 ⟨0⟩)).stream.error = false := by decide +kernel
  have hfin : (fourCalls.foldl call (init 64 1000 ⟨0⟩)).finSent = false := by decide +kernel
  rw [(fillWindow_exact 64 1000 ⟨0⟩ fourCalls herr hfin).2]
  decide +kernel

end TCPSender
end Sponge

/-
# What occupies sequence numbers is answered

A peer sends a segment again until it is acknowledged, so each segment that
occupies sequence numbers must be answered, whatever state the two halves are
in: from the connect of a listener, with data that the acknowledgment lets out,
or with an empty segment if there is nothing else to send. The call pushes what
the sender queued in it, stamped with the receiver's number and window, and
that is data and flags only, or one empty segment (`Answering`).

Key definitions: `TCPSender.Filled`, `TCPSender.Answering`.
Key theorems: `TCPConnection.answer_answering`, `TCPConnection.segment_answered`.
-/
import Sponge.Summaries

namespace Sponge
namespace TCPSender

/-- Everything queued occupies sequence numbers. -/
def Filled (s : TCPSender) : Prop := ∀ x ∈ s.segmentsOut, 0 < x.lengthInSequenceSpace

/-- Something is queued: only segments that occupy sequence numbers, or one
segment alone. -/
def Answering (s : TCPSender) : Prop := s.segmentsOut ≠ [] ∧ (s.Filled ∨ ∃ x, s.segmentsOut = [x])

variable {s : TCPSender}

theorem filled_of_nil (h : s.segmentsOut = []) : s.Filled := by
  intro x hx
  rw [h] at hx
  cases hx

theorem Filled.fillWindow (h : s.Filled) : s.fillWindow.Filled := by
  refine fillWindow_induct (P := Filled) (fun a b seg ha _ _ hs x hx => ?_) h
  rw [hs.out, List.mem_append, List.mem_singleton] at hx
  rcases hx with hx | rfl
  · exact ha x hx
  · exact hs.pos

theorem Filled.ackReceived (h : s.Filled) (ackno : WrappingInt32) (w : UInt16) : (s.ackReceived ackno w).Filled := by
  apply ackReceived_induct (P := Filled) h
  · intro k _ x hx
    rw [(acknowledge_frame s k w).2.2.2.2.1] at hx
    exact h x hx
  · exact fun t ht => ht.fillWindow
  · intro t t' ht hsame x hx
    rw [hsame.out] at hx
    exact ht x hx

end TCPSender

namespace TCPConnection

open TCPSender

variable {c c' : TCPConnection} {seg : TCPSegment}

theorem acked_filled (h : c.sender.Filled) (seg : TCPSegment) : (c.acked seg).Filled := by
  unfold acked
  split_ifs
  · exact h.ackReceived _ _
  · exact h

/-- The window is filled, and if nothing is queued then, an empty segment is. -/
theorem answer_answering (h : c.sender.Filled) (hlen : 0 < seg.lengthInSequenceSpace) :
    (c.answer seg).sender.Answering := by
  refine ⟨answer_ne_nil c hlen, ?_⟩
  unfold answer
  rw [if_pos hlen]
  by_cases hq : c.sender.fillWindow.segmentsOut = []
  · simp only [hq, ↓reduceIte, sendEmptySegment]
    exact Or.inr ⟨_, List.nil_append _⟩
  · simp only [hq, ↓reduceIte]
    exact Or.inl h.fillWindow

/-- The connect of a listener has a SYN to send. -/
theorem connect_answering (h : WF c.sender) (hf : c.sender.Filled) (h0 : c.sender.nextSeqno = 0) :
    c.sender.fillWindow.Answering :=
  ⟨fillWindow_ne_nil (not_idle_of_zero h0 (h.first h0).2), Or.inl hf.fillWindow⟩

/-- A response sends what the sender has queued for it. -/
theorem respond_answering (h : WF c.sender) (hf : c.sender.Filled) (hlen : 0 < seg.lengthInSequenceSpace) :
    ∃ d : TCPConnection, d.sender.Answering ∧ d.segmentsOut = c.segmentsOut ∧ c.respond seg = d.sendSegments := by
  have hreply : ∀ d : TCPConnection, d.sender.Filled → ∃ e : TCPConnection, e.sender.Answering ∧
      e.segmentsOut = d.segmentsOut ∧ d.reply seg = e.sendSegments := fun d hd =>
    ⟨d.answer seg, answer_answering hd hlen, (answer_frame d seg).2.1, reply_of_pos d hlen⟩
  unfold respond
  split_ifs with h1 h2
  · exact ⟨{ c with sender := c.sender.fillWindow, isActive := true }, connect_answering h hf h1.2, rfl, rfl⟩
  · exact hreply { c with lingerAfterStreamsFinish := false } hf
  · exact hreply c hf

theorem stamp_length (rcv : TCPReceiver) (x : TCPSegment) :
    (stamp rcv x).lengthInSequenceSpace = x.lengthInSequenceSpace := by
  unfold stamp
  cases rcv.ackno <;> rfl

/-- The number and the window of a receiver that has the SYN. -/
theorem stamp_fields {rcv : TCPReceiver} {a : WrappingInt32} (h : rcv.ackno = some a) (x : TCPSegment) :
    (stamp rcv x).header.ack = true ∧ (stamp rcv x).header.ackno = a ∧
      (stamp rcv x).header.win.toNat = min 65535 rcv.windowSize := by
  unfold stamp
  rw [h]
  refine ⟨rfl, rfl, ?_⟩
  dsimp only
  rw [UInt16.toNat_ofNat']
  split_ifs <;> omega

/-- **What occupies sequence numbers is answered.** In every state of a run
that is active, a segment that is no reset and occupies sequence numbers has the
call push segments if the receiver has a number to acknowledge after it. All of
them carry that number and the window, up to 65535, and at most one is empty. -/
theorem segment_answered {cfg : TCPConfig} {isn : WrappingInt32} {ops : List Op} {ackno : WrappingInt32}
    (hr : Runs.run step (init cfg isn) ops = some c) (ha : c.isActive = true) (hrst : seg.header.rst = false)
    (hlen : 0 < seg.lengthInSequenceSpace) (hs : step c (.segment seg) = some c')
    (hack : c'.receiver.ackno = some ackno) :
    ∃ new, c'.segmentsOut = c.segmentsOut ++ new ∧ new ≠ [] ∧
      (∀ x ∈ new, x.header.ack = true ∧ x.header.ackno = ackno ∧
        x.header.win.toNat = min 65535 c'.receiver.windowSize) ∧
      (new.filter fun x => x.lengthInSequenceSpace = 0).length ≤ 1 := by
  have h := run_steady hr
  change c.segmentReceived seg = some c' at hs
  rw [segmentReceived_eq ha hrst] at hs
  obtain ⟨receiver, -, rfl⟩ := Option.map_eq_some_iff.mp hs
  obtain ⟨d, ⟨hne, hqueue⟩, hout, hd⟩ := respond_answering
    (c := { c with timeSinceLastSegmentReceived := 0, receiver, sender := c.acked seg }) (acked_wf h.sound.wf seg)
    (acked_filled (filled_of_nil (h.queue ha)) seg) hlen
  rw [hd] at hack ⊢
  refine ⟨d.sender.segmentsOut.map (stamp d.receiver), ?_, ?_, ?_, ?_⟩
  · rw [sendSegments_segmentsOut, hout]
  · exact fun hmap => hne (List.map_eq_nil_iff.mp hmap)
  · intro x hx
    obtain ⟨y, -, rfl⟩ := List.mem_map.mp hx
    exact stamp_fields hack y
  · rcases hqueue with hfilled | ⟨x, hx⟩
    · have hnone : ((d.sender.segmentsOut.map (stamp d.receiver)).filter
          fun x => x.lengthInSequenceSpace = 0) = [] := by
        rw [List.filter_eq_nil_iff]
        intro x hx
        obtain ⟨y, hy, rfl⟩ := List.mem_map.mp hx
        have hpos := hfilled y hy
        rw [stamp_length, decide_eq_true_eq]
        omega
      rw [hnone]
      exact Nat.zero_le _
    · rw [hx]
      exact List.length_filter_le _ _

/-- Two bytes for an established connection. -/
def twoBytes : TCPSegment := { header := { seqno := ⟨1⟩, ack := true, ackno := ⟨1⟩, win := 10 }, payload := [97, 98] }

/-- They are acknowledged. -/
theorem segment_answered_twoBytes : ∃ c ∈ Runs.run step (init {} ⟨0⟩) [.connect, .segment Watched.synAckSegment],
    ∃ c' ∈ step c (.segment twoBytes), ∃ new, c'.segmentsOut = c.segmentsOut ++ new ∧ new ≠ [] ∧
      (∀ x ∈ new, x.header.ack = true ∧ x.header.ackno = ⟨3⟩ ∧
        x.header.win.toNat = min 65535 c'.receiver.windowSize) ∧
      (new.filter fun x => x.lengthInSequenceSpace = 0).length ≤ 1 := by
  have hex : ∃ c ∈ Runs.run step (init {} ⟨0⟩) [.connect, .segment Watched.synAckSegment], c.isActive = true ∧
      ∃ c' ∈ step c (.segment twoBytes), c'.receiver.ackno = some ⟨3⟩ := by decide +kernel
  obtain ⟨c, hc, ha, c', hc', hack⟩ := hex
  exact ⟨c, hc, c', hc', segment_answered hc ha rfl (by decide) hc' hack⟩

end TCPConnection
end Sponge

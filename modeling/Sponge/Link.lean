/-
# One direction of a connection

From a sender to the receiver at the other end, over a network that repeats,
delays and loses segments but makes none up. `accepted` are the bytes the
sender's stream took from its writer, `got` those the reader at the other end
has. Every segment of the sender, wherever it is, carries its part of
`accepted` under its number (`Carries`); so the receiver assembles a prefix of
it. Every acknowledgment on its way back is of what the receiver has by then
(`Acks`); so the sender never counts more.

`Link` is the invariant; each call changes one component of it.

Key definitions: `Carries`, `TCPSender.Speaks`, `TCPReceiver.received`,
`Link`.
Key theorems: `TCPSender.Speaks.fillWindow`, `TCPSender.Speaks.ackReceived`,
`Link.segmentReceived`, `Link.ackReceived`.
-/
import Sponge.Flight
import Sponge.TCPReceiver
import Sponge.Reassembly

namespace Sponge

open Pieces

/-- The segment carries the sequence numbers from `k` on; that of the SYN is
zero, and byte `i` has the number `i + 1`. -/
structure Carries (isn : WrappingInt32) (accepted : Bytes) (ended : Bool) (k : ℕ) (seg : TCPSegment) : Prop where
  seqno : seg.header.seqno = wrap k isn
  syn : seg.header.syn = true ↔ k = 0
  piece : Holds accepted (k - 1, seg.payload)
  le : k - 1 + seg.payload.length ≤ accepted.length
  fin : seg.header.fin = true → ended = true ∧ k - 1 + seg.payload.length = accepted.length

/-- What a sender sends: a reset, an empty segment, or a part of its bytes. -/
def Genuine (isn : WrappingInt32) (accepted : Bytes) (ended : Bool) (seg : TCPSegment) : Prop :=
  seg.header.rst = true ∨ seg.lengthInSequenceSpace = 0 ∨ ∃ k, Carries isn accepted ended k seg

variable {isn : WrappingInt32} {accepted accepted' : Bytes} {ended ended' : Bool} {seg : TCPSegment}

/-- More bytes may be accepted until the stream is ended. -/
structure Grows (accepted : Bytes) (ended : Bool) (accepted' : Bytes) (ended' : Bool) : Prop where
  isPrefix : accepted <+: accepted'
  complete : ended = true → accepted' = accepted ∧ ended' = true

theorem Genuine.mono (hg : Grows accepted ended accepted' ended') (h : Genuine isn accepted ended seg) :
    Genuine isn accepted' ended' seg := by
  refine h.imp_right fun h => h.imp_right fun ⟨k, h⟩ => ⟨k, h.seqno, h.syn, h.piece.mono hg.isPrefix,
    h.le.trans hg.isPrefix.length_le, fun hf => ?_⟩
  obtain ⟨h1, h2⟩ := h.fin hf
  obtain ⟨h3, h4⟩ := hg.complete h1
  exact ⟨h4, h3.symm ▸ h2⟩

/-- A genuine segment that the receiver has not stamped yet. -/
def Fresh (isn : WrappingInt32) (accepted : Bytes) (ended : Bool) (seg : TCPSegment) : Prop :=
  Genuine isn accepted ended seg ∧ seg.header.ack = false

/-! ### The sender -/

namespace TCPSender

/-- The sender's stream took `accepted`, and every segment it queues or keeps
is a part of it. -/
structure Speaks (s : TCPSender) (accepted : Bytes) (ended : Bool) : Prop where
  wf : WF s
  written : s.stream.bytesWritten = accepted.length
  buffer : s.stream.buffer = accepted.drop s.stream.bytesRead
  inputEnded : s.stream.inputEnded = ended
  queue : ∀ seg ∈ s.segmentsOut, Fresh s.isn accepted ended seg
  outstanding : ∀ seg ∈ s.segmentsOutstanding, Fresh s.isn accepted ended seg

namespace Speaks

variable {s s' : TCPSender}

theorem start (capacity : ℕ) (rt : UInt16) (isn : WrappingInt32) : Speaks (init capacity rt isn) [] false where
  wf := init_wf capacity rt isn
  written := rfl
  buffer := rfl
  inputEnded := rfl
  queue := fun _ h => absurd h List.not_mem_nil
  outstanding := fun _ h => absurd h List.not_mem_nil

theorem bytesRead_le (h : Speaks s accepted ended) : s.stream.bytesRead ≤ accepted.length := by
  have := s.stream.count
  have := h.written
  omega

/-- The next sequence number counts the SYN, bytes accepted and the FIN. -/
theorem next_le (h : Speaks s accepted ended) : s.nextSeqno ≤ accepted.length + 1 + if s.finSent then 1 else 0 := by
  have hread := h.bytesRead_le
  rcases Nat.eq_zero_or_pos s.nextSeqno with h0 | h0
  · omega
  · have := h.wf.later h0
    omega

/-- A new segment carries the bytes read, under the next sequence number. -/
theorem sent {w : ℕ} {seg : TCPSegment} (hw : w < 2 ^ 16) (h : Speaks s accepted ended) (hfin : s.finSent = false)
    (hs : Sent w s s' seg) : Speaks s' accepted ended := by
  have hindex := h.wf.next_pred hfin
  have hpay : seg.payload ++ s'.stream.buffer = accepted.drop s.stream.bytesRead := hs.payload.trans h.buffer
  have hwritten : s'.stream.bytesWritten = accepted.length := hs.frame.bytesWritten.trans h.written
  have hcount := s'.stream.count
  have hread := hs.bytesRead
  have hcarries : Carries s.isn accepted ended s.nextSeqno seg := by
    refine ⟨hs.seqno, hs.syn, ?_, by omega, fun hf => ?_⟩
    · rw [hindex]
      exact ⟨_, hpay⟩
    · obtain ⟨h1, h2⟩ := hs.fin hf
      rw [h2, List.length_nil] at hcount
      exact ⟨h.inputEnded.symm.trans h1, by omega⟩
  have hfresh : Fresh s.isn accepted ended seg := ⟨Or.inr (Or.inr ⟨_, hcarries⟩), hs.plain.1⟩
  refine ⟨h.wf.sent hw hfin hs, hwritten, ?_, hs.frame.inputEnded.trans h.inputEnded, ?_, ?_⟩
  · rw [hread, ← List.drop_drop, ← hpay, List.drop_left]
  · rw [hs.frame.isn, hs.out]
    intro x hx
    rcases List.mem_append.mp hx with hx | hx
    · exact h.queue x hx
    · exact List.mem_singleton.mp hx ▸ hfresh
  · rw [hs.frame.isn, hs.outstanding]
    intro x hx
    rcases List.mem_append.mp hx with hx | hx
    · exact h.outstanding x hx
    · exact List.mem_singleton.mp hx ▸ hfresh

theorem fillWindow (h : Speaks s accepted ended) : Speaks s.fillWindow accepted ended :=
  fillWindow_induct (P := fun t => Speaks t accepted ended)
    (fun _ _ _ ha hf _ hs => ha.sent s.currentWindow_lt hf hs) h

/-- What touches neither the stream nor the queues. -/
theorem congr (h : Speaks s accepted ended) (hwf : WF s') (h1 : s'.isn = s.isn) (h2 : s'.stream = s.stream)
    (h3 : ∀ seg ∈ s'.segmentsOut, seg ∈ s.segmentsOut ∨ seg ∈ s.segmentsOutstanding)
    (h4 : ∀ seg ∈ s'.segmentsOutstanding, seg ∈ s.segmentsOutstanding) : Speaks s' accepted ended where
  wf := hwf
  written := by rw [h2, h.written]
  buffer := by rw [h2, h.buffer]
  inputEnded := by rw [h2, h.inputEnded]
  queue := fun seg hseg => h1.symm ▸ (h3 seg hseg).elim (h.queue seg) (h.outstanding seg)
  outstanding := fun seg hseg => h1.symm ▸ h.outstanding seg (h4 seg hseg)

theorem acknowledge (h : Speaks s accepted ended) {k : ℕ} (hk : k ≤ s.nextSeqno) (w : UInt16) :
    Speaks (s.acknowledge k w) accepted ended := by
  obtain ⟨f1, -, f3, -, f5, -⟩ := acknowledge_frame s k w
  exact h.congr (h.wf.acknowledge hk w) f1 f3 (fun _ hseg => Or.inl (f5 ▸ hseg)) fun _ hseg =>
    (acknowledge_suffix s k w).subset hseg

theorem timer (h : Speaks s accepted ended) (ht : TimerOnly s s') : Speaks s' accepted ended :=
  h.congr (h.wf.timer ht) ht.isn ht.stream (fun _ hseg => Or.inl (ht.out ▸ hseg)) fun _ hseg =>
    ht.outstanding ▸ hseg

theorem ackReceived (h : Speaks s accepted ended) (ackno : WrappingInt32) (w : UInt16) :
    Speaks (s.ackReceived ackno w) accepted ended := by
  apply ackReceived_induct (P := fun t => Speaks t accepted ended) h
  · exact fun k hk => h.acknowledge hk w
  · exact fun t ht => ht.fillWindow
  · exact fun t t' ht => ht.timer

theorem tick (h : Speaks s accepted ended) (ms : ℕ) : Speaks (s.tick ms) accepted ended := by
  have hwf := h.wf.tick ms
  rcases tick_cases s ms with ⟨time, he⟩ | ⟨seg, segs, rto, ho, he⟩ <;> rw [he] at hwf ⊢
  · exact h.congr hwf rfl rfl (fun _ hx => Or.inl hx) fun _ hx => hx
  · refine h.congr hwf rfl rfl (fun x hx => ?_) fun _ hx => hx
    rcases List.mem_append.mp hx with hx | hx
    · exact Or.inl hx
    · exact Or.inr (List.mem_singleton.mp hx ▸ ho ▸ List.mem_cons_self)

theorem sendEmptySegment (h : Speaks s accepted ended) : Speaks s.sendEmptySegment accepted ended where
  wf := h.wf.sendEmptySegment
  written := h.written
  buffer := h.buffer
  inputEnded := h.inputEnded
  queue := fun seg hseg => by
    rcases List.mem_append.mp hseg with hseg | hseg
    · exact h.queue seg hseg
    · rw [List.mem_singleton.mp hseg]
      exact ⟨Or.inr (Or.inl rfl), rfl⟩
  outstanding := h.outstanding

/-- The queue goes to the network. -/
theorem flush (h : Speaks s accepted ended) : Speaks { s with segmentsOut := [] } accepted ended :=
  h.congr (h.wf.congr rfl rfl rfl rfl rfl rfl) rfl rfl (fun _ hx => absurd hx List.not_mem_nil) fun _ hx => hx

theorem setError (h : Speaks s accepted ended) : Speaks s.setError accepted ended where
  wf := h.wf.setError
  written := h.written
  buffer := h.buffer
  inputEnded := h.inputEnded
  queue := h.queue
  outstanding := h.outstanding

/-- The bytes a write accepts. -/
theorem write_grows (h : Speaks s accepted ended) (data : Bytes) :
    Grows accepted ended (accepted ++ data.take (s.write data).1) ended := by
  refine ⟨List.prefix_append _ _, fun he => ⟨?_, he⟩⟩
  have hno : ¬ s.stream.Open := fun ho => Bool.false_ne_true (ho.2.symm.trans (h.inputEnded.trans he))
  simp only [TCPSender.write, ByteStream.write_of_not_open hno, List.take_zero, List.append_nil]

theorem write (h : Speaks s accepted ended) (data : Bytes) :
    Speaks (s.write data).2 (accepted ++ data.take (s.write data).1) ended where
  wf := h.wf.write data
  written := by
    simp only [TCPSender.write, ByteStream.write_snd_bytesWritten, ByteStream.write_fst, List.length_append,
      List.length_take, h.written]
    omega
  buffer := by
    simp only [TCPSender.write, ByteStream.write_snd_buffer, ByteStream.write_snd_bytesRead, ByteStream.write_fst]
    rw [h.buffer, List.drop_append_of_le_length h.bytesRead_le]
  inputEnded := (ByteStream.write_snd_inputEnded _ _).trans h.inputEnded
  queue := fun seg hseg => ⟨(h.queue seg hseg).1.mono (h.write_grows data), (h.queue seg hseg).2⟩
  outstanding := fun seg hseg =>
    ⟨(h.outstanding seg hseg).1.mono (h.write_grows data), (h.outstanding seg hseg).2⟩

theorem endInput (h : Speaks s accepted ended) : Speaks s.endInput accepted true where
  wf := h.wf.endInput
  written := h.written
  buffer := h.buffer
  inputEnded := rfl
  queue := fun seg hseg => ⟨(h.queue seg hseg).1.mono ⟨List.prefix_refl _, fun _ => ⟨rfl, rfl⟩⟩, (h.queue seg hseg).2⟩
  outstanding := fun seg hseg =>
    ⟨(h.outstanding seg hseg).1.mono ⟨List.prefix_refl _, fun _ => ⟨rfl, rfl⟩⟩, (h.outstanding seg hseg).2⟩

end Speaks
end TCPSender

/-! ### The receiver -/

namespace TCPReceiver

open StreamReassembler

/-- The sequence numbers received without a gap: none before the SYN. -/
def received (rcv : TCPReceiver) : ℕ := if rcv.synReceived then rcv.absAck else 0

/-- The receiver assembles what the sender at the other end accepted. -/
structure Hears (isn : WrappingInt32) (accepted : Bytes) (ended : Bool) (got : Bytes) (rcv : TCPReceiver) : Prop where
  assembles : Assembles accepted (ended = true) got rcv.reassembler
  isn : rcv.synReceived = true → rcv.isn = isn

namespace Hears

variable {rcv rcv' : TCPReceiver} {got : Bytes}

theorem start (isn : WrappingInt32) (capacity : ℕ) : Hears isn [] false [] (init capacity) where
  assembles := Assembles.start [] _ capacity
  isn := fun h => absurd h Bool.false_ne_true

theorem mono (h : Hears isn accepted ended got rcv) (hg : Grows accepted ended accepted' ended') :
    Hears isn accepted' ended' got rcv :=
  ⟨h.assembles.mono hg.isPrefix hg.complete, h.isn⟩

theorem absAck_le (h : Hears isn accepted ended got rcv) :
    rcv.absAck ≤ accepted.length + 1 + if rcv.streamOut.inputEnded then 1 else 0 := by
  have : rcv.streamOut.bytesWritten ≤ accepted.length := h.assembles.written_le
  rw [absAck_eq]
  omega

theorem received_le (h : Hears isn accepted ended got rcv) : rcv.received ≤ accepted.length + 2 := by
  have := h.absAck_le
  unfold received
  split_ifs at * <;> omega

/-- All is received when its FIN is. -/
theorem complete (h : Hears isn accepted ended got rcv) (hall : accepted.length + 2 ≤ rcv.received) :
    rcv.streamOut.inputEnded = true ∧ ended = true := by
  have hle := h.absAck_le
  unfold received at hall
  by_cases he : rcv.streamOut.inputEnded = true
  · exact ⟨he, (h.assembles.ended he).1⟩
  · rw [if_neg he] at hle
    split_ifs at hall <;> omega

theorem push (h : Hears isn accepted ended got rcv) (hS : accepted.length < 2 ^ 30) {data : Bytes} {index : ℕ}
    {eof : Bool} (hp : Holds accepted (index, data)) (hle : index + data.length < 2 ^ 64)
    (he : eof = true → ended = true ∧ index + data.length = accepted.length) :
    ∃ rcv', rcv.push data index eof = some rcv' ∧ Hears isn accepted ended got rcv' ∧ rcv.received ≤ rcv'.received := by
  obtain ⟨r', hr', ha, hbw, hended⟩ := h.assembles.push (by omega) hp hle he
  refine ⟨{ rcv with reassembler := r' }, by rw [TCPReceiver.push, hr']; rfl, ⟨ha, h.isn⟩, ?_⟩
  unfold received
  split_ifs
  · rw [absAck_eq, absAck_eq]
    show rcv.reassembler.output.bytesWritten + 1 + (if rcv.reassembler.output.inputEnded then 1 else 0) ≤
      r'.output.bytesWritten + 1 + if r'.output.inputEnded then 1 else 0
    by_cases hc : rcv.reassembler.output.inputEnded = true
    · rw [if_pos hc, if_pos (hended hc)]
      omega
    · rw [if_neg hc]
      omega
  · exact le_rfl

/-- The number of a segment finds the index of its bytes. -/
theorem streamIndex_eq (h : Hears isn accepted ended got rcv) (hS : accepted.length < 2 ^ 30)
    (hsyn : rcv.synReceived = true) {k : ℕ} (hc : Carries isn accepted ended k seg) : rcv.streamIndex seg = k - 1 := by
  have hbw : rcv.streamOut.bytesWritten ≤ accepted.length := h.assembles.written_le
  have hle := hc.le
  have hk : unwrap seg.header.seqno rcv.isn (rcv.streamOut.bytesWritten + 1) = k := by
    rw [h.isn hsyn, hc.seqno]
    exact unwrap_wrap isn (by omega) (by omega) (Or.inr (by omega))
  unfold streamIndex
  dsimp only
  rw [hk]
  by_cases h0 : k = 0
  · rw [if_pos (hc.syn.mpr h0)]
    omega
  · rw [if_neg fun hs => h0 (hc.syn.mp hs)]
    omega

/-- A SYN says what the receiver knows, or is to know. -/
theorem synced (h : Hears isn accepted ended got rcv) (hsyn : seg.header.syn = true → seg.header.seqno = isn) :
    Hears isn accepted ended got (rcv.synced seg) ∧ rcv.received ≤ (rcv.synced seg).received := by
  unfold TCPReceiver.synced
  split_ifs with hs
  · refine ⟨⟨h.assembles, fun _ => hsyn hs⟩, ?_⟩
    show rcv.received ≤ rcv.absAck
    unfold received
    split_ifs
    · exact le_rfl
    · exact Nat.zero_le _
  · exact ⟨h, le_rfl⟩

/-- Whatever genuine segment arrives, and whenever, the receiver goes on. -/
theorem segmentReceived (h : Hears isn accepted ended got rcv) (hS : accepted.length < 2 ^ 30)
    (hg : Genuine isn accepted ended seg) (hrst : seg.header.rst = false) :
    ∃ rcv', rcv.segmentReceived seg = some rcv' ∧ Hears isn accepted ended got rcv' ∧ rcv.received ≤ rcv'.received := by
  have hg' := hg.resolve_left (by rw [hrst]; decide)
  have hsyn : seg.header.syn = true → seg.header.seqno = isn := by
    intro hs
    rcases hg' with hlen | ⟨k, hc⟩
    · simp [TCPSegment.lengthInSequenceSpace, hs] at hlen
    · rw [hc.seqno, hc.syn.mp hs, wrap_zero]
  obtain ⟨h1, hle⟩ := h.synced hsyn
  have hpush : ∀ {data : Bytes} {index : ℕ} {eof : Bool}, Holds accepted (index, data) →
      index + data.length < 2 ^ 64 → (eof = true → ended = true ∧ index + data.length = accepted.length) →
        ∃ rcv', (rcv.synced seg).push data index eof = some rcv' ∧ Hears isn accepted ended got rcv' ∧
          rcv.received ≤ rcv'.received := by
    intro data index eof hp hlt he
    obtain ⟨rcv', h2, h3, h4⟩ := h1.push hS hp hlt he
    exact ⟨rcv', h2, h3, hle.trans h4⟩
  unfold TCPReceiver.segmentReceived
  dsimp only
  split_ifs with hno hempty hfin
  · exact ⟨_, rfl, h1, hle⟩
  · -- a SYN and a FIN: there are no bytes at all
    refine hpush (List.nil_prefix) (by decide) fun _ => ?_
    rcases hg' with hlen | ⟨k, hc⟩
    · simp [TCPSegment.lengthInSequenceSpace, hfin] at hlen
    · obtain ⟨h2, h3⟩ := hc.fin hfin
      rw [hc.syn.mp hempty.1, hempty.2] at h3
      exact ⟨h2, h3⟩
  · exact ⟨_, rfl, h1, hle⟩
  · rcases hg' with hlen | ⟨k, hc⟩
    · -- an empty segment may have any number
      have hpay : seg.payload = [] := by
        unfold TCPSegment.lengthInSequenceSpace at hlen
        exact List.length_eq_zero_iff.mp (by omega)
      have hfin : seg.header.fin = false := by
        by_contra hc
        simp [TCPSegment.lengthInSequenceSpace, hc] at hlen
      rw [hpay, hfin]
      exact hpush List.nil_prefix (lt_of_eq_of_lt (Nat.add_zero _) (streamIndex_lt _ _)) fun hc => absurd hc Bool.false_ne_true
    · have hle' := hc.le
      rw [h1.streamIndex_eq hS (Bool.not_eq_false _ ▸ hno) hc]
      exact hpush hc.piece (by omega) hc.fin

theorem read (h : Hears isn accepted ended got rcv) (len : ℕ) :
    Hears isn accepted ended (got ++ (rcv.read len).1) (rcv.read len).2 ∧
      (rcv.read len).2.received = rcv.received := by
  refine ⟨⟨h.assembles.read len, h.isn⟩, ?_⟩
  have h1 : (rcv.read len).2.streamOut.bytesWritten = rcv.streamOut.bytesWritten :=
    ByteStream.popOutput_bytesWritten _ _
  have h2 : (rcv.read len).2.streamOut.inputEnded = rcv.streamOut.inputEnded := ByteStream.popOutput_inputEnded _ _
  unfold received
  rw [absAck_eq, absAck_eq, h1, h2]
  rfl

theorem setError (h : Hears isn accepted ended got rcv) : Hears isn accepted ended got rcv.setError :=
  ⟨h.assembles.setError, h.isn⟩

/-- What an answer acknowledges. -/
theorem ackno_eq (h : Hears isn accepted ended got rcv) {ackno : WrappingInt32} (ha : rcv.ackno = some ackno) :
    ackno = wrap rcv.received isn := by
  unfold TCPReceiver.ackno at ha
  split_ifs at ha with hs
  replace hs := Bool.not_eq_false _ ▸ hs
  obtain rfl := Option.some.inj ha
  rw [received, if_pos hs, h.isn hs]

end Hears
end TCPReceiver

/-! ### Both ends -/

/-- What the segment acknowledges, if it does, the receiver has. -/
def Acks (isn : WrappingInt32) (rcv : TCPReceiver) (seg : TCPSegment) : Prop :=
  seg.header.ack = true → ∃ k, seg.header.ackno = wrap k isn ∧ k ≤ rcv.received

/-- A sender, the receiver at the other end, and the segments of either side
that were ever sent. -/
structure Link (s : TCPSender) (accepted : Bytes) (ended : Bool) (rcv : TCPReceiver) (got : Bytes)
    (data acks : List TCPSegment) : Prop where
  speaks : s.Speaks accepted ended
  hears : rcv.Hears s.isn accepted ended got
  data : ∀ seg ∈ data, Genuine s.isn accepted ended seg
  acks : ∀ seg ∈ acks, Acks s.isn rcv seg
  lastAck : s.lastAckSeqno ≤ rcv.received

namespace Link

variable {s s' : TCPSender} {rcv rcv' : TCPReceiver} {got got' : Bytes} {data data' acks acks' : List TCPSegment}

/-- The sender does something. -/
theorem sender (h : Link s accepted ended rcv got data acks) (hs : s'.Speaks accepted' ended')
    (hg : Grows accepted ended accepted' ended') (hisn : s'.isn = s.isn) (hlast : s'.lastAckSeqno ≤ rcv.received) :
    Link s' accepted' ended' rcv got data acks where
  speaks := hs
  hears := hisn.symm ▸ h.hears.mono hg
  data := fun seg hseg => hisn.symm ▸ (h.data seg hseg).mono hg
  acks := hisn.symm ▸ h.acks
  lastAck := hlast

/-- The receiver does something. -/
theorem receiver (h : Link s accepted ended rcv got data acks) (hh : rcv'.Hears s.isn accepted ended got')
    (hle : rcv.received ≤ rcv'.received) : Link s accepted ended rcv' got' data acks where
  speaks := h.speaks
  hears := hh
  data := h.data
  acks := fun seg hseg hack => by
    obtain ⟨k, h1, h2⟩ := h.acks seg hseg hack
    exact ⟨k, h1, h2.trans hle⟩
  lastAck := h.lastAck.trans hle

/-- Segments are sent, or lost. -/
theorem wires (h : Link s accepted ended rcv got data acks)
    (hdata : ∀ seg ∈ data', seg ∈ data ∨ Genuine s.isn accepted ended seg)
    (hacks : ∀ seg ∈ acks', seg ∈ acks ∨ Acks s.isn rcv seg) : Link s accepted ended rcv got data' acks' where
  speaks := h.speaks
  hears := h.hears
  data := fun seg hseg => (hdata seg hseg).elim (h.data seg) id
  acks := fun seg hseg => (hacks seg hseg).elim (h.acks seg) id
  lastAck := h.lastAck

theorem grows_refl (accepted : Bytes) (ended : Bool) : Grows accepted ended accepted ended :=
  ⟨List.prefix_refl _, fun he => ⟨rfl, he⟩⟩

/-- An acknowledgment that reaches the sender is of what the receiver has. -/
theorem ackReceived (h : Link s accepted ended rcv got data acks) (hS : accepted.length < 2 ^ 30)
    (ha : Acks s.isn rcv seg) (hack : seg.header.ack = true) (w : UInt16) :
    Link (s.ackReceived seg.header.ackno w) accepted ended rcv got data acks := by
  refine h.sender (h.speaks.ackReceived _ w) (grows_refl _ _) (TCPSender.ackReceived_frame s _ w).1 ?_
  obtain ⟨k, hk, hle⟩ := ha hack
  have hnext := h.speaks.next_le
  have hrec := h.hears.received_le
  have hu : unwrap seg.header.ackno s.isn s.nextSeqno = k := by
    rw [hk]
    exact unwrap_wrap s.isn (by omega) (by split_ifs at hnext <;> omega) (Or.inr (by omega))
  rw [TCPSender.ackReceived_lastAck, hu]
  have := h.lastAck
  split_ifs <;> omega

/-- **Delivery**: what was read and what is buffered is a prefix of what was
accepted, and all of it once the stream is ended. -/
theorem delivered (h : Link s accepted ended rcv got data acks) :
    got ++ rcv.streamOut.buffer <+: accepted ∧
      (rcv.streamOut.inputEnded = true → ended = true ∧ got ++ rcv.streamOut.buffer = accepted) := by
  have hhist : got ++ rcv.streamOut.buffer = accepted.take rcv.streamOut.bytesWritten := h.hears.assembles.history
  refine ⟨hhist ▸ List.take_prefix _ _, fun he => ?_⟩
  obtain ⟨h1, h2⟩ := h.hears.assembles.ended he
  refine ⟨h1, ?_⟩
  calc got ++ rcv.streamOut.buffer = accepted.take rcv.streamOut.bytesWritten := hhist
    _ = accepted := List.take_of_length_le (le_of_eq h2.symm)

end Link
end Sponge

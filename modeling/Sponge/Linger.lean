/-
# Whether to linger

A connection whose peer ends its stream first has nothing to wait for after its
own FIN is acknowledged: `segment_received` clears `_linger_after_streams_finish`
when the receiver is in FIN_RECV and the sender in SYN_ACKED. It looks at the
sender after the acknowledgment of the same segment has been taken and the
window filled, so the flag is not cleared if our SYN is not acknowledged yet, or
if that acknowledgment lets our own FIN out.

Key definitions: `Watched.step`, `Watched.Right`, `Watched.Timely`.
Key theorems: `TCPSender.WF.fillWindow_finSent_iff`,
`TCPConnection.acked_synAcked_iff`, `Watched.step_right_iff`,
`Watched.linger_iff`.
-/
import Sponge.Ackno
import Sponge.FillWindow
import Sponge.Inactive

namespace Sponge

/-! ### The sender -/

namespace TCPSender

/-- The segment acknowledges the SYN, if that is not done. -/
def SynAckedBy (s : TCPSender) (seg : TCPSegment) : Prop :=
  0 < s.lastAckSeqno ∨ seg.header.ack = true ∧ 0 < unwrap seg.header.ackno s.isn s.nextSeqno ∧
    unwrap seg.header.ackno s.isn s.nextSeqno ≤ s.nextSeqno

/-- The segment opens the window for all that is written, and the FIN. -/
def FinLetOutBy (s : TCPSender) (seg : TCPSegment) : Prop :=
  seg.header.ack = true ∧ unwrap seg.header.ackno s.isn s.nextSeqno ≤ s.nextSeqno ∧ s.stream.inputEnded = true ∧
    s.stream.bytesWritten + 2 ≤
      max s.lastAckSeqno (unwrap seg.header.ackno s.isn s.nextSeqno) + max seg.header.win.toNat 1

variable {s : TCPSender} {seg : TCPSegment}

/-- The FIN is not sent before the stream is at its end. -/
theorem WF.unsent_of_not_eof (h : WF s) (he : s.stream.eof = false) : s.finSent = false := by
  by_contra hc
  obtain ⟨h1, h2⟩ := h.fin (Bool.not_eq_false _ ▸ hc)
  simp [ByteStream.eof, h1, h2] at he

/-- **The FIN goes out iff the stream is ended and everything fits the window.** -/
theorem WF.fillWindow_finSent_iff (h : WF s) (hfin : s.finSent = false) (herr : s.stream.error = false) :
    s.fillWindow.finSent = true ↔
      s.stream.inputEnded = true ∧ s.stream.bytesWritten + 2 ≤ s.lastAckSeqno + s.currentWindow := by
  have hnext := h.fillWindow_next herr
  have hle := h.next_le hfin
  have hwritten := (fillWindow_frame s).bytesWritten
  constructor
  · intro hf
    have hall := h.fillWindow.next_of_finSent hf
    have hended : s.stream.inputEnded = true :=
      (fillWindow_frame s).inputEnded.symm.trans (h.fillWindow.fin hf).1
    rw [hended, if_pos rfl] at hnext
    exact ⟨hended, by omega⟩
  · rintro ⟨hended, hroom⟩
    by_contra hf
    have hbefore := h.fillWindow.next_le (Bool.not_eq_true _ ▸ hf)
    rw [hended, if_pos rfl] at hnext
    omega

/-- The state SYN_ACKED: the SYN is acknowledged and the FIN not sent. -/
theorem WF.synAcked_iff (h : WF s) : s.stateSummary = .synAcked ↔
    s.stream.error = false ∧ 0 < s.lastAckSeqno ∧ s.finSent = false := by
  have hcount := s.stream.count
  have hle := h.acked_le
  have hflight : s.bytesInFlight = s.nextSeqno - s.lastAckSeqno := rfl
  unfold stateSummary
  split_ifs with h1 h2 h3 h4 h5 h6
  · simp [h1]
  · simp only [false_iff]
    omega
  · simp only [false_iff]
    omega
  · simp only [Bool.not_eq_true] at h1
    simp only [h1, h.unsent_of_not_eof h4, and_true, true_and, true_iff]
    omega
  · have hfin : s.finSent = false := by
      by_contra hc
      have hnext := h.later (by omega)
      rw [if_pos (Bool.not_eq_false _ ▸ hc)] at hnext
      obtain ⟨-, hb⟩ := h.fin (Bool.not_eq_false _ ▸ hc)
      rw [hb, List.length_nil] at hcount
      omega
    simp only [Bool.not_eq_true] at h1
    simp only [h1, hfin, and_true, true_and, true_iff]
    omega
  all_goals
    simp only [false_iff, not_and]
    intro _ _ hc
    have := h.next_le hc
    omega

theorem fillWindow_finSent (h : s.finSent = true) : s.fillWindow.finSent = true := by
  rw [fillWindow_of_idle (Or.inl h), h]

/-- What an acknowledgment does to the flag of the FIN. -/
theorem WF.ackReceived_finSent_iff (h : WF s) (hfin : s.finSent = false) (herr : s.stream.error = false)
    (ackno : WrappingInt32) (w : UInt16) : (s.ackReceived ackno w).finSent = true ↔
      unwrap ackno s.isn s.nextSeqno ≤ s.nextSeqno ∧ s.stream.inputEnded = true ∧
        s.stream.bytesWritten + 2 ≤ max s.lastAckSeqno (unwrap ackno s.isn s.nextSeqno) + max w.toNat 1 := by
  rcases lt_or_ge s.nextSeqno (unwrap ackno s.isn s.nextSeqno) with hk | hk
  · rw [ackReceived_of_lt hk, hfin]
    exact iff_of_false Bool.false_ne_true fun hc => absurd hc.1 (not_le.mpr hk)
  · rw [ackReceived_of_le hk, (settleTimer_timerOnly _ _).finSent, and_iff_right hk]
    obtain ⟨-, -, f3, f4, -, f6⟩ := acknowledge_frame s (unwrap ackno s.isn s.nextSeqno) w
    rw [(h.acknowledge hk w).fillWindow_finSent_iff (f4.trans hfin) (by rw [f3, herr]), f3, acknowledge_lastAck,
      Flow.currentWindow_eq, f6]

end TCPSender

/-! ### The receiver -/

namespace TCPReceiver

variable {rcv rcv' : TCPReceiver} {seg : TCPSegment}

theorem finRecv_iff : rcv.stateSummary = .finRecv ↔
    rcv.streamOut.error = false ∧ rcv.synReceived = true ∧ rcv.streamOut.inputEnded = true := by
  unfold stateSummary ackno
  cases rcv.streamOut.error <;> cases rcv.synReceived <;> cases rcv.streamOut.inputEnded <;> simp

theorem segmentReceived_error (h : rcv.segmentReceived seg = some rcv') :
    rcv'.streamOut.error = rcv.streamOut.error := by
  apply segmentReceived_push (P := fun r => r.output.error = rcv.streamOut.error) h rfl
  intro data index r' hr'
  apply StreamReassembler.pushSubstring_induct (P := fun o => o.error = rcv.streamOut.error) _ _ rfl hr'
  · exact fun o d ho => (ByteStream.write_snd_error o d).trans ho
  · exact fun _ ho => ho

/-- Only a receiver that has the SYN ends its stream. -/
theorem segmentReceived_ends (h : rcv.segmentReceived seg = some rcv') (he : rcv.streamOut.inputEnded = false)
    (he' : rcv'.streamOut.inputEnded = true) : rcv'.synReceived = true := by
  rw [(segmentReceived_isn h).1]
  by_contra hc
  rw [Bool.not_eq_true] at hc
  unfold segmentReceived at h
  dsimp only at h
  rw [if_pos hc] at h
  obtain rfl := Option.some.inj h
  rw [streamOut, (synced_reassembler rcv seg).1] at he'
  exact Bool.false_ne_true (he.symm.trans he')

end TCPReceiver

/-! ### The connection -/

namespace TCPConnection

open TCPSender

variable {c c' d : TCPConnection} {seg : TCPSegment}

/-- **What a segment that is received before our FIN leaves the sender in.** -/
theorem acked_synAcked_iff (h : WF c.sender) (hfin : c.sender.finSent = false) :
    (c.acked seg).stateSummary = .synAcked ↔
      c.sender.stream.error = false ∧ c.sender.SynAckedBy seg ∧ ¬ c.sender.FinLetOutBy seg := by
  unfold acked SynAckedBy FinLetOutBy
  by_cases hack : seg.header.ack = true
  · rw [if_pos hack, (h.ackReceived _ _).synAcked_iff, (ackReceived_frame _ _ _).2.2.1, ackReceived_lastAck]
    apply and_congr_right
    intro herr
    rw [← Bool.not_eq_true, h.ackReceived_finSent_iff hfin herr]
    generalize unwrap seg.header.ackno c.sender.isn c.sender.nextSeqno = k
    simp only [hack, true_and]
    apply and_congr_left
    intro _
    split_ifs <;> omega
  · rw [if_neg hack, h.synAcked_iff, hfin]
    simp [hack]

theorem acked_error (c : TCPConnection) (seg : TCPSegment) :
    (c.acked seg).stream.error = c.sender.stream.error := by
  unfold acked
  split_ifs
  · exact (ackReceived_frame _ _ _).2.2.1
  · rfl

theorem acked_written (c : TCPConnection) (seg : TCPSegment) :
    (c.acked seg).stream.bytesWritten = c.sender.stream.bytesWritten := by
  unfold acked
  split_ifs
  · exact (ackReceived_frame _ _ _).2.1
  · rfl

/-- Nothing is acknowledged that was not sent before. -/
theorem acked_lastAck_le (h : WF c.sender) (seg : TCPSegment) :
    (c.acked seg).lastAckSeqno ≤ c.sender.nextSeqno := by
  unfold acked
  split_ifs
  · rw [ackReceived_lastAck]
    split_ifs with hk
    · exact h.acked_le
    · exact max_le h.acked_le (not_lt.mp hk)
  · exact h.acked_le

theorem acked_finSent (h : c.sender.finSent = true) : (c.acked seg).finSent = true := by
  unfold acked
  split_ifs
  · apply ackReceived_induct (P := fun t => t.finSent = true) h
    · exact fun k _ => (acknowledge_frame _ _ _).2.2.2.1.trans h
    · exact fun t ht => fillWindow_finSent ht
    · exact fun t t' hP ht => ht.finSent.trans hP
  · exact h

/-- What every call keeps: the sender is sound, and both streams are in error
or none is. -/
structure Sound (c : TCPConnection) : Prop where
  wf : WF c.sender
  error : c.receiver.streamOut.error = c.sender.stream.error

theorem init_sound (cfg : TCPConfig) (isn : WrappingInt32) : Sound (init cfg isn) := ⟨init_wf _ _ _, rfl⟩

/-- What a response leaves alone. -/
structure Responds (c d : TCPConnection) : Prop where
  wf : WF d.sender
  receiver : d.receiver = c.receiver
  lastAck : d.sender.lastAckSeqno = c.sender.lastAckSeqno
  written : d.sender.stream.bytesWritten = c.sender.stream.bytesWritten
  error : d.sender.stream.error = c.sender.stream.error
  finSent : c.sender.finSent = true → d.sender.finSent = true
  isActive : c.isActive = true → d.isActive = true

theorem Responds.fill (h : Responds c d) : Responds c { d with sender := d.sender.fillWindow } :=
  have hf := fillWindow_frame d.sender
  { wf := h.wf.fillWindow
    receiver := h.receiver
    lastAck := hf.lastAck.trans h.lastAck
    written := hf.bytesWritten.trans h.written
    error := hf.error.trans h.error
    finSent := fun hc => fillWindow_finSent (h.finSent hc)
    isActive := h.isActive }

theorem respond_responds (h : WF c.sender) (seg : TCPSegment) : Responds c (c.respond seg) := by
  apply respond_induct (P := Responds c) (Q := Responds c)
  · exact fun d hd => hd.fill
  · exact fun d hd => { hd with wf := hd.wf.sendEmptySegment }
  · exact fun d hd => { hd with }
  · exact fun d hd => { hd with isActive := fun _ => rfl }
  · exact fun d hd => { hd with wf := sendSegments_wf hd.wf }
  · exact ⟨h, rfl, rfl, rfl, rfl, id, id⟩

/-- The flag is cleared in one place, by the states of the two halves. -/
theorem respond_linger (c : TCPConnection) (seg : TCPSegment) : (c.respond seg).lingerAfterStreamsFinish =
    if c.receiver.stateSummary = .finRecv ∧ c.sender.stateSummary = .synAcked then false
    else c.lingerAfterStreamsFinish := by
  have hreply : ∀ d : TCPConnection, (d.reply seg).lingerAfterStreamsFinish = d.lingerAfterStreamsFinish := by
    intro d
    have h1 : (d.answer seg).lingerAfterStreamsFinish = d.lingerAfterStreamsFinish := by
      unfold answer
      split_ifs <;> rfl
    change ((d.answer seg).answerKeepAlive seg).lingerAfterStreamsFinish = _
    rw [← h1]
    generalize d.answer seg = e
    unfold answerKeepAlive
    cases e.receiver.ackno with
    | none => rfl
    | some ackno =>
      simp only
      split_ifs <;> rfl
  unfold respond
  by_cases hfirst : c.receiver.stateSummary = .synRecv ∧ c.sender.nextSeqno = 0
  · rw [if_pos hfirst, if_neg fun hc => by rw [hfirst.1] at hc; cases hc.1]
    rfl
  · rw [if_neg hfirst, hreply]
    split_ifs <;> rfl

/-- A segment reaches both halves. -/
structure Receives (c c' : TCPConnection) (seg : TCPSegment) : Prop where
  isActive : c.isActive = true
  rst : seg.header.rst = false
  received : ∃ receiver, c.receiver.segmentReceived seg = some receiver ∧
    c' = respond { c with timeSinceLastSegmentReceived := 0, receiver, sender := c.acked seg } seg

/-- What a call does to the end of the inbound stream and the flag: nothing, or
it is a segment that is received. -/
theorem step_ending {op : Op} (hs : step c op = some c') :
    c'.inboundStream.inputEnded = c.inboundStream.inputEnded ∧
        c'.lingerAfterStreamsFinish = c.lingerAfterStreamsFinish ∨
      ∃ seg, op = .segment seg ∧ Receives c c' seg := by
  cases op with
  | segment seg =>
    change c.segmentReceived seg = some c' at hs
    rcases segment_cases hs with ⟨-, rfl⟩ | ⟨-, -, rfl⟩ | ⟨ha, hrst, hrcv⟩
    · exact Or.inl ⟨rfl, rfl⟩
    · exact Or.inl ⟨rfl, rfl⟩
    · exact Or.inr ⟨seg, rfl, ha, hrst, hrcv⟩
  | tick ms =>
    obtain rfl := Option.some.inj hs
    left
    rcases Bool.eq_false_or_eq_true c.isActive with ha | ha
    · rcases tick_cases ha ms with ⟨-, he⟩ | ⟨-, he⟩ <;> rw [he] <;> exact ⟨rfl, rfl⟩
    · rw [tick_of_inactive ha]
      exact ⟨rfl, rfl⟩
  | read len =>
    obtain rfl := Option.some.inj hs
    exact Or.inl ⟨ByteStream.popOutput_inputEnded _ _, rfl⟩
  | _ =>
    obtain rfl := Option.some.inj hs
    exact Or.inl ⟨rfl, rfl⟩

/-- Every call keeps the sender sound, and a FIN that is sent is sent. -/
theorem step_sound (h : Sound c) {op : Op} (hs : step c op = some c') :
    Sound c' ∧ (c.sender.finSent = true → c'.sender.finSent = true) := by
  have hfill : ∀ {s : TCPSender} {b : Bool}, WF s → s.stream.error = c.sender.stream.error →
      s.finSent = c.sender.finSent →
      Sound (sendSegments { c with sender := s.fillWindow, isActive := b }) ∧
        (c.sender.finSent = true → s.fillWindow.finSent = true) := by
    intro s b hwf he hfin
    refine ⟨⟨sendSegments_wf hwf.fillWindow, ?_⟩, fun hc => fillWindow_finSent (hfin.trans hc)⟩
    calc c.receiver.streamOut.error = c.sender.stream.error := h.error
      _ = s.stream.error := he.symm
      _ = s.fillWindow.stream.error := (fillWindow_frame s).error.symm
  cases op with
  | connect =>
    obtain rfl := Option.some.inj hs
    exact hfill h.wf rfl rfl
  | write data =>
    obtain rfl := Option.some.inj hs
    exact hfill (h.wf.write data) (ByteStream.write_snd_error _ _) rfl
  | endInputStream =>
    obtain rfl := Option.some.inj hs
    exact hfill h.wf.endInput rfl rfl
  | segment seg =>
    change c.segmentReceived seg = some c' at hs
    rcases segment_cases hs with ⟨-, rfl⟩ | ⟨-, -, rfl⟩ | ⟨-, -, receiver, hrcv, rfl⟩
    · exact ⟨h, id⟩
    · exact ⟨⟨h.wf.setError, rfl⟩, id⟩
    · have hr := respond_responds (c := { c with timeSinceLastSegmentReceived := 0, receiver, sender := c.acked seg })
        (acked_wf h.wf seg) seg
      refine ⟨⟨hr.wf, ?_⟩, fun hc => hr.finSent ?_⟩
      · rw [hr.receiver, hr.error, TCPReceiver.segmentReceived_error hrcv, h.error, acked_error]
      · exact acked_finSent hc
  | tick ms =>
    obtain rfl := Option.some.inj hs
    obtain ⟨-, -, -, -, -, f6, f7⟩ := tick_frame c.sender ms
    rcases Bool.eq_false_or_eq_true c.isActive with ha | ha
    · rcases tick_cases ha ms with ⟨-, he⟩ | ⟨-, he⟩ <;> rw [he]
      · exact ⟨⟨(h.wf.tick ms).setError, rfl⟩, fun hc => f7.trans hc⟩
      · refine ⟨⟨sendSegments_wf (h.wf.tick ms), ?_⟩, fun hc => f7.trans hc⟩
        exact h.error.trans (congrArg ByteStream.error f6).symm
    · rw [tick_of_inactive ha]
      exact ⟨h, id⟩
  | read len =>
    obtain rfl := Option.some.inj hs
    exact ⟨⟨h.wf, (ByteStream.popOutput_error _ _).trans h.error⟩, id⟩

/-- After a segment the flag is cleared if the peer's FIN has come and the sender is in SYN_ACKED. -/
theorem Receives.linger (h : Sound c) (hr : Receives c c' seg) : c'.lingerAfterStreamsFinish =
    if c'.receiver.stateSummary = .finRecv ∧ (c.acked seg).stateSummary = .synAcked then false
    else c.lingerAfterStreamsFinish := by
  obtain ⟨receiver, -, rfl⟩ := hr.received
  rw [(respond_responds (acked_wf h.wf seg) seg).receiver, respond_linger]

/-- A connection that has not sent its FIN is not done after the next segment. -/
theorem Receives.active (h : Sound c) (hr : Receives c c' seg) (hfin : c.sender.finSent = false) :
    c'.active = true := by
  obtain ⟨receiver, -, rfl⟩ := hr.received
  have hres := respond_responds (c := { c with timeSinceLastSegmentReceived := 0, receiver, sender := c.acked seg })
    (acked_wf h.wf seg) seg
  by_contra hc
  rw [Bool.not_eq_true, active_eq_false_iff (hres.isActive hr.isActive)] at hc
  have hclosed := hc.1
  simp only [streamsClosed, Bool.and_eq_true, beq_iff_eq] at hclosed
  obtain ⟨⟨-, hflight⟩, hnext⟩ := hclosed
  have hle := h.wf.next_le hfin
  have hlast := hres.lastAck.trans_le (acked_lastAck_le h.wf seg)
  have hwritten := hres.written.trans (acked_written c seg)
  unfold bytesInFlight at hflight
  omega

/-- The segment ends the inbound stream. -/
def EndsInbound (c : TCPConnection) (seg : TCPSegment) : Prop :=
  c.isActive = true ∧ seg.header.rst = false ∧ c.inboundStream.inputEnded = false ∧
    ∃ receiver ∈ c.receiver.segmentReceived seg, receiver.streamOut.inputEnded = true

theorem Receives.endsInbound_iff (h : Sound c) (hr : Receives c c' seg) : c.EndsInbound seg ↔
    c.inboundStream.inputEnded = false ∧ c'.inboundStream.inputEnded = true := by
  obtain ⟨receiver, hrcv, rfl⟩ := hr.received
  unfold inboundStream
  rw [(respond_responds (acked_wf h.wf seg) seg).receiver]
  simp [EndsInbound, inboundStream, hr.isActive, hr.rst, hrcv]

theorem Receives.ended (h : Sound c) (hr : Receives c c' seg) (he : c.inboundStream.inputEnded = true) :
    c'.inboundStream.inputEnded = true := by
  obtain ⟨receiver, hrcv, rfl⟩ := hr.received
  unfold inboundStream at he ⊢
  rw [(respond_responds (acked_wf h.wf seg) seg).receiver, TCPReceiver.segmentReceived_streamOut he hrcv, he]

/-- The peer's FIN completes the stream of a connection that was not reset: it is in FIN_RECV. -/
theorem Receives.finRecv (h : Sound c) (hr : Receives c c' seg) (he : c.EndsInbound seg)
    (herr : c.sender.stream.error = false) : c'.receiver.stateSummary = .finRecv := by
  have hended := (hr.endsInbound_iff h).mp he
  obtain ⟨receiver, hrcv, rfl⟩ := hr.received
  unfold inboundStream at hended
  rw [(respond_responds (acked_wf h.wf seg) seg).receiver] at hended ⊢
  rw [TCPReceiver.finRecv_iff, TCPReceiver.segmentReceived_error hrcv, h.error]
  exact ⟨herr, TCPReceiver.segmentReceived_ends hrcv hended.1 hended.2, hended.2⟩

end TCPConnection

/-! ### Runs -/

/-- What the outbound side has done when the inbound stream ends. -/
structure Ending where
  eof : Bool
  finSent : Bool
  deriving DecidableEq

/-- A connection, and how the outbound side was when its inbound stream ended. -/
structure Watched where
  conn : TCPConnection
  ending : Option Ending
  deriving DecidableEq

namespace Watched

open TCPConnection Runs

def start (cfg : TCPConfig) (isn : WrappingInt32) : Watched := ⟨init cfg isn, none⟩

/-- A segment is given to the receiver before the sender has its
acknowledgment: the outbound side is still what it was before the call. -/
def step (w : Watched) (op : TCPConnection.Op) : Option Watched :=
  (w.conn.step op).map fun conn =>
    { conn
      ending := w.ending.or (if conn.inboundStream.inputEnded = true then
        some ⟨w.conn.sender.stream.eof, w.conn.sender.finSent⟩ else none) }

/-- A connection that is active does not linger if its inbound stream ended
before the outbound one was at its end, and only if it ended before the FIN was
sent. -/
def Right (w : Watched) : Prop :=
  w.conn.active = true →
    (∀ e ∈ w.ending, e.eof = false → w.conn.lingerAfterStreamsFinish = false) ∧
      (w.conn.lingerAfterStreamsFinish = false → ∃ e ∈ w.ending, e.finSent = false)

instance : DecidablePred Right := fun w => inferInstanceAs (Decidable (w.conn.active = true → _ ∧ (_ → _)))

/-- A segment that ends the inbound stream before the outbound one is at its end
finds the connection not reset, finds or leaves our SYN acknowledged, and does
not let our FIN out. -/
def Timely (w : Watched) : TCPConnection.Op → Prop
  | .segment seg => w.conn.EndsInbound seg → w.conn.sender.stream.eof = false →
      w.conn.sender.stream.error = false ∧ w.conn.sender.SynAckedBy seg ∧ ¬ w.conn.sender.FinLetOutBy seg
  | _ => True

structure Inv (w : Watched) : Prop where
  sound : Sound w.conn
  ended : w.ending = none ↔ w.conn.inboundStream.inputEnded = false
  finSent : ∀ e ∈ w.ending, e.finSent = true → w.conn.sender.finSent = true
  early : w.conn.lingerAfterStreamsFinish = false → ∃ e ∈ w.ending, e.finSent = false
  decided : ∀ e ∈ w.ending, e.eof = false → w.conn.lingerAfterStreamsFinish = false

variable {w w' : Watched}

theorem start_inv (cfg : TCPConfig) (isn : WrappingInt32) : Inv (start cfg isn) where
  sound := init_sound cfg isn
  ended := iff_of_true rfl rfl
  finSent := fun e he => by cases he
  early := fun h => by cases h
  decided := fun e he => by cases he

theorem Inv.right (h : Inv w) : Right w := fun _ => ⟨h.decided, h.early⟩

/-- A record of the ending stays, and is made when the stream ends. -/
theorem mem_ending {o : Option Ending} {ended : Bool} {e e₀ : Ending} :
    e ∈ o.or (if ended = true then some e₀ else none) ↔ e ∈ o ∨ o = none ∧ ended = true ∧ e = e₀ := by
  cases o <;> cases ended <;> simp [eq_comm]

/-- A FIN that was sent at the ending was sent before the call, too. -/
theorem Inv.sent_before (h : Inv w) {op : TCPConnection.Op} (hs : step w op = some w') :
    ∀ e ∈ w'.ending, e.finSent = true → w.conn.sender.finSent = true := by
  obtain ⟨conn, -, rfl⟩ := Option.map_eq_some_iff.mp hs
  intro e he hf
  rcases mem_ending.mp he with he | ⟨-, -, rfl⟩
  · exact h.finSent e he hf
  · exact hf

/-- The inbound stream stays ended, and its end is recorded. -/
theorem Inv.ended_after (h : Inv w) {op : TCPConnection.Op} (hs : step w op = some w') :
    w'.ending = none ↔ w'.conn.inboundStream.inputEnded = false := by
  obtain ⟨conn, hconn, rfl⟩ := Option.map_eq_some_iff.mp hs
  have hnone := h.ended
  cases ho : w.ending with
  | none => simp
  | some e =>
    have hold : w.conn.inboundStream.inputEnded = true := by
      rw [← Bool.not_eq_false, ← hnone, ho]
      exact Option.some_ne_none e
    have hnow : conn.inboundStream.inputEnded = true := by
      rcases step_ending hconn with ⟨hsame, -⟩ | ⟨seg, -, hr⟩
      · rw [hsame, hold]
      · exact hr.ended h.sound hold
    simp [hnow]

/-- The flag is cleared only after an ending before our FIN. -/
theorem Inv.early_after (h : Inv w) {op : TCPConnection.Op} (hs : step w op = some w')
    (hl : w'.conn.lingerAfterStreamsFinish = false) : ∃ e ∈ w'.ending, e.finSent = false := by
  have hbefore := h.sent_before hs
  have hended := h.ended_after hs
  obtain ⟨conn, hconn, rfl⟩ := Option.map_eq_some_iff.mp hs
  have hkeep : w.conn.lingerAfterStreamsFinish = false →
      ∃ e ∈ w.ending.or (if conn.inboundStream.inputEnded = true then
        some ⟨w.conn.sender.stream.eof, w.conn.sender.finSent⟩ else none), e.finSent = false := by
    intro hold
    obtain ⟨e, he, hf⟩ := h.early hold
    exact ⟨e, mem_ending.mpr (Or.inl he), hf⟩
  rcases step_ending hconn with ⟨-, hsame⟩ | ⟨seg, rfl, hr⟩
  · exact hkeep (hsame.symm.trans hl)
  · simp only [hr.linger h.sound] at hl
    split_ifs at hl with hclear
    · -- cleared now: the stream has ended, and the sender has not sent its FIN
      have hnow := (TCPReceiver.finRecv_iff.mp hclear.1).2.2
      have hunsent := ((acked_wf h.sound.wf seg).synAcked_iff.mp hclear.2).2.2
      obtain ⟨e, he⟩ := Option.ne_none_iff_exists'.mp fun hc => Bool.false_ne_true ((hended.mp hc).symm.trans hnow)
      refine ⟨e, he, ?_⟩
      by_contra hf
      have hsent : (w.conn.acked seg).finSent = true := acked_finSent (hbefore e he (Bool.not_eq_false _ ▸ hf))
      exact Bool.false_ne_true (hunsent.symm.trans hsent)
    · exact hkeep hl

/-- If the call is timely, the flag is cleared when it has to be. -/
theorem Inv.decided_after (h : Inv w) {op : TCPConnection.Op} (ht : Timely w op) (hs : step w op = some w') :
    ∀ e ∈ w'.ending, e.eof = false → w'.conn.lingerAfterStreamsFinish = false := by
  obtain ⟨conn, hconn, rfl⟩ := Option.map_eq_some_iff.mp hs
  intro e he hopen
  rcases mem_ending.mp he with he | ⟨hnone, hnow, rfl⟩
  · have hl := h.decided e he hopen
    rcases step_ending hconn with ⟨-, hsame⟩ | ⟨seg, rfl, hr⟩
    · exact hsame.trans hl
    · simp only [hr.linger h.sound, hl, ite_self]
  · have hbefore := h.ended.mp hnone
    rcases step_ending hconn with ⟨hsame, -⟩ | ⟨seg, rfl, hr⟩
    · rw [hsame, hbefore] at hnow
      cases hnow
    · have hends := (hr.endsInbound_iff h.sound).mpr ⟨hbefore, hnow⟩
      have hcond := ht hends hopen
      have hsyn := (acked_synAcked_iff h.sound.wf (h.sound.wf.unsent_of_not_eof hopen)).mpr hcond
      simp only [hr.linger h.sound, hr.finRecv h.sound hends hcond.1, hsyn, and_self, ↓reduceIte]

theorem step_inv (h : Inv w) {op : TCPConnection.Op} (ht : Timely w op) (hs : step w op = some w') : Inv w' := by
  obtain ⟨conn, hconn, hw⟩ := Option.map_eq_some_iff.mp hs
  have hstep : w.conn.step op = some w'.conn := by rw [hconn, ← hw]
  obtain ⟨hsound, hfin⟩ := step_sound h.sound hstep
  exact {
    sound := hsound
    ended := h.ended_after hs
    finSent := fun e he hf => hfin (h.sent_before hs e he hf)
    early := h.early_after hs
    decided := h.decided_after ht hs }

/-- **One call decides as it should iff it is timely.** -/
theorem step_right_iff (h : Inv w) (op : TCPConnection.Op) :
    (∀ w', step w op = some w' → Right w') ↔ Timely w op := by
  constructor
  · intro hall
    cases op with
    | segment seg =>
      intro hends hopen
      obtain ⟨ha, hrst, hbefore, receiver, hrcv, -⟩ := id hends
      have hunsent := h.sound.wf.unsent_of_not_eof hopen
      obtain ⟨conn, hconn, hr⟩ : ∃ conn, w.conn.segmentReceived seg = some conn ∧ Receives w.conn conn seg :=
        ⟨_, (segmentReceived_eq ha hrst).trans (congrArg (Option.map _) hrcv), ha, hrst, receiver, hrcv, rfl⟩
      have hnow := ((hr.endsInbound_iff h.sound).mp hends).2
      have hright := hall _ (congrArg (Option.map _) hconn) (hr.active h.sound hunsent)
      -- the stream had not ended, so the flag was set
      have hflag : w.conn.lingerAfterStreamsFinish = true := by
        by_contra hc
        obtain ⟨e, he, -⟩ := h.early (Bool.not_eq_true _ ▸ hc)
        rw [h.ended.mpr hbefore] at he
        cases he
      have hclear := hright.1 ⟨_, _⟩ (mem_ending.mpr (Or.inr ⟨h.ended.mpr hbefore, hnow, rfl⟩)) hopen
      rw [← acked_synAcked_iff h.sound.wf hunsent]
      by_contra hc
      rw [hr.linger h.sound, if_neg fun hboth => hc hboth.2, hflag] at hclear
      cases hclear
    | _ => trivial
  · exact fun ht w' hs => (step_inv h ht hs).right

/-- **The linger decision is right in all states of a run iff every segment that
ends the inbound stream is timely.** -/
theorem linger_iff (cfg : TCPConfig) (isn : WrappingInt32) (ops : List TCPConnection.Op) :
    (∀ pre w, pre <+: ops → run step (start cfg isn) pre = some w → Right w) ↔
      Along step Timely (start cfg isn) ops := by
  have hstart := start_inv cfg isn
  rw [forall_prefix_iff_along, and_iff_right hstart.right]
  apply along_congr (I := Inv) _ _ hstart
  · exact fun w op h => step_right_iff h op
  · exact fun w op w' h hok hs => step_inv h ((step_right_iff h op).mp hok) hs

/-! ### Our FIN goes out with the peer's -/

/-- The peer accepts our SYN with a window of one byte. -/
def synAckSegment : TCPSegment := { header := { syn := true, ack := true, ackno := ⟨1⟩, win := 1 } }

/-- The peer's FIN acknowledges that byte and opens the window. -/
def finSegment : TCPSegment := { header := { seqno := ⟨1⟩, fin := true, ack := true, ackno := ⟨2⟩, win := 10 } }

/-- We write two bytes and end our stream, then the peer's FIN comes. -/
def windowOps : List TCPConnection.Op :=
  [.connect, .segment synAckSegment, .write [97, 98], .endInputStream, .segment finSegment]

/-- One byte was not sent when the inbound stream ended, and the connection lingers. -/
theorem windowOps_lingers : ∃ w ∈ run step (start {} ⟨0⟩) windowOps, ¬ Right w := by decide +kernel

/-- So does a listener that gets SYN and FIN in one segment. -/
example : ∃ w ∈ run step (start {} ⟨0⟩) [.segment { header := { syn := true, fin := true } }], ¬ Right w := by
  decide +kernel

end Watched
end Sponge

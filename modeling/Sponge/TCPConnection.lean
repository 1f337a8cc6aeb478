/-
# The connection

`TCPConnection` of `tcp_connection.cc`: a receiver and a sender, the queue of
segments for the network, and what decides when the connection ends. `none` is
a failure of the receiver's `push_substring`; every other call returns.

Key definitions: `TCPConnection.segmentReceived`, `TCPConnection.tick`,
`TCPConnection.active`, `TCPConnection.state`, `TCPConnection.sendSegments`,
`TCPConnection.setRstState`.
Key theorems: `TCPConnection.segmentReceived_eq`,
`TCPConnection.respond_induct`, `TCPConnection.tick_cases`.
-/
import Sponge.TCPReceiver
import Sponge.TCPSender

namespace Sponge

inductive TCPReceiverStateSummary where
  | error | listen | synRecv | finRecv
  deriving DecidableEq

inductive TCPSenderStateSummary where
  | error | closed | synSent | synAcked | finSent | finAcked
  deriving DecidableEq

/-- `state_summary` of a receiver. -/
def TCPReceiver.stateSummary (rcv : TCPReceiver) : TCPReceiverStateSummary :=
  if rcv.streamOut.error then .error
  else if rcv.ackno = none then .listen
  else if rcv.streamOut.inputEnded then .finRecv
  else .synRecv

/-- `state_summary` of a sender. -/
def TCPSender.stateSummary (s : TCPSender) : TCPSenderStateSummary :=
  if s.stream.error then .error
  else if s.nextSeqno = 0 then .closed
  else if s.nextSeqno = s.bytesInFlight then .synSent
  else if s.stream.eof = false then .synAcked
  else if s.nextSeqno < s.stream.bytesWritten + 2 then .synAcked
  else if s.bytesInFlight ≠ 0 then .finSent
  else .finAcked

/-- The official names of the states. -/
inductive TCPState.State where
  | listen | synRcvd | synSent | established | closeWait | lastAck | finWait1 | finWait2 | closing | timeWait
  | closed | reset
  deriving DecidableEq

/-- The summaries of the two halves, and two bits of the connection. -/
structure TCPState where
  receiver : TCPReceiverStateSummary
  sender : TCPSenderStateSummary
  active : Bool := true
  lingerAfterStreamsFinish : Bool := true
  deriving DecidableEq

/-- The constructor from a name. -/
def TCPState.ofState : TCPState.State → TCPState
  | .listen => { receiver := .listen, sender := .closed }
  | .synRcvd => { receiver := .synRecv, sender := .synSent }
  | .synSent => { receiver := .listen, sender := .synSent }
  | .established => { receiver := .synRecv, sender := .synAcked }
  | .closeWait => { receiver := .finRecv, sender := .synAcked, lingerAfterStreamsFinish := false }
  | .lastAck => { receiver := .finRecv, sender := .finSent, lingerAfterStreamsFinish := false }
  | .closing => { receiver := .finRecv, sender := .finSent }
  | .finWait1 => { receiver := .synRecv, sender := .finSent }
  | .finWait2 => { receiver := .synRecv, sender := .finAcked }
  | .timeWait => { receiver := .finRecv, sender := .finAcked }
  | .reset => { receiver := .error, sender := .error, active := false, lingerAfterStreamsFinish := false }
  | .closed => { receiver := .finRecv, sender := .finAcked, active := false, lingerAfterStreamsFinish := false }

structure TCPConnection where
  cfg : TCPConfig
  receiver : TCPReceiver
  sender : TCPSender
  segmentsOut : List TCPSegment
  lingerAfterStreamsFinish : Bool
  isActive : Bool
  timeSinceLastSegmentReceived : ℕ
  deriving DecidableEq

namespace TCPConnection

/-- The constructor; `isn` is the random initial sequence number, used if the
configuration fixes none. -/
def init (cfg : TCPConfig) (isn : WrappingInt32) : TCPConnection where
  cfg := cfg
  receiver := TCPReceiver.init cfg.recvCapacity
  sender := TCPSender.init cfg.sendCapacity cfg.rtTimeout (cfg.fixedIsn.getD isn)
  segmentsOut := []
  lingerAfterStreamsFinish := true
  isActive := true
  timeSinceLastSegmentReceived := 0

def remainingOutboundCapacity (c : TCPConnection) : ℕ := c.sender.stream.remainingCapacity

def inboundStream (c : TCPConnection) : ByteStream := c.receiver.streamOut

/-- A segment of the sender with the receiver's acknowledgment and window. -/
def stamp (rcv : TCPReceiver) (seg : TCPSegment) : TCPSegment :=
  match rcv.ackno with
  | some ackno =>
    { seg with header :=
      { seg.header with
        ack := true
        ackno := ackno
        win := UInt16.ofNat (if 0xffff < rcv.windowSize then 0xffff else rcv.windowSize) } }
  | none => seg

/-- `_send_segments`: the sender's queue, stamped, goes to the network. -/
def sendSegments (c : TCPConnection) : TCPConnection :=
  { c with
    segmentsOut := c.segmentsOut ++ c.sender.segmentsOut.map (stamp c.receiver)
    sender := { c.sender with segmentsOut := [] } }

/-- `_set_rst_state`. -/
def setRstState (c : TCPConnection) (sendRst : Bool) : TCPConnection :=
  let c : TCPConnection :=
    if sendRst then
      { c with segmentsOut := c.segmentsOut ++
        [{ header := { rst := true, seqno := wrap c.sender.nextSeqno c.sender.isn } }] }
    else c
  { c with
    receiver := c.receiver.setError
    sender := c.sender.setError
    isActive := false }

/-- Both streams are finished and everything is acknowledged. -/
def streamsClosed (c : TCPConnection) : Bool :=
  c.receiver.streamOut.inputEnded && c.sender.stream.eof && c.sender.bytesInFlight == 0 &&
    c.sender.nextSeqno == c.sender.stream.bytesWritten + 2

def active (c : TCPConnection) : Bool :=
  if c.isActive = false then false
  else if c.streamsClosed then
    if c.lingerAfterStreamsFinish = false then false
    else !decide (10 * c.cfg.rtTimeout.toNat ≤ c.timeSinceLastSegmentReceived)
  else true

def state (c : TCPConnection) : TCPState where
  receiver := c.receiver.stateSummary
  sender := c.sender.stateSummary
  active := c.active
  lingerAfterStreamsFinish := if c.active then c.lingerAfterStreamsFinish else false

def connect (c : TCPConnection) : TCPConnection :=
  sendSegments { c with sender := c.sender.fillWindow, isActive := true }

/-- The number of bytes accepted, and the connection after. -/
def write (c : TCPConnection) (data : Bytes) : ℕ × TCPConnection :=
  let (written, sender) := c.sender.write data
  (written, sendSegments { c with sender := sender.fillWindow })

def endInputStream (c : TCPConnection) : TCPConnection :=
  sendSegments { c with sender := c.sender.endInput.fillWindow }

/-- What occupies sequence numbers is answered, if only with an empty segment. -/
def answer (c : TCPConnection) (seg : TCPSegment) : TCPConnection :=
  if 0 < seg.lengthInSequenceSpace then
    let sender := c.sender.fillWindow
    { c with sender := if sender.segmentsOut = [] then sender.sendEmptySegment else sender }
  else c

/-- A keep-alive, an empty segment one before what the receiver waits for, is
answered too. -/
def answerKeepAlive (c : TCPConnection) (seg : TCPSegment) : TCPConnection :=
  match c.receiver.ackno with
  | some ackno =>
    if seg.lengthInSequenceSpace = 0 ∧ seg.header.seqno = ackno.sub 1 then
      { c with sender := c.sender.sendEmptySegment }
    else c
  | none => c

/-- The end of `segment_received`. -/
def reply (c : TCPConnection) (seg : TCPSegment) : TCPConnection :=
  ((c.answer seg).answerKeepAlive seg).sendSegments

/-- The middle of `segment_received`: the receiver and the sender have the
segment; a listener connects, and a passive close does not linger. -/
def respond (c : TCPConnection) (seg : TCPSegment) : TCPConnection :=
  if c.receiver.stateSummary = .synRecv ∧ c.sender.nextSeqno = 0 then c.connect
  else
    let c : TCPConnection :=
      if c.receiver.stateSummary = .finRecv ∧ c.sender.stateSummary = .synAcked then
        { c with lingerAfterStreamsFinish := false }
      else c
    c.reply seg

def segmentReceived (c : TCPConnection) (seg : TCPSegment) : Option TCPConnection :=
  if c.isActive = false then some c
  else
    let c : TCPConnection := { c with timeSinceLastSegmentReceived := 0 }
    if seg.header.rst then some (c.setRstState false)
    else
      (c.receiver.segmentReceived seg).map fun receiver =>
        let sender :=
          if seg.header.ack then c.sender.ackReceived seg.header.ackno seg.header.win else c.sender
        respond { c with receiver, sender } seg

def tick (c : TCPConnection) (msSinceLastTick : ℕ) : TCPConnection :=
  if c.isActive = false then c
  else
    let c : TCPConnection :=
      { c with
        timeSinceLastSegmentReceived := (c.timeSinceLastSegmentReceived + msSinceLastTick) % 2 ^ 64
        sender := c.sender.tick msSinceLastTick }
    if TCPConfig.maxRetxAttempts < c.sender.consecutiveRetransmissions then c.setRstState true
    else
      let c := c.sendSegments
      if c.active = false then { c with isActive := false } else c

/-- `inbound_stream().read`, by the application. -/
def readInbound (c : TCPConnection) (len : ℕ) : Bytes × TCPConnection :=
  ((c.receiver.read len).1, { c with receiver := (c.receiver.read len).2 })

/-! ### Calls and runs -/

/-- The calls of the owner and the network. -/
inductive Op where
  | connect
  | write (data : Bytes)
  | endInputStream
  | segment (seg : TCPSegment)
  | tick (ms : ℕ)
  | read (len : ℕ)

def step (c : TCPConnection) : Op → Option TCPConnection
  | .connect => some c.connect
  | .write data => some (c.write data).2
  | .endInputStream => some c.endInputStream
  | .segment seg => c.segmentReceived seg
  | .tick ms => some (c.tick ms)
  | .read len => some (c.readInbound len).2

@[simp] theorem sendSegments_segmentsOut (c : TCPConnection) :
    c.sendSegments.segmentsOut = c.segmentsOut ++ c.sender.segmentsOut.map (stamp c.receiver) := rfl
@[simp] theorem sendSegments_sender (c : TCPConnection) :
    c.sendSegments.sender = { c.sender with segmentsOut := [] } := rfl
@[simp] theorem sendSegments_receiver (c : TCPConnection) : c.sendSegments.receiver = c.receiver := rfl
@[simp] theorem sendSegments_isActive (c : TCPConnection) : c.sendSegments.isActive = c.isActive := rfl
@[simp] theorem sendSegments_streamsClosed (c : TCPConnection) : c.sendSegments.streamsClosed = c.streamsClosed := rfl
@[simp] theorem sendSegments_active (c : TCPConnection) : c.sendSegments.active = c.active := rfl

/-- Nothing is sent iff the sender has nothing queued. -/
theorem sendSegments_silent {c : TCPConnection} :
    c.sendSegments.segmentsOut = c.segmentsOut ↔ c.sender.segmentsOut = [] := by
  simp

theorem answer_of_empty (c : TCPConnection) {seg : TCPSegment} (h : seg.lengthInSequenceSpace = 0) :
    c.answer seg = c := if_neg (by omega)

theorem active_of_inactive {c : TCPConnection} (h : c.isActive = false) : c.active = false := if_pos h

/-- When a connection that has not been stopped is not active. -/
theorem active_eq_false_iff {c : TCPConnection} (h : c.isActive = true) : c.active = false ↔
    c.streamsClosed = true ∧ (c.lingerAfterStreamsFinish = false ∨
      10 * c.cfg.rtTimeout.toNat ≤ c.timeSinceLastSegmentReceived) := by
  unfold active
  rw [if_neg (by rw [h]; decide)]
  split_ifs with h1 h2
  · exact ⟨fun _ => ⟨h1, Or.inl h2⟩, fun _ => rfl⟩
  · simp [h1, h2]
  · simp [h1]

theorem segmentReceived_of_inactive {c : TCPConnection} (h : c.isActive = false) (seg : TCPSegment) :
    c.segmentReceived seg = some c := if_pos h

/-- A reset ends the connection. -/
theorem segmentReceived_rst {c : TCPConnection} (ha : c.isActive = true) {seg : TCPSegment}
    (hrst : seg.header.rst = true) :
    c.segmentReceived seg = some (setRstState { c with timeSinceLastSegmentReceived := 0 } false) := by
  unfold segmentReceived
  rw [if_neg (by rw [ha]; decide)]
  exact if_pos hrst

/-- The sender once it has the acknowledgment of a segment, if there is one. -/
def acked (c : TCPConnection) (seg : TCPSegment) : TCPSender :=
  if seg.header.ack then c.sender.ackReceived seg.header.ackno seg.header.win else c.sender

/-- Any other segment goes to the receiver, then to the sender, then it is
responded to. -/
theorem segmentReceived_eq {c : TCPConnection} (ha : c.isActive = true) {seg : TCPSegment}
    (hrst : seg.header.rst = false) : c.segmentReceived seg = (c.receiver.segmentReceived seg).map fun receiver =>
      respond { c with timeSinceLastSegmentReceived := 0, receiver, sender := c.acked seg } seg := by
  unfold segmentReceived
  rw [if_neg (by rw [ha]; decide)]
  exact if_neg (by rw [hrst]; decide)

/-- What a segment does: nothing, a reset, or it is received, its
acknowledgment taken, and responded to. -/
theorem segment_cases {c c' : TCPConnection} {seg : TCPSegment} (hs : c.segmentReceived seg = some c') :
    c.isActive = false ∧ c' = c ∨
      c.isActive = true ∧ seg.header.rst = true ∧
        c' = setRstState { c with timeSinceLastSegmentReceived := 0 } false ∨
      c.isActive = true ∧ seg.header.rst = false ∧ ∃ receiver, c.receiver.segmentReceived seg = some receiver ∧
        c' = respond { c with timeSinceLastSegmentReceived := 0, receiver, sender := c.acked seg } seg := by
  rcases Bool.eq_false_or_eq_true c.isActive with ha | ha
  · rcases Bool.eq_false_or_eq_true seg.header.rst with hrst | hrst
    · rw [segmentReceived_rst ha hrst] at hs
      exact Or.inr (Or.inl ⟨ha, hrst, (Option.some.inj hs).symm⟩)
    · rw [segmentReceived_eq ha hrst] at hs
      obtain ⟨receiver, hrcv, rfl⟩ := Option.map_eq_some_iff.mp hs
      exact Or.inr (Or.inr ⟨ha, hrst, receiver, hrcv, rfl⟩)
  · rw [segmentReceived_of_inactive ha] at hs
    exact Or.inl ⟨ha, (Option.some.inj hs).symm⟩

/-- What the parts of a response keep (`P`), it has when its segments go out (`Q`). -/
theorem respond_induct {P Q : TCPConnection → Prop} (hfill : ∀ c, P c → P { c with sender := c.sender.fillWindow })
    (hempty : ∀ c, P c → P { c with sender := c.sender.sendEmptySegment })
    (hlinger : ∀ c, P c → P { c with lingerAfterStreamsFinish := false })
    (hactive : ∀ c, P c → P { c with isActive := true }) (hsend : ∀ c, P c → Q c.sendSegments)
    {c : TCPConnection} (h : P c) (seg : TCPSegment) : Q (c.respond seg) := by
  have hanswer : ∀ c, P c → P (c.answer seg) := by
    intro c hc
    unfold answer
    split_ifs
    · by_cases hq : c.sender.fillWindow.segmentsOut = []
      · simp only [hq, ↓reduceIte]
        exact hempty _ (hfill c hc)
      · simp only [hq, ↓reduceIte]
        exact hfill c hc
    · exact hc
  have halive : ∀ c, P c → P (c.answerKeepAlive seg) := by
    intro c hc
    unfold answerKeepAlive
    cases c.receiver.ackno with
    | none => exact hc
    | some ackno =>
      simp only
      split_ifs
      · exact hempty c hc
      · exact hc
  have hreply : ∀ c, P c → Q (c.reply seg) := fun c hc => hsend _ (halive _ (hanswer c hc))
  unfold respond
  split_ifs
  · exact hsend _ (hactive _ (hfill c h))
  · exact hreply _ (hlinger c h)
  · exact hreply c h

theorem tick_of_inactive {c : TCPConnection} (h : c.isActive = false) (ms : ℕ) : c.tick ms = c := if_pos h

/-- The connection once the clock and the sender have the time. -/
def ticked (c : TCPConnection) (ms : ℕ) : TCPConnection :=
  { c with
    timeSinceLastSegmentReceived := (c.timeSinceLastSegmentReceived + ms) % 2 ^ 64
    sender := c.sender.tick ms }

/-- A tick passes the limit of retransmissions and resets, or it sends what
the sender has. -/
theorem tick_cases {c : TCPConnection} (ha : c.isActive = true) (ms : ℕ) :
    TCPConfig.maxRetxAttempts < (c.sender.tick ms).consecutiveRetransmissions ∧
        c.tick ms = (c.ticked ms).setRstState true ∨
      (c.sender.tick ms).consecutiveRetransmissions ≤ TCPConfig.maxRetxAttempts ∧
        c.tick ms = { (c.ticked ms).sendSegments with isActive := (c.ticked ms).active } := by
  have h : c.tick ms = if TCPConfig.maxRetxAttempts < (c.sender.tick ms).consecutiveRetransmissions then
      (c.ticked ms).setRstState true
    else if (c.ticked ms).sendSegments.active = false then { (c.ticked ms).sendSegments with isActive := false }
      else (c.ticked ms).sendSegments := if_neg (by rw [ha]; decide)
  rw [h]
  by_cases hc : TCPConfig.maxRetxAttempts < (c.sender.tick ms).consecutiveRetransmissions
  · rw [if_pos hc]
    exact Or.inl ⟨hc, rfl⟩
  · rw [if_neg hc]
    refine Or.inr ⟨not_lt.mp hc, ?_⟩
    rw [sendSegments_active]
    split_ifs with h1
    · rw [h1]
    · have h2 : (c.ticked ms).active = (c.ticked ms).sendSegments.isActive :=
        (Bool.not_eq_false _ ▸ h1).trans ha.symm
      rw [h2]

end TCPConnection
end Sponge

/-
# Two sides that answer each other for ever

Sequence numbers are 32 bits wide: after 2^32 bytes the first one, if it is
still on its way, has the number of the next. Two sides that exchange 2^32 bytes
each and then get the other's first byte again wait for one byte more than was
sent (`Network.Crossed`), and from then on answer each other's empty segments.

The 2^32 rounds are not computed: `far k` is the connection after `k` of them,
and each of the lemmas below takes one call from such a state to the next.

Key definitions: `Storm.far`, `Storm.stuck`, `Storm.round`.
Key theorems: `Storm.round_run`, `Storm.far_hears`, `Storm.stuck_hears`,
`Storm.pushes_unbounded`.
-/
import Sponge.Handshake
import Sponge.Rest

namespace Sponge

namespace Storm

open TCPSender TCPConnection

theorem unwrap_near {n m : ℕ} (h1 : n ≤ m + 2) (h2 : m ≤ n + 2) (h3 : n < 2 ^ 34) :
    unwrap (wrap n ⟨0⟩) ⟨0⟩ m = n :=
  unwrap_wrap _ (by omega) (by omega) (Or.inr (by omega))

/-! ### Streams -/

/-- A stream of one byte that `k` bytes have passed. -/
def passed (k : ℕ) : ByteStream := ⟨1, k, k, [], false, false, Nat.zero_le _, rfl⟩

/-- The next byte is in it. -/
def holding (k : ℕ) : ByteStream := ⟨1, k + 1, k, [97], false, false, le_rfl, rfl⟩

theorem holding_read (k : ℕ) : (holding k).read 1 = ([97], passed (k + 1)) := by
  simp [holding, passed, ByteStream.read, ByteStream.peekOutput, ByteStream.popOutput, ByteStream.eof]

/-! ### The sender -/

def sender (next acked : ℕ) (stream : ByteStream) (outstanding : List TCPSegment) (w : UInt16) : TCPSender where
  isn := ⟨0⟩
  finSent := false
  initialRetransmissionTimeout := 1000
  segmentsOut := []
  currentRto := 1000
  stream := stream
  nextSeqno := next
  lastAckSeqno := acked
  timeElapsed := 0
  timerRunning := !outstanding.isEmpty
  consecutiveRetransmissions := 0
  segmentsOutstanding := outstanding
  windowSize := w

/-- The segment of byte `k`, not yet stamped. -/
def byteAt (k : ℕ) : TCPSegment := { header := { seqno := wrap (k + 1) ⟨0⟩ }, payload := [97] }

variable {k : ℕ}

theorem fill_byte (k : ℕ) : (sender (k + 1) (k + 1) (holding k) [] 0).fillWindow =
    { sender (k + 2) (k + 1) (passed (k + 1)) [byteAt k] 0 with segmentsOut := [byteAt k] } := by
  have hwin : (sender (k + 1) (k + 1) (holding k) [] 0).currentWindow = 1 := rfl
  have hbuild : (sender (k + 1) (k + 1) (holding k) [] 0).build 1 =
      ({ payload := [97] }, sender (k + 1) (k + 1) (passed (k + 1)) [] 0) := by
    simp [build, sender, bytesInFlight, TCPConfig.maxPayloadSize, holding_read, passed, ByteStream.eof,
      TCPSegment.lengthInSequenceSpace]
  unfold fillWindow
  rw [hwin, if_neg (by simp [sender])]
  unfold fillLoop
  rw [hbuild]
  simp [sender, bytesInFlight, TCPSegment.lengthInSequenceSpace, send, fillLoop, byteAt]

/-- With nothing left in the stream nothing goes out. -/
theorem fill_passed {s : TCPSender} (hs : s.stream = passed k) (hn : s.nextSeqno ≠ 0) : s.fillWindow = s := by
  apply fillWindow_of_idle
  refine Or.inr (Or.inr ?_)
  rw [build_nil (by rw [hs]; rfl) (by rw [hs]; rfl)]
  simp [hn, TCPSegment.lengthInSequenceSpace]

/-- An acknowledgment, part by part. -/
theorem ack_step {s t u : TCPSender} {ackno : WrappingInt32} {w : UInt16} {a : ℕ}
    (hu : unwrap ackno s.isn s.nextSeqno = a) (hle : a ≤ s.nextSeqno) (hack : s.acknowledge a w = t)
    (hfill : t.fillWindow = t) (hsettle : t.settleTimer (decide (s.lastAckSeqno < a)) = u) :
    s.ackReceived ackno w = u := by
  subst hu
  rw [ackReceived_of_le hle, hack, hfill, hsettle]

/-- While a byte is out, what acknowledges the byte before opens the window. -/
theorem ack_old (hk : k < 2 ^ 33) :
    (sender (k + 2) (k + 1) (passed (k + 1)) [byteAt k] 0).ackReceived (wrap (k + 1) ⟨0⟩) 1 =
      sender (k + 2) (k + 1) (passed (k + 1)) [byteAt k] 1 := by
  have hu : unwrap (wrap (k + 1) ⟨0⟩) ⟨0⟩ (k + 2) = k + 1 := unwrap_near (by omega) (by omega) (by omega)
  apply ack_step (a := k + 1) (t := sender (k + 2) (k + 1) (passed (k + 1)) [byteAt k] 1)
  · exact hu
  · simp [sender]
  · simp [acknowledge, sender, byteAt, hu, TCPSegment.lengthInSequenceSpace]
  · exact fill_passed (k := k + 1) rfl (by simp [sender])
  · simp [settleTimer, sender]

/-- The byte is acknowledged, with a closed window. -/
theorem ack_new (hk : k < 2 ^ 33) :
    (sender (k + 2) (k + 1) (passed (k + 1)) [byteAt k] 1).ackReceived (wrap (k + 2) ⟨0⟩) 0 =
      sender (k + 2) (k + 2) (passed (k + 1)) [] 0 := by
  have hu : unwrap (wrap (k + 2) ⟨0⟩) ⟨0⟩ (k + 2) = k + 2 := unwrap_near (by omega) (by omega) (by omega)
  have hbyte : unwrap (wrap (k + 1) ⟨0⟩) ⟨0⟩ (k + 2) = k + 1 := unwrap_near (by omega) (by omega) (by omega)
  apply ack_step (a := k + 2) (t := { sender (k + 2) (k + 2) (passed (k + 1)) [] 0 with timerRunning := true })
  · exact hu
  · simp [sender]
  · simp [acknowledge, sender, byteAt, hbyte, TCPSegment.lengthInSequenceSpace]
  · exact fill_passed (k := k + 1) rfl (by simp [sender])
  · simp [settleTimer, sender]

/-- With no byte out, the same acknowledgment only opens the window. -/
theorem ack_same (hk : k < 2 ^ 33) :
    (sender (k + 1) (k + 1) (passed k) [] 0).ackReceived (wrap (k + 1) ⟨0⟩) 1 =
      sender (k + 1) (k + 1) (passed k) [] 1 := by
  have hu : unwrap (wrap (k + 1) ⟨0⟩) ⟨0⟩ (k + 1) = k + 1 := unwrap_near (by omega) (by omega) (by omega)
  apply ack_step (a := k + 1) (t := sender (k + 1) (k + 1) (passed k) [] 1)
  · exact hu
  · simp [sender]
  · simp [acknowledge, sender]
  · exact fill_passed (k := k) rfl (by simp [sender])
  · simp [settleTimer, sender]

/-- What acknowledges more than was sent is ignored. -/
theorem ack_ahead (hk : k < 2 ^ 33) (w : UInt16) :
    (sender (k + 1) (k + 1) (passed k) [] w).ackReceived (wrap (k + 2) ⟨0⟩) 0 =
      sender (k + 1) (k + 1) (passed k) [] w := by
  have hu : unwrap (wrap (k + 2) ⟨0⟩) ⟨0⟩ (k + 1) = k + 2 := unwrap_near (by omega) (by omega) (by omega)
  apply ackReceived_of_lt
  change k + 1 < unwrap (wrap (k + 2) ⟨0⟩) ⟨0⟩ (k + 1)
  rw [hu]
  omega

/-! ### The receiver -/

def receiver (k : ℕ) (stream : ByteStream) : TCPReceiver where
  reassembler :=
    { unassembleStrs := []
      nextAssembledIdx := k
      unassembledBytesNum := 0
      eofIdx := 2 ^ 64 - 1
      output := stream
      capacity := 1 }
  capacity := 1
  synReceived := true
  isn := ⟨0⟩

theorem passed_ackno (k : ℕ) : (receiver k (passed k)).ackno = some (wrap (k + 1) ⟨0⟩) := rfl

theorem holding_ackno (k : ℕ) : (receiver (k + 1) (holding k)).ackno = some (wrap (k + 2) ⟨0⟩) := rfl

/-- The index of a segment that is at most one behind. -/
theorem index_at {m : ℕ} (stream : ByteStream) (seg : TCPSegment) (hm : stream.bytesWritten = m)
    (hsyn : seg.header.syn = false) (hn : seg.header.seqno = wrap (k + 1) ⟨0⟩) (h1 : k ≤ m) (h2 : m ≤ k + 1)
    (hk : k < 2 ^ 33 + 1) : (receiver m stream).streamIndex seg = k := by
  have hu : unwrap (wrap (k + 1) ⟨0⟩) ⟨0⟩ (m + 1) = k + 1 := unwrap_near (by omega) (by omega) (by omega)
  unfold TCPReceiver.streamIndex
  rw [hsyn, hn]
  change (unwrap (wrap (k + 1) ⟨0⟩) ⟨0⟩ (stream.bytesWritten + 1) + 2 ^ 64 - 1 + _) % 2 ^ 64 = k
  rw [hm, hu, if_neg Bool.false_ne_true]
  omega

section
open StreamReassembler Pieces

theorem push_byte (hk : k < 2 ^ 33) :
    (receiver k (passed k)).push [97] k false = some (receiver (k + 1) (holding k)) := by
  have hsize : toSSize 1 = 1 := by decide
  have hroom : ¬ (k + 1) % 18446744073709551616 ≤ k := by omega
  have hopen : ¬ 18446744073709551614 ≤ k := by omega
  simp [TCPReceiver.push, receiver, pushSubstring, newIdx, lastLE, lowerBound, clip, hsize, firstUnacceptableIdx,
    passed, hroom, store, ByteStream.write, assemble, finish, hopen, holding]

/-- An empty string changes nothing. -/
theorem push_nil {j : ℕ} (stream : ByteStream) (hj : j ≤ k) (hk : k < 2 ^ 33 + 1) :
    (receiver k stream).push [] j false = some (receiver k stream) := by
  have hnew : (receiver k stream).reassembler.newIdx j = k := by
    change (if j < k then k else j) = k
    split_ifs <;> omega
  have hsize : ¬ 0 < toSSize (-(k - j : ℕ)) := by
    rw [toSSize_of_range] <;> omega
  have hopen : ¬ 18446744073709551615 ≤ k := by omega
  have hpush : (receiver k stream).reassembler.pushSubstring [] j false = some (receiver k stream).reassembler := by
    unfold pushSubstring
    rw [hnew]
    simp [receiver, lowerBound, clip, hsize, assemble, finish, hopen]
  rw [TCPReceiver.push, hpush]
  rfl

end

theorem receiver_synRecv (stream : ByteStream) (herr : stream.error = false) (hend : stream.inputEnded = false) :
    (receiver k stream).stateSummary = .synRecv := by
  simp [TCPReceiver.stateSummary, receiver, TCPReceiver.streamOut, herr, hend, TCPReceiver.ackno]

/-! ### The connection -/

/-- Room for one byte in either direction. -/
def cfg : TCPConfig := { recvCapacity := 1, sendCapacity := 1 }

/-- A connection with these halves and this queue. -/
def side (r : TCPReceiver) (s : TCPSender) (out : List TCPSegment) : TCPConnection where
  cfg := cfg
  receiver := r
  sender := s
  segmentsOut := out
  lingerAfterStreamsFinish := true
  isActive := true
  timeSinceLastSegmentReceived := 0

section

variable {r r' : TCPReceiver} {s s' : TCPSender} {out : List TCPSegment} {seg : TCPSegment}

/-- A segment that both halves accept is replied to. -/
theorem side_received (hrst : seg.header.rst = false) (hack : seg.header.ack = true)
    (hr : r.segmentReceived seg = some r') (hs : s.ackReceived seg.header.ackno seg.header.win = s')
    (hsyn : r'.stateSummary = .synRecv) (hn : s'.nextSeqno ≠ 0) :
    (side r s out).segmentReceived seg = some ((side r' s' out).reply seg) := by
  have hacked : (side r s out).acked seg = s' := by
    unfold acked
    rw [if_pos hack]
    exact hs
  have hfin : ¬ (r'.stateSummary = .finRecv ∧ s'.stateSummary = .synAcked) := by
    rintro ⟨hc, -⟩
    rw [hsyn] at hc
    cases hc
  have hrespond : (side r' s' out).respond seg = (side r' s' out).reply seg := by
    unfold respond
    rw [if_neg fun hc => hn hc.2]
    exact congrArg (reply · seg) (if_neg hfin)
  rw [segmentReceived_eq rfl hrst, hacked]
  change (r.segmentReceived seg).map _ = _
  rw [hr, Option.map_some]
  exact congrArg some hrespond

theorem side_send (hq : s.segmentsOut = []) :
    sendSegments (side r s.sendEmptySegment out) = side r s (out ++ [stamp r s.emptySegment]) := by
  cases s
  simp_all [sendSegments, side, sendEmptySegment, emptySegment]

theorem reply_data (hlen : seg.lengthInSequenceSpace = 1) (hfill : s.fillWindow = s) (hq : s.segmentsOut = []) :
    (side r s out).reply seg = side r s (out ++ [stamp r s.emptySegment]) := by
  have hans : (side r s out).answer seg = side r s.sendEmptySegment out := by
    unfold answer
    rw [if_pos (by omega)]
    change side r (if s.fillWindow.segmentsOut = [] then s.fillWindow.sendEmptySegment else s.fillWindow) out = _
    rw [hfill, if_pos hq]
  rw [reply_of_pos _ (by omega), hans, side_send hq]

theorem reply_ping (hlen : seg.lengthInSequenceSpace = 0) (hp : (side r s out).Pings seg) (hq : s.segmentsOut = []) :
    (side r s out).reply seg = side r s (out ++ [stamp r s.emptySegment]) := by
  rw [reply_of_pings hlen hp]
  exact side_send hq

theorem reply_quiet (hlen : seg.lengthInSequenceSpace = 0) (hp : ¬ (side r s out).Pings seg)
    (hq : s.segmentsOut = []) : (side r s out).reply seg = side r s out := by
  rw [reply_of_quiet hlen hp]
  cases s
  simp_all [sendSegments, side]

end

/-! ### What passes between the two -/

/-- Byte `k`, with an open window. -/
def dataAt (k : ℕ) : TCPSegment :=
  { header := { seqno := wrap (k + 1) ⟨0⟩, ack := true, ackno := wrap (k + 1) ⟨0⟩, win := 1 }, payload := [97] }

/-- An empty segment, with a closed one. -/
def emptyAt (seqno ackno : ℕ) : TCPSegment :=
  { header := { seqno := wrap seqno ⟨0⟩, ack := true, ackno := wrap ackno ⟨0⟩, win := 0 } }

/-- `k` bytes have gone each way, and been read and acknowledged. -/
def far (k : ℕ) : List TCPSegment → TCPConnection :=
  side (receiver k (passed k)) (sender (k + 1) (k + 1) (passed k) [] 0)

/-- The next byte is out. -/
def away (k : ℕ) : List TCPSegment → TCPConnection :=
  side (receiver k (passed k)) (sender (k + 2) (k + 1) (passed (k + 1)) [byteAt k] 0)

/-- The other side's byte has come. -/
def heard (k : ℕ) (stream : ByteStream) : List TCPSegment → TCPConnection :=
  side (receiver (k + 1) stream) (sender (k + 2) (k + 1) (passed (k + 1)) [byteAt k] 1)

/-- It has come without being sent. -/
def stuck (k : ℕ) : List TCPSegment → TCPConnection :=
  side (receiver (k + 1) (holding k)) (sender (k + 1) (k + 1) (passed k) [] 1)

theorem far_write (k : ℕ) : (far k []).write [97] = (1, away k [dataAt k]) := by
  have hconn : (far k []).write [97] =
      (1, sendSegments (side (receiver k (passed k)) (sender (k + 1) (k + 1) (holding k) [] 0).fillWindow [])) := rfl
  have hstamp : stamp (receiver k (passed k)) (byteAt k) = dataAt k := rfl
  rw [hconn, fill_byte]
  simp only [sendSegments, side, List.map_cons, List.map_nil, List.nil_append, hstamp, away]
  rfl

/-- The byte of the other side arrives. -/
theorem hear_byte (hk : k < 2 ^ 33) :
    (receiver k (passed k)).segmentReceived (dataAt k) = some (receiver (k + 1) (holding k)) := by
  rw [TCPReceiver.segmentReceived_eq rfl rfl,
    index_at (m := k) (passed k) (dataAt k) rfl rfl rfl le_rfl (Nat.le_succ k) (by omega)]
  exact push_byte hk

theorem away_hears (hk : k < 2 ^ 33) :
    (away k []).segmentReceived (dataAt k) = some (heard k (holding k) [emptyAt (k + 2) (k + 2)]) := by
  unfold away
  rw [side_received rfl rfl (hear_byte hk) (ack_old hk) (receiver_synRecv _ rfl rfl) (by simp [sender]),
    reply_data rfl (fill_passed (k := k + 1) rfl (by simp [sender])) rfl]
  rfl

theorem far_hears (hk : k < 2 ^ 33) :
    (far k []).segmentReceived (dataAt k) = some (stuck k [emptyAt (k + 1) (k + 2)]) := by
  unfold far
  rw [side_received rfl rfl (hear_byte hk) (ack_same hk) (receiver_synRecv _ rfl rfl) (by simp [sender]),
    reply_data rfl (fill_passed (k := k) rfl (by simp [sender])) rfl]
  rfl

theorem heard_read (k : ℕ) : (heard k (holding k) []).readInbound 1 = ([97], heard k (passed (k + 1)) []) := by
  have hconn : (heard k (holding k) []).readInbound 1 =
      (((holding k).read 1).1, heard k ((holding k).read 1).2 []) := rfl
  rw [hconn, holding_read]

/-- The acknowledgment arrives. -/
theorem heard_hears (hk : k < 2 ^ 33) :
    (heard k (passed (k + 1)) []).segmentReceived (emptyAt (k + 2) (k + 2)) = some (far (k + 1) []) := by
  have hrcv : (receiver (k + 1) (passed (k + 1))).segmentReceived (emptyAt (k + 2) (k + 2)) =
      some (receiver (k + 1) (passed (k + 1))) := by
    rw [TCPReceiver.segmentReceived_eq rfl rfl,
      index_at (m := k + 1) (passed (k + 1)) (emptyAt (k + 2) (k + 2)) rfl rfl rfl le_rfl (Nat.le_succ _) (by omega)]
    exact push_nil _ le_rfl (by omega)
  unfold heard
  rw [side_received rfl rfl hrcv (ack_new hk) (receiver_synRecv _ rfl rfl) (by simp [sender]), reply_quiet rfl _ rfl]
  · rfl
  · rintro ⟨ackno, h1, h2⟩
    obtain rfl := Option.some.inj ((passed_ackno (k + 1)).symm.trans h1)
    rw [wrap_sub_one] at h2
    have hmod : (k + 2) % 2 ^ 32 = (k + 1) % 2 ^ 32 := wrap_eq_iff.mp h2
    omega

/-- **An empty segment of the other side is answered with the same.** -/
theorem stuck_hears (hk : k < 2 ^ 33) :
    (stuck k []).segmentReceived (emptyAt (k + 1) (k + 2)) = some (stuck k [emptyAt (k + 1) (k + 2)]) := by
  have hrcv : (receiver (k + 1) (holding k)).segmentReceived (emptyAt (k + 1) (k + 2)) =
      some (receiver (k + 1) (holding k)) := by
    rw [TCPReceiver.segmentReceived_eq rfl rfl,
      index_at (m := k + 1) (holding k) (emptyAt (k + 1) (k + 2)) rfl rfl rfl (Nat.le_succ k) le_rfl (by omega)]
    exact push_nil _ (Nat.le_succ k) (by omega)
  unfold stuck
  rw [side_received rfl rfl hrcv (ack_ahead hk _) (receiver_synRecv _ rfl rfl) (by simp [sender]),
    reply_ping rfl _ rfl]
  · rfl
  · exact ⟨_, holding_ackno k, (wrap_sub_one _ _).symm⟩

/-! ### Rounds -/

open Network

/-- Both sides, with the numbers of bytes that were accepted and read. -/
def net (a b : TCPConnection) (acceptedA acceptedB gotA gotB : ℕ) (toB toA : List TCPSegment) : Network where
  a := ⟨a, List.replicate acceptedA 97, false, List.replicate gotA 97⟩
  b := ⟨b, List.replicate acceptedB 97, false, List.replicate gotB 97⟩
  toB := toB
  toA := toA

/-- After `k` rounds. The first byte of either side is still on its way. -/
def farNet (k : ℕ) : Network := net (far k []) (far k []) k k k k [dataAt 0] [dataAt 0]

/-- Each side writes a byte, and reads and acknowledges the other's. -/
def round : List (Party × Action) :=
  [(.A, .write [97]), (.B, .write [97]), (.A, .transmit), (.B, .transmit), (.A, .deliver 1), (.B, .deliver 1),
    (.A, .lose 1), (.B, .lose 1), (.A, .transmit), (.B, .transmit), (.A, .read 1), (.B, .read 1), (.A, .deliver 1),
    (.B, .deliver 1), (.A, .lose 1), (.B, .lose 1)]

section

variable {a b a' : TCPConnection} {acceptedA acceptedB gotA gotB : ℕ} {toB toA : List TCPSegment}

theorem act_write : (net (far k []) b acceptedA acceptedB gotA gotB toB toA).act (.write [97]) =
    some (net (away k [dataAt k]) b (acceptedA + 1) acceptedB gotA gotB toB toA) := by
  simp only [act, net, far_write, List.replicate_succ']
  rfl

theorem act_read : (net (heard k (holding k) []) b acceptedA acceptedB gotA gotB toB toA).act (.read 1) =
    some (net (heard k (passed (k + 1)) []) b acceptedA acceptedB (gotA + 1) gotB toB toA) := by
  simp only [act, net, heard_read, List.replicate_succ']

theorem act_transmit {r : TCPReceiver} {s : TCPSender} {seg : TCPSegment} {out : List TCPSegment} :
    (net (side r s (seg :: out)) b acceptedA acceptedB gotA gotB toB toA).act .transmit =
      some (net (side r s out) b acceptedA acceptedB gotA gotB (toB ++ [seg]) toA) := rfl

theorem act_lose {i : ℕ} : (net a b acceptedA acceptedB gotA gotB toB toA).act (.lose i) =
    some (net a b acceptedA acceptedB gotA gotB toB (toA.eraseIdx i)) := rfl

theorem act_deliver {i : ℕ} {seg : TCPSegment} (hi : toA[i]? = some seg) (hs : a.segmentReceived seg = some a') :
    (net a b acceptedA acceptedB gotA gotB toB toA).act (.deliver i) =
      some (net a' b acceptedA acceptedB gotA gotB toB toA) := by
  simp only [act, deliver, net, hi, hs]
  rfl

theorem step_A {n n' : Network} {action : Action} (h : n.act action = some n') : step n (.A, action) = some n' := h

theorem step_B {action : Action} {acceptedA' acceptedB' gotA' gotB' : ℕ} {b' : TCPConnection}
    {toB' toA' : List TCPSegment}
    (h : (net b a acceptedB acceptedA gotB gotA toA toB).act action =
      some (net b' a' acceptedB' acceptedA' gotB' gotA' toA' toB')) :
    step (net a b acceptedA acceptedB gotA gotB toB toA) (.B, action) =
      some (net a' b' acceptedA' acceptedB' gotA' gotB' toB' toA') := by
  change ((net b a acceptedB acceptedA gotB gotA toA toB).act action).map swap = _
  rw [h]
  rfl

end

/-- **One round.** -/
theorem round_run (hk : k < 2 ^ 33) : Runs.run Network.step (farNet k) round = some (farNet (k + 1)) := by
  have hdata : [dataAt 0, dataAt k][1]? = some (dataAt k) := rfl
  have hempty : [dataAt 0, emptyAt (k + 2) (k + 2)][1]? = some (emptyAt (k + 2) (k + 2)) := rfl
  simp only [round, Runs.run_cons, Runs.run_nil]
  exact ⟨_, step_A act_write, _, step_B act_write, _, step_A act_transmit, _, step_B act_transmit,
    _, step_A (act_deliver hdata (away_hears hk)), _, step_B (act_deliver hdata (away_hears hk)),
    _, step_A act_lose, _, step_B act_lose, _, step_A act_transmit, _, step_B act_transmit,
    _, step_A act_read, _, step_B act_read,
    _, step_A (act_deliver hempty (heard_hears hk)), _, step_B (act_deliver hempty (heard_hears hk)),
    _, step_A act_lose, _, step_B act_lose, rfl⟩

/-- Both connect, and exchange their first bytes, which stay on their way. -/
def opening : List (Party × Action) :=
  [(.A, .connect), (.B, .connect), (.A, .transmit), (.B, .transmit), (.A, .deliver 0), (.B, .deliver 0),
    (.A, .transmit), (.B, .transmit), (.A, .deliver 1), (.B, .deliver 1), (.A, .lose 1), (.B, .lose 1), (.A, .lose 0),
    (.B, .lose 0), (.A, .write [97]), (.B, .write [97]), (.A, .transmit), (.B, .transmit), (.A, .deliver 0),
    (.B, .deliver 0), (.A, .transmit), (.B, .transmit), (.A, .read 1), (.B, .read 1), (.A, .deliver 1),
    (.B, .deliver 1), (.A, .lose 1), (.B, .lose 1)]

deriving instance DecidableEq for Side, Network

theorem opening_run : Runs.run Network.step (Network.start cfg cfg ⟨0⟩ ⟨0⟩) opening = some (farNet 1) := by
  decide +kernel

theorem rounds_run : ∀ {m : ℕ}, m < 2 ^ 33 →
    Runs.run Network.step (farNet 1) (List.replicate m round).flatten = some (farNet (m + 1))
  | 0, _ => rfl
  | m + 1, hm => by
    rw [List.replicate_succ', List.flatten_append, List.flatten_singleton, Runs.run_append_eq_some]
    exact ⟨farNet (m + 1), rounds_run (by omega), round_run hm⟩

/-- After 2^32 rounds the first byte has the number of the next. -/
theorem dataAt_wraps : dataAt 0 = dataAt (2 ^ 32 - 1 + 1) := by decide +kernel

/-! ### The storm -/

open Runs

/-- The answer both sides give from now on. -/
def echo (k : ℕ) : TCPSegment := emptyAt (k + 1) (k + 2)

/-- Each side has got a byte that was not sent, and answered it. -/
def stormNet (k : ℕ) : Network := net (stuck k [echo k]) (stuck k [echo k]) k k k k [] []

section

variable {a b a' : TCPConnection} {acceptedA acceptedB gotA gotB : ℕ} {toB toA : List TCPSegment}

theorem pass_deliver {i : ℕ} {seg : TCPSegment} (hi : toA[i]? = some seg) (hs : a.segmentReceived seg = some a') :
    (net a b acceptedA acceptedB gotA gotB toB toA).pass (.deliver i) =
      some (net a' b acceptedA acceptedB gotA gotB toB (toA.eraseIdx i)) := by
  simp only [Network.pass, net, hi, hs]
  rfl

theorem pushed_deliver {i : ℕ} {seg : TCPSegment} (hi : toA[i]? = some seg) (hs : a.segmentReceived seg = some a') :
    (net a b acceptedA acceptedB gotA gotB toB toA).pushedAt (.deliver i) =
      a'.segmentsOut.drop a.segmentsOut.length := by
  rw [pushedAt, pass_deliver hi hs]
  rfl

theorem pass_transmit {r : TCPReceiver} {s : TCPSender} {seg : TCPSegment} {out : List TCPSegment} :
    (net (side r s (seg :: out)) b acceptedA acceptedB gotA gotB toB toA).pass .transmit =
      some (net (side r s out) b acceptedA acceptedB gotA gotB (toB ++ [seg]) toA) := rfl

theorem passStep_A {n n' : Network} {t : Transit} (h : n.pass t = some n') : passStep n (.A, t) = some n' := h

theorem passStep_B {t : Transit} {b' : TCPConnection} {toB' toA' : List TCPSegment}
    (h : (net b a acceptedB acceptedA gotB gotA toA toB).pass t =
      some (net b' a acceptedB acceptedA gotB gotA toA' toB')) :
    passStep (net a b acceptedA acceptedB gotA gotB toB toA) (.B, t) =
      some (net a b' acceptedA acceptedB gotA gotB toB' toA') := by
  change ((net b a acceptedB acceptedA gotB gotA toA toB).pass t).map swap = _
  rw [h]
  rfl

end

theorem farNet_passes (hk : k < 2 ^ 33) (hw : dataAt 0 = dataAt k) :
    run passStep (farNet k) [(.A, .deliver 0), (.B, .deliver 0)] = some (stormNet k) := by
  have hdata : [dataAt 0][0]? = some (dataAt k) := congrArg some hw
  simp only [run_cons, run_nil]
  exact ⟨_, passStep_A (pass_deliver hdata (far_hears hk)), _, passStep_B (pass_deliver hdata (far_hears hk)), rfl⟩

/-- The answers cross, and are answered. -/
def exchange : List (Party × Transit) :=
  [(.A, .transmit), (.B, .transmit), (.A, .deliver 0), (.B, .deliver 0)]

/-- **An exchange pushes two segments and changes nothing.** -/
theorem exchange_outputs (hk : k < 2 ^ 33) (ts : List (Party × Transit)) :
    outputs passStep pushed (stormNet k) (exchange ++ ts) =
      echo k :: echo k :: outputs passStep pushed (stormNet k) ts := by
  have hecho : [echo k][0]? = some (echo k) := rfl
  have h1 : passStep (stormNet k) (.A, .transmit) =
      some (net (stuck k []) (stuck k [echo k]) k k k k [echo k] []) := passStep_A pass_transmit
  have h2 : passStep (net (stuck k []) (stuck k [echo k]) k k k k [echo k] []) (.B, .transmit) =
      some (net (stuck k []) (stuck k []) k k k k [echo k] [echo k]) := passStep_B pass_transmit
  have h3 : passStep (net (stuck k []) (stuck k []) k k k k [echo k] [echo k]) (.A, .deliver 0) =
      some (net (stuck k [echo k]) (stuck k []) k k k k [echo k] []) :=
    passStep_A (pass_deliver hecho (stuck_hears hk))
  have h4 : passStep (net (stuck k [echo k]) (stuck k []) k k k k [echo k] []) (.B, .deliver 0) = some (stormNet k) :=
    passStep_B (pass_deliver hecho (stuck_hears hk))
  have hA : pushed (net (stuck k []) (stuck k []) k k k k [echo k] [echo k]) (.A, .deliver 0) = [echo k] :=
    pushed_deliver hecho (stuck_hears hk)
  have hB : pushed (net (stuck k [echo k]) (stuck k []) k k k k [echo k] []) (.B, .deliver 0) = [echo k] :=
    pushed_deliver (b := stuck k [echo k]) hecho (stuck_hears hk)
  have htransmit : ∀ (n : Network) (party : Party), pushed n (party, .transmit) = [] := by
    rintro n (_ | _) <;> rfl
  simp only [exchange, List.cons_append, List.nil_append]
  rw [outputs_cons h1, outputs_cons h2, outputs_cons h3, outputs_cons h4, htransmit, htransmit, hA, hB]
  rfl

theorem exchanges_length (hk : k < 2 ^ 33) : ∀ m : ℕ,
    (outputs passStep pushed (stormNet k) (List.replicate m exchange).flatten).length = 2 * m
  | 0 => rfl
  | m + 1 => by
    calc (outputs passStep pushed (stormNet k) (List.replicate (m + 1) exchange).flatten).length
        = (outputs passStep pushed (stormNet k) (List.replicate m exchange).flatten).length + 2 := by
          rw [List.replicate_succ, List.flatten_cons, exchange_outputs hk, List.length_cons, List.length_cons]
      _ = 2 * (m + 1) := by
          rw [exchanges_length hk m]
          omega

/-- From the state after the rounds, the runs push any number of segments. -/
theorem farNet_unbounded (hk : k < 2 ^ 33) (hw : dataAt 0 = dataAt k) (N : ℕ) :
    ∃ ts, N < (outputs passStep pushed (farNet k) ts).length := by
  refine ⟨[(.A, .deliver 0), (.B, .deliver 0)] ++ (List.replicate (N + 1) exchange).flatten, ?_⟩
  obtain ⟨n₁, h1, hrest⟩ := run_cons.mp (farNet_passes hk hw)
  obtain ⟨n₂, h2, hnil⟩ := run_cons.mp hrest
  obtain rfl := Option.some.inj hnil
  simp only [List.cons_append, List.nil_append]
  rw [outputs_cons h1, outputs_cons h2, List.length_append, List.length_append, exchanges_length hk]
  omega

/-- **No bound**: there is a state of two connections and the segments between
them from which no number bounds what is pushed. -/
theorem pushes_unbounded : ¬ ∀ (cfgA cfgB : TCPConfig) (isnA isnB : WrappingInt32) (es : List (Party × Action))
    (n : Network), run Network.step (Network.start cfgA cfgB isnA isnB) es = some n →
      ∃ N, ∀ ts, (outputs passStep pushed n ts).length ≤ N := by
  intro hall
  have hreach : ∀ {m : ℕ}, m < 2 ^ 33 →
      ∃ es, run Network.step (Network.start cfg cfg ⟨0⟩ ⟨0⟩) es = some (farNet (m + 1)) := fun hm =>
    ⟨_, run_append_eq_some.mpr ⟨farNet 1, opening_run, rounds_run hm⟩⟩
  obtain ⟨es, hes⟩ := hreach (m := 2 ^ 32 - 1) (by norm_num)
  obtain ⟨N, hN⟩ := hall cfg cfg ⟨0⟩ ⟨0⟩ es _ hes
  obtain ⟨ts, hts⟩ := farNet_unbounded (k := 2 ^ 32 - 1 + 1) (by norm_num) dataAt_wraps N
  exact absurd (hN ts) (not_le.mpr hts)

end Storm
end Sponge

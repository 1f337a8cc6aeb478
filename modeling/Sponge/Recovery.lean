/-
# Nothing is stuck

Whatever was lost, the network can still deliver all of it: from every reachable
state in which no stream is in error, and no side is at the limit of its
retransmissions, some ticks, reads, transmissions and deliveries, and no other
call, give each reader all that the other writer put in. Where a side waits for
an acknowledgment, one round gets it further (`Able.round`): the other reads, a
tick has the oldest segment sent again, it arrives, and its answer arrives.

Key definitions: `Network.Action.Owed`, `Network.Able`, `Network.Healthy`,
`Network.Caught`, `Network.Answered`.
Key theorems: `TCPConnection.answers`, `TCPConnection.taken`, `Network.Able.leads`,
`Network.Able.round`, `Network.recovers`.
-/
import Sponge.Lib.Rounds
import Sponge.Pace
import Sponge.Progress

namespace Sponge

/-! ### One arrival -/

namespace TCPReceiver

/-- Once its reader has everything, the receiver has room for a segment. -/
def Roomy (rcv : TCPReceiver) : Prop :=
  ∃ capacity, TCPConfig.maxPayloadSize < capacity ∧ capacity ≤ 2 ^ 62 ∧
    StreamReassembler.Held capacity TCPConfig.maxPayloadSize rcv.reassembler

variable {rcv rcv' : TCPReceiver} {seg : TCPSegment}

theorem edge_le {capacity l : ℕ} (h : StreamReassembler.Held capacity l rcv.reassembler) (hc : capacity ≤ 2 ^ 62)
    (hread : rcv.streamOut.bytesRead ≤ 2 ^ 62) : rcv.reassembler.edge ≤ 2 ^ 63 := by
  have hcap := h.cap
  unfold StreamReassembler.edge
  calc rcv.reassembler.output.bytesRead + rcv.reassembler.output.capacity
    _ ≤ 2 ^ 62 + 2 ^ 62 := Nat.add_le_add hread (hcap.trans_le hc)
    _ = 2 ^ 63 := by norm_num

theorem Roomy.setError (h : rcv.Roomy) : rcv.setError.Roomy := by
  obtain ⟨capacity, h1, h2, h3⟩ := h
  exact ⟨capacity, h1, h2, h3.setError⟩

theorem Roomy.read (h : rcv.Roomy) (len : ℕ) : (rcv.read len).2.Roomy := by
  obtain ⟨capacity, h1, h2, h3⟩ := h
  exact ⟨capacity, h1, h2, h3.read len⟩

theorem Roomy.segmentReceived (h : rcv.Roomy) (hread : rcv.streamOut.bytesRead ≤ 2 ^ 62) (hseg : seg.Fits)
    (hs : rcv.segmentReceived seg = some rcv') : rcv'.Roomy := by
  obtain ⟨capacity, h1, h2, h3⟩ := h
  obtain ⟨hr, -⟩ := synced_reassembler rcv seg
  have hedge := edge_le h3 h2 hread
  refine ⟨capacity, h1, h2, ?_⟩
  rcases segmentReceived_cases hs with rfl | ⟨data, index, hl, hi, hp⟩
  · exact hr.symm ▸ h3
  · have hlen := hl.trans hseg.payload_le
    have hd : data.length < 2 ^ 63 := lt_of_le_of_lt hlen (by decide)
    rw [← hr] at h3 hedge
    obtain ⟨r', hr', hh⟩ := h3.push hedge hd hi hlen seg.header.fin
    simp only [push, hr', Option.map_some, Option.some.injEq] at hp
    subst hp
    exact hh

variable {isn : WrappingInt32} {accepted got : Bytes} {ended : Bool}

theorem Hears.bytesRead_le (h : rcv.Hears isn accepted ended got) : rcv.streamOut.bytesRead ≤ accepted.length := by
  have hcount := rcv.streamOut.count
  have hle : rcv.streamOut.bytesWritten ≤ accepted.length := h.assembles.written_le
  omega

/-- So it gets on with the segment it waits for. -/
theorem Roomy.gets_on {k : ℕ} (h : rcv.Roomy) (hh : rcv.Hears isn accepted ended got) (hS : accepted.length < 2 ^ 30)
    (herr : rcv.streamOut.error = false) (hdrained : rcv.streamOut.buffer = [])
    (hc : Carries isn accepted ended k seg) (hk : k ≤ rcv.received)
    (hlt : rcv.received < k + seg.lengthInSequenceSpace) (hs : rcv.segmentReceived seg = some rcv') :
    rcv.received < rcv'.received := by
  obtain ⟨capacity, h1, h2, h3⟩ := h
  have hread := hh.bytesRead_le
  have hedge := edge_le h3 h2 (by omega)
  exact TCPReceiver.gets_on hh hS h3 h1 hedge herr hdrained hc hk hlt hs

/-- A receiver that has something acknowledges it. -/
theorem Hears.ackno_of_received (h : rcv.Hears isn accepted ended got) (hpos : 0 < rcv.received) :
    rcv.ackno = some (wrap rcv.received isn) := by
  have hsyn : rcv.synReceived = true := by
    by_contra hno
    exact hpos.ne' (if_neg hno)
  have hsome : rcv.ackno = some (wrap rcv.absAck rcv.isn) := if_neg (by rw [hsyn]; decide)
  rw [hsome, received, if_pos hsyn, h.isn hsyn]

end TCPReceiver

/-- The number of the oldest outstanding segment. -/
theorem TCPSender.Speaks.oldest {s : TCPSender} {accepted : Bytes} {ended : Bool} (h : s.Speaks accepted ended)
    (hS : accepted.length < 2 ^ 30) (hp : TCPSender.Plain s) {seg : TCPSegment} {segs : List TCPSegment}
    (ho : s.segmentsOutstanding = seg :: segs) : ∃ k, Carries s.isn accepted ended k seg ∧ k ≤ s.lastAckSeqno ∧
      s.lastAckSeqno < k + seg.lengthInSequenceSpace := by
  obtain ⟨a, ha, hchain, hopen⟩ := h.wf.chain
  rw [ho] at hchain hopen
  obtain ⟨hseqno, hpos, -, -⟩ := hchain
  have hmem : seg ∈ s.segmentsOutstanding := ho ▸ List.mem_cons_self
  obtain ⟨hgenuine, -⟩ := h.outstanding seg hmem
  have hrst := hp.2 seg hmem
  rcases hgenuine with hc | hc | ⟨k, hc⟩
  · exact absurd (hrst.symm.trans hc) Bool.false_ne_true
  · omega
  · have hle := hc.length_le
    have hnext := h.next_le
    have hacked := h.wf.acked_le
    have hmod := wrap_eq_iff.mp (hseqno.symm.trans hc.seqno)
    have hak : a = k := by split_ifs at hnext <;> omega
    exact ⟨k, hc, hak ▸ ha, hak ▸ hopen⟩

namespace TCPConnection

open TCPSender

variable {c c' : TCPConnection} {seg : TCPSegment}

/-- A stamp leaves what is carried alone. -/
theorem stamp_carries {isn : WrappingInt32} {accepted : Bytes} {ended : Bool} {k : ℕ}
    (h : Carries isn accepted ended k seg) (rcv : TCPReceiver) : Carries isn accepted ended k (stamp rcv seg) := by
  unfold stamp
  cases rcv.ackno with
  | none => exact h
  | some ackno => exact ⟨h.seqno, h.syn, h.piece, h.le, h.fin⟩

/-- A response sends no reset and leaves the counter of retransmissions alone. -/
theorem respond_plain (h : c.sender.Plain) (seg : TCPSegment) :
    (∃ new, (c.respond seg).segmentsOut = c.segmentsOut ++ new ∧ ∀ x ∈ new, x.header.rst = false) ∧
      (c.respond seg).sender.consecutiveRetransmissions = c.sender.consecutiveRetransmissions := by
  apply respond_induct
    (P := fun d => d.sender.Plain ∧ d.segmentsOut = c.segmentsOut ∧
      d.sender.consecutiveRetransmissions = c.sender.consecutiveRetransmissions)
    (Q := fun d => (∃ new, d.segmentsOut = c.segmentsOut ++ new ∧ ∀ x ∈ new, x.header.rst = false) ∧
      d.sender.consecutiveRetransmissions = c.sender.consecutiveRetransmissions)
  · exact fun d hd => ⟨hd.1.fillWindow, hd.2.1, (fillWindow_frame d.sender).retx.trans hd.2.2⟩
  · exact fun d hd => ⟨hd.1.sendEmptySegment, hd.2.1, hd.2.2⟩
  · exact fun d hd => hd
  · exact fun d hd => hd
  · intro d ⟨hplain, hout, hretx⟩
    refine ⟨⟨d.sender.segmentsOut.map (stamp d.receiver), ?_, fun x hx => ?_⟩, hretx⟩
    · rw [sendSegments_segmentsOut, hout]
    · obtain ⟨y, hy, rfl⟩ := List.mem_map.mp hx
      exact (stamp_rst d.receiver y).trans (hplain.1 y hy)
  · exact ⟨h, rfl, rfl⟩

theorem acked_retx_le (c : TCPConnection) (seg : TCPSegment) :
    (c.acked seg).consecutiveRetransmissions ≤ c.sender.consecutiveRetransmissions := by
  unfold acked
  split_ifs
  · rw [ackReceived_retx]
    split_ifs
    · exact Nat.zero_le _
    · exact le_rfl
  · exact le_rfl

/-- What a response to a segment that occupies sequence numbers pushes last. -/
theorem respond_last {a : WrappingInt32} (h : c.sender.Lively) (hqueue : c.sender.Filled)
    (hack : c.receiver.ackno = some a) (hlen : 0 < seg.lengthInSequenceSpace) :
    ∃ front z, (c.respond seg).segmentsOut = front ++ [z] ∧ z.header.rst = false ∧ z.header.ack = true ∧
      z.header.ackno = a := by
  obtain ⟨⟨new, hout, hrst⟩, -⟩ := respond_plain h.plain seg
  obtain ⟨d, ⟨hne, -⟩, hd, he⟩ := respond_answering h.wf hqueue hlen
  have hreceiver : d.receiver = c.receiver := by
    rw [← (respond_responds h.wf seg).receiver, he]
    rfl
  have hmap : new = d.sender.segmentsOut.map (stamp c.receiver) := by
    have hsplit : c.segmentsOut ++ new = c.segmentsOut ++ d.sender.segmentsOut.map (stamp c.receiver) := by
      rw [← hout, he, sendSegments_segmentsOut, hd, hreceiver]
    exact List.append_cancel_left hsplit
  have hnonempty : new ≠ [] := by
    rw [hmap]
    exact fun hnil => hne (List.map_eq_nil_iff.mp hnil)
  have hstamped : ∀ x ∈ new, x.header.ack = true ∧ x.header.ackno = a := by
    intro x hx
    rw [hmap] at hx
    obtain ⟨y, -, rfl⟩ := List.mem_map.mp hx
    obtain ⟨h1, h2, -⟩ := stamp_fields hack y
    exact ⟨h1, h2⟩
  have hlast := List.getLast_mem hnonempty
  refine ⟨c.segmentsOut ++ new.dropLast, new.getLast hnonempty, ?_, hrst _ hlast, hstamped _ hlast⟩
  rw [hout, List.append_assoc, List.dropLast_append_getLast hnonempty]

/-- **An answer**: the segment that a sender waits with arrives at a connection
whose reader has everything, and what is pushed last acknowledges more than the
sender counts. -/
theorem answers {isn : WrappingInt32} {accepted got : Bytes} {ended : Bool} {k l : ℕ} (h : Lively c)
    (ha : c.isActive = true) (hh : c.receiver.Hears isn accepted ended got) (hS : accepted.length < 2 ^ 30)
    (hroomy : c.receiver.Roomy) (herr : c.sender.stream.error = false) (hdrained : c.receiver.streamOut.buffer = [])
    (hc : Carries isn accepted ended k seg) (hrst : seg.header.rst = false) (hkl : k ≤ l)
    (hl : l ≤ c.receiver.received) (hlt : l < k + seg.lengthInSequenceSpace) :
    ∃ c' front z, c.segmentReceived seg = some c' ∧ c'.segmentsOut = front ++ [z] ∧ z.header.rst = false ∧
      z.header.ack = true ∧ z.header.ackno = wrap c'.receiver.received isn ∧ l < c'.receiver.received ∧
      c'.sender.stream.error = false ∧
      c'.sender.consecutiveRetransmissions ≤ c.sender.consecutiveRetransmissions := by
  obtain ⟨rcv, hrcv, hh', hmono⟩ := hh.segmentReceived hS (Or.inr (Or.inr ⟨k, hc⟩)) hrst
  have hmore : l < rcv.received := by
    by_cases hold : c.receiver.received < k + seg.lengthInSequenceSpace
    · have herr' := h.steady.sound.error.trans herr
      exact hl.trans_lt (hroomy.gets_on hh hS herr' hdrained hc (hkl.trans hl) hold hrcv)
    · omega
  have hackno : rcv.ackno = some (wrap rcv.received isn) := hh'.ackno_of_received (by omega)
  -- the connection when it responds
  obtain ⟨d, hd⟩ : ∃ d : TCPConnection, d =
      { c with timeSinceLastSegmentReceived := 0, receiver := rcv, sender := c.acked seg } := ⟨_, rfl⟩
  have hs : c.segmentReceived seg = some (d.respond seg) := by
    rw [segmentReceived_eq ha hrst, hrcv, hd]
    rfl
  have hreceiver : d.receiver = rcv := by rw [hd]
  have hsender : d.sender = c.acked seg := by rw [hd]
  have hlively : d.sender.Lively := hsender ▸ acked_lively h.sender seg
  have hqueue : d.sender.Filled := hsender ▸ acked_filled (filled_of_nil (h.steady.queue ha)) seg
  have hack : d.receiver.ackno = some (wrap rcv.received isn) := by rw [hreceiver, hackno]
  have hpos : 0 < seg.lengthInSequenceSpace := by omega
  obtain ⟨front, z, hout, hzrst, hzack, hzackno⟩ := respond_last hlively hqueue hack hpos
  have hres := respond_responds hlively.wf seg
  obtain ⟨-, hretx⟩ := respond_plain hlively.plain seg
  refine ⟨d.respond seg, front, z, hs, hout, hzrst, hzack, ?_, ?_, ?_, ?_⟩
  · rw [hres.receiver, hreceiver]
    exact hzackno
  · rw [hres.receiver, hreceiver]
    exact hmore
  · rw [hres.error, hsender, acked_error]
    exact herr
  · rw [hretx, hsender]
    exact acked_retx_le c seg

/-- **An acknowledgment** of more than the sender counts is taken. -/
theorem taken {k : ℕ} (h : Lively c) (ha : c.isActive = true) (hrst : seg.header.rst = false)
    (hack : seg.header.ack = true) (hackno : seg.header.ackno = wrap k c.sender.isn) (hk : c.sender.lastAckSeqno < k)
    (hnext : k ≤ c.sender.nextSeqno) (hsmall : c.sender.nextSeqno < 2 ^ 31) (hs : c.segmentReceived seg = some c') :
    c.sender.lastAckSeqno < c'.sender.lastAckSeqno ∧ c'.sender.consecutiveRetransmissions = 0 ∧
      c'.sender.stream.error = c.sender.stream.error := by
  have hu : unwrap seg.header.ackno c.sender.isn c.sender.nextSeqno = k := by
    rw [hackno]
    exact unwrap_wrap c.sender.isn (by omega) (by omega) (Or.inr (by omega))
  have hacked : c.acked seg = c.sender.ackReceived seg.header.ackno seg.header.win := if_pos hack
  rcases segment_cases hs with ⟨hno, -⟩ | ⟨-, hr, -⟩ | ⟨-, -, receiver, -, rfl⟩
  · exact absurd (ha.symm.trans hno) (by decide)
  · exact absurd (hrst.symm.trans hr) Bool.false_ne_true
  · have hres := respond_responds
      (c := { c with timeSinceLastSegmentReceived := 0, receiver, sender := c.acked seg })
      (acked_wf h.sender.wf seg) seg
    obtain ⟨-, hretx⟩ := respond_plain
      (c := { c with timeSinceLastSegmentReceived := 0, receiver, sender := c.acked seg })
      (acked_lively h.sender seg).plain seg
    refine ⟨?_, ?_, hres.error.trans (acked_error c seg)⟩
    · rw [hres.lastAck]
      show _ < (c.acked seg).lastAckSeqno
      rw [hacked, ackReceived_lastAck, hu, if_neg (by omega)]
      omega
    · rw [hretx]
      show (c.acked seg).consecutiveRetransmissions = 0
      rw [hacked, ackReceived_retx, hu, if_pos ⟨hk, hnext⟩]

/-- What arrives fits. -/
def Op.Fits : Op → Prop
  | .segment seg => seg.Fits
  | _ => True

/-- Every call leaves the receiver room. -/
theorem step_roomy (h : Lively c) (hroomy : c.receiver.Roomy) (hread : c.receiver.streamOut.bytesRead ≤ 2 ^ 62)
    {op : Op} (hop : op.Fits) (hs : step c op = some c') : c'.receiver.Roomy := by
  cases op with
  | segment seg =>
    change c.segmentReceived seg = some c' at hs
    rcases segment_cases hs with ⟨-, rfl⟩ | ⟨-, -, rfl⟩ | ⟨-, -, receiver, hrcv, rfl⟩
    · exact hroomy
    · exact hroomy.setError
    · have hres := respond_responds
        (c := { c with timeSinceLastSegmentReceived := 0, receiver, sender := c.acked seg })
        (acked_wf h.sender.wf seg) seg
      rw [hres.receiver]
      exact hroomy.segmentReceived hread hop hrcv
  | tick ms =>
    obtain rfl := Option.some.inj hs
    rcases Bool.eq_false_or_eq_true c.isActive with ha | ha
    · rcases tick_cases ha ms with ⟨-, he⟩ | ⟨-, he⟩ <;> rw [he]
      · exact hroomy.setError
      · exact hroomy
    · rw [tick_of_inactive ha]
      exact hroomy
  | read len =>
    obtain rfl := Option.some.inj hs
    exact hroomy.read len
  | _ =>
    obtain rfl := Option.some.inj hs
    exact hroomy

end TCPConnection

/-! ### The network -/

namespace Network

open TCPSender TCPConnection Runs

/-- What happens without the writers: time passes, a reader reads, a segment
goes on its way or arrives. -/
def Action.Owed : Action → Prop
  | .tick _ => True
  | .read _ => True
  | .transmit => True
  | .deliver _ => True
  | _ => False

def Owed (e : Party × Action) : Prop := e.2.Owed

/-- What every run keeps that recovery needs. -/
structure Able (n : Network) : Prop where
  inv : Inv n
  paced : Paced n
  livelyA : n.a.conn.Lively
  livelyB : n.b.conn.Lively
  roomyA : n.a.conn.receiver.Roomy
  roomyB : n.b.conn.receiver.Roomy
  toA : ∀ seg ∈ n.toA, seg.Fits
  toB : ∀ seg ∈ n.toB, seg.Fits

/-- No stream is in error, and no side is at the limit of its retransmissions. -/
structure Healthy (n : Network) : Prop where
  errorA : n.a.conn.sender.stream.error = false
  errorB : n.b.conn.sender.stream.error = false
  retxA : n.a.conn.sender.consecutiveRetransmissions < TCPConfig.maxRetxAttempts
  retxB : n.b.conn.sender.consecutiveRetransmissions < TCPConfig.maxRetxAttempts

/-- From `n` to `n'` nothing is written, and nothing acknowledged is taken back. -/
structure Kept (n n' : Network) : Prop where
  acceptedA : n'.a.accepted = n.a.accepted
  acceptedB : n'.b.accepted = n.b.accepted
  endedA : n'.a.ended = n.a.ended
  endedB : n'.b.ended = n.b.ended
  lastAckA : n.a.conn.sender.lastAckSeqno ≤ n'.a.conn.sender.lastAckSeqno
  lastAckB : n.b.conn.sender.lastAckSeqno ≤ n'.b.conn.sender.lastAckSeqno

/-- `y` has all that `x` accepted, and its end if `x` is done. -/
def Caught (x y : Side) : Prop :=
  y.conn.receiver.streamOut.bytesWritten = x.accepted.length ∧
    (x.ended = true → y.conn.receiver.streamOut.inputEnded = true)

variable {n n' n'' : Network}

theorem Able.swap (h : Able n) : Able n.swap :=
  ⟨h.inv.swap, h.paced.swap, h.livelyB, h.livelyA, h.roomyB, h.roomyA, h.toB, h.toA⟩

theorem Healthy.swap (h : Healthy n) : Healthy n.swap := ⟨h.errorB, h.errorA, h.retxB, h.retxA⟩

theorem Kept.refl (n : Network) : Kept n n := ⟨rfl, rfl, rfl, rfl, le_rfl, le_rfl⟩

theorem Kept.swap (h : Kept n n') : Kept n.swap n'.swap :=
  ⟨h.acceptedB, h.acceptedA, h.endedB, h.endedA, h.lastAckB, h.lastAckA⟩

theorem Kept.trans (h : Kept n n') (h' : Kept n' n'') : Kept n n'' where
  acceptedA := h'.acceptedA.trans h.acceptedA
  acceptedB := h'.acceptedB.trans h.acceptedB
  endedA := h'.endedA.trans h.endedA
  endedB := h'.endedB.trans h.endedB
  lastAckA := h.lastAckA.trans h'.lastAckA
  lastAckB := h.lastAckB.trans h'.lastAckB

theorem Kept.bounded (h : Kept n n') (hb : Bounded n) : Bounded n' := by
  unfold Bounded
  rw [h.acceptedA, h.acceptedB]
  exact hb

theorem Able.start {cfgA cfgB : TCPConfig} (isnA isnB : WrappingInt32)
    (hA : TCPConfig.maxPayloadSize < cfgA.recvCapacity ∧ cfgA.recvCapacity ≤ 2 ^ 62)
    (hB : TCPConfig.maxPayloadSize < cfgB.recvCapacity ∧ cfgB.recvCapacity ≤ 2 ^ 62) :
    Able (start cfgA cfgB isnA isnB) where
  inv := Inv.start cfgA cfgB isnA isnB
  paced := Paced.start cfgA cfgB isnA isnB
  livelyA := init_lively cfgA isnA
  livelyB := init_lively cfgB isnB
  roomyA := ⟨_, hA.1, hA.2, StreamReassembler.held_init _ _⟩
  roomyB := ⟨_, hB.1, hB.2, StreamReassembler.held_init _ _⟩
  toA := fun _ hseg => absurd hseg List.not_mem_nil
  toB := fun _ hseg => absurd hseg List.not_mem_nil

/-- What happens at A keeps it able. -/
theorem Able.act (h : Able n) (hb : Bounded n) {action : Action} (hs : n.act action = some n') : Able n' := by
  have hpaced := h.paced.act hb hs
  have hinv : Inv n' := by
    obtain ⟨n₁, h1, h2⟩ := h.inv.act hb action
    obtain rfl := Option.some.inj (h1.symm.trans hs)
    exact h2
  have hread : n.a.conn.receiver.streamOut.bytesRead ≤ 2 ^ 62 := by
    have hle := h.inv.ba.hears.bytesRead_le
    have hbound := hb.2
    omega
  have hcall : ∀ (op : TCPConnection.Op) {x : Side}, op.Fits → TCPConnection.step n.a.conn op = some x.conn →
      n' = { n with a := x } → Able n' := by
    intro op x hop hx hn
    subst hn
    exact ⟨hinv, hpaced, step_lively h.livelyA hx, h.livelyB, step_roomy h.livelyA h.roomyA hread hop hx, h.roomyB,
      h.toA, h.toB⟩
  cases action with
  | connect => exact hcall .connect trivial rfl (Option.some.inj hs).symm
  | write data => exact hcall (.write data) trivial rfl (Option.some.inj hs).symm
  | endInputStream => exact hcall .endInputStream trivial rfl (Option.some.inj hs).symm
  | tick ms => exact hcall (.tick ms) trivial rfl (Option.some.inj hs).symm
  | read len => exact hcall (.read len) trivial rfl (Option.some.inj hs).symm
  | transmit =>
    obtain rfl := Option.some.inj hs
    unfold transmit at hinv hpaced ⊢
    cases hout : n.a.conn.segmentsOut with
    | nil => exact h
    | cons seg segs =>
      rw [hout] at hinv hpaced
      have hfit : ∀ x ∈ seg :: segs, x.Fits := fun x hx => h.livelyA.fit.out x (hout.symm ▸ hx)
      have hs := h.livelyA.steady
      have hlively : Lively { n.a.conn with segmentsOut := segs } :=
        ⟨⟨⟨hs.sound.wf, hs.sound.error⟩, hs.queue, hs.opened, hs.stopped⟩,
          ⟨h.livelyA.fit.sender, fun x hx => hfit x (List.mem_cons_of_mem _ hx)⟩, h.livelyA.sender⟩
      refine ⟨hinv, hpaced, hlively, h.livelyB, h.roomyA, h.roomyB, h.toA, fun x hx => ?_⟩
      rcases List.mem_append.mp hx with hx | hx
      · exact h.toB x hx
      · exact List.mem_singleton.mp hx ▸ hfit seg List.mem_cons_self
  | deliver i =>
    rcases deliver_cases hs with rfl | ⟨seg, conn, hi, hconn, rfl⟩
    · exact h
    · have hfits := h.toA seg (List.mem_of_getElem? hi)
      exact hcall (.segment seg) (x := { n.a with conn }) hfits hconn rfl
  | lose i =>
    obtain rfl := Option.some.inj hs
    exact ⟨hinv, hpaced, h.livelyA, h.livelyB, h.roomyA, h.roomyB,
      fun x hx => h.toA x (List.mem_of_mem_eraseIdx hx), h.toB⟩

theorem step_able (h : Able n) (hb : Bounded n) {e : Party × Action} (hs : step n e = some n') : Able n' := by
  obtain ⟨party, action⟩ := e
  cases party with
  | A => exact h.act hb hs
  | B =>
    obtain ⟨n₁, hact, rfl⟩ := Option.map_eq_some_iff.mp hs
    exact (h.swap.act hb.symm hact).swap

/-- What is owed writes nothing and takes nothing back. -/
theorem Able.act_kept (h : Able n) {action : Action} (ho : action.Owed) (hs : n.act action = some n') :
    Kept n n' := by
  have hsound := h.livelyA.steady.sound
  cases action with
  | tick ms =>
    obtain rfl := Option.some.inj hs
    have htick : TCPConnection.step n.a.conn (.tick ms) = some (n.a.conn.tick ms) := rfl
    exact ⟨rfl, rfl, rfl, rfl, (step_onward hsound htick).sender.lastAck, le_rfl⟩
  | read len =>
    obtain rfl := Option.some.inj hs
    exact ⟨rfl, rfl, rfl, rfl, le_rfl, le_rfl⟩
  | transmit =>
    obtain rfl := Option.some.inj hs
    unfold transmit
    cases n.a.conn.segmentsOut <;> exact ⟨rfl, rfl, rfl, rfl, le_rfl, le_rfl⟩
  | deliver i =>
    rcases deliver_cases hs with rfl | ⟨seg, conn, hi, hconn, rfl⟩
    · exact Kept.refl _
    · have hseg : TCPConnection.step n.a.conn (.segment seg) = some conn := hconn
      exact ⟨rfl, rfl, rfl, rfl, (step_onward hsound hseg).sender.lastAck, le_rfl⟩
  | _ => exact absurd ho id

theorem Able.step_kept (h : Able n) {e : Party × Action} (ho : Owed e) (hs : step n e = some n') : Kept n n' := by
  obtain ⟨party, action⟩ := e
  cases party with
  | A => exact h.act_kept ho hs
  | B =>
    obtain ⟨n₁, hact, rfl⟩ := Option.map_eq_some_iff.mp hs
    exact (h.swap.act_kept ho hact).swap

/-- So does any number of such events. -/
theorem Able.leads (h : Able n) (hb : Bounded n) (hl : Leads step Owed n n') : Able n' ∧ Kept n n' := by
  have hboth : (Able n' ∧ Bounded n') ∧ Kept n n' := by
    refine hl.invariant (I := fun m => (Able m ∧ Bounded m) ∧ Kept n m) ?_ ⟨⟨h, hb⟩, Kept.refl n⟩
    rintro m e m' ⟨⟨h1, h2⟩, h3⟩ ho hs
    have hk := h1.step_kept ho hs
    exact ⟨⟨step_able h1 h2 hs, hk.bounded h2⟩, h3.trans hk⟩
  exact ⟨hboth.1.1, hboth.2⟩

/-! ### A round -/

/-- The event with the parties exchanged. -/
def exchanged : Party × Action → Party × Action
  | (.A, action) => (.B, action)
  | (.B, action) => (.A, action)

theorem step_swap (n : Network) (e : Party × Action) : step n.swap (exchanged e) = (step n e).map swap := by
  obtain ⟨party, action⟩ := e
  cases party with
  | A => rfl
  | B =>
    show n.swap.act action = ((n.swap.act action).map swap).map swap
    cases n.swap.act action <;> rfl

theorem leads_swap (h : Leads step Owed n n') : Leads step Owed n.swap n'.swap := by
  refine h.map (g := exchanged) (fun e he => ?_) step_swap
  obtain ⟨party, action⟩ := e
  cases party <;> exact he

/-- All that A pushed goes on its way. -/
theorem leads_transmit : ∀ {segs : List TCPSegment} {n : Network}, n.a.conn.segmentsOut = segs →
    ∃ n', Leads step Owed n n' ∧ n'.a = { n.a with conn := { n.a.conn with segmentsOut := [] } } ∧ n'.b = n.b ∧
      n'.toB = n.toB ++ segs
  | [], n, h => by
    refine ⟨n, Leads.refl n, ?_, rfl, (List.append_nil _).symm⟩
    rw [← h]
  | seg :: segs, n, h => by
    have hstep : step n (.A, .transmit) =
        some { n.setConn { n.a.conn with segmentsOut := segs } with toB := n.toB ++ [seg] } := by
      show some n.transmit = _
      unfold transmit
      rw [h]
    obtain ⟨n', h1, h2, h3, h4⟩ := leads_transmit
      (n := { n.setConn { n.a.conn with segmentsOut := segs } with toB := n.toB ++ [seg] }) (rfl : _ = segs)
    refine ⟨n', (Leads.of_step (e := (.A, .transmit)) trivial hstep).trans h1, h2, h3, ?_⟩
    rw [h4, List.append_assoc, List.singleton_append]

theorem deliver_eq {i : ℕ} {seg : TCPSegment} (h : n.toA[i]? = some seg) :
    n.deliver i = (n.a.conn.segmentReceived seg).map n.setConn := by
  unfold deliver
  rw [h]

/-- What A pushed last arrives at B. -/
theorem leads_deliver {front : List TCPSegment} {z : TCPSegment} {c : TCPConnection}
    (hout : n.a.conn.segmentsOut = front ++ [z]) (hs : n.b.conn.segmentReceived z = some c) :
    ∃ n', Leads step Owed n n' ∧ n'.a = { n.a with conn := { n.a.conn with segmentsOut := [] } } ∧
      n'.b = { n.b with conn := c } := by
  obtain ⟨n₁, h1, ha, hb, hto⟩ := leads_transmit hout
  have hlast : n₁.swap.toA[(n.toB ++ front).length]? = some z := by
    show n₁.toB[(n.toB ++ front).length]? = some z
    rw [hto, ← List.append_assoc]
    exact List.getElem?_concat_length
  have hstep : step n₁ (.B, .deliver (n.toB ++ front).length) = some { n₁ with b := { n.b with conn := c } } := by
    show (n₁.swap.deliver _).map swap = _
    rw [deliver_eq hlast]
    show ((n₁.b.conn.segmentReceived z).map n₁.swap.setConn).map swap = _
    rw [hb, hs, ← hb]
    rfl
  exact ⟨_, h1.trans (Leads.of_step (e := (.B, .deliver _)) trivial hstep), ha, rfl⟩

/-- B's reader takes what there is. -/
theorem leads_read (herr : n.b.conn.receiver.streamOut.error = false) : ∃ n', Leads step Owed n n' ∧ n'.a = n.a ∧
    n'.b.conn.sender = n.b.conn.sender ∧ n'.b.conn.isActive = n.b.conn.isActive ∧
    n'.b.conn.receiver.streamOut.buffer = [] ∧
    n'.b.conn.receiver.streamOut.bytesWritten = n.b.conn.receiver.streamOut.bytesWritten ∧
    n'.b.conn.receiver.streamOut.inputEnded = n.b.conn.receiver.streamOut.inputEnded := by
  have hstep : step n (.B, .read n.b.conn.receiver.streamOut.buffer.length) = some
      { n with
        b :=
          { n.b with
            conn := (n.b.conn.readInbound n.b.conn.receiver.streamOut.buffer.length).2
            got := n.b.got ++ (n.b.conn.readInbound n.b.conn.receiver.streamOut.buffer.length).1 } } := rfl
  refine ⟨_, Leads.of_step (e := (.B, .read _)) trivial hstep, rfl, rfl, rfl, ?_,
    ByteStream.popOutput_bytesWritten _ _, ByteStream.popOutput_inputEnded _ _⟩
  show (n.b.conn.receiver.streamOut.popOutput _).buffer = []
  rw [ByteStream.popOutput_buffer, herr, if_neg Bool.false_ne_true, List.drop_length]

/-- A receiver with every number has everything. -/
theorem Able.caught (h : Able n) (hended : n.b.conn.receiver.streamOut.inputEnded = true) : Caught n.a n.b :=
  ⟨(h.inv.ab.hears.assembles.ended hended).2, fun _ => hended⟩

/-- With everything acknowledged, everything has arrived. -/
theorem Able.caught_of_acked (h : Able n) (herr : n.a.conn.sender.stream.error = false)
    (hacked : n.a.conn.sender.lastAckSeqno = n.a.conn.sender.nextSeqno) : Caught n.a n.b := by
  have hwritten := h.inv.ab.speaks.written
  have hend := h.inv.ab.speaks.inputEnded
  have hlast := h.inv.ab.lastAck
  have hle : n.b.conn.receiver.streamOut.bytesWritten ≤ n.a.accepted.length := h.inv.ab.hears.assembles.written_le
  rcases h.livelyA.sender.sated.all_sent h.livelyA.sender.wf herr hacked with hsent | ⟨h0, hopen⟩
  · rw [hend] at hsent
    have habs := TCPReceiver.absAck_eq n.b.conn.receiver
    have hrec : n.b.conn.receiver.received ≤ n.b.conn.receiver.absAck := by
      unfold TCPReceiver.received
      split_ifs
      · exact le_rfl
      · exact Nat.zero_le _
    by_cases hin : n.b.conn.receiver.streamOut.inputEnded = true
    · exact h.caught hin
    · rw [if_neg hin] at habs
      split_ifs at hsent with he
      · omega
      · exact ⟨by omega, fun hc => absurd hc he⟩
  · refine ⟨by omega, fun hc => absurd (hend.trans hc) ?_⟩
    rw [hopen]
    decide

/-- Unless B has everything, both sides are active. -/
theorem Able.active (h : Able n) (hh : Healthy n) (hcaught : ¬ Caught n.a n.b) :
    n.a.conn.isActive = true ∧ n.b.conn.isActive = true := by
  constructor
  · by_contra hc
    rcases h.livelyA.steady.stopped (Bool.not_eq_true _ ▸ hc) with he | hclosed
    · exact Bool.false_ne_true (hh.errorA.symm.trans he)
    · obtain ⟨-, -, hacked⟩ := (streamsClosed_iff h.livelyA.sender.wf).mp hclosed
      exact hcaught (h.caught_of_acked hh.errorA hacked)
  · by_contra hc
    rcases h.livelyB.steady.stopped (Bool.not_eq_true _ ▸ hc) with he | hclosed
    · exact Bool.false_ne_true (hh.errorB.symm.trans he)
    · exact hcaught (h.caught ((streamsClosed_iff h.livelyB.sender.wf).mp hclosed).1)

/-- The segment that B pushed last acknowledges more than A counts. -/
structure Answered (n : Network) (z : TCPSegment) : Prop where
  pushed : ∃ front, n.b.conn.segmentsOut = front ++ [z]
  rst : z.header.rst = false
  ack : z.header.ack = true
  ackno : z.header.ackno = wrap n.b.conn.receiver.received n.a.conn.sender.isn
  more : n.a.conn.sender.lastAckSeqno < n.b.conn.receiver.received
  active : n.a.conn.isActive = true
  errorA : n.a.conn.sender.stream.error = false
  errorB : n.b.conn.sender.stream.error = false
  retxB : n.b.conn.sender.consecutiveRetransmissions < TCPConfig.maxRetxAttempts

/-- The first half of a round: B reads, and what A sends again is answered. -/
theorem Able.answered (h : Able n) (hb : Bounded n) (hh : Healthy n) (hcaught : ¬ Caught n.a n.b) :
    ∃ n' z, Leads step Owed n n' ∧ Answered n' z := by
  have hout : n.a.conn.sender.segmentsOutstanding ≠ [] := fun hnil =>
    hcaught (h.caught_of_acked hh.errorA (h.livelyA.sender.wf.outstanding_eq_nil_iff.mp hnil))
  obtain ⟨seg, segs, ho⟩ := List.exists_cons_of_ne_nil hout
  obtain ⟨hactiveA, hactiveB⟩ := h.active hh hcaught
  obtain ⟨k, hcarries, hk, hlt⟩ := h.inv.ab.speaks.oldest hb.1 h.livelyA.sender.plain ho
  have hrst := h.livelyA.sender.plain.2 seg (ho ▸ List.mem_cons_self)
  -- B's reader takes everything
  obtain ⟨n₁, hl₁, ha₁, hs₁, hactive₁, hdrained, -, -⟩ := leads_read (h.livelyB.steady.sound.error.trans hh.errorB)
  obtain ⟨h₁, -⟩ := h.leads hb hl₁
  -- A's clock goes on, and the oldest segment is sent again
  obtain ⟨ms, htick, hpush⟩ := h.livelyA.retransmits hactiveA hh.retxA ho
  have hl₂ : Leads step Owed n (n₁.setConn (n.a.conn.tick ms)) := by
    apply hl₁.trans (Leads.of_step (e := (.A, .tick ms)) trivial _)
    rw [← ha₁]
    rfl
  -- it arrives
  have hears₁ := h₁.inv.ab.hears
  have hlast₁ := h₁.inv.ab.lastAck
  rw [ha₁] at hears₁ hlast₁
  have hlen := stamp_length n.a.conn.receiver seg
  obtain ⟨c, front, z, hc, hfront, hzrst, hzack, hzackno, hmore, herr, hretx⟩ := answers h₁.livelyB
    (hactive₁.trans hactiveB) hears₁ hb.1 h₁.roomyB (hs₁ ▸ hh.errorB) hdrained
    (stamp_carries hcarries n.a.conn.receiver) ((stamp_rst _ _).trans hrst) hk hlast₁ (hlen.symm ▸ hlt)
  obtain ⟨n₃, hl₃, ha₃, hb₃⟩ := leads_deliver (n := n₁.setConn (n.a.conn.tick ms)) hpush hc
  obtain ⟨hisn, -, hlastAck, -, -, hstream, -⟩ := tick_frame n.a.conn.sender ms
  have hsender : n₃.a.conn.sender = { n.a.conn.sender.tick ms with segmentsOut := [] } := by
    rw [ha₃]
    show (n.a.conn.tick ms).sender = _
    rw [htick]
    rfl
  refine ⟨n₃, z, hl₂.trans hl₃, ⟨front, ?_⟩, hzrst, hzack, ?_, ?_, ?_, ?_, ?_, ?_⟩
  · rw [hb₃]
    exact hfront
  · rw [hb₃, hsender]
    exact hzackno.trans (congrArg _ hisn.symm)
  · rw [hb₃, hsender]
    exact hlastAck.trans_lt hmore
  · rw [ha₃]
    show (n.a.conn.tick ms).isActive = true
    rw [htick]
  · rw [hsender]
    exact (congrArg ByteStream.error hstream).trans hh.errorA
  · rw [hb₃]
    exact herr
  · rw [hb₃]
    exact hretx.trans_lt (hs₁ ▸ hh.retxB)

/-- The second half: the answer arrives. -/
theorem Able.taken (h : Able n) (hb : Bounded n) {z : TCPSegment} (hz : Answered n z) : ∃ n', Leads step Owed n n' ∧
    Healthy n' ∧ n.a.conn.sender.lastAckSeqno < n'.a.conn.sender.lastAckSeqno := by
  obtain ⟨front, hfront⟩ := hz.pushed
  have hmem : z ∈ n.toA ++ n.b.conn.segmentsOut := by simp [hfront]
  obtain ⟨d, hd, -⟩ := h.inv.segmentReceived hb hmem
  have hnext := h.inv.ab.speaks.next_le
  have hsmall := hb.1
  obtain ⟨hgrown, hzero, hsame⟩ := TCPConnection.taken h.livelyA hz.active hz.rst hz.ack hz.ackno hz.more
    h.paced.ab.received_le (by split_ifs at hnext <;> omega) hd
  obtain ⟨n', hl, ha, hb'⟩ := leads_deliver (n := n.swap) hfront hd
  refine ⟨n'.swap, leads_swap hl, ⟨?_, ?_, ?_, ?_⟩, ?_⟩
  · show n'.b.conn.sender.stream.error = false
    rw [hb']
    exact hsame.trans hz.errorA
  · show n'.a.conn.sender.stream.error = false
    rw [ha]
    exact hz.errorB
  · show n'.b.conn.sender.consecutiveRetransmissions < _
    rw [hb']
    exact hzero.trans_lt (by decide)
  · show n'.a.conn.sender.consecutiveRetransmissions < _
    rw [ha]
    exact hz.retxB
  · show _ < n'.b.conn.sender.lastAckSeqno
    rw [hb']
    exact hgrown

/-- **A round**: A gets further, unless B has everything. -/
theorem Able.round (h : Able n) (hb : Bounded n) (hh : Healthy n) : Caught n.a n.b ∨
    ∃ n', Leads step Owed n n' ∧ Healthy n' ∧ n.a.conn.sender.lastAckSeqno < n'.a.conn.sender.lastAckSeqno := by
  by_cases hcaught : Caught n.a n.b
  · exact Or.inl hcaught
  · obtain ⟨n₁, z, hl₁, hz⟩ := h.answered hb hh hcaught
    obtain ⟨h₁, hkept₁⟩ := h.leads hb hl₁
    obtain ⟨n₂, hl₂, hh₂, hlt⟩ := h₁.taken (hkept₁.bounded hb) hz
    exact Or.inr ⟨n₂, hl₁.trans hl₂, hh₂, hkept₁.lastAckA.trans_lt hlt⟩

/-! ### Recovery -/

/-- The numbers that are not acknowledged yet, if all are used. -/
def unacknowledged (n : Network) : ℕ :=
  (n.a.accepted.length + 2 - n.a.conn.sender.lastAckSeqno) + (n.b.accepted.length + 2 - n.b.conn.sender.lastAckSeqno)

theorem Able.lastAck_le (h : Able n) : n.a.conn.sender.lastAckSeqno ≤ n.a.accepted.length + 2 := by
  have hnext := h.inv.ab.speaks.next_le
  have hacked := h.inv.ab.speaks.wf.acked_le
  split_ifs at hnext <;> omega

/-- A round in the one direction or the other leaves less. -/
theorem Able.progress (h : Able n) (hb : Bounded n) (hh : Healthy n) : (Caught n.a n.b ∧ Caught n.b n.a) ∨
    ∃ n', Leads step Owed n n' ∧ Healthy n' ∧ n'.unacknowledged < n.unacknowledged := by
  rcases h.round hb hh with hab | ⟨n', hl, hh', hlt⟩
  · rcases h.swap.round hb.symm hh.swap with hba | ⟨n', hl, hh', hlt⟩
    · exact Or.inl ⟨hab, hba⟩
    · obtain ⟨h', hkept⟩ := h.leads hb (leads_swap hl)
      have h1 := hkept.lastAckA
      have h2 : n.b.conn.sender.lastAckSeqno < n'.swap.b.conn.sender.lastAckSeqno := hlt
      have h3 : n'.swap.b.conn.sender.lastAckSeqno ≤ n'.swap.b.accepted.length + 2 := h'.swap.lastAck_le
      refine Or.inr ⟨n'.swap, leads_swap hl, hh'.swap, ?_⟩
      unfold unacknowledged
      rw [hkept.acceptedB] at h3 ⊢
      rw [hkept.acceptedA]
      omega
  · obtain ⟨h', hkept⟩ := h.leads hb hl
    have hle := h'.lastAck_le
    have h1 := hkept.lastAckB
    refine Or.inr ⟨n', hl, hh', ?_⟩
    unfold unacknowledged
    rw [hkept.acceptedA] at hle ⊢
    rw [hkept.acceptedB]
    omega

/-- A reader that has taken everything has all that the other side accepted. -/
theorem Able.got (h : Able n) (hc : Caught n.a n.b) (hdrained : n.b.conn.receiver.streamOut.buffer = []) :
    n.b.got = n.a.accepted ∧ (n.a.ended = true → n.b.conn.inboundStream.eof = true) := by
  obtain ⟨hall, hended⟩ := hc
  have hhist : n.b.got ++ n.b.conn.receiver.streamOut.buffer =
      n.a.accepted.take n.b.conn.receiver.streamOut.bytesWritten := h.inv.ab.hears.assembles.history
  refine ⟨?_, fun he => ?_⟩
  · rw [hdrained, List.append_nil, hall, List.take_length] at hhist
    exact hhist
  · have hin := hended he
    unfold inboundStream
    simp [ByteStream.eof, hin, hdrained]

/-- **Nothing is stuck**: from every reachable state in which no stream is in
error and no side is at the limit of its retransmissions, with room for a
segment at both sides, some ticks, reads, transmissions and deliveries give each
reader all that the other side accepted, and the end if that side is done. -/
theorem recovers {cfgA cfgB : TCPConfig} {isnA isnB : WrappingInt32} {es : List (Party × Action)}
    (hr : run step (start cfgA cfgB isnA isnB) es = some n) (hb : Bounded n) (hh : Healthy n)
    (hA : TCPConfig.maxPayloadSize < cfgA.recvCapacity ∧ cfgA.recvCapacity ≤ 2 ^ 62)
    (hB : TCPConfig.maxPayloadSize < cfgB.recvCapacity ∧ cfgB.recvCapacity ≤ 2 ^ 62) :
    ∃ es' n', (∀ e ∈ es', Owed e) ∧ run step n es' = some n' ∧
      n'.b.got = n.a.accepted ∧ (n.a.ended = true → n'.b.conn.inboundStream.eof = true) ∧
      n'.a.got = n.b.accepted ∧ (n.b.ended = true → n'.a.conn.inboundStream.eof = true) := by
  have h : Able n := by
    have hok : ∀ e ∈ es, (fun _ : Party × Action => True) e := fun _ _ => trivial
    refine run_bounded (fun _ _ _ => step_bounded) ?_ hok (Able.start isnA isnB hA hB) hr hb
    exact fun _ _ _ _ hb' h hs => step_able h (step_bounded hs hb') hs
  -- rounds, until everything has arrived
  have hround : ∀ m, (Healthy m ∧ Leads step Owed n m) → (Caught m.a m.b ∧ Caught m.b m.a) ∨
      ∃ m', Leads step Owed m m' ∧ (Healthy m' ∧ Leads step Owed n m') ∧ m'.unacknowledged < m.unacknowledged := by
    intro m ⟨hh', hk⟩
    obtain ⟨h', hkept⟩ := h.leads hb hk
    apply (h'.progress (hkept.bounded hb) hh').imp_right
    intro ⟨m', hl, hh'', hlt⟩
    exact ⟨m', hl, ⟨hh'', hk.trans hl⟩, hlt⟩
  obtain ⟨m, hl, ⟨hh', -⟩, hab, hba⟩ := leads_of_rounds unacknowledged hround ⟨hh, Leads.refl n⟩
  -- both readers take what is left
  obtain ⟨h', hkept⟩ := h.leads hb hl
  have hbound' := hkept.bounded hb
  obtain ⟨m₁, hl₁, ha₁, -, -, hdrained₁, hw₁, he₁⟩ :=
    leads_read (n := m) (h'.livelyB.steady.sound.error.trans hh'.errorB)
  have herr₁ : m₁.a.conn.receiver.streamOut.error = false := by
    rw [ha₁]
    exact h'.livelyA.steady.sound.error.trans hh'.errorA
  obtain ⟨m₂, hl₂, ha₂, -, -, hdrained₂, hw₂, he₂⟩ := leads_read (n := m₁.swap) herr₁
  have hall := (hl.trans hl₁).trans (leads_swap hl₂)
  obtain ⟨h'', hkept''⟩ := h.leads hb hall
  have hsideB : m₂.swap.b = m₁.b := ha₂
  have hab'' : Caught m₂.swap.a m₂.swap.b := by
    unfold Caught
    rw [hkept''.acceptedA, hkept''.endedA, hsideB, hw₁, he₁, ← hkept.acceptedA, ← hkept.endedA]
    exact hab
  have hba'' : Caught m₂.swap.b m₂.swap.a := by
    have hw : m₂.swap.a.conn.receiver.streamOut.bytesWritten = m₁.a.conn.receiver.streamOut.bytesWritten := hw₂
    have he : m₂.swap.a.conn.receiver.streamOut.inputEnded = m₁.a.conn.receiver.streamOut.inputEnded := he₂
    unfold Caught
    rw [hkept''.acceptedB, hkept''.endedB, hw, he, ha₁, ← hkept.acceptedB, ← hkept.endedB]
    exact hba
  obtain ⟨hgotB, heofB⟩ := h''.got hab'' (hsideB.symm ▸ hdrained₁)
  obtain ⟨hgotA, heofA⟩ := h''.swap.got hba'' hdrained₂
  obtain ⟨es', hes', hrun⟩ := hall
  exact ⟨es', m₂.swap, hes', hrun, hgotB.trans hkept''.acceptedA, fun he => heofB (hkept''.endedA.trans he),
    hgotA.trans hkept''.acceptedB, fun he => heofA (hkept''.endedB.trans he)⟩

/-- A handshake, and two bytes that are lost, and the end, which is lost as well. -/
def lossyRun : List (Party × Action) :=
  [(.A, .connect), (.A, .transmit), (.B, .deliver 0), (.B, .transmit), (.A, .deliver 0), (.A, .write [97, 98]),
    (.A, .endInputStream), (.A, .transmit), (.A, .transmit), (.A, .transmit), (.B, .lose 3), (.B, .lose 2)]

theorem lossyRun_isSome : (run step (start {} {} ⟨5⟩ ⟨7⟩) lossyRun).isSome = true := by decide +kernel

/-- They arrive all the same. -/
theorem recovers_lossy : ∃ n, run step (start {} {} ⟨5⟩ ⟨7⟩) lossyRun = some n ∧ n.toB.length = 2 ∧ n.b.got = [] ∧
    ∃ es' n', (∀ e ∈ es', Owed e) ∧ run step n es' = some n' ∧ n'.b.got = [97, 98] ∧
      n'.b.conn.inboundStream.eof = true := by
  have hex : ∃ n, run step (start {} {} ⟨5⟩ ⟨7⟩) lossyRun = some n ∧ n.toB.length = 2 ∧ n.b.got = [] ∧
      n.a.accepted = [97, 98] ∧ n.a.ended = true ∧ n.b.accepted = [] ∧
      n.a.conn.sender.stream.error = false ∧ n.b.conn.sender.stream.error = false ∧
      n.a.conn.sender.consecutiveRetransmissions < TCPConfig.maxRetxAttempts ∧
      n.b.conn.sender.consecutiveRetransmissions < TCPConfig.maxRetxAttempts :=
    ⟨_, (Option.some_get lossyRun_isSome).symm, by decide +kernel, by decide +kernel, by decide +kernel,
      by decide +kernel, by decide +kernel, by decide +kernel, by decide +kernel, by decide +kernel,
      by decide +kernel⟩
  obtain ⟨n, hr, hto, hgot, haccepted, hended, hb, h1, h2, h3, h4⟩ := hex
  obtain ⟨es', n', hes', hrun, hall, heof, -, -⟩ := recovers hr ⟨by rw [haccepted]; decide, by rw [hb]; decide⟩
    ⟨h1, h2, h3, h4⟩ ⟨by decide, by decide⟩ ⟨by decide, by decide⟩
  exact ⟨n, hr, hto, hgot, es', n', hes', hrun, hall.trans haccepted, heof hended⟩

end Network
end Sponge

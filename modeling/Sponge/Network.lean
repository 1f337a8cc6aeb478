/-
# Two connections and a network

Connections A and B, and the segments on their way between them. A segment
that is transmitted stays on its way when it is delivered, so it may arrive
again, in any order, or never; it is not changed, and none is made up. Each
side keeps what its `write` calls accepted and what its reader got.

What B does is what A does with the sides exchanged (`Network.swap`), so a
step is defined and verified for A.

Key definitions: `Side`, `Network.act`, `Network.step`, `Network.Inv`.
Key theorems: `Network.step_inv`, `Network.delivered_in_order`,
`Network.acknowledged_received`.
-/
import Sponge.Link
import Sponge.TCPConnection
import Sponge.Lib.Runs

namespace Sponge

/-- A connection, the bytes its writer and reader have put in and got out, and
whether the writer is done. -/
structure Side where
  conn : TCPConnection
  accepted : Bytes
  ended : Bool
  got : Bytes

/-- Both sides and the segments on their way. -/
structure Network where
  a : Side
  b : Side
  toB : List TCPSegment
  toA : List TCPSegment

namespace Network

inductive Party where
  | A | B

/-- What happens at a side: a call of its owner, a segment put on the way, one
delivered, or one that was on its way to it lost. -/
inductive Action where
  | connect
  | write (data : Bytes)
  | endInputStream
  | tick (ms : ℕ)
  | read (len : ℕ)
  | transmit
  | deliver (i : ℕ)
  | lose (i : ℕ)

def Side.init (cfg : TCPConfig) (isn : WrappingInt32) : Side := ⟨TCPConnection.init cfg isn, [], false, []⟩

def start (cfgA cfgB : TCPConfig) (isnA isnB : WrappingInt32) : Network :=
  ⟨Side.init cfgA isnA, Side.init cfgB isnB, [], []⟩

def swap (n : Network) : Network := ⟨n.b, n.a, n.toA, n.toB⟩

def setConn (n : Network) (conn : TCPConnection) : Network := { n with a := { n.a with conn } }

/-- The oldest segment of `segments_out` goes on its way. -/
def transmit (n : Network) : Network :=
  match n.a.conn.segmentsOut with
  | [] => n
  | seg :: segs => { n.setConn { n.a.conn with segmentsOut := segs } with toB := n.toB ++ [seg] }

/-- A segment on its way to A arrives, and may arrive again. -/
def deliver (n : Network) (i : ℕ) : Option Network :=
  match n.toA[i]? with
  | none => some n
  | some seg => (n.a.conn.segmentReceived seg).map n.setConn

/-- What happens at A. -/
def act (n : Network) : Action → Option Network
  | .connect => some (n.setConn n.a.conn.connect)
  | .write data =>
    let (written, conn) := n.a.conn.write data
    some { n with a := { n.a with conn, accepted := n.a.accepted ++ data.take written } }
  | .endInputStream => some { n with a := { n.a with conn := n.a.conn.endInputStream, ended := true } }
  | .tick ms => some (n.setConn (n.a.conn.tick ms))
  | .read len =>
    let (data, conn) := n.a.conn.readInbound len
    some { n with a := { n.a with conn, got := n.a.got ++ data } }
  | .transmit => some n.transmit
  | .deliver i => n.deliver i
  | .lose i => some { n with toA := n.toA.eraseIdx i }

def step (n : Network) : Party × Action → Option Network
  | (.A, action) => n.act action
  | (.B, action) => (n.swap.act action).map swap

/-- A delivery finds no segment, or the connection takes it. -/
theorem deliver_cases {n n' : Network} {i : ℕ} (hs : n.deliver i = some n') :
    n' = n ∨ ∃ seg conn, n.toA[i]? = some seg ∧ n.a.conn.segmentReceived seg = some conn ∧ n' = n.setConn conn := by
  unfold deliver at hs
  cases hi : n.toA[i]? with
  | none =>
    rw [hi] at hs
    exact Or.inl (Option.some.inj hs).symm
  | some seg =>
    rw [hi] at hs
    obtain ⟨conn, hconn, rfl⟩ := Option.map_eq_some_iff.mp hs
    exact Or.inr ⟨seg, conn, rfl, hconn, rfl⟩

/-- What A has out after it stamped its queue. -/
theorem mem_sent {n : Network} {seg : TCPSegment} (hseg : seg ∈ n.toB ++ n.a.conn.sendSegments.segmentsOut) :
    seg ∈ n.toB ++ n.a.conn.segmentsOut ∨
      ∃ x ∈ n.a.conn.sender.segmentsOut, TCPConnection.stamp n.a.conn.receiver x = seg := by
  rw [TCPConnection.sendSegments_segmentsOut, ← List.append_assoc] at hseg
  exact (List.mem_append.mp hseg).imp_right List.mem_map.mp

/-- What A has out after a reset. -/
theorem mem_reset {n : Network} {seg : TCPSegment} {sendRst : Bool}
    (hseg : seg ∈ n.toB ++ (n.a.conn.setRstState sendRst).segmentsOut) :
    seg ∈ n.toB ++ n.a.conn.segmentsOut ∨ ∃ seqno, seg = { header := { rst := true, seqno } } := by
  cases sendRst with
  | false => exact Or.inl hseg
  | true =>
    have hseg' : seg ∈ n.toB ++ (n.a.conn.segmentsOut ++ [_]) := hseg
    rw [← List.append_assoc] at hseg'
    exact (List.mem_append.mp hseg').imp_right fun hx => ⟨_, List.mem_singleton.mp hx⟩

/-! ### The invariant -/

/-- A connection that was stopped has its stream in error, or everything of
it acknowledged: the SYN, the bytes and the FIN. -/
def Stopped (x : Side) : Prop :=
  x.conn.isActive = false → x.conn.sender.stream.error = true ∨
    x.conn.sender.lastAckSeqno = x.accepted.length + 2

structure Inv (n : Network) : Prop where
  ab : Link n.a.conn.sender n.a.accepted n.a.ended n.b.conn.receiver n.b.got
    (n.toB ++ n.a.conn.segmentsOut) (n.toA ++ n.b.conn.segmentsOut)
  ba : Link n.b.conn.sender n.b.accepted n.b.ended n.a.conn.receiver n.a.got
    (n.toA ++ n.b.conn.segmentsOut) (n.toB ++ n.a.conn.segmentsOut)
  stoppedA : Stopped n.a
  stoppedB : Stopped n.b

/-- Each side writes fewer bytes. -/
def Bounded (n : Network) : Prop := n.a.accepted.length < 2 ^ 30 ∧ n.b.accepted.length < 2 ^ 30

namespace Inv

open TCPSender TCPConnection Link

variable {n n' : Network}

theorem swap (h : Inv n) : Inv n.swap := ⟨h.ba, h.ab, h.stoppedB, h.stoppedA⟩

theorem start (cfgA cfgB : TCPConfig) (isnA isnB : WrappingInt32) : Inv (start cfgA cfgB isnA isnB) := by
  have hlink : ∀ (cfg cfg' : TCPConfig) (isn isn' : WrappingInt32),
      Link (TCPConnection.init cfg isn).sender [] false (TCPConnection.init cfg' isn').receiver [] ([] ++ []) ([] ++ []) :=
    fun cfg cfg' isn isn' => ⟨Speaks.start _ _ _, TCPReceiver.Hears.start _ _, fun _ hx => absurd hx List.not_mem_nil,
      fun _ hx => absurd hx List.not_mem_nil, le_rfl⟩
  exact ⟨hlink _ _ _ _, hlink _ _ _ _, fun hc => absurd hc.symm Bool.false_ne_true,
    fun hc => absurd hc.symm Bool.false_ne_true⟩

/-! ### The parts of a call -/

theorem fill (h : Inv n) : Inv (n.setConn { n.a.conn with sender := n.a.conn.sender.fillWindow }) := by
  have hf := fillWindow_frame n.a.conn.sender
  refine ⟨h.ab.sender h.ab.speaks.fillWindow (grows_refl _ _) hf.isn (hf.lastAck.trans_le h.ab.lastAck), h.ba,
    fun hc => (h.stoppedA hc).imp hf.error.trans hf.lastAck.trans, h.stoppedB⟩

theorem sendEmpty (h : Inv n) : Inv (n.setConn { n.a.conn with sender := n.a.conn.sender.sendEmptySegment }) :=
  ⟨h.ab.sender h.ab.speaks.sendEmptySegment (grows_refl _ _) rfl h.ab.lastAck, h.ba, h.stoppedA, h.stoppedB⟩

theorem stamp_genuine {isn : WrappingInt32} {accepted : Bytes} {ended : Bool} {seg : TCPSegment}
    (h : Genuine isn accepted ended seg) (rcv : TCPReceiver) : Genuine isn accepted ended (stamp rcv seg) := by
  unfold stamp
  cases rcv.ackno with
  | none => exact h
  | some ackno => exact h.imp_right fun h => h.imp_right fun ⟨k, h⟩ => ⟨k, h.seqno, h.syn, h.piece, h.le, h.fin⟩

/-- A stamped segment acknowledges what the receiver has. -/
theorem stamp_acks {isn : WrappingInt32} {accepted got : Bytes} {ended : Bool} {rcv : TCPReceiver} {seg : TCPSegment}
    (h : rcv.Hears isn accepted ended got) (hseg : seg.header.ack = false) : Acks isn rcv (stamp rcv seg) := by
  unfold stamp
  cases hack : rcv.ackno with
  | none => exact fun hc => absurd (hseg.symm.trans hc) Bool.false_ne_true
  | some ackno => exact fun _ => ⟨_, h.ackno_eq hack, le_rfl⟩

theorem sent (h : Inv n) : Inv (n.setConn n.a.conn.sendSegments) := by
  refine ⟨?_, ?_, h.stoppedA, h.stoppedB⟩
  · refine (h.ab.sender h.ab.speaks.flush (grows_refl _ _) rfl h.ab.lastAck).wires (fun seg hseg => ?_)
      fun seg hseg => Or.inl hseg
    refine (mem_sent hseg).imp_right ?_
    rintro ⟨x, hx, rfl⟩
    exact stamp_genuine (h.ab.speaks.queue x hx).1 _
  · refine h.ba.wires (fun seg hseg => Or.inl hseg) fun seg hseg => ?_
    refine (mem_sent hseg).imp_right ?_
    rintro ⟨x, hx, rfl⟩
    exact stamp_acks h.ba.hears (h.ab.speaks.queue x hx).2

/-- The connection is stopped by a reset, sent or received. -/
theorem reset (h : Inv n) (sendRst : Bool) : Inv (n.setConn (n.a.conn.setRstState sendRst)) := by
  have hsender : (n.a.conn.setRstState sendRst).sender = n.a.conn.sender.setError := by cases sendRst <;> rfl
  have hreceiver : (n.a.conn.setRstState sendRst).receiver = n.a.conn.receiver.setError := by cases sendRst <;> rfl
  refine ⟨?_, ?_, fun _ => Or.inl ?_, h.stoppedB⟩
  · show Link (n.a.conn.setRstState sendRst).sender _ _ _ _ (n.toB ++ (n.a.conn.setRstState sendRst).segmentsOut) _
    rw [hsender]
    refine (h.ab.sender h.ab.speaks.setError (grows_refl _ _) rfl h.ab.lastAck).wires (fun seg hseg => ?_)
      fun seg hseg => Or.inl hseg
    refine (mem_reset hseg).imp_right ?_
    rintro ⟨seqno, rfl⟩
    exact Or.inl rfl
  · show Link _ _ _ (n.a.conn.setRstState sendRst).receiver _ _ (n.toB ++ (n.a.conn.setRstState sendRst).segmentsOut)
    rw [hreceiver]
    refine (h.ba.receiver h.ba.hears.setError le_rfl).wires (fun seg hseg => Or.inl hseg) fun seg hseg => ?_
    refine (mem_reset hseg).imp_right ?_
    rintro ⟨seqno, rfl⟩ hack
    exact absurd hack Bool.false_ne_true
  · show (n.a.conn.setRstState sendRst).sender.stream.error = true
    rw [hsender]
    rfl

/-! ### The calls -/

theorem respond (h : Inv n) (seg : TCPSegment) : Inv (n.setConn (n.a.conn.respond seg)) :=
  respond_induct (P := fun c => Inv (n.setConn c)) (Q := fun c => Inv (n.setConn c)) (fun _ h => h.fill)
    (fun _ h => h.sendEmpty) (fun _ h => ⟨h.ab, h.ba, h.stoppedA, h.stoppedB⟩)
    (fun _ h => ⟨h.ab, h.ba, fun hc => absurd hc.symm Bool.false_ne_true, h.stoppedB⟩) (fun _ h => h.sent) h seg

theorem connect (h : Inv n) : Inv (n.setConn n.a.conn.connect) := by
  have hfill : Inv (n.setConn { n.a.conn with sender := n.a.conn.sender.fillWindow, isActive := true }) :=
    ⟨h.fill.ab, h.fill.ba, fun hc => absurd hc.symm Bool.false_ne_true, h.stoppedB⟩
  exact hfill.sent

/-- The owner writes: the stream may take some of it. -/
theorem write (h : Inv n) (data : Bytes) : ∀ {n'}, n.act (.write data) = some n' → Inv n' := by
  intro n' hs
  obtain rfl := Option.some.inj hs
  have hg := h.ab.speaks.write_grows data
  have hw : Inv
      { n with
        a :=
          { n.a with
            conn := { n.a.conn with sender := (n.a.conn.sender.write data).2 }
            accepted := n.a.accepted ++ data.take (n.a.conn.sender.write data).1 } } := by
    refine ⟨h.ab.sender (h.ab.speaks.write data) hg rfl h.ab.lastAck, h.ba, fun hc => ?_, h.stoppedB⟩
    refine (h.stoppedA hc).imp (ByteStream.write_snd_error _ _).trans fun hall => ?_
    -- all is acknowledged, so the stream is ended and takes no more
    have hended := (h.ab.hears.complete (hall.symm.trans_le h.ab.lastAck)).2
    show n.a.conn.sender.lastAckSeqno = (n.a.accepted ++ data.take (n.a.conn.sender.write data).1).length + 2
    rw [(hg.complete hended).1, hall]
  exact hw.fill.sent

theorem endInputStream (h : Inv n) : ∀ {n'}, n.act .endInputStream = some n' → Inv n' := by
  intro n' hs
  obtain rfl := Option.some.inj hs
  have he : Inv { n with a := { n.a with conn := { n.a.conn with sender := n.a.conn.sender.endInput }, ended := true } } :=
    ⟨h.ab.sender h.ab.speaks.endInput ⟨List.prefix_refl _, fun _ => ⟨rfl, rfl⟩⟩ rfl h.ab.lastAck, h.ba, h.stoppedA,
      h.stoppedB⟩
  exact he.fill.sent

theorem readInbound (h : Inv n) (len : ℕ) : ∀ {n'}, n.act (.read len) = some n' → Inv n' := by
  intro n' hs
  obtain rfl := Option.some.inj hs
  obtain ⟨h1, h2⟩ := h.ba.hears.read len
  exact ⟨h.ab, h.ba.receiver h1 h2.ge, h.stoppedA, h.stoppedB⟩

/-- The streams are closed when all is acknowledged. -/
theorem lastAck_of_closed (h : Inv n) (hclosed : n.a.conn.streamsClosed = true) :
    n.a.conn.sender.lastAckSeqno = n.a.accepted.length + 2 := by
  simp only [streamsClosed, Bool.and_eq_true, beq_iff_eq] at hclosed
  obtain ⟨⟨-, hflight⟩, hnext⟩ := hclosed
  have hle := h.ab.speaks.wf.acked_le
  have hwritten := h.ab.speaks.written
  unfold TCPSender.bytesInFlight at hflight
  omega

/-- A connection is stopped by a tick only when all is acknowledged. -/
theorem tick (h : Inv n) (ms : ℕ) : Inv (n.setConn (n.a.conn.tick ms)) := by
  rcases Bool.eq_false_or_eq_true n.a.conn.isActive with ha | ha
  · have hs := h.ab.speaks.tick ms
    obtain ⟨h1, -, h2, -⟩ := tick_frame n.a.conn.sender ms
    have ht : Inv (n.setConn (n.a.conn.ticked ms)) :=
      ⟨h.ab.sender hs (grows_refl _ _) h1 (h2.trans_le h.ab.lastAck), h.ba,
        fun hc => absurd (ha.symm.trans hc).symm Bool.false_ne_true, h.stoppedB⟩
    rcases tick_cases ha ms with ⟨-, he⟩ | ⟨-, he⟩ <;> rw [he]
    · exact ht.reset true
    · refine ⟨ht.sent.ab, ht.sent.ba, fun hc => Or.inr ?_, h.stoppedB⟩
      obtain ⟨hclosed, -⟩ := (active_eq_false_iff (c := n.a.conn.ticked ms) ha).mp hc
      exact ht.lastAck_of_closed hclosed
  · rw [tick_of_inactive ha]
    exact h

/-- A segment of B, which may have arrived before, arrives at A. -/
theorem segmentReceived (h : Inv n) (hb : Bounded n) {seg : TCPSegment}
    (hseg : seg ∈ n.toA ++ n.b.conn.segmentsOut) :
    ∃ c, n.a.conn.segmentReceived seg = some c ∧ Inv (n.setConn c) := by
  rcases Bool.eq_false_or_eq_true n.a.conn.isActive with ha | ha
  · have hinit : Inv (n.setConn { n.a.conn with timeSinceLastSegmentReceived := 0 }) :=
      ⟨h.ab, h.ba, h.stoppedA, h.stoppedB⟩
    rcases Bool.eq_false_or_eq_true seg.header.rst with hrst | hrst
    · exact ⟨_, segmentReceived_rst ha hrst, hinit.reset false⟩
    · obtain ⟨rcv, h1, h2, h3⟩ := h.ba.hears.segmentReceived hb.2 (h.ba.data seg hseg) hrst
      have hacked : Link (n.a.conn.acked seg) n.a.accepted n.a.ended n.b.conn.receiver n.b.got
          (n.toB ++ n.a.conn.segmentsOut) (n.toA ++ n.b.conn.segmentsOut) := by
        unfold TCPConnection.acked
        split_ifs with hack
        · exact h.ab.ackReceived hb.1 (h.ab.acks seg hseg) hack _
        · exact h.ab
      have hmid : Inv (n.setConn
          { n.a.conn with timeSinceLastSegmentReceived := 0, receiver := rcv, sender := n.a.conn.acked seg }) :=
        ⟨hacked, h.ba.receiver h2 h3, fun hc => absurd (ha.symm.trans hc).symm Bool.false_ne_true, h.stoppedB⟩
      refine ⟨_, ?_, hmid.respond seg⟩
      rw [segmentReceived_eq ha hrst, h1]
      rfl
  · exact ⟨_, segmentReceived_of_inactive ha seg, h⟩

theorem transmit (h : Inv n) : Inv n.transmit := by
  unfold Network.transmit
  cases hout : n.a.conn.segmentsOut with
  | nil => exact h
  | cons seg segs =>
    have hsame : (n.toB ++ [seg]) ++ segs = n.toB ++ n.a.conn.segmentsOut := by
      rw [hout, List.append_assoc, List.singleton_append]
    refine ⟨?_, ?_, h.stoppedA, h.stoppedB⟩
    · exact h.ab.wires (fun x hx => Or.inl (hsame ▸ hx)) fun x hx => Or.inl hx
    · exact h.ba.wires (fun x hx => Or.inl hx) fun x hx => Or.inl (hsame ▸ hx)

theorem deliver (h : Inv n) (hb : Bounded n) (i : ℕ) : ∃ n', n.deliver i = some n' ∧ Inv n' := by
  unfold Network.deliver
  cases hi : n.toA[i]? with
  | none => exact ⟨n, rfl, h⟩
  | some seg =>
    obtain ⟨c, h1, h2⟩ := h.segmentReceived hb (List.mem_append_left _ (List.mem_of_getElem? hi))
    exact ⟨_, congrArg (Option.map n.setConn) h1, h2⟩

/-- What happens at A keeps the invariant, and nothing goes wrong. -/
theorem act (h : Inv n) (hb : Bounded n) (action : Action) : ∃ n', n.act action = some n' ∧ Inv n' := by
  cases action with
  | connect => exact ⟨_, rfl, h.connect⟩
  | write data => exact ⟨_, rfl, h.write data rfl⟩
  | endInputStream => exact ⟨_, rfl, h.endInputStream rfl⟩
  | tick ms => exact ⟨_, rfl, h.tick ms⟩
  | read len => exact ⟨_, rfl, h.readInbound len rfl⟩
  | transmit => exact ⟨_, rfl, h.transmit⟩
  | deliver i => exact h.deliver hb i
  | lose i =>
    have hsub : ∀ x ∈ n.toA.eraseIdx i ++ n.b.conn.segmentsOut, x ∈ n.toA ++ n.b.conn.segmentsOut := by
      intro x hx
      rw [List.mem_append] at hx ⊢
      exact hx.imp_left List.mem_of_mem_eraseIdx
    exact ⟨_, rfl, h.ab.wires (fun x hx => Or.inl hx) fun x hx => Or.inl (hsub x hx),
      h.ba.wires (fun x hx => Or.inl (hsub x hx)) fun x hx => Or.inl hx, h.stoppedA, h.stoppedB⟩

end Inv

variable {n n' : Network}

/-- **One step** keeps the invariant, and does not fail. -/
theorem step_inv (h : Inv n) (hb : Bounded n) (e : Party × Action) : ∃ n', step n e = some n' ∧ Inv n' := by
  obtain ⟨party, action⟩ := e
  cases party with
  | A => exact h.act hb action
  | B =>
    obtain ⟨n', h1, h2⟩ := h.swap.act ⟨hb.2, hb.1⟩ action
    exact ⟨n'.swap, by simp only [step, h1, Option.map_some], h2.swap⟩

/-- What a side accepted only grows. -/
theorem act_accepted {action : Action} (hs : n.act action = some n') :
    n.a.accepted.length ≤ n'.a.accepted.length ∧ n'.b = n.b := by
  cases action with
  | connect => obtain rfl := Option.some.inj hs; exact ⟨le_rfl, rfl⟩
  | write data =>
    obtain rfl := Option.some.inj hs
    exact ⟨(List.prefix_append _ _).length_le, rfl⟩
  | endInputStream => obtain rfl := Option.some.inj hs; exact ⟨le_rfl, rfl⟩
  | tick ms => obtain rfl := Option.some.inj hs; exact ⟨le_rfl, rfl⟩
  | read len => obtain rfl := Option.some.inj hs; exact ⟨le_rfl, rfl⟩
  | transmit =>
    obtain rfl := Option.some.inj hs
    unfold transmit
    cases n.a.conn.segmentsOut <;> exact ⟨le_rfl, rfl⟩
  | deliver i => obtain rfl | ⟨seg, conn, -, -, rfl⟩ := deliver_cases hs <;> exact ⟨le_rfl, rfl⟩
  | lose i => obtain rfl := Option.some.inj hs; exact ⟨le_rfl, rfl⟩

theorem step_bounded {e : Party × Action} (hs : step n e = some n') (hb : Bounded n') : Bounded n := by
  obtain ⟨party, action⟩ := e
  cases party with
  | A =>
    obtain ⟨h1, h2⟩ := act_accepted hs
    exact ⟨lt_of_le_of_lt h1 hb.1, h2 ▸ hb.2⟩
  | B =>
    obtain ⟨n₁, h, rfl⟩ := Option.map_eq_some_iff.mp hs
    obtain ⟨h1, h2⟩ := act_accepted h
    have h2' : n₁.b = n.a := h2
    exact ⟨h2' ▸ hb.1, lt_of_le_of_lt h1 hb.2⟩

theorem run_inv {cfgA cfgB : TCPConfig} {isnA isnB : WrappingInt32} {es : List (Party × Action)}
    (hr : Runs.run step (start cfgA cfgB isnA isnB) es = some n) (hb : Bounded n) : Inv n := by
  have hok : ∀ e ∈ es, (fun _ : Party × Action => True) e := fun _ _ => trivial
  refine Runs.run_bounded (fun _ _ _ => step_bounded) (fun s e s' _ hB hI hs => ?_) hok
    (Inv.start cfgA cfgB isnA isnB) hr hb
  obtain ⟨s'', h1, h2⟩ := step_inv hI (step_bounded hs hB) e
  obtain rfl := Option.some.inj (h1.symm.trans hs)
  exact h2

/-! ### Delivery -/

/-- What `y` has of what `x` wrote: a prefix, and all of it at the end. -/
def Delivered (x y : Side) : Prop :=
  y.got ++ y.conn.inboundStream.buffer <+: x.accepted ∧
    (y.conn.inboundStream.inputEnded = true →
      x.ended = true ∧ y.got ++ y.conn.inboundStream.buffer = x.accepted)

/-- **In order**: whatever the network does, each reader has a prefix of what
the other side's writer put in, its stream ends only when that writer is done
and nothing is missing, and no step fails. -/
theorem delivered_in_order {cfgA cfgB : TCPConfig} {isnA isnB : WrappingInt32} {es : List (Party × Action)}
    (hr : Runs.run step (start cfgA cfgB isnA isnB) es = some n) (hb : Bounded n) :
    Delivered n.a n.b ∧ Delivered n.b n.a ∧ ∀ e, ∃ n', step n e = some n' := by
  have h := run_inv hr hb
  refine ⟨h.ab.delivered, h.ba.delivered, fun e => ?_⟩
  obtain ⟨n', h1, -⟩ := step_inv h hb e
  exact ⟨n', h1⟩

/-- A handshake, then two bytes that arrive twice, and are read. -/
def exchange : List (Party × Action) :=
  [(.A, .connect), (.A, .transmit), (.B, .deliver 0), (.B, .transmit), (.A, .deliver 0), (.A, .write [97, 98]),
    (.A, .transmit), (.A, .transmit), (.B, .deliver 2), (.B, .deliver 2), (.B, .read 1), (.B, .transmit),
    (.A, .deliver 1)]

theorem exchange_isSome : (Runs.run step (start {} {} ⟨5⟩ ⟨7⟩) exchange).isSome = true := by decide +kernel

theorem delivered_in_order_exchange : ∃ n, Runs.run step (start {} {} ⟨5⟩ ⟨7⟩) exchange = some n ∧ n.b.got = [97] ∧
    Delivered n.a n.b ∧ Delivered n.b n.a ∧ ∀ e, ∃ n', step n e = some n' :=
  ⟨_, (Option.some_get exchange_isSome).symm, by decide +kernel,
    delivered_in_order (Option.some_get exchange_isSome).symm ⟨by decide +kernel, by decide +kernel⟩⟩

/-! ### Acknowledgment -/

/-- What `x` counts as acknowledged, `y` has received; and when `x` is done,
without an error, `y` has all of it. -/
structure Acknowledged (x y : Side) : Prop where
  beforeSyn : y.conn.receiver.synReceived = false → x.conn.sender.lastAckSeqno = 0
  le : x.conn.sender.lastAckSeqno ≤ 1 + y.conn.inboundStream.bytesWritten + if y.conn.inboundStream.inputEnded then 1 else 0
  done : x.conn.active = false → x.conn.sender.stream.error = false → x.conn.receiver.streamOut.error = false →
    y.conn.inboundStream.inputEnded = true ∧ y.got ++ y.conn.inboundStream.buffer = x.accepted

theorem Inv.acknowledged (h : Inv n) : Acknowledged n.a n.b := by
  have hlast := h.ab.lastAck
  have hrec : n.b.conn.receiver.received ≤ n.b.conn.receiver.absAck := by
    unfold TCPReceiver.received
    split_ifs
    · exact le_rfl
    · exact Nat.zero_le _
  have habs : n.b.conn.receiver.absAck = 1 + n.b.conn.inboundStream.bytesWritten +
      if n.b.conn.inboundStream.inputEnded then 1 else 0 := by
    rw [TCPReceiver.absAck_eq]
    exact congrArg (· + _) (Nat.add_comm _ _)
  refine ⟨fun hs => ?_, habs ▸ hlast.trans hrec, fun hdone herr _ => ?_⟩
  · unfold TCPReceiver.received at hlast
    rw [if_neg (by rw [hs]; decide)] at hlast
    omega
  · have hall : n.a.conn.sender.lastAckSeqno = n.a.accepted.length + 2 := by
      rcases Bool.eq_false_or_eq_true n.a.conn.isActive with ha | ha
      · obtain ⟨hclosed, -⟩ := (TCPConnection.active_eq_false_iff ha).mp hdone
        exact h.lastAck_of_closed hclosed
      · exact (h.stoppedA ha).resolve_left (by rw [herr]; decide)
    have hended := (h.ab.hears.complete (hall.symm.trans_le hlast)).1
    exact ⟨hended, (h.ab.delivered.2 hended).2⟩

/-- **Acknowledged**: whatever the network does, no side counts a sequence
number as acknowledged that the other has not received, and a side that is
done without an error has delivered everything. -/
theorem acknowledged_received {cfgA cfgB : TCPConfig} {isnA isnB : WrappingInt32} {es : List (Party × Action)}
    (hr : Runs.run step (start cfgA cfgB isnA isnB) es = some n) (hb : Bounded n) :
    Acknowledged n.a n.b ∧ Acknowledged n.b n.a :=
  have h := run_inv hr hb
  ⟨h.acknowledged, h.swap.acknowledged⟩

theorem acknowledged_received_exchange : ∃ n, Runs.run step (start {} {} ⟨5⟩ ⟨7⟩) exchange = some n ∧
    n.a.conn.sender.lastAckSeqno = 3 ∧ Acknowledged n.a n.b ∧ Acknowledged n.b n.a :=
  ⟨_, (Option.some_get exchange_isSome).symm, by decide +kernel,
    acknowledged_received (Option.some_get exchange_isSome).symm ⟨by decide +kernel, by decide +kernel⟩⟩

end Network
end Sponge

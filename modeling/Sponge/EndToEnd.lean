/-
# From one owner to the other

Two sockets over a network of datagrams. Each turn of a socket's loop may read
any datagram that the other one wrote, at any time and any number of times, or
one of somebody else's that its adapter discards. What an owner is given is
still a prefix of what the owner at the other end wrote, and all of it once the
stream was shut down without an error.

The two sockets with what their adapters were handed are a network of two
connections in the sense of `Network`: every callback is none, one or two of its
actions, with a copy delivered in place of a segment.

Key definitions: `Sockets`, `Sockets.step`, `Sockets.Inv`.
Key theorems: `Sockets.Inv.callback`, `Sockets.run_kept`,
`Sockets.udp_delivers`, `Sockets.tun_delivers`, `Sockets.ethernet_delivers`.
-/
import Sponge.Carriage
import Sponge.Endpoint
import Sponge.Network
import Sponge.Quiescence

namespace Sponge

/-- The loops of both sockets. -/
structure Sockets (σ ω : Type) where
  a : TCPSpongeSocket.Loop σ ω
  b : TCPSpongeSocket.Loop σ ω

namespace Sockets

open EventLoop TCPSpongeSocket

variable {σ ι ω : Type}

def swap (n : Sockets σ ω) : Sockets σ ω := ⟨n.b, n.a⟩

/-- The adapter makes nothing of it. -/
def discards (ad : AdaptT σ ι ω) (a : σ) (x : ι) : Bool :=
  match ad.read a x with
  | .ok (none, _, _) => true
  | _ => false

/-- What may be there to be read: nothing, something the other end wrote, as
the network makes it of that, or something that is discarded. -/
def arrives [DecidableEq ι] (ad : AdaptT σ ι ω) (carry : ω → Option ι) (written : List ω) (a : σ) : Option ι → Bool
  | none => true
  | some x => written.any (fun y => decide (carry y = some x)) || discards ad a x

/-- A turn of A's loop. -/
def act [DecidableEq ι] (ad : AdaptT σ ι ω) (carry : ω → Option ι) (n : Sockets σ ω) (e : Event ι) :
    Option (Sockets σ ω) :=
  if arrives ad carry n.b.host.written n.a.host.datagramAdapter e.input.datagram then
    (turn ad n.a e).map fun a => { n with a }
  else none

/-- A turn of either; `toB` and `toA` are what the network makes of what A and
B wrote. -/
def step [DecidableEq ι] (ad : AdaptT σ ι ω) (toB toA : ω → Option ι) (n : Sockets σ ω) : Network.Party × Event ι →
    Option (Sockets σ ω)
  | (.A, e) => n.act ad toA e
  | (.B, e) => (n.swap.act ad toB e).map swap

/-! ### The connections behind it -/

def side (t : TCPSpongeSocket σ ω) : Side := ⟨t.socket.tcp, t.taken, t.socket.outboundShutdown, t.given⟩

def network (x y : TCPSpongeSocket σ ω) : Network := ⟨side x, side y, x.sent, y.sent⟩

structure Inv (J : List TCPSegment → σ → List ω → Prop) (x y : TCPSpongeSocket σ ω) : Prop where
  net : (network x y).Inv
  fitX : x.socket.tcp.Fit
  fitY : y.socket.tcp.Fit
  carriesX : J x.sent x.datagramAdapter x.written
  carriesY : J y.sent y.datagramAdapter y.written

variable {J : List TCPSegment → σ → List ω → Prop} {ad : AdaptT σ ι ω} {carry : ω → Option ι}
  {x x' y : TCPSpongeSocket σ ω} {input : Input ι}

theorem Inv.swap (h : Inv J x y) : Inv J y x :=
  ⟨h.net.swap, h.fitY, h.fitX, h.carriesY, h.carriesX⟩

/-! ### One callback -/

namespace Inv

/-- The segments that rule 4 hands over are on their way. -/
theorem transmit_all {n : Network} (h : n.Inv) : Network.Inv
    { n with
      a := { n.a with conn := { n.a.conn with segmentsOut := [] } }
      toB := n.toB ++ n.a.conn.segmentsOut } := by
  have hsame : (n.toB ++ n.a.conn.segmentsOut) ++ [] = n.toB ++ n.a.conn.segmentsOut := List.append_nil _
  refine ⟨?_, ?_, h.stoppedA, h.stoppedB⟩
  · exact h.ab.wires (fun x hx => Or.inl (hsame ▸ hx)) fun x hx => Or.inl hx
  · exact h.ba.wires (fun x hx => Or.inl hx) fun x hx => Or.inl (hsame ▸ hx)

/-- Rule 2: a write, and the end of the stream if the owner is done. -/
theorem writeOutbound (h : Inv J x y) {socket : SpongeSocket} {served : Bool}
    (hw : x.socket.writeOutbound (input.outside none) = .ok (socket, served)) :
    Inv J { x with socket, taken := x.taken ++ x.outboundData input } y := by
  have hwrite : Network.Inv (network
      { x with
        socket := { x.socket with tcp := (x.socket.tcp.write (x.outboundData input)).2 }
        taken := x.taken ++ (x.outboundData input).take (x.socket.tcp.write (x.outboundData input)).1 } y) :=
    h.net.write (x.outboundData input) rfl
  have hfit := h.fitX.write (x.outboundData input)
  obtain ⟨hlen, hcases⟩ := SpongeSocket.writeOutbound_cases hw
  have hall : (x.outboundData input).take (x.socket.tcp.write (x.outboundData input)).1 = x.outboundData input :=
    List.take_of_length_le hlen.ge
  rw [hall] at hwrite
  rcases hcases with ⟨-, rfl⟩ | rfl
  · exact ⟨hwrite.endInputStream rfl, hfit.endInputStream, h.fitY, h.carriesX, h.carriesY⟩
  · exact ⟨hwrite, hfit, h.fitY, h.carriesX, h.carriesY⟩

/-- How much rule 3 pops. -/
def popped (input : Input ι) (x : TCPSpongeSocket σ ω) : ℕ := min input.taken
  (x.socket.tcp.inboundStream.peekOutput (min 65536 x.socket.tcp.inboundStream.buffer.length)).length

/-- What rule 3 writes is what it pops. -/
theorem inboundData_eq (input : Input ι) (x : TCPSpongeSocket σ ω) :
    (x.socket.tcp.readInbound (popped input x)).1 = x.inboundData input := by
  show x.socket.tcp.inboundStream.peekOutput _ = _
  unfold inboundData popped
  simp only [ByteStream.peekOutput_eq]
  split_ifs
  · simp
  · rw [List.take_take, List.length_take, List.take_eq_take_iff]
    omega

/-- Rule 3: a read of as much as the owner took. -/
theorem readInbound (h : Inv J x y) (input : Input ι) : Inv J (x.readInbound input) y := by
  have hread : Network.Inv (network
      { x with
        socket := { x.socket with tcp := (x.socket.tcp.readInbound (popped input x)).2 }
        given := x.given ++ (x.socket.tcp.readInbound (popped input x)).1 } y) :=
    h.net.readInbound (popped input x) rfl
  rw [inboundData_eq] at hread
  exact ⟨hread, h.fitX.readInbound _, h.fitY, h.carriesX, h.carriesY⟩

/-- What rule 4 hands to the adapter is carried. -/
theorem writeSegments_carries (hf : ad.Faithful carry J) : ∀ {segs sent : List TCPSegment} {a a' : σ}
    {written out : List ω}, (∀ seg ∈ segs, seg.Fits) → J sent a written → writeSegments ad segs a = .ok (a', out) →
      J (sent ++ segs) a' (written ++ out)
  | [], _, _, _, _, _, _, hJ, hw => by
    cases hw
    simpa using hJ
  | seg :: segs, sent, a, a', written, out, hfits, hJ, hw => by
    simp only [writeSegments] at hw
    split at hw
    · cases hw
    · rename_i a₁ out₁ hwrite
      cases hrest : writeSegments ad segs a₁ with
      | error e =>
        rw [hrest] at hw
        cases hw
      | ok res =>
        rw [hrest] at hw
        cases hw
        have hnext := hf.writes hJ (hfits seg List.mem_cons_self) hwrite
        have hall := writeSegments_carries hf (fun s hs => hfits s (List.mem_cons_of_mem _ hs)) hnext hrest
        simpa using hall

theorem cancel (h : Inv J x y) (r : RuleName) : Inv J ((rule ad r).cancel x) y := by
  cases r with
  | rule2 => exact ⟨h.net.endInputStream rfl, h.fitX.endInputStream, h.fitY, h.carriesX, h.carriesY⟩
  | _ => exact h

theorem tick (hf : ad.Faithful carry J) (h : Inv J x y) {ms : ℕ} {order : List UInt32}
    (ht : x.tick ad ms order = some x') : Inv J x' y := by
  obtain ⟨⟨a, out⟩, htick, rfl⟩ := Option.map_eq_some_iff.mp ht
  exact ⟨h.net.tick ms, h.fitX.tick ms, h.fitY, hf.ticks h.carriesX htick, h.carriesY⟩

variable [DecidableEq ι]

/-- Rule 1: a segment of the other end is delivered, or none. -/
theorem receiveSegment (hf : ad.Faithful carry J) (h : Inv J x y) (hb : Network.Bounded (network x y))
    (harr : arrives ad carry y.written x.datagramAdapter input.datagram = true)
    {segment : Option TCPSegment} {a : σ} {out : List ω} {socket : SpongeSocket} {served : Bool}
    (hread : readDatagram ad x.datagramAdapter input.datagram = .ok (segment, a, out))
    (hs : x.socket.receiveSegment (input.outside segment) = .ok (socket, served)) :
    Inv J { x with socket, datagramAdapter := a, written := x.written ++ out } y := by
  have hcarries : J x.sent a (x.written ++ out) := by
    cases hd : input.datagram with
    | none =>
      rw [hd] at hread
      cases hread
      rw [List.append_nil]
      exact h.carriesX
    | some d =>
      rw [hd] at hread
      exact hf.reads h.carriesX hread
  cases segment with
  | none =>
    cases hs
    exact ⟨h.net, h.fitX, h.fitY, hcarries, h.carriesY⟩
  | some seg =>
    -- the segment is a copy of one that the other end sent
    obtain ⟨orig, horig, hcopy⟩ : ∃ orig ∈ y.sent, orig.IsCopy seg := by
      cases hd : input.datagram with
      | none =>
        rw [hd] at hread
        cases hread
      | some d =>
        rw [hd] at hread harr
        rcases (Bool.or_eq_true _ _).mp harr with harr | harr
        · obtain ⟨z, hz, hd⟩ := List.any_eq_true.mp harr
          exact hf.yields h.carriesY hz (of_decide_eq_true hd) hread
        · unfold discards at harr
          rw [show ad.read x.datagramAdapter d = _ from hread] at harr
          cases harr
    obtain ⟨c, hc, hnet⟩ := h.net.segmentReceived hb (List.mem_append_left _ horig)
    have hc' : x.socket.tcp.segmentReceived seg = some c := (x.socket.tcp.segmentReceived_copy hcopy).trans hc
    simp only [SpongeSocket.receiveSegment, Input.outside, hc'] at hs
    cases hs
    exact ⟨hnet, h.fitX.segmentReceived hc', h.fitY, hcarries, h.carriesY⟩

/-- **A callback** keeps the invariant, if what it reads is the other end's or
is discarded. -/
theorem callback (hf : ad.Faithful carry J) (h : Inv J x y) (hb : Network.Bounded (network x y)) {r : RuleName}
    (harr : r = .rule1 → arrives ad carry y.written x.datagramAdapter input.datagram = true) {served : Bool}
    (hc : (rule ad r).callback input x = .ok (x', served)) : Inv J x' y := by
  rcases callback_cases hc with ⟨hr, segment, a, out, socket, hread, hs, rfl⟩ | ⟨-, socket, hw, rfl⟩ | ⟨-, rfl⟩ |
    ⟨-, a, out, hw, rfl⟩
  · exact h.receiveSegment hf hb (harr hr) hread hs
  · exact h.writeOutbound hw
  · exact h.readInbound input
  · exact ⟨transmit_all h.net, ⟨h.fitX.sender, fun _ hs => absurd hs List.not_mem_nil⟩, h.fitY,
      writeSegments_carries hf h.fitX.out h.carriesX hw, h.carriesY⟩

end Inv

/-! ### The end of the inbound stream -/

/-- Nothing more will be read from the inbound stream. -/
def Drained (c : TCPConnection) : Prop := c.inboundStream.error = true ∨ c.inboundStream.eof = true

/-- The owner was told so only if it is true. -/
def Shut (s : SpongeSocket) : Prop := s.inboundShutdown = true → Drained s.tcp

section Drained

variable {s s' : SpongeSocket} {c c' : TCPConnection}

theorem drained_segment {seg : TCPSegment} (hs : c.segmentReceived seg = some c') (h : Drained c) : Drained c' := by
  rcases h with h | h
  · exact Or.inl (SpongeSocket.frozen_segment ⟨h, rfl⟩ hs).error
  · rcases TCPConnection.segment_cases hs with ⟨-, rfl⟩ | ⟨-, -, rfl⟩ | ⟨-, -, receiver, hrcv, rfl⟩
    · exact Or.inr h
    · exact Or.inl rfl
    · have hended : c.receiver.streamOut.inputEnded = true := (Bool.and_eq_true_iff.mp h).1
      have hsame := TCPReceiver.segmentReceived_streamOut hended hrcv
      have hrest : ∀ d : TCPConnection, d.receiver = receiver → d.inboundStream.eof = true := fun d hd => by
        unfold TCPConnection.inboundStream
        rw [hd, hsame]
        exact h
      refine Or.inr (hrest _ ?_)
      exact TCPConnection.respond_induct (P := fun d => d.receiver = receiver) (Q := fun d => d.receiver = receiver)
        (fun _ hd => hd) (fun _ hd => hd) (fun _ hd => hd) (fun _ hd => hd) (fun _ hd => hd) rfl seg

theorem drained_tick (h : Drained c) (ms : ℕ) : Drained (c.tick ms) := by
  rcases Bool.eq_false_or_eq_true c.isActive with ha | ha
  · rcases TCPConnection.tick_cases ha ms with ⟨-, ht⟩ | ⟨-, ht⟩ <;> rw [ht]
    · exact Or.inl rfl
    · exact h
  · rw [TCPConnection.tick_of_inactive ha]
    exact h

theorem drained_pop {stream : ByteStream} (h : stream.error = true ∨ stream.eof = true) (len : ℕ) :
    (stream.popOutput len).error = true ∨ (stream.popOutput len).eof = true := by
  refine h.imp (ByteStream.popOutput_error _ _).trans fun he => ?_
  rwa [show stream.popOutput len = stream from if_pos (Or.inr (Or.inl he))]

/-- Rule 3 shuts down what is drained. -/
theorem shut_readInbound {input : SpongeSocket.Input} (h : Shut s) : Shut (s.readInbound input) := by
  intro hs
  have hs' : (s.inboundShutdown || (s.readInbound input).tcp.inboundStream.eof ||
      (s.readInbound input).tcp.inboundStream.error) = true := hs
  rw [Bool.or_eq_true, Bool.or_eq_true] at hs'
  rcases hs' with (hold | heof) | herr
  · exact drained_pop (h hold) _
  · exact Or.inr heof
  · exact Or.inl herr

theorem receiveSegment_shut {input : SpongeSocket.Input} {served : Bool} (h : Shut s)
    (hs : s.receiveSegment input = .ok (s', served)) : Shut s' := by
  obtain ⟨tcp, rfl, rfl | ⟨seg, -, hrcv⟩⟩ := SpongeSocket.receiveSegment_cases hs
  · exact h
  · exact fun hc => drained_segment hrcv (h hc)

theorem writeOutbound_shut {input : SpongeSocket.Input} {served : Bool} (h : Shut s)
    (hs : s.writeOutbound input = .ok (s', served)) : Shut s' := by
  rcases (SpongeSocket.writeOutbound_cases hs).2 with ⟨-, rfl⟩ | rfl
  · exact h
  · exact h

theorem callback_shut {r : RuleName} {served : Bool} (h : Shut x.socket)
    (hc : (rule ad r).callback input x = .ok (x', served)) : Shut x'.socket := by
  rcases callback_cases hc with ⟨-, segment, a, out, socket, -, hs, rfl⟩ | ⟨-, socket, hw, rfl⟩ | ⟨-, rfl⟩ |
    ⟨-, a, out, -, rfl⟩
  · exact receiveSegment_shut h hs
  · exact writeOutbound_shut h hw
  · exact shut_readInbound h
  · exact h

theorem cancel_shut (r : RuleName) (h : Shut x.socket) : Shut ((rule ad r).cancel x).socket := by
  cases r <;> exact h

theorem tick_shut {ms : ℕ} {order : List UInt32} (h : Shut x.socket) (ht : x.tick ad ms order = some x') :
    Shut x'.socket := by
  obtain ⟨⟨a, out⟩, -, rfl⟩ := Option.map_eq_some_iff.mp ht
  exact fun hc => drained_tick (h hc) ms

end Drained

/-! ### Turns and runs -/

theorem callback_taken {r : RuleName} {served : Bool} (hc : (rule ad r).callback input x = .ok (x', served)) :
    x.taken <+: x'.taken := by
  rcases callback_cases hc with ⟨-, segment, a, out, socket, -, -, rfl⟩ | ⟨-, socket, -, rfl⟩ | ⟨-, rfl⟩ |
    ⟨-, a, out, -, rfl⟩
  · exact List.prefix_refl _
  · exact List.prefix_append _ _
  · exact List.prefix_refl _
  · exact List.prefix_refl _

theorem tick_taken {ms : ℕ} {order : List UInt32} (ht : x.tick ad ms order = some x') : x'.taken = x.taken := by
  obtain ⟨⟨a, out⟩, -, rfl⟩ := Option.map_eq_some_iff.mp ht
  rfl

/-- What was read from an owner only grows. -/
theorem turn_taken {l l' : Loop σ ω} {e : Event ι} (hs : turn ad l e = some l') : l.host.taken <+: l'.host.taken :=
  turn_invariant (I := fun t => l.host.taken <+: t.taken) (fun _ _ h => h)
    (fun _ _ _ _ h hc => h.trans (callback_taken hc)) (fun _ _ h ht => (tick_taken ht).symm ▸ h)
    (List.prefix_refl _) hs

theorem turn_shut {l l' : Loop σ ω} {e : Event ι} (h : Shut l.host.socket) (hs : turn ad l e = some l') :
    Shut l'.host.socket :=
  turn_invariant (I := fun t => Shut t.socket) (fun r _ h => cancel_shut r h) (fun _ _ _ _ h hc => callback_shut h hc)
    (fun _ _ h ht => tick_shut h ht) h hs

theorem bounded_mono (h : x.taken <+: x'.taken) (hb : Network.Bounded (network x' y)) :
    Network.Bounded (network x y) := ⟨lt_of_le_of_lt h.length_le hb.1, hb.2⟩

variable [DecidableEq ι] {n n' : Sockets σ ω} {toB toA : ω → Option ι}

def Bounded (n : Sockets σ ω) : Prop := n.a.host.taken.length < 2 ^ 30 ∧ n.b.host.taken.length < 2 ^ 30

/-- The rules are in the order they were added in. -/
def Ordered (n : Sockets σ ω) : Prop := TCPSpongeSocket.Ordered n.a.rules ∧ TCPSpongeSocket.Ordered n.b.rules

/-- What every run keeps. -/
structure Kept (J : List TCPSegment → σ → List ω → Prop) (n : Sockets σ ω) : Prop where
  inv : Inv J n.a.host n.b.host
  ordered : Ordered n
  shutA : Shut n.a.host.socket
  shutB : Shut n.b.host.socket

omit [DecidableEq ι] in
theorem Kept.swap (h : Kept J n) : Kept J n.swap := ⟨h.inv.swap, h.ordered.symm, h.shutB, h.shutA⟩

theorem act_bounded {e : Event ι} (hs : n.act ad carry e = some n') (hb : Bounded n') : Bounded n := by
  unfold act at hs
  split_ifs at hs
  obtain ⟨l, hl, rfl⟩ := Option.map_eq_some_iff.mp hs
  exact ⟨lt_of_le_of_lt (turn_taken hl).length_le hb.1, hb.2⟩

theorem act_kept (hf : ad.Faithful carry J) {e : Event ι} (h : Kept J n) (hs : n.act ad carry e = some n')
    (hb : Bounded n') : Kept J n' := by
  unfold act at hs
  split_ifs at hs with harr
  obtain ⟨l, hl, rfl⟩ := Option.map_eq_some_iff.mp hs
  have hturn := turn_reads (I := fun t => Network.Bounded (network t n.b.host) → Inv J t n.b.host)
    (fun r t hI hb => (hI hb).cancel r) (fun r t t' served hI hadapter hc hb => ?_)
    (fun t t' hI ht hb => (hI (bounded_mono (tick_taken ht ▸ List.prefix_refl _) hb)).tick hf ht)
    (fun _ => h.inv) h.ordered.1 hl
  · exact ⟨hturn.1 hb, ⟨hturn.2, h.ordered.2⟩, turn_shut h.shutA hl, h.shutB⟩
  · have hb' := bounded_mono (callback_taken hc) hb
    exact (hI hb').callback hf hb' (fun hr => by rw [hadapter hr]; exact harr) hc

theorem step_bounded {e : Network.Party × Event ι} (hs : step ad toB toA n e = some n') (hb : Bounded n') :
    Bounded n := by
  obtain ⟨party, e⟩ := e
  cases party with
  | A => exact act_bounded hs hb
  | B =>
    obtain ⟨n₁, h1, rfl⟩ := Option.map_eq_some_iff.mp hs
    exact (act_bounded h1 hb.symm).symm

/-- **A turn of either loop** keeps the invariant. -/
theorem step_kept (hB : ad.Faithful toB J) (hA : ad.Faithful toA J) {e : Network.Party × Event ι}
    (h : Kept J n) (hs : step ad toB toA n e = some n') (hb : Bounded n') : Kept J n' := by
  obtain ⟨party, e⟩ := e
  cases party with
  | A => exact act_kept hA h hs hb
  | B =>
    obtain ⟨n₁, h1, rfl⟩ := Option.map_eq_some_iff.mp hs
    exact (act_kept hB h.swap h1 hb.symm).swap

/-- A socket as `connect` or `listen_and_accept` starts it. -/
structure Opening (σ ω : Type) where
  how : SpongeSocket.Open
  cfg : TCPConfig
  isn : WrappingInt32
  adapter : σ
  written : List ω

def start (x y : Opening σ ω) : Sockets σ ω :=
  ⟨TCPSpongeSocket.start x.how x.cfg x.isn x.adapter x.written,
    TCPSpongeSocket.start y.how y.cfg y.isn y.adapter y.written⟩

omit [DecidableEq ι] in
theorem start_kept (x y : Opening σ ω) (hx : J [] x.adapter x.written) (hy : J [] y.adapter y.written) :
    Kept J (start x y) := by
  have hnet := Network.Inv.start x.cfg y.cfg x.isn y.isn
  have hfit : ∀ z : Opening σ ω, (SpongeSocket.start z.how z.cfg z.isn).socket.tcp.Fit := by
    intro z
    cases z.how with
    | connect => exact (TCPConnection.init_fit z.cfg z.isn).connect
    | listenAndAccept => exact TCPConnection.init_fit z.cfg z.isn
  have hopened : (network (start x y).a.host (start x y).b.host).Inv := by
    unfold start
    rcases x with ⟨howX, cfgX, isnX, a, w⟩
    rcases y with ⟨howY, cfgY, isnY, b, v⟩
    cases howX <;> cases howY
    · exact hnet.connect.swap.connect.swap
    · exact hnet.connect
    · exact hnet.swap.connect.swap
    · exact hnet
  have hshut : ∀ z : Opening σ ω, Shut (SpongeSocket.start z.how z.cfg z.isn).socket := fun _ hc =>
    absurd hc Bool.false_ne_true
  exact ⟨⟨hopened, hfit x, hfit y, hx, hy⟩, ⟨List.Sublist.refl _, List.Sublist.refl _⟩, hshut x, hshut y⟩

theorem run_kept (hB : ad.Faithful toB J) (hA : ad.Faithful toA J) {x y : Opening σ ω} (hx : J [] x.adapter x.written)
    (hy : J [] y.adapter y.written) {es : List (Network.Party × Event ι)}
    (hr : Runs.run (step ad toB toA) (start x y) es = some n) (hb : Bounded n) : Kept J n :=
  have hok : ∀ e ∈ es, True := fun _ _ => trivial
  Runs.run_bounded (I := Kept J) (fun _ _ _ => step_bounded)
    (fun _ _ _ _ hb h hs => step_kept hB hA h hs hb) hok (start_kept x y hx hy) hr hb

/-! ### Delivery -/

/-- What the owner of `y` was given is the beginning of what was read from the
owner of `x`; and if the end was passed on without an error, it is all of it,
and the owner of `x` was done. -/
def Delivers (x y : TCPSpongeSocket σ ω) : Prop :=
  y.given <+: x.taken ∧ (y.socket.inboundShutdown = true → y.socket.tcp.inboundStream.error = false →
    x.socket.outboundShutdown = true ∧ y.given = x.taken)

omit [DecidableEq ι] in
theorem Inv.delivers {x y : TCPSpongeSocket σ ω} (h : Inv J x y) (hy : Shut y.socket) : Delivers x y := by
  have hlink := h.net.ab.delivered
  refine ⟨(List.prefix_append _ _).trans hlink.1, fun hshut herr => ?_⟩
  have heof := (hy hshut).resolve_left (by rw [herr]; exact Bool.false_ne_true)
  simp only [ByteStream.eof, Bool.and_eq_true, List.isEmpty_iff] at heof
  obtain ⟨hended, hall⟩ := hlink.2 heof.1
  refine ⟨hended, ?_⟩
  calc y.given = y.given ++ y.socket.tcp.inboundStream.buffer := by rw [heof.2, List.append_nil]
    _ = x.taken := hall

omit [DecidableEq ι] in
theorem Kept.delivers (h : Kept J n) : Delivers n.a.host n.b.host ∧ Delivers n.b.host n.a.host :=
  ⟨h.inv.delivers h.shutB, h.inv.swap.delivers h.shutA⟩

/-! ### Scripts -/

/-- A turn of a script: which rules are ready, which of the other end's datagrams
is there to be read, and how the adapter visits its map. -/
structure Move where
  party : Network.Party
  ready : List RuleName
  datagram : Option ℕ := none
  data : Bytes := []
  order : List UInt32 := []

/-- The turn that a move is, given what the other end wrote. -/
def Move.event (m : Move) (carry : ω → Option ι) (written : List ω) : Event ι where
  poll := .events fun r => { ready := decide (r ∈ m.ready) }
  input := { datagram := m.datagram.bind fun i => written[i]?.bind carry, data := m.data, taken := 65536 }
  order := m.order

/-- The turns of a script. -/
def script (ad : AdaptT σ ι ω) (toB toA : ω → Option ι) : Sockets σ ω → List Move → List (Network.Party × Event ι)
  | _, [] => []
  | n, m :: ms =>
    let e := (m.party, match m.party with
      | .A => m.event toA n.b.host.written
      | .B => m.event toB n.a.host.written)
    e :: ((step ad toB toA n e).elim [] fun n => script ad toB toA n ms)

/-- A connects, writes two bytes and is done; B accepts, and is given both. -/
def twoBytes : List Move :=
  [⟨.A, [.rule4], none, [], []⟩, ⟨.B, [.rule1], some 0, [], []⟩, ⟨.B, [.rule4], none, [], []⟩,
    ⟨.A, [.rule1, .rule2], some 0, [97, 98], []⟩, ⟨.A, [.rule2], none, [], []⟩, ⟨.A, [.rule4], none, [], []⟩,
    ⟨.B, [.rule1], some 2, [], []⟩, ⟨.B, [.rule1, .rule3], some 3, [], []⟩, ⟨.B, [.rule3], none, [], []⟩]

/-! ### The three kinds of datagrams -/

/-- A socket over an adapter that has written nothing yet. -/
def opening (how : SpongeSocket.Open) (cfg : TCPConfig) (isn : WrappingInt32) (adapter : σ) : Opening σ ω :=
  { how, cfg, isn, adapter, written := [] }

/-- **Over UDP**, with loss on purpose and without, each owner is given what
the other one wrote, in order, and all of it when the end is passed on. -/
theorem udp_delivers {addrA addrB : Address} {howA howB : SpongeSocket.Open} {cfgA cfgB : TCPConfig}
    {isnA isnB : WrappingInt32} {a b : LossyFdAdapter TCPOverUDPSocketAdapter}
    {es : List (Network.Party × Event ReceivedDatagram)}
    {n : Sockets (LossyFdAdapter TCPOverUDPSocketAdapter) (Address × Bytes)}
    (hr : Runs.run (step udpAdapter.lossy (udpCarry addrA addrB) (udpCarry addrB addrA))
      (start (opening howA cfgA isnA a) (opening howB cfgB isnB b)) es = some n)
    (hb : Bounded n) : Delivers n.a.host n.b.host ∧ Delivers n.b.host n.a.host := by
  have hnone : ∀ a : LossyFdAdapter TCPOverUDPSocketAdapter, UdpCarries [] a.adapter [] :=
    fun _ _ h => absurd h List.not_mem_nil
  have h := run_kept (udp_faithful addrA addrB).lossy (udp_faithful addrB addrA).lossy (hnone a) (hnone b) hr hb
  exact h.delivers

def hostA : Address := ⟨1, 1000⟩

def hostB : Address := ⟨2, 2000⟩

def udpStart : Sockets (LossyFdAdapter TCPOverUDPSocketAdapter) (Address × Bytes) :=
  start (opening .connect {} ⟨5⟩ ⟨{ config := ⟨hostA, hostB⟩ }, 0, 0, fun _ => 0⟩)
    (opening .listenAndAccept {} ⟨7⟩ ⟨{ config := ⟨hostB, {}⟩, listening := true }, 0, 0, fun _ => 0⟩)

def udpRun : List (Network.Party × Event ReceivedDatagram) :=
  script udpAdapter.lossy (udpCarry hostA hostB) (udpCarry hostB hostA) udpStart twoBytes

theorem udpRun_isSome : (Runs.run (step udpAdapter.lossy (udpCarry hostA hostB) (udpCarry hostB hostA)) udpStart
    udpRun).isSome = true := by decide +kernel

theorem udp_delivers_twoBytes : ∃ n,
    Runs.run (step udpAdapter.lossy (udpCarry hostA hostB) (udpCarry hostB hostA)) udpStart udpRun = some n ∧
      n.b.host.given = [97, 98] ∧ n.b.host.socket.inboundShutdown = true ∧ Delivers n.a.host n.b.host ∧
      Delivers n.b.host n.a.host :=
  ⟨_, (Option.some_get udpRun_isSome).symm, by decide +kernel, by decide +kernel,
    udp_delivers (Option.some_get udpRun_isSome).symm ⟨by decide +kernel, by decide +kernel⟩⟩

/-- **Over IPv4**, on TUN devices. -/
theorem tun_delivers {howA howB : SpongeSocket.Open} {cfgA cfgB : TCPConfig} {isnA isnB : WrappingInt32}
    {a b : LossyFdAdapter TCPOverIPv4Adapter} {es : List (Network.Party × Event Bytes)}
    {n : Sockets (LossyFdAdapter TCPOverIPv4Adapter) Bytes}
    (hr : Runs.run (step tunAdapter.lossy some some)
      (start (opening howA cfgA isnA a) (opening howB cfgB isnB b)) es = some n)
    (hb : Bounded n) : Delivers n.a.host n.b.host ∧ Delivers n.b.host n.a.host := by
  have hnone : ∀ a : LossyFdAdapter TCPOverIPv4Adapter, TunCarries [] a.adapter [] :=
    fun _ _ h => absurd h List.not_mem_nil
  exact (run_kept tun_faithful.lossy tun_faithful.lossy (hnone a) (hnone b) hr hb).delivers

def tunStart : Sockets (LossyFdAdapter TCPOverIPv4Adapter) Bytes :=
  start (opening .connect {} ⟨5⟩ ⟨{ config := ⟨hostA, hostB⟩ }, 0, 0, fun _ => 0⟩)
    (opening .listenAndAccept {} ⟨7⟩ ⟨{ config := ⟨hostB, {}⟩, listening := true }, 0, 0, fun _ => 0⟩)

def tunRun : List (Network.Party × Event Bytes) := script tunAdapter.lossy some some tunStart twoBytes

theorem tunRun_isSome : (Runs.run (step tunAdapter.lossy some some) tunStart tunRun).isSome = true := by
  decide +kernel

theorem tun_delivers_twoBytes : ∃ n, Runs.run (step tunAdapter.lossy some some) tunStart tunRun = some n ∧
    n.b.host.given = [97, 98] ∧ n.b.host.socket.inboundShutdown = true ∧ Delivers n.a.host n.b.host ∧
    Delivers n.b.host n.a.host :=
  ⟨_, (Option.some_get tunRun_isSome).symm, by decide +kernel, by decide +kernel,
    tun_delivers (Option.some_get tunRun_isSome).symm ⟨by decide +kernel, by decide +kernel⟩⟩

/-- A socket over an Ethernet adapter as its constructor leaves it, configured
for a connection. -/
def ethernetOpening (how : SpongeSocket.Open) (cfg : TCPConfig) (isn : WrappingInt32) (eth : EthernetAddress)
    (ip nextHop : UInt32) (base : TCPOverIPv4Adapter) : Opening TCPOverIPv4OverEthernetAdapter Bytes where
  how := how
  cfg := cfg
  isn := isn
  adapter := { (TCPOverIPv4OverEthernetAdapter.init eth ip nextHop).1 with base }
  written := (TCPOverIPv4OverEthernetAdapter.init eth ip nextHop).2

/-- **Over Ethernet**, with ARP and IPv4 in between: the full stack. -/
theorem ethernet_delivers {howA howB : SpongeSocket.Open} {cfgA cfgB : TCPConfig} {isnA isnB : WrappingInt32}
    {ethA ethB : EthernetAddress} {ipA ipB hopA hopB : UInt32} {baseA baseB : TCPOverIPv4Adapter}
    {es : List (Network.Party × Event Bytes)} {n : Sockets TCPOverIPv4OverEthernetAdapter Bytes}
    (hr : Runs.run (step ethernetAdapter some some) (start (ethernetOpening howA cfgA isnA ethA ipA hopA baseA)
      (ethernetOpening howB cfgB isnB ethB ipB hopB baseB)) es = some n) (hb : Bounded n) :
    Delivers n.a.host n.b.host ∧ Delivers n.b.host n.a.host := by
  have hinit : ∀ (eth : EthernetAddress) (ip nextHop : UInt32) (base : TCPOverIPv4Adapter), EthernetCarries []
      { (TCPOverIPv4OverEthernetAdapter.init eth ip nextHop).1 with base }
      (TCPOverIPv4OverEthernetAdapter.init eth ip nextHop).2 := fun eth ip nextHop base =>
    ⟨(EthernetCarries.init eth ip nextHop).waiting, rfl, (EthernetCarries.init eth ip nextHop).frames⟩
  have h := run_kept ethernet_faithful ethernet_faithful (hinit ethA ipA hopA baseA) (hinit ethB ipB hopB baseB) hr hb
  exact h.delivers

def ethernetStart : Sockets TCPOverIPv4OverEthernetAdapter Bytes :=
  start (ethernetOpening .connect {} ⟨5⟩ (Vector.replicate 6 1) 1 2 { config := ⟨hostA, hostB⟩ })
    (ethernetOpening .listenAndAccept {} ⟨7⟩ (Vector.replicate 6 2) 2 1
      { config := ⟨hostB, {}⟩, listening := true })

/-- The same after ARP has found B: the dummy frames and the two messages come
first. -/
def ethernetRun : List (Network.Party × Event Bytes) :=
  script ethernetAdapter some some ethernetStart
    [⟨.A, [.rule4], none, [], [2]⟩, ⟨.B, [.rule1], some 1, [], []⟩, ⟨.A, [.rule1], some 1, [], []⟩,
      ⟨.B, [.rule1], some 2, [], []⟩, ⟨.B, [.rule4], none, [], []⟩, ⟨.A, [.rule1, .rule2], some 2, [97, 98], []⟩,
      ⟨.A, [.rule2], none, [], []⟩, ⟨.A, [.rule4], none, [], []⟩, ⟨.B, [.rule1], some 4, [], []⟩,
      ⟨.B, [.rule1, .rule3], some 5, [], []⟩, ⟨.B, [.rule3], none, [], []⟩]

theorem ethernetRun_isSome : (Runs.run (step ethernetAdapter some some) ethernetStart ethernetRun).isSome = true := by
  decide +kernel

theorem ethernet_delivers_twoBytes : ∃ n,
    Runs.run (step ethernetAdapter some some) ethernetStart ethernetRun = some n ∧ n.b.host.given = [97, 98] ∧
      n.b.host.socket.inboundShutdown = true ∧ Delivers n.a.host n.b.host ∧ Delivers n.b.host n.a.host :=
  ⟨_, (Option.some_get ethernetRun_isSome).symm, by decide +kernel, by decide +kernel,
    ethernet_delivers (Option.some_get ethernetRun_isSome).symm ⟨by decide +kernel, by decide +kernel⟩⟩

end Sockets
end Sponge

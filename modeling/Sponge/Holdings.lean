/-
# What interfaces and routers hold

Datagrams are counted: `w` says what each counts, for instance one, or the hops
it has left. An interface holds those that wait for an address and those in the
frames it has not handed on, a router also those in its queues. Whatever an
interface does, it holds what it held and what it was to send; a frame that
arrives brings what it carries to the interface it is for, and to no other one;
and routing pays for every call of `send_datagram` with a hop.

Key definitions: `IPv4Datagram.WellFormed`, `Account`,
`NetworkInterface.holdings`, `NetworkInterface.Clean`,
`AsyncNetworkInterface.holdings`, `Router.holdings`, `Router.calls`.
Key theorems: `NetworkInterface.step_holds`, `AsyncNetworkInterface.recvFrame_holds`,
`Router.route_holds`.
-/
import Mathlib.Algebra.BigOperators.Group.Finset.Basic
import Sponge.ArpTimes
import Sponge.IPv4Wire
import Sponge.RouteErrors

namespace Sponge

/-! ### Datagrams -/

namespace IPv4Datagram

/-- The fields fit the wire, and the payload the length. -/
structure WellFormed (d : IPv4Datagram) : Prop where
  ver : d.header.ver = 4
  hlen : 5 ≤ d.header.hlen
  hlen' : d.header.hlen ≤ 15
  offset : d.header.offset < 8192
  len : 4 * d.header.hlen.toNat ≤ d.header.len.toNat
  payload : d.payload.size = d.header.len.toNat - 4 * d.header.hlen.toNat

instance (d : IPv4Datagram) : Decidable d.WellFormed :=
  decidable_of_iff (d.header.ver = 4 ∧ 5 ≤ d.header.hlen ∧ d.header.hlen ≤ 15 ∧ d.header.offset < 8192 ∧
      4 * d.header.hlen.toNat ≤ d.header.len.toNat ∧ d.payload.size = d.header.len.toNat - 4 * d.header.hlen.toNat)
    ⟨fun ⟨h1, h2, h3, h4, h5, h6⟩ => ⟨h1, h2, h3, h4, h5, h6⟩,
      fun ⟨h1, h2, h3, h4, h5, h6⟩ => ⟨h1, h2, h3, h4, h5, h6⟩⟩

/-- The datagram as the other end of a link parses it. -/
def arrived (d : IPv4Datagram) : IPv4Datagram := ⟨d.header.filled, [d.payload.concatenate]⟩

variable {d : IPv4Datagram}

theorem WellFormed.arrived (h : d.WellFormed) : d.arrived.WellFormed where
  ver := h.ver
  hlen := h.hlen
  hlen' := h.hlen'
  offset := h.offset
  len := h.len
  payload := by
    rw [IPv4Datagram.arrived, BufferList.size_singleton, ← BufferList.size_eq]
    exact h.payload

theorem WellFormed.spent (h : d.WellFormed) : d.spent.WellFormed :=
  ⟨h.ver, h.hlen, h.hlen', h.offset, h.len, h.payload⟩

theorem WellFormed.serialize (h : d.WellFormed) {bufs : BufferList} (hs : d.serialize = .ok bufs)
    (d₀ : IPv4Datagram) : d₀.parse bufs.concatenate = (.noError, d.arrived) := by
  obtain ⟨h1, h2⟩ := parse_serialize d d₀ h.ver h.hlen h.hlen' h.offset h.len h.payload
  obtain rfl := Except.ok.inj (h1.symm.trans hs)
  exact h2

theorem WellFormed.serializable (h : d.WellFormed) : d.serializable = true :=
  (serialize_isOk_iff d).mp
    ⟨_, (parse_serialize d d h.ver h.hlen h.hlen' h.offset h.len h.payload).1⟩

end IPv4Datagram

/-- What a datagram counts: the same at both ends of a link, and at least `cost`
less after a hop. -/
structure Account (w : IPv4Datagram → ℕ) (cost : ℕ) : Prop where
  arrived : ∀ d, w d.arrived = w d
  spent : ∀ d : IPv4Datagram, 2 ≤ d.header.ttl → w d.spent + cost ≤ w d

/-! ### Frames -/

namespace EthernetFrame

/-- The frame on a link: its payload is in one piece. -/
def onWire (frame : EthernetFrame) : EthernetFrame :=
  { header := frame.header, payload := [frame.payload.concatenate] }

@[simp] theorem onWire_header (frame : EthernetFrame) : frame.onWire.header = frame.header := rfl

@[simp] theorem onWire_concatenate (frame : EthernetFrame) :
    frame.onWire.payload.concatenate = frame.payload.concatenate := List.append_nil _

/-- A frame with a datagram is for one interface and is parsed without an
error; one with an ARP message is from one interface. -/
structure Carried (frame : EthernetFrame) : Prop where
  ipv4 : frame.header.type = EthernetHeader.typeIPv4 → frame.header.dst ≠ ethernetBroadcast ∧
    ∃ d : IPv4Datagram, d.WellFormed ∧ IPv4Datagram.parse {} frame.payload.concatenate = (.noError, d)
  arp : ∀ msg, frame.header.type = EthernetHeader.typeARP →
    ARPMessage.parse {} frame.payload.concatenate = (.noError, msg) → msg.senderEthernetAddress ≠ ethernetBroadcast

theorem Carried.onWire {frame : EthernetFrame} (h : frame.Carried) : frame.onWire.Carried where
  ipv4 := by
    rw [onWire_concatenate]
    exact h.ipv4
  arp := by
    rw [onWire_concatenate]
    exact h.arp

/-- What a frame counts. -/
def count (w : IPv4Datagram → ℕ) (frame : EthernetFrame) : ℕ :=
  if frame.header.type = EthernetHeader.typeIPv4 then
    match IPv4Datagram.parse {} frame.payload.concatenate with
    | (.noError, d) => w d
    | _ => 0
  else 0

@[simp] theorem onWire_count (w : IPv4Datagram → ℕ) (frame : EthernetFrame) :
    frame.onWire.count w = frame.count w := by
  unfold count
  rw [onWire_header, onWire_concatenate]

end EthernetFrame

/-! ### Interfaces -/

namespace NetworkInterface

/-- There are finitely many addresses. -/
noncomputable local instance : Fintype UInt32 :=
  Fintype.ofInjective UInt32.toFin fun _ _ h => UInt32.toFin_inj.mp h

/-- What waits for an address counts, and what is in frames. -/
noncomputable def holdings (w : IPv4Datagram → ℕ) (ni : NetworkInterface) : ℕ :=
  (∑ x : UInt32, ((ni.pending x).map w).sum) + (ni.framesOut.map (EthernetFrame.count w)).sum

/-- All datagrams are well formed, and no address is the one for all. -/
structure Clean (ni : NetworkInterface) : Prop where
  queued : Queued ni
  pending : ∀ x, ∀ d ∈ ni.pending x, d.WellFormed
  frames : ∀ frame ∈ ni.framesOut, frame.Carried
  own : ni.ethernetAddress ≠ ethernetBroadcast
  table : ∀ x e, ni.arpTable.lookup x = some e → e.ethernetAddress ≠ ethernetBroadcast

/-- What is to be sent is well formed, and what arrives is carried. -/
def Admissible : Op → Prop
  | .send dgram _ => dgram.WellFormed
  | .recv frame => frame.Carried
  | .tick _ _ => True

variable {ni ni' : NetworkInterface} {w : IPv4Datagram → ℕ} {cost : ℕ}

theorem init_clean {eth : EthernetAddress} (h : eth ≠ ethernetBroadcast) (ip : UInt32) : Clean (init eth ip) where
  queued := init_queued eth ip
  pending := fun x d hd => by cases hd
  frames := fun frame hf => by cases hf
  own := h
  table := fun x e he => by cases he

theorem init_holds (w : IPv4Datagram → ℕ) (eth : EthernetAddress) (ip : UInt32) : (init eth ip).holdings w = 0 := by
  simp [holdings, init, pending]

theorem toBuffer_eq {bufs : BufferList} {buffer : Bytes} (h : bufs.toBuffer = .ok buffer) :
    bufs.concatenate = buffer := by
  rcases bufs with - | ⟨buf, - | ⟨buf', bufs⟩⟩
  · exact Except.ok.inj h
  · exact (List.append_nil buf).trans (Except.ok.inj h)
  · cases h

theorem arpMessage_carried {frame : EthernetFrame} {msg : ARPMessage} (h : frame.Carried)
    (hm : ni.arpMessage frame = some msg) : msg.senderEthernetAddress ≠ ethernetBroadcast := by
  unfold arpMessage at hm
  split_ifs at hm with htype
  split at hm
  · cases hm
  · rename_i buffer hb
    split at hm
    · rename_i hp
      obtain rfl := Option.some.inj hm
      exact h.arp _ htype.2 (toBuffer_eq hb ▸ hp)
    · cases hm

/-- What a call learns and sends is for the addresses it knew, or hears of. -/
theorem Clean.step_addresses (h : Clean ni) {op : Op} (hop : Admissible op) (hs : step ni op = some ni') :
    (∀ x e, ni'.arpTable.lookup x = some e → e.ethernetAddress ≠ ethernetBroadcast) ∧
      ∀ e ∈ ni.emitted op, e.dst ≠ ethernetBroadcast := by
  constructor
  · intro x e he
    rw [step_table h.queued.alive hs] at he
    split at he
    · rename_i a ha
      obtain rfl := Option.some.inj he
      cases op with
      | recv frame =>
        cases hm : ni.arpMessage frame with
        | none => simp [announced, hm] at ha
        | some msg =>
          rw [announced_of_message hm] at ha
          split_ifs at ha
          obtain rfl := Option.some.inj ha
          exact arpMessage_carried hop hm
      | send dgram nextHop => cases ha
      | tick ms order => cases ha
    · obtain ⟨e₀, he₀, hage⟩ := Option.bind_eq_some_iff.mp he
      split_ifs at hage
      obtain rfl := Option.some.inj hage
      exact h.table x e₀ he₀
  · intro e he
    cases op with
    | send dgram nextHop =>
      cases hl : ni.live nextHop with
      | none => simp [emitted, hl] at he
      | some entry =>
        simp only [emitted, hl] at he
        split_ifs at he
        · rw [List.mem_singleton.mp he]
          exact h.table nextHop entry (h.queued.live nextHop ▸ hl)
        · cases he
    | recv frame =>
      cases hm : ni.arpMessage frame with
      | none => simp [emitted, hm] at he
      | some msg =>
        simp only [emitted, hm] at he
        obtain ⟨d, -, rfl⟩ := List.mem_map.mp he
        exact arpMessage_carried hop hm
    | tick ms order => cases he

theorem typeIPv4_ne_typeARP : EthernetHeader.typeIPv4 ≠ EthernetHeader.typeARP := by decide

/-- A frame that goes out carries its datagram to one address. -/
theorem isFrame_carried {frame : EthernetFrame} {e : Emission} (h : ni.IsFrame frame e) (hd : e.dgram.WellFormed)
    (hdst : e.dst ≠ ethernetBroadcast) :
    frame.Carried ∧ ∀ w : IPv4Datagram → ℕ, frame.count w = w e.dgram.arrived := by
  obtain ⟨payload, hp, rfl⟩ := Result.map_eq_ok.mp h
  have hparse := hd.serialize hp {}
  refine ⟨⟨fun _ => ⟨hdst, _, hd.arrived, hparse⟩, fun msg htype => absurd htype typeIPv4_ne_typeARP⟩, fun w => ?_⟩
  simp [EthernetFrame.count, hparse]

theorem ownARP_carried {frame : EthernetFrame} (h : ni.OwnARP frame) (hown : ni.ethernetAddress ≠ ethernetBroadcast) :
    frame.Carried ∧ ∀ w : IPv4Datagram → ℕ, frame.count w = 0 := by
  obtain ⟨dst, msg, hsup, heth, -, hf⟩ := h
  rw [arpFrame_eq _ _ _ hsup] at hf
  obtain rfl := Except.ok.inj hf
  refine ⟨⟨fun htype => absurd htype typeIPv4_ne_typeARP.symm, fun msg' _ hp => ?_⟩,
    fun w => if_neg typeIPv4_ne_typeARP.symm⟩
  have hbytes : BufferList.concatenate [msg.unparse] = msg.unparse := List.append_nil _
  rw [hbytes, ARPMessage.parse_unparse hsup] at hp
  obtain ⟨-, rfl⟩ := Prod.mk.inj hp
  exact heth ▸ hown

theorem admissible_serializable {op : Op} (h : Admissible op) : Serializable op := by
  cases op with
  | send dgram nextHop => exact IPv4Datagram.WellFormed.serializable h
  | recv frame => trivial
  | tick ms order => trivial

theorem admissible_sentTo {op : Op} (h : Admissible op) (x : UInt32) : ∀ d ∈ sentTo x op, d.WellFormed := by
  intro d hd
  cases op with
  | send dgram nextHop =>
    simp only [sentTo] at hd
    split_ifs at hd
    · obtain rfl := List.mem_singleton.mp hd
      exact h
    · cases hd
  | recv frame => cases hd
  | tick ms order => cases hd

/-- **A call keeps an interface clean.** -/
theorem step_clean (h : Clean ni) {op : Op} (hop : Admissible op) (hs : step ni op = some ni') : Clean ni' := by
  have hem := step_emits hs
  obtain ⟨htable, hdst⟩ := h.step_addresses hop hs
  obtain ⟨hpend, hlog⟩ := step_from (admissible_sentTo hop) h.pending hs
  refine ⟨step_queued (admissible_serializable hop) h.queued hs, hpend, fun frame hf => ?_, hem.eth ▸ h.own, htable⟩
  obtain ⟨new, hout, -, hnew⟩ := hem.frames
  by_cases htype : isIPv4 frame = true
  · rcases hem.carries frame hf htype with hf | ⟨e, he, hframe⟩
    · exact h.frames frame hf
    · exact (isFrame_carried hframe (hlog e he) (hdst e he)).1
  · rw [hout] at hf
    rcases List.mem_append.mp hf with hf | hf
    · exact h.frames frame hf
    · exact (ownARP_carried ((hnew frame hf).resolve_left htype) h.own).1

/-! ### What a call holds -/

/-- What the datagrams of a log count, address by address. -/
theorem sum_emittedTo (w : IPv4Datagram → ℕ) (log : List Emission) :
    ∑ x : UInt32, ((emittedTo x log).map w).sum = (log.map fun e => w e.dgram).sum := by
  induction log with
  | nil => simp [emittedTo]
  | cons e log ih =>
    have hcons : ∀ x, ((emittedTo x (e :: log)).map w).sum =
        (if e.nextHop = x then w e.dgram else 0) + ((emittedTo x log).map w).sum := by
      intro x
      unfold emittedTo
      by_cases hx : e.nextHop = x <;> simp [hx]
    simp only [hcons, Finset.sum_add_distrib, Finset.sum_ite_eq, Finset.mem_univ, if_true, ih, List.map_cons,
      List.sum_cons]

/-- What a call is to send counts. -/
def incoming (w : IPv4Datagram → ℕ) : Op → ℕ
  | .send dgram _ => w dgram
  | .recv _ => 0
  | .tick _ _ => 0

theorem sum_sentTo (w : IPv4Datagram → ℕ) (op : Op) :
    ∑ x : UInt32, ((sentTo x op).map w).sum = incoming w op := by
  cases op with
  | send dgram nextHop =>
    have hone : ∀ x, ((sentTo x (.send dgram nextHop)).map w).sum = if nextHop = x then w dgram else 0 := by
      intro x
      by_cases hx : nextHop = x <;> simp [sentTo, hx]
    simp [hone, incoming]
  | recv frame => simp [sentTo, incoming]
  | tick ms order => simp [sentTo, incoming]

/-- The frames that go out count what they carry. -/
theorem sum_frames (ha : Account w cost) {new : List EthernetFrame} {log : List Emission}
    (hall : List.Forall₂ ni.IsFrame (new.filter isIPv4) log) (hlog : ∀ e ∈ log, e.dgram.WellFormed)
    (hdst : ∀ e ∈ log, e.dst ≠ ethernetBroadcast) (hnew : ∀ frame ∈ new, isIPv4 frame = true ∨ ni.OwnARP frame)
    (hown : ni.ethernetAddress ≠ ethernetBroadcast) :
    (new.map (EthernetFrame.count w)).sum = (log.map fun e => w e.dgram).sum := by
  induction new generalizing log with
  | nil =>
    rw [List.filter_nil] at hall
    cases hall
    rfl
  | cons frame new ih =>
    have hrest : ∀ f ∈ new, isIPv4 f = true ∨ ni.OwnARP f := fun f hf => hnew f (List.mem_cons_of_mem _ hf)
    rw [List.filter_cons] at hall
    split_ifs at hall with htype
    · obtain _ | ⟨hframe, hall⟩ := hall
      rename_i e log
      have hcount := (isFrame_carried hframe (hlog e List.mem_cons_self) (hdst e List.mem_cons_self)).2 w
      have htail := ih hall (fun e he => hlog e (List.mem_cons_of_mem _ he))
        (fun e he => hdst e (List.mem_cons_of_mem _ he)) hrest
      rw [List.map_cons, List.sum_cons, List.map_cons, List.sum_cons, hcount, ha.arrived, htail]
    · have hcount := (ownARP_carried ((hnew frame List.mem_cons_self).resolve_left htype) hown).2 w
      rw [List.map_cons, List.sum_cons, hcount, zero_add, ih hall hlog hdst hrest]

/-- **An interface holds what it held and what it was to send.** -/
theorem step_holds (ha : Account w cost) (h : Clean ni) {op : Op} (hop : Admissible op) (hs : step ni op = some ni') :
    ni'.holdings w = ni.holdings w + incoming w op := by
  have hem := step_emits hs
  obtain ⟨new, hout, hall, hnew⟩ := hem.frames
  have hlog := (step_from (admissible_sentTo hop) h.pending hs).2
  have hframes := sum_frames ha hall hlog (h.step_addresses hop hs).2 hnew h.own
  -- address by address, what went out and what waits then is what waited and what was to be sent
  have hwaits : (∑ x : UInt32, ((emittedTo x (ni.emitted op)).map w).sum) +
        ∑ x : UInt32, ((ni'.pending x).map w).sum =
      (∑ x : UInt32, ((ni.pending x).map w).sum) + ∑ x : UInt32, ((sentTo x op).map w).sum := by
    rw [← Finset.sum_add_distrib, ← Finset.sum_add_distrib]
    refine Finset.sum_congr rfl fun x _ => ?_
    have hx := congrArg (fun ds => (List.map w ds).sum) (step_conserves (admissible_serializable hop) h.queued hs x)
    simpa using hx
  rw [sum_emittedTo, sum_sentTo] at hwaits
  calc ni'.holdings w
      = (∑ x : UInt32, ((ni'.pending x).map w).sum) +
          ((ni.framesOut.map (EthernetFrame.count w)).sum + ((ni.emitted op).map fun e => w e.dgram).sum) := by
        rw [holdings, hout, List.map_append, List.sum_append, hframes]
    _ = ((ni.emitted op).map fun e => w e.dgram).sum + (∑ x : UInt32, ((ni'.pending x).map w).sum) +
          (ni.framesOut.map (EthernetFrame.count w)).sum := by ring
    _ = ni.holdings w + incoming w op := by
        rw [hwaits, holdings]
        ring

/-- The first frame is handed on. -/
theorem pop_holds {frame : EthernetFrame} {framesOut : List EthernetFrame} (h : Clean ni)
    (hf : ni.framesOut = frame :: framesOut) :
    frame.Carried ∧ Clean { ni with framesOut } ∧
      ∀ w, ni.holdings w = holdings w { ni with framesOut } + frame.count w := by
  have hframes := h.frames
  rw [hf, List.forall_mem_cons] at hframes
  have hqueued : Queued { ni with framesOut } := ⟨h.queued.alive, h.queued.unknown, h.queued.serializable⟩
  refine ⟨hframes.1, ⟨hqueued, h.pending, hframes.2, h.own, h.table⟩, fun w => ?_⟩
  rw [holdings, hf, List.map_cons, List.sum_cons]
  show _ = (∑ x : UInt32, ((ni.pending x).map w).sum) + _ + _
  ring

end NetworkInterface

/-! ### An interface with its queue -/

namespace AsyncNetworkInterface

noncomputable def holdings (w : IPv4Datagram → ℕ) (a : AsyncNetworkInterface) : ℕ :=
  (a.datagramsOut.map w).sum + a.interface.holdings w

structure Clean (a : AsyncNetworkInterface) : Prop where
  interface : a.interface.Clean
  queue : ∀ d ∈ a.datagramsOut, d.WellFormed

variable {a : AsyncNetworkInterface} {w : IPv4Datagram → ℕ} {cost : ℕ} {frame : EthernetFrame}

/-- A datagram of a frame goes up to the interface it is for. -/
theorem recvFrame_datagram {d : IPv4Datagram} (hf : frame.Carried)
    (h : (a.interface.recvFrame frame).1 = .ok (some d)) : frame.header.dst = a.interface.ethernetAddress ∧
      d.WellFormed ∧ frame.count w = w d := by
  obtain ⟨htakes, htype, buffer, hb, hp⟩ := NetworkInterface.recvFrame_some h
  have htype' : frame.header.type = EthernetHeader.typeIPv4 := beq_iff_eq.mp htype
  rw [← NetworkInterface.toBuffer_eq hb] at hp
  obtain ⟨hdst, d', hd', hp'⟩ := hf.ipv4 htype'
  obtain ⟨-, rfl⟩ := Prod.mk.inj (hp.symm.trans hp')
  refine ⟨?_, hd', ?_⟩
  · simpa [NetworkInterface.ignores, hdst] using htakes
  · simp [EthernetFrame.count, htype', hp]

/-- **A frame that arrives** brings what it carries to the interface it is for. -/
theorem recvFrame_holds (ha : Account w cost) (h : a.Clean) (hf : frame.Carried) :
    (a.recvFrame frame).2.Clean ∧
    (a.recvFrame frame).2.interface.ethernetAddress = a.interface.ethernetAddress ∧
    (a.recvFrame frame).2.holdings w ≤
      a.holdings w + if frame.header.dst = a.interface.ethernetAddress then frame.count w else 0 := by
  have hs : NetworkInterface.step a.interface (.recv frame) = some (a.interface.recvFrame frame).2 := rfl
  have hop : NetworkInterface.Admissible (.recv frame) := hf
  have hclean := NetworkInterface.step_clean h.interface hop hs
  have hholds : (a.interface.recvFrame frame).2.holdings w = a.interface.holdings w :=
    NetworkInterface.step_holds ha h.interface hop hs
  have heth := (NetworkInterface.step_emits hs).eth
  unfold recvFrame
  rcases hr : a.interface.recvFrame frame with ⟨e | - | d, ni⟩ <;> rw [hr] at hclean hholds heth
  · exact ⟨⟨hclean, h.queue⟩, heth, le_add_right (by rw [holdings, hholds, holdings])⟩
  · exact ⟨⟨hclean, h.queue⟩, heth, le_add_right (by rw [holdings, hholds, holdings])⟩
  · obtain ⟨hdst, hd, hcount⟩ := recvFrame_datagram (w := w) hf (congrArg Prod.fst hr)
    refine ⟨⟨hclean, fun x hx => ?_⟩, heth, le_of_eq ?_⟩
    · rcases List.mem_append.mp hx with hx | hx
      · exact h.queue x hx
      · exact List.mem_singleton.mp hx ▸ hd
    · rw [if_pos hdst, hcount, holdings, holdings, hholds, List.map_append, List.sum_append, List.map_singleton,
        List.sum_singleton]
      ring

end AsyncNetworkInterface

/-! ### Routers -/

namespace Router

open NetworkInterface (step_clean step_holds step_emits)

/-- The calls of `send_datagram` that `route()` makes: those of the datagrams in
front of one that jams. -/
def calls (r : Router) : List HandOff :=
  ((r.queued.takeWhile fun d => ¬ Jams r.routes r.nets d).map (handOff r.routes)).reduceOption

noncomputable def holdings (w : IPv4Datagram → ℕ) (r : Router) : ℕ :=
  (r.interfaces.map (AsyncNetworkInterface.holdings w)).sum

def Clean (r : Router) : Prop := ∀ a ∈ r.interfaces, a.Clean

/-- The Ethernet addresses, which never change. -/
def addresses (r : Router) : List EthernetAddress := r.interfaces.map fun a => a.interface.ethernetAddress

/-- What interfaces hold, without queues. -/
noncomputable def held (w : IPv4Datagram → ℕ) (nets : List NetworkInterface) : ℕ :=
  (nets.map (NetworkInterface.holdings w)).sum

variable {r : Router} {routes : List Route} {nets : List NetworkInterface} {d : IPv4Datagram}
  {w : IPv4Datagram → ℕ} {cost : ℕ}

theorem holdings_eq (w : IPv4Datagram → ℕ) (r : Router) : r.holdings w = held w r.nets + (r.queued.map w).sum := by
  have key : ∀ as : List AsyncNetworkInterface, (as.map (AsyncNetworkInterface.holdings w)).sum =
      held w (as.map AsyncNetworkInterface.interface) +
        ((as.map AsyncNetworkInterface.datagramsOut).flatten.map w).sum := by
    intro as
    induction as with
    | nil => rfl
    | cons a as ih =>
      simp only [held, List.map_cons, List.sum_cons, List.flatten_cons, List.map_append, List.sum_append] at ih ⊢
      rw [ih, AsyncNetworkInterface.holdings]
      ring
  exact key r.interfaces

theorem clean_iff : r.Clean ↔ (∀ ni ∈ r.nets, ni.Clean) ∧ ∀ d ∈ r.queued, d.WellFormed := by
  unfold nets queued queues
  constructor
  · intro h
    refine ⟨fun ni hni => ?_, fun d hd => ?_⟩
    · obtain ⟨a, ha, rfl⟩ := List.mem_map.mp hni
      exact (h a ha).interface
    · obtain ⟨q, hq, hd⟩ := List.mem_flatten.mp hd
      obtain ⟨a, ha, rfl⟩ := List.mem_map.mp hq
      exact (h a ha).queue d hd
  · rintro ⟨hnets, hqueues⟩ a ha
    exact ⟨hnets _ (List.mem_map_of_mem ha), fun d hd => hqueues d
      (List.mem_flatten.mpr ⟨_, List.mem_map_of_mem ha, hd⟩)⟩

/-- One entry of a list is another one. -/
theorem sum_set {α : Type} (g : α → ℕ) : ∀ {l : List α} {n : ℕ} {a : α} (a' : α), l[n]? = some a →
    ((l.set n a').map g).sum + g a = (l.map g).sum + g a'
  | [], _, _, _, h => by cases h
  | b :: l, 0, a, a', h => by
    obtain rfl := Option.some.inj h
    simp only [List.set_cons_zero, List.map_cons, List.sum_cons]
    ring
  | b :: l, n + 1, a, a', h => by
    have hrest := sum_set g (l := l) (n := n) a' h
    simp only [List.set_cons_succ, List.map_cons, List.sum_cons]
    omega

/-- What one datagram changes, if it does not jam. -/
theorem forward_holds (ha : Account w cost) (h : ∀ ni ∈ nets, ni.Clean) (hd : d.WellFormed)
    (hj : ¬ Jams routes nets d) :
    (∀ ni ∈ forward routes nets d, ni.Clean) ∧
    (forward routes nets d).map NetworkInterface.ethernetAddress = nets.map NetworkInterface.ethernetAddress ∧
    held w (forward routes nets d) + cost * ((handOff routes d).elim 0 fun _ => 1) ≤ held w nets + w d := by
  unfold forward
  cases hh : handOff routes d with
  | none => exact ⟨h, rfl, by simp⟩
  | some call =>
    have hcall : ∃ ni, nets[call.interfaceNum]? = some ni := by
      by_contra hc
      exact hj ⟨call, hh, fun ni hni => absurd ⟨ni, hni⟩ hc⟩
    obtain ⟨ni, hni⟩ := hcall
    have httl : 2 ≤ d.header.ttl := by
      obtain ⟨best, -, hb⟩ := Option.bind_eq_some_iff.mp hh
      split_ifs at hb with httl
      exact httl
    have hs : NetworkInterface.step ni (.send call.dgram call.nextHop) =
        some (ni.sendDatagram call.dgram call.nextHop).2 := rfl
    have hmem := List.mem_of_getElem? hni
    have hop : NetworkInterface.Admissible (.send call.dgram call.nextHop) := handOff_dgram hh ▸ hd.spent
    have hholds := step_holds ha (h ni hmem) hop hs
    have hdeliver : deliver nets call = nets.set call.interfaceNum (ni.sendDatagram call.dgram call.nextHop).2 := by
      unfold deliver
      rw [List.modify_eq_set_getElem?, hni]
      rfl
    simp only [Option.elim_some, hdeliver]
    refine ⟨fun x hx => ?_, set_map_eq hni (step_emits hs).eth, ?_⟩
    · rcases List.mem_or_eq_of_mem_set hx with hx | rfl
      · exact h x hx
      · exact step_clean (h ni hmem) hop hs
    · have hsum := sum_set (NetworkInterface.holdings w) (ni.sendDatagram call.dgram call.nextHop).2 hni
      have hspent : NetworkInterface.incoming w (.send call.dgram call.nextHop) + cost ≤ w d :=
        handOff_dgram hh ▸ ha.spent d httl
      unfold held
      omega

/-- What a list of datagrams changes, none of which jams. -/
theorem foldl_forward_holds (ha : Account w cost) {dgrams : List IPv4Datagram} (h : ∀ ni ∈ nets, ni.Clean)
    (hd : ∀ d ∈ dgrams, d.WellFormed) (hj : ∀ d ∈ dgrams, ¬ Jams routes nets d) :
    (∀ ni ∈ dgrams.foldl (forward routes) nets, ni.Clean) ∧
    (dgrams.foldl (forward routes) nets).map NetworkInterface.ethernetAddress =
      nets.map NetworkInterface.ethernetAddress ∧
    held w (dgrams.foldl (forward routes) nets) + cost * ((dgrams.map (handOff routes)).reduceOption).length ≤
      held w nets + (dgrams.map w).sum := by
  induction dgrams generalizing nets with
  | nil => exact ⟨h, rfl, le_rfl⟩
  | cons d dgrams ih =>
    rw [List.forall_mem_cons] at hd hj
    obtain ⟨h1, h2, h3⟩ := forward_holds ha h hd.1 hj.1
    have hfree : ∀ x ∈ dgrams, ¬ Jams routes (forward routes nets d) x := fun x hx => by
      rw [jams_congr (forward_tables routes nets d)]
      exact hj.2 x hx
    obtain ⟨g1, g2, g3⟩ := ih h1 hd.2 hfree
    refine ⟨g1, g2.trans h2, ?_⟩
    rw [List.foldl_cons, List.map_cons, List.map_cons, List.sum_cons]
    cases hh : handOff routes d with
    | none =>
      rw [hh, Option.elim_none] at h3
      rw [List.reduceOption_cons_of_none]
      omega
    | some call =>
      rw [hh, Option.elim_some] at h3
      rw [List.reduceOption_cons_of_some, List.length_cons, mul_add]
      omega

/-- **Routing** pays for its calls. -/
theorem route_holds (ha : Account w cost) (h : r.Clean) :
    r.route.2.Clean ∧ r.route.2.addresses = r.addresses ∧
      r.route.2.holdings w + cost * r.calls.length ≤ r.holdings w := by
  obtain ⟨hnets, hqueue⟩ := clean_iff.mp h
  have haddr : ∀ r : Router, r.addresses = r.nets.map NetworkInterface.ethernetAddress := fun r => by
    simp [addresses, nets]
  have hserved := route_serves r
  simp only [holdings_eq, clean_iff, haddr]
  generalize r.route = x at hserved
  cases hserved with
  | @all r' free after =>
    have hempty : r'.queued = [] := by
      rw [queued, after.queues]
      simp
    have hcalls : r.calls = (r.queued.map (handOff r.routes)).reduceOption := by
      rw [calls, List.takeWhile_eq_self_iff.mpr fun d hd => by simpa using free d hd]
    obtain ⟨h1, h2, h3⟩ := foldl_forward_holds ha hnets hqueue free
    rw [hempty, hcalls, after.nets]
    exact ⟨⟨h1, fun d hd => absurd hd List.not_mem_nil⟩, h2, h3⟩
  | @jam r' e before front d behind later split free jams after =>
    have hbefore : r.queued = (before.flatten ++ front) ++ d :: (behind ++ later.flatten) := by
      rw [queued, split]
      simp
    have hafter : r'.queued = d.spent :: (behind ++ later.flatten) := by
      rw [queued, after.queues]
      simp
    have hcalls : r.calls = ((before.flatten ++ front).map (handOff r.routes)).reduceOption := by
      rw [calls, hbefore, List.takeWhile_append_of_pos fun x hx => by simpa using free x hx,
        List.takeWhile_cons_of_neg (by simpa using jams), List.append_nil]
    rw [hbefore, List.forall_mem_append, List.forall_mem_cons] at hqueue
    obtain ⟨h1, h2, h3⟩ := foldl_forward_holds ha hnets hqueue.1 free
    have hspent : w d.spent + cost ≤ w d := by
      obtain ⟨call, hh, -⟩ := jams
      obtain ⟨best, -, hb⟩ := Option.bind_eq_some_iff.mp hh
      split_ifs at hb with httl
      exact ha.spent d httl
    rw [hcalls, hafter, hbefore, after.nets, List.forall_mem_cons]
    refine ⟨⟨h1, hqueue.2.1.spent, hqueue.2.2⟩, h2, ?_⟩
    simp only [List.map_append, List.map_cons, List.sum_append, List.sum_cons] at h3 ⊢
    omega

end Router
end Sponge

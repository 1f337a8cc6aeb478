/-
# Datagrams between networks

Routers and hosts, and the links that join their interfaces: what
`network_simulator.cc` puts together, for any number of each and in any order
of calls. A host is a node without routes, whose owner takes what its interface
received. A link brings copies of a frame to all other interfaces on it, each
when it likes, or never.

Datagrams may be lost, but none is ever duplicated or made up: for each kind,
no more are taken by owners than were sent, and with no more hops left
(`taken_le_sent`). And however the routes lead round in circles, the calls of
`send_datagram` that all routers make together are at most the hops of the
datagrams that were sent (`forwards_le_hops`).

This needs three things that the code does not check: owners send well-formed
datagrams, no interface has the broadcast address, and the Ethernet addresses on
a link differ. On a datagram that cannot be serialized `recv_frame` throws with
its queue as it was, and those in front of it go out again; a frame to an address
that two interfaces have is taken by both.

Key definitions: `Internetwork`, `Internetwork.step`, `Internetwork.Linked`,
`Internetwork.holdings`.
Key theorems: `Internetwork.step_holds`, `Internetwork.taken_le_sent`,
`Internetwork.forwards_le_hops`.
-/
import Mathlib.Algebra.BigOperators.Group.Finset.Piecewise
import Sponge.Holdings

namespace Sponge

/-- Interface `port.2` of node `port.1`. -/
abbrev Port (ι : Type) := ι × ℕ

/-- The nodes, and the frames on the links, each with where it is to arrive. -/
structure Internetwork (ι : Type) where
  nodes : ι → Router
  wire : List (EthernetFrame × Port ι)

namespace Internetwork

open Runs

variable {ι : Type}

inductive Op (ι : Type) where
  /-- an owner has its interface send a datagram -/
  | send (port : Port ι) (dgram : IPv4Datagram) (nextHop : UInt32)
  /-- an owner takes what its interface received -/
  | take (port : Port ι)
  | route (i : ι)
  | tick (port : Port ι) (ms : ℕ) (order : List UInt32)
  /-- the first frame of an interface goes to the others on its link -/
  | transmit (port : Port ι) (link : List (Port ι))
  /-- a copy on the wire arrives, or is lost -/
  | arrive (n : ℕ)
  | lose (n : ℕ)

def interface (net : Internetwork ι) (port : Port ι) : Option AsyncNetworkInterface :=
  (net.nodes port.1).interfaces[port.2]?

def address (net : Internetwork ι) (port : Port ι) : Option EthernetAddress :=
  (net.interface port).map fun a => a.interface.ethernetAddress

/-- All nodes as they are before the first call. -/
def init (routes : ι → List Route) (addresses : ι → List (EthernetAddress × UInt32)) : Internetwork ι where
  nodes := fun i => Router.init (routes i) (addresses i)
  wire := []

variable [DecidableEq ι]

def setNode (net : Internetwork ι) (i : ι) (r : Router) : Internetwork ι :=
  { net with nodes := Function.update net.nodes i r }

def setInterface (net : Internetwork ι) (port : Port ι) (a : AsyncNetworkInterface) : Internetwork ι :=
  net.setNode port.1
    { net.nodes port.1 with interfaces := (net.nodes port.1).interfaces.set port.2 a }

/-- A call of an interface by its owner. -/
def call (net : Internetwork ι) (port : Port ι) (op : NetworkInterface.Op) : Option (Internetwork ι) :=
  (net.interface port).bind fun a =>
    (NetworkInterface.step a.interface op).map fun interface => net.setInterface port { a with interface }

/-- What a call throws is lost, what it did stays. -/
def step (net : Internetwork ι) : Op ι → Option (Internetwork ι)
  | .send port dgram nextHop => net.call port (.send dgram nextHop)
  | .take port => (net.interface port).map fun a => net.setInterface port { a with datagramsOut := [] }
  | .route i => some (net.setNode i (net.nodes i).route.2)
  | .tick port ms order => net.call port (.tick ms order)
  | .transmit port link => (net.interface port).bind fun a =>
      match a.interface.framesOut with
      | [] => none
      | frame :: framesOut =>
        some { net.setInterface port { a with interface := { a.interface with framesOut } } with
          wire := net.wire ++ link.map fun port => (frame.onWire, port) }
  | .arrive n => net.wire[n]?.bind fun (frame, port) => (net.interface port).map fun a =>
      { net.setInterface port (a.recvFrame frame).2 with wire := net.wire.eraseIdx n }
  | .lose n => if n < net.wire.length then some { net with wire := net.wire.eraseIdx n } else none

/-- The datagrams that an owner has its interface send. -/
def sent : Op ι → List IPv4Datagram
  | .send _ dgram _ => [dgram]
  | _ => []

/-- The datagrams that an owner takes. -/
def taken (net : Internetwork ι) : Op ι → List IPv4Datagram
  | .take port => ((net.interface port).map AsyncNetworkInterface.datagramsOut).getD []
  | _ => []

/-- The calls of `send_datagram` that a router makes. -/
def forwards (net : Internetwork ι) : Op ι → List Router.HandOff
  | .route i => (net.nodes i).calls
  | _ => []

/-- The interfaces of a link have different addresses. -/
def Linked (address : Port ι → Option EthernetAddress) : Op ι → Prop
  | .transmit _ link => (link.map address).Nodup
  | _ => True

instance (address : Port ι → Option EthernetAddress) : DecidablePred (Linked address)
  | .transmit _ _ => inferInstanceAs (Decidable (List.Nodup _))
  | .send _ _ _ | .take _ | .route _ | .tick _ _ _ | .arrive _ | .lose _ => isTrue trivial

/-! ### What a network holds -/

omit [DecidableEq ι] in
theorem address_eq (net : Internetwork ι) (port : Port ι) :
    net.address port = (net.nodes port.1).addresses[port.2]? := by
  rw [address, interface, Router.addresses, List.getElem?_map]

/-- All datagrams are well formed, and each frame on the wire carries one or an
ARP message. -/
structure Clean (net : Internetwork ι) : Prop where
  nodes : ∀ i, (net.nodes i).Clean
  wire : ∀ copy ∈ net.wire, copy.1.Carried

variable {net net' : Internetwork ι} {port : Port ι} {a a' : AsyncNetworkInterface}

theorem setNode_clean (h : net.Clean) {i : ι} {r : Router} (hr : r.Clean) : (net.setNode i r).Clean where
  nodes := by
    intro j
    show (Function.update net.nodes i r j).Clean
    by_cases hj : j = i
    · rw [hj, Function.update_self]
      exact hr
    · rw [Function.update_of_ne hj]
      exact h.nodes j
  wire := h.wire

omit [DecidableEq ι] in
theorem interface_clean (h : net.Clean) (hp : net.interface port = some a) : a.Clean :=
  h.nodes port.1 a (List.mem_of_getElem? hp)

/-- A copy counts where it is to be taken. -/
def copyCount (w : IPv4Datagram → ℕ) (address : Port ι → Option EthernetAddress) (copy : EthernetFrame × Port ι) :
    ℕ :=
  if address copy.2 = some copy.1.header.dst then copy.1.count w else 0

def onWire (w : IPv4Datagram → ℕ) (net : Internetwork ι) : ℕ := (net.wire.map (copyCount w net.address)).sum

variable [Fintype ι]

noncomputable def holdings (w : IPv4Datagram → ℕ) (net : Internetwork ι) : ℕ :=
  (∑ i, (net.nodes i).holdings w) + net.onWire w

variable {w : IPv4Datagram → ℕ} {cost : ℕ}

/-- A node does something. -/
theorem setNode_holds (net : Internetwork ι) {i : ι} {r : Router} (h : r.addresses = (net.nodes i).addresses) :
    (net.setNode i r).address = net.address ∧
      (net.setNode i r).holdings w + (net.nodes i).holdings w = net.holdings w + r.holdings w := by
  have haddr : (net.setNode i r).address = net.address := by
    funext port
    rw [address_eq, address_eq]
    show (Function.update net.nodes i r port.1).addresses[port.2]? = _
    by_cases hi : port.1 = i
    · rw [hi, Function.update_self, h]
    · rw [Function.update_of_ne hi]
  refine ⟨haddr, ?_⟩
  have hsum : (∑ j, (Function.update net.nodes i r j).holdings w) + (net.nodes i).holdings w =
      (∑ j, (net.nodes j).holdings w) + r.holdings w := by
    rw [← Finset.add_sum_erase _ _ (Finset.mem_univ i), ← Finset.add_sum_erase Finset.univ
      (fun j => (net.nodes j).holdings w) (Finset.mem_univ i), Function.update_self]
    have hrest : ∀ j ∈ Finset.univ.erase i,
        (Function.update net.nodes i r j).holdings w = (net.nodes j).holdings w := fun j hj => by
      rw [Function.update_of_ne (Finset.ne_of_mem_erase hj)]
    rw [Finset.sum_congr rfl hrest]
    ring
  have hwire : (net.setNode i r).onWire w = net.onWire w := by
    rw [onWire, haddr]
    rfl
  rw [holdings, hwire, holdings]
  show (∑ j, (Function.update net.nodes i r j).holdings w) + _ + _ = _
  omega

/-- An interface does something. -/
theorem setInterface_holds (h : net.Clean) (hp : net.interface port = some a) (ha' : a'.Clean)
    (heth : a'.interface.ethernetAddress = a.interface.ethernetAddress) :
    (net.setInterface port a').Clean ∧ (net.setInterface port a').address = net.address ∧
      (net.setInterface port a').holdings w + a.holdings w = net.holdings w + a'.holdings w := by
  set r : Router := { net.nodes port.1 with interfaces := (net.nodes port.1).interfaces.set port.2 a' } with hr
  have hnode := setNode_holds (w := w) net (i := port.1) (r := r) (Router.set_map_eq hp heth)
  have hsum := Router.sum_set (AsyncNetworkInterface.holdings w) a' hp
  refine ⟨setNode_clean h fun x hx => ?_, hnode.1, ?_⟩
  · rcases List.mem_or_eq_of_mem_set hx with hx | rfl
    · exact h.nodes port.1 x hx
    · exact ha'
  · have hall : (net.setInterface port a').holdings w +
        ((net.nodes port.1).interfaces.map (AsyncNetworkInterface.holdings w)).sum =
          net.holdings w + (((net.nodes port.1).interfaces.set port.2 a').map
            (AsyncNetworkInterface.holdings w)).sum := hnode.2
    omega

/-! ### One step -/

omit [DecidableEq ι] in
/-- What is on the wire depends on where the addresses are. -/
theorem holdings_wire (wire : List (EthernetFrame × Port ι)) (haddr : net'.address = net.address) :
    holdings w { net' with wire := wire } + net'.onWire w =
      net'.holdings w + (wire.map (copyCount w net.address)).sum := by
  have hwire : onWire w { net' with wire := wire } = (wire.map (copyCount w net.address)).sum := by
    rw [← haddr]
    rfl
  rw [holdings, hwire, holdings]
  show (∑ i, (net'.nodes i).holdings w) + _ + _ = _
  ring

/-- A call of the owner adds what it is to send. -/
theorem call_holds (ha : Account w cost) {op : NetworkInterface.Op} (hop : NetworkInterface.Admissible op)
    (h : net.Clean) (hs : net.call port op = some net') :
    net'.Clean ∧ net'.address = net.address ∧
      net'.holdings w = net.holdings w + NetworkInterface.incoming w op := by
  obtain ⟨a, hp, hs⟩ := Option.bind_eq_some_iff.mp hs
  obtain ⟨ni, hni, rfl⟩ := Option.map_eq_some_iff.mp hs
  have hclean := interface_clean h hp
  have hholds := NetworkInterface.step_holds ha hclean.interface hop hni
  have hnext : AsyncNetworkInterface.Clean { a with interface := ni } :=
    ⟨NetworkInterface.step_clean hclean.interface hop hni, hclean.queue⟩
  obtain ⟨h1, haddr, h2⟩ := setInterface_holds (w := w) h hp hnext (NetworkInterface.step_emits hni).eth
  refine ⟨h1, haddr, ?_⟩
  simp only [AsyncNetworkInterface.holdings, hholds] at h2
  omega

omit [DecidableEq ι] [Fintype ι] in
/-- At most one of the copies of a frame is taken. -/
theorem copies_le (frame : EthernetFrame) {link : List (Port ι)} (h : (link.map net.address).Nodup) :
    ((link.map fun port => (frame.onWire, port)).map (copyCount w net.address)).sum ≤ frame.count w := by
  have hcount := List.nodup_iff_count_le_one.mp h (some frame.header.dst)
  have hsum : ∀ link : List (Port ι),
      ((link.map fun port => (frame.onWire, port)).map (copyCount w net.address)).sum =
        (link.map net.address).count (some frame.header.dst) * frame.count w := by
    intro link
    induction link with
    | nil => simp
    | cons port link ih =>
      simp only [List.map_cons, List.sum_cons, ih, List.count_cons, copyCount, EthernetFrame.onWire_header,
        EthernetFrame.onWire_count, beq_iff_eq]
      split_ifs <;> ring
  calc _ = (link.map net.address).count (some frame.header.dst) * frame.count w := hsum link
    _ ≤ 1 * frame.count w := Nat.mul_le_mul_right _ hcount
    _ = frame.count w := one_mul _

/-- A copy leaves the wire. -/
theorem sum_eraseIdx {α : Type} (g : α → ℕ) {l : List α} {n : ℕ} {x : α} (h : l[n]? = some x) :
    g x + ((l.eraseIdx n).map g).sum = (l.map g).sum := by
  obtain ⟨hlt, rfl⟩ := List.getElem?_eq_some_iff.mp h
  have hperm := (List.getElem_cons_eraseIdx_perm hlt).map g
  rw [← hperm.sum_eq, List.map_cons, List.sum_cons]

/-- The first frame of an interface goes on the wire. -/
theorem transmit_holds {link : List (Port ι)} (hlink : (link.map net.address).Nodup) (h : net.Clean)
    (hs : net.step (.transmit port link) = some net') :
    net'.Clean ∧ net'.address = net.address ∧ net'.holdings w ≤ net.holdings w := by
  obtain ⟨a, hp, hs⟩ := Option.bind_eq_some_iff.mp hs
  have hclean := interface_clean h hp
  cases hf : a.interface.framesOut with
  | nil => simp [hf] at hs
  | cons frame framesOut =>
    simp only [hf] at hs
    obtain rfl := Option.some.inj hs
    obtain ⟨hframe, hni, hpop⟩ := NetworkInterface.pop_holds hclean.interface hf
    set a' : AsyncNetworkInterface := { a with interface := { a.interface with framesOut } }
    have hnext : a'.Clean := ⟨hni, hclean.queue⟩
    obtain ⟨h1, h2, h3⟩ := setInterface_holds (w := w) h hp hnext rfl
    refine ⟨?_, h2, ?_⟩
    · refine ⟨h1.nodes, fun copy hc => ?_⟩
      rcases List.mem_append.mp hc with hc | hc
      · exact h.wire copy hc
      · obtain ⟨port', -, rfl⟩ := List.mem_map.mp hc
        exact hframe.onWire
    · have hwire := holdings_wire (w := w) (net.wire ++ link.map fun port => (frame.onWire, port)) h2
      have hcopies := copies_le (w := w) frame hlink
      have hsame : (net.setInterface port a').onWire w = (net.wire.map (copyCount w net.address)).sum := by
        rw [onWire, h2]
        rfl
      have hless : a.holdings w = a'.holdings w + frame.count w := by
        rw [AsyncNetworkInterface.holdings, AsyncNetworkInterface.holdings, hpop w, add_assoc]
      rw [List.map_append, List.sum_append] at hwire
      omega

/-- A copy arrives, and is taken where it is for. -/
theorem arrive_holds (ha : Account w cost) {n : ℕ} (h : net.Clean) (hs : net.step (.arrive n) = some net') :
    net'.Clean ∧ net'.address = net.address ∧ net'.holdings w ≤ net.holdings w := by
  obtain ⟨⟨frame, port⟩, hn, hs⟩ := Option.bind_eq_some_iff.mp hs
  obtain ⟨a, hp, rfl⟩ := Option.map_eq_some_iff.mp hs
  have hframe : frame.Carried := h.wire _ (List.mem_of_getElem? hn)
  obtain ⟨h1, h2, h3⟩ := AsyncNetworkInterface.recvFrame_holds ha (interface_clean h hp) hframe
  set next := net.setInterface port (a.recvFrame frame).2
  obtain ⟨g1, g2, g3⟩ : next.Clean ∧ next.address = net.address ∧
      next.holdings w + a.holdings w = net.holdings w + (a.recvFrame frame).2.holdings w :=
    setInterface_holds h hp h1 h2
  refine ⟨⟨g1.nodes, fun copy hc => h.wire copy (List.mem_of_mem_eraseIdx hc)⟩, g2, ?_⟩
  have hwire := holdings_wire (w := w) (net.wire.eraseIdx n) g2
  have herase := sum_eraseIdx (copyCount w net.address) hn
  have hsame : next.onWire w = (net.wire.map (copyCount w net.address)).sum := by
    rw [onWire, g2]
    rfl
  have hcopy : copyCount w net.address (frame, port) =
      if frame.header.dst = a.interface.ethernetAddress then frame.count w else 0 := by
    simp only [copyCount, address, hp, Option.map_some, Option.some.injEq, eq_comm]
  rw [← hcopy] at h3
  show holdings w { next with wire := net.wire.eraseIdx n } ≤ _
  omega

/-- **One step**: what owners take and the calls that routers make are paid for
by what the network holds. -/
theorem step_holds (ha : Account w cost) {op : Op ι} (hop : ∀ d ∈ sent op, d.WellFormed)
    (hlink : Linked net.address op) (h : net.Clean) (hs : net.step op = some net') :
    net'.Clean ∧ net'.address = net.address ∧
      ((net.taken op).map w).sum + cost * (net.forwards op).length + net'.holdings w ≤
        net.holdings w + ((sent op).map w).sum := by
  cases op with
  | send port dgram nextHop =>
    have hadm : NetworkInterface.Admissible (.send dgram nextHop) := hop dgram (List.mem_singleton_self _)
    obtain ⟨h1, haddr, h2⟩ := call_holds ha hadm h hs
    exact ⟨h1, haddr, by simp [taken, forwards, sent, h2, NetworkInterface.incoming]⟩
  | take port =>
    obtain ⟨a, hp, rfl⟩ := Option.map_eq_some_iff.mp hs
    have hclean := interface_clean h hp
    have hnext : AsyncNetworkInterface.Clean { a with datagramsOut := [] } :=
      ⟨hclean.interface, fun d hd => absurd hd List.not_mem_nil⟩
    obtain ⟨h1, haddr, h2⟩ := setInterface_holds (w := w) h hp hnext rfl
    refine ⟨h1, haddr, ?_⟩
    have htaken : net.taken (.take port) = a.datagramsOut := by simp [taken, hp]
    simp only [AsyncNetworkInterface.holdings, List.map_nil, List.sum_nil] at h2
    simp only [htaken, forwards, sent, List.length_nil, List.map_nil, List.sum_nil]
    omega
  | route i =>
    obtain rfl := Option.some.inj hs
    obtain ⟨h1, h2, h3⟩ := Router.route_holds ha (h.nodes i)
    obtain ⟨haddr, hnode⟩ := setNode_holds (w := w) net h2
    refine ⟨setNode_clean h h1, haddr, ?_⟩
    simp only [taken, forwards, sent, List.map_nil, List.sum_nil]
    omega
  | tick port ms order =>
    have hadm : NetworkInterface.Admissible (.tick ms order) := trivial
    obtain ⟨h1, haddr, h2⟩ := call_holds ha hadm h hs
    exact ⟨h1, haddr, by simp [taken, forwards, sent, h2, NetworkInterface.incoming]⟩
  | transmit port link =>
    obtain ⟨h1, haddr, h2⟩ := transmit_holds (w := w) hlink h hs
    exact ⟨h1, haddr, by simpa [taken, forwards, sent] using h2⟩
  | arrive n =>
    obtain ⟨h1, haddr, h2⟩ := arrive_holds ha h hs
    exact ⟨h1, haddr, by simpa [taken, forwards, sent] using h2⟩
  | lose n =>
    simp only [step] at hs
    split_ifs at hs with hn
    obtain rfl := Option.some.inj hs
    have haddr : net.address = net.address := rfl
    refine ⟨⟨h.nodes, fun copy hc => h.wire copy (List.mem_of_mem_eraseIdx hc)⟩, haddr, ?_⟩
    have hwire := holdings_wire (w := w) (net.wire.eraseIdx n) haddr
    have herase := sum_eraseIdx (copyCount w net.address) (List.getElem?_eq_getElem hn)
    have hsame : net.onWire w = (net.wire.map (copyCount w net.address)).sum := rfl
    simp only [taken, forwards, sent, List.length_nil, List.map_nil, List.sum_nil]
    omega

/-! ### Runs -/

variable {routes : ι → List Route} {addresses : ι → List (EthernetAddress × UInt32)} {ops : List (Op ι)}

omit [DecidableEq ι] in
/-- Before the first call nothing is held. -/
theorem init_holds (routes : ι → List Route) (h : ∀ i, ∀ p ∈ addresses i, p.1 ≠ ethernetBroadcast)
    (w : IPv4Datagram → ℕ) : (init routes addresses).Clean ∧ (init routes addresses).holdings w = 0 := by
  constructor
  · refine ⟨fun i a ha => ?_, fun copy hc => absurd hc List.not_mem_nil⟩
    obtain ⟨p, hp, rfl⟩ := List.mem_map.mp ha
    exact ⟨NetworkInterface.init_clean (h i p hp) p.2, fun d hd => absurd hd List.not_mem_nil⟩
  · have hzero : ∀ i, ((init routes addresses).nodes i).holdings w = 0 := by
      intro i
      rw [Router.holdings, List.sum_eq_zero_iff]
      intro n hn
      obtain ⟨a, ha, rfl⟩ := List.mem_map.mp hn
      obtain ⟨p, -, rfl⟩ := List.mem_map.mp ha
      exact (Nat.zero_add _).trans (NetworkInterface.init_holds w p.1 p.2)
    rw [holdings, Finset.sum_eq_zero fun i _ => hzero i]
    rfl

/-- What a run pays for, in what owners take and in calls of routers. -/
theorem run_holds (ha : Account w cost) (haddr : ∀ i, ∀ p ∈ addresses i, p.1 ≠ ethernetBroadcast)
    (hops : ∀ op ∈ ops, ∀ d ∈ sent op, d.WellFormed) (hlinks : ∀ op ∈ ops, Linked (init routes addresses).address op)
    (hr : run step (init routes addresses) ops = some net) :
    ((outputs step taken (init routes addresses) ops).map w).sum ≤ ((ops.flatMap sent).map w).sum ∧
    cost * (outputs step forwards (init routes addresses) ops).length ≤ ((ops.flatMap sent).map w).sum := by
  obtain ⟨hclean, hzero⟩ := init_holds routes haddr w
  have hsent : (ops.map fun op => ((sent op).map w).sum).sum = ((ops.flatMap sent).map w).sum := by
    clear hops hlinks hr
    induction ops with
    | nil => rfl
    | cons op ops ih => rw [List.map_cons, List.sum_cons, ih, List.flatMap_cons, List.map_append, List.sum_append]
  set address := (init routes addresses).address with haddress
  have hok : ∀ op ∈ ops, (∀ d ∈ sent op, d.WellFormed) ∧ Linked address op := fun op h => ⟨hops op h, hlinks op h⟩
  -- no step changes where the addresses are
  have hstep : ∀ net op net', ((∀ d ∈ sent op, d.WellFormed) ∧ Linked address op) →
      net.Clean ∧ net.address = address → step net op = some net' → (net'.Clean ∧ net'.address = address) ∧
        ((net.taken op).map w).sum + cost * (net.forwards op).length + net'.holdings w ≤
          net.holdings w + ((sent op).map w).sum := by
    intro net op net' hop h hs
    obtain ⟨h1, h2, h3⟩ := step_holds ha hop.1 (h.2 ▸ hop.2) h.1 hs
    exact ⟨⟨h1, h2.trans h.2⟩, h3⟩
  have htaken := outputs_ledger taken (fun ds => (ds.map w).sum) (holdings w)
    (fun op => ((sent op).map w).sum) rfl (fun l l' => by rw [List.map_append, List.sum_append])
    (fun net op net' hop h hs => (hstep net op net' hop h hs).imp_right fun hle => by omega) hok
    ⟨hclean, haddress.symm⟩ hr
  have hcalls := outputs_ledger forwards (fun calls => cost * calls.length) (holdings w)
    (fun op => ((sent op).map w).sum) rfl (fun l l' => by rw [List.length_append, mul_add])
    (fun net op net' hop h hs => (hstep net op net' hop h hs).imp_right fun hle => by omega) hok
    ⟨hclean, haddress.symm⟩ hr
  rw [hzero, zero_add, hsent] at htaken hcalls
  exact ⟨(Nat.le_add_right _ _).trans htaken.2, (Nat.le_add_right _ _).trans hcalls.2⟩

/-! ### No datagram is duplicated -/

/-- What hops do not change. -/
def kind (d : IPv4Datagram) : IPv4Header × Bytes := ({ d.header with ttl := 0, cksum := 0 }, d.payload.concatenate)

@[simp] theorem kind_arrived (d : IPv4Datagram) : kind d.arrived = kind d :=
  Prod.ext rfl (List.append_nil d.payload.concatenate)

@[simp] theorem kind_spent (d : IPv4Datagram) : kind d.spent = kind d := rfl

/-- A datagram like `d`, which has `ttl` hops left or more. -/
def Like (d : IPv4Datagram) (ttl : UInt8) (d' : IPv4Datagram) : Prop := kind d' = kind d ∧ ttl ≤ d'.header.ttl

instance (d : IPv4Datagram) (ttl : UInt8) : DecidablePred (Like d ttl) := fun _ => inferInstanceAs (Decidable (_ ∧ _))

/-- Each counts one. -/
def one (d : IPv4Datagram) (ttl : UInt8) (d' : IPv4Datagram) : ℕ := if Like d ttl d' then 1 else 0

theorem sum_one (d : IPv4Datagram) (ttl : UInt8) (ds : List IPv4Datagram) :
    (ds.map (one d ttl)).sum = ds.countP (Like d ttl) := by
  induction ds with
  | nil => rfl
  | cons d' ds ih =>
    rw [List.map_cons, List.sum_cons, ih, List.countP_cons, one, add_comm]
    simp

theorem spent_ttl {d : IPv4Datagram} (h : 2 ≤ d.header.ttl) :
    d.spent.header.ttl.toNat = d.header.ttl.toNat - 1 := by
  have h2 : 2 ≤ d.header.ttl.toNat := h
  have h1 : (1 : UInt8) ≤ d.header.ttl := UInt8.le_iff_toNat_le.mpr (show 1 ≤ _ by omega)
  exact UInt8.toNat_sub_of_le _ _ h1

theorem one_account (d : IPv4Datagram) (ttl : UInt8) : Account (one d ttl) 0 where
  arrived := by
    intro d'
    have hlike : Like d ttl d'.arrived ↔ Like d ttl d' := by
      rw [Like, Like, kind_arrived]
      exact Iff.rfl
    simp only [one, hlike]
  spent := by
    intro d' h
    have hlike : Like d ttl d'.spent → Like d ttl d' := by
      rintro ⟨hkind, httl⟩
      refine ⟨hkind, UInt8.le_iff_toNat_le.mpr ?_⟩
      calc ttl.toNat ≤ d'.spent.header.ttl.toNat := UInt8.le_iff_toNat_le.mp httl
        _ = d'.header.ttl.toNat - 1 := spent_ttl h
        _ ≤ d'.header.ttl.toNat := Nat.sub_le _ _
    unfold one
    by_cases hs : Like d ttl d'.spent
    · rw [if_pos hs, if_pos (hlike hs)]
    · rw [if_neg hs]
      exact Nat.zero_le _

theorem hops_account : Account (fun d => d.header.ttl.toNat - 1) 1 where
  arrived := fun _ => rfl
  spent := by
    intro d h
    have h2 : 2 ≤ d.header.ttl.toNat := h
    rw [spent_ttl h]
    omega

/-! ### Two networks and a router -/

/-- Host 0 at 10.0.0.2, router 1 at 10.0.0.1 and 192.168.0.1, host 2 at 192.168.0.2. -/
def hostsAndRouter : Fin 3 → List (EthernetAddress × UInt32)
  | 0 => [(#v[2, 0, 0, 0, 0, 1], 0x0a000002)]
  | 1 => [(#v[2, 0, 0, 0, 0, 2], 0x0a000001), (#v[2, 0, 0, 0, 0, 3], 0xc0a80001)]
  | 2 => [(#v[2, 0, 0, 0, 0, 4], 0xc0a80002)]

def routerRoutes : Fin 3 → List Route
  | 1 => [⟨0x0a000000, 8, none, 0⟩, ⟨0xc0a80000, 24, none, 1⟩]
  | _ => []

def letter : IPv4Datagram := ⟨{ len := 22, ttl := 64, src := 0x0a000002, dst := 0xc0a80002 }, [[104], [105]]⟩

/-- Each address is asked for before the letter follows it. -/
def delivery : List (Op (Fin 3)) :=
  [.send (0, 0) letter 0x0a000001, .transmit (0, 0) [(1, 0)], .arrive 0, .transmit (1, 0) [(0, 0)], .arrive 0,
    .transmit (0, 0) [(1, 0)], .arrive 0, .route 1, .transmit (1, 1) [(2, 0)], .arrive 0, .transmit (2, 0) [(1, 1)],
    .arrive 0, .transmit (1, 1) [(2, 0)], .arrive 0, .take (2, 0)]

/-! ### Every run -/

/-- **No datagram is duplicated or made up**: of each kind, no more are taken by
owners than were sent, and with no more hops left, if what owners send is well
formed, no interface has the broadcast address and those on a link differ. -/
theorem taken_le_sent (haddr : ∀ i, ∀ p ∈ addresses i, p.1 ≠ ethernetBroadcast)
    (hops : ∀ op ∈ ops, ∀ d ∈ sent op, d.WellFormed) (hlinks : ∀ op ∈ ops, Linked (init routes addresses).address op)
    (hr : run step (init routes addresses) ops = some net) (d : IPv4Datagram) (ttl : UInt8) :
    (outputs step taken (init routes addresses) ops).countP (Like d ttl) ≤
      (ops.flatMap sent).countP (Like d ttl) := by
  rw [← sum_one, ← sum_one]
  exact (run_holds (one_account d ttl) haddr hops hlinks hr).1

theorem taken_le_sent_letter :
    (outputs step taken (init routerRoutes hostsAndRouter) delivery).countP (Like letter 63) = 1 ∧
      (outputs step taken (init routerRoutes hostsAndRouter) delivery).countP (Like letter 63) ≤
        (delivery.flatMap sent).countP (Like letter 63) :=
  ⟨by decide +kernel, taken_le_sent (by decide) (by decide) (by decide +kernel)
    (Option.eq_some_of_isSome (by decide +kernel)) letter 63⟩

/-- **Routers stop**: whatever their routes, they call `send_datagram` at most as
often as the datagrams that were sent had hops, under the same conditions. -/
theorem forwards_le_hops (haddr : ∀ i, ∀ p ∈ addresses i, p.1 ≠ ethernetBroadcast)
    (hops : ∀ op ∈ ops, ∀ d ∈ sent op, d.WellFormed) (hlinks : ∀ op ∈ ops, Linked (init routes addresses).address op)
    (hr : run step (init routes addresses) ops = some net) :
    (outputs step forwards (init routes addresses) ops).length ≤
      ((ops.flatMap sent).map fun d => d.header.ttl.toNat - 1).sum := by
  have hcalls := (run_holds hops_account haddr hops hlinks hr).2
  rwa [one_mul] at hcalls

theorem forwards_le_hops_letter :
    (outputs step forwards (init routerRoutes hostsAndRouter) delivery).length = 1 ∧
      (outputs step forwards (init routerRoutes hostsAndRouter) delivery).length ≤
        ((delivery.flatMap sent).map fun d => d.header.ttl.toNat - 1).sum :=
  ⟨by decide +kernel, forwards_le_hops (by decide) (by decide) (by decide +kernel)
    (Option.eq_some_of_isSome (by decide +kernel))⟩

end Internetwork
end Sponge

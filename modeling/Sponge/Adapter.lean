/-
# The adapters

`fd_adapter.cc`, `tuntap_adapter.cc` and `lossy_fd_adapter.hh`: what a
`TCPSpongeSocket` reads and writes segments through. The adapters put them into
UDP datagrams, into IPv4 datagrams of a TUN device, or into Ethernet frames of
a TAP device; any of them can lose segments on purpose. What was read from the
descriptor is an argument, what is written there a result.

Key definitions: `AdaptT`, `udpAdapter`, `tunAdapter`, `ethernetAdapter`,
`AdaptT.lossy`.
Key theorems: `TCPOverUDPSocketAdapter.reads_exact`,
`TCPOverIPv4OverTunFdAdapter.tun_reads_exact`.
-/
import Sponge.NetworkInterface
import Sponge.TCPOverIP
import Sponge.Lib.Latch

namespace Sponge

/-- The parameter of `TCPSpongeSocket`: an adapter with states `σ`, on a
descriptor that gives it `ι` and takes `ω` from it. A tick that throws, or is
told no order of a map that it visits, is `none`. -/
structure AdaptT (σ ι ω : Type) where
  read : σ → ι → Result (Option TCPSegment × σ × List ω)
  write : σ → TCPSegment → Result (σ × List ω)
  tick : σ → ℕ → List UInt32 → Option (σ × List ω)

/-! ### TCP in UDP -/

/-- `UDPSocket::received_datagram`. -/
structure ReceivedDatagram where
  sourceAddress : Address
  payload : Bytes
  deriving DecidableEq

structure TCPOverUDPSocketAdapter where
  config : FdAdapterConfig := {}
  listening : Bool := false
  deriving DecidableEq

namespace TCPOverUDPSocketAdapter

def read (a : TCPOverUDPSocketAdapter) (datagram : ReceivedDatagram) : Option TCPSegment × TCPOverUDPSocketAdapter :=
  if ¬ a.listening ∧ datagram.sourceAddress ≠ a.config.destination then (none, a)
  else
    let (result, seg) := TCPSegment.parse {} datagram.payload 0
    if result ≠ .noError then (none, a)
    else if a.listening then
      if seg.header.syn ∧ ¬ seg.header.rst then
        (some seg, { config := { a.config with destination := datagram.sourceAddress }, listening := false })
      else (none, a)
    else (some seg, a)

/-- The segment with the ports of this connection. -/
def setPorts (a : TCPOverUDPSocketAdapter) (seg : TCPSegment) : TCPSegment :=
  { seg with header := { seg.header with sport := a.config.source.port, dport := a.config.destination.port } }

/-- Where the datagram is sent, and its payload. -/
def write (a : TCPOverUDPSocketAdapter) (seg : TCPSegment) : Result (Address × Bytes) :=
  ((a.setPorts seg).serialize 0).map fun bufs => (a.config.destination, bufs.concatenate)

end TCPOverUDPSocketAdapter

def udpAdapter : AdaptT TCPOverUDPSocketAdapter ReceivedDatagram (Address × Bytes) where
  read a datagram := .ok ((a.read datagram).1, (a.read datagram).2, [])
  write a seg := (a.write seg).map fun sent => (a, [sent])
  tick a _ _ := some (a, [])

/-! ### TCP in IPv4 on a TUN device -/

namespace TCPOverIPv4OverTunFdAdapter

def read (a : TCPOverIPv4Adapter) (bytes : Bytes) : Result (Option TCPSegment × TCPOverIPv4Adapter) :=
  match IPv4Datagram.parse {} bytes with
  | (.noError, ipDgram) => a.unwrapTcpInIp ipDgram
  | _ => .ok (none, a)

def write (a : TCPOverIPv4Adapter) (seg : TCPSegment) : Result Bytes :=
  match a.wrapTcpInIp seg with
  | .error e => .error e
  | .ok (ipDgram, _) => ipDgram.serialize.map BufferList.concatenate

end TCPOverIPv4OverTunFdAdapter

def tunAdapter : AdaptT TCPOverIPv4Adapter Bytes Bytes where
  read a bytes := (TCPOverIPv4OverTunFdAdapter.read a bytes).map fun (seg, a) => (seg, a, [])
  write a seg := (TCPOverIPv4OverTunFdAdapter.write a seg).map fun bytes => (a, [bytes])
  tick a _ _ := some (a, [])

/-! ### TCP in IPv4 in Ethernet on a TAP device -/

structure TCPOverIPv4OverEthernetAdapter where
  base : TCPOverIPv4Adapter
  interface : NetworkInterface
  nextHop : UInt32
  deriving DecidableEq

namespace TCPOverIPv4OverEthernetAdapter

/-- The constructor, and the dummy frame it writes. -/
def init (ethAddress : EthernetAddress) (ipAddress nextHop : UInt32) : TCPOverIPv4OverEthernetAdapter × List Bytes :=
  (⟨{}, NetworkInterface.init ethAddress ipAddress, nextHop⟩,
    [(EthernetFrame.serialize { header := {}, payload := [] }).concatenate])

/-- The frames of the interface are written. -/
def sendPending (a : TCPOverIPv4OverEthernetAdapter) : TCPOverIPv4OverEthernetAdapter × List Bytes :=
  ({ a with interface := { a.interface with framesOut := [] } },
    a.interface.framesOut.map fun frame => frame.serialize.concatenate)

def read (a : TCPOverIPv4OverEthernetAdapter) (bytes : Bytes) :
    Result (Option TCPSegment × TCPOverIPv4OverEthernetAdapter × List Bytes) :=
  match EthernetFrame.parse {} bytes with
  | (.noError, frame) =>
    match a.interface.recvFrame frame with
    | (.error e, _) => .error e
    | (.ok ipDgram, interface) =>
      let (a, written) := sendPending { a with interface }
      match ipDgram with
      | some ipDgram => (a.base.unwrapTcpInIp ipDgram).map fun (seg, base) => (seg, { a with base }, written)
      | none => .ok (none, a, written)
  | _ => .ok (none, a, [])

def write (a : TCPOverIPv4OverEthernetAdapter) (seg : TCPSegment) :
    Result (TCPOverIPv4OverEthernetAdapter × List Bytes) :=
  match a.base.wrapTcpInIp seg with
  | .error e => .error e
  | .ok (ipDgram, _) =>
    match a.interface.sendDatagram ipDgram a.nextHop with
    | (.error e, _) => .error e
    | (.ok _, interface) => .ok (sendPending { a with interface })

/-- `order` is how the interface visits its map of waiting datagrams. -/
def tick (a : TCPOverIPv4OverEthernetAdapter) (msSinceLastTick : ℕ) (order : List UInt32) :
    Option (TCPOverIPv4OverEthernetAdapter × List Bytes) :=
  if order.Perm a.interface.pendingDatagrams.keys then
    match a.interface.tick msSinceLastTick order with
    | (.error _, _) => none
    | (.ok _, interface) => some (sendPending { a with interface })
  else none

end TCPOverIPv4OverEthernetAdapter

def ethernetAdapter : AdaptT TCPOverIPv4OverEthernetAdapter Bytes Bytes where
  read := TCPOverIPv4OverEthernetAdapter.read
  write := TCPOverIPv4OverEthernetAdapter.write
  tick := TCPOverIPv4OverEthernetAdapter.tick

/-! ### Loss on purpose -/

/-- An adapter, its loss rates, and the numbers its generator is still to give. -/
structure LossyFdAdapter (σ : Type) where
  adapter : σ
  lossRateDn : UInt16
  lossRateUp : UInt16
  rand : ℕ → UInt16

namespace LossyFdAdapter

variable {σ ι ω : Type}

/-- `_should_drop`, for one of the rates; a rate of zero asks for no number. -/
def shouldDrop (l : LossyFdAdapter σ) (loss : UInt16) : Bool × LossyFdAdapter σ :=
  if loss ≠ 0 then (decide (l.rand 0 < loss), { l with rand := fun n => l.rand (n + 1) }) else (false, l)

/-- The adapter reads first, so that it may change though the segment is lost. -/
def read (ad : AdaptT σ ι ω) (l : LossyFdAdapter σ) (x : ι) :
    Result (Option TCPSegment × LossyFdAdapter σ × List ω) :=
  (ad.read l.adapter x).map fun (seg, adapter, written) =>
    let (drop, l) := shouldDrop { l with adapter } l.lossRateDn
    (if drop then none else seg, l, written)

def write (ad : AdaptT σ ι ω) (l : LossyFdAdapter σ) (seg : TCPSegment) : Result (LossyFdAdapter σ × List ω) :=
  let (drop, l) := l.shouldDrop l.lossRateUp
  if drop then .ok (l, []) else (ad.write l.adapter seg).map fun (adapter, written) => ({ l with adapter }, written)

end LossyFdAdapter

/-- `LossyFdAdapter<AdapterT>`. -/
def AdaptT.lossy {σ ι ω : Type} (ad : AdaptT σ ι ω) : AdaptT (LossyFdAdapter σ) ι ω where
  read := LossyFdAdapter.read ad
  write := LossyFdAdapter.write ad
  tick l ms order := (ad.tick l.adapter ms order).map fun (adapter, written) => ({ l with adapter }, written)

/-! ### Listening -/

/-- The segments read from a sequence of datagrams, and the adapter after them. -/
def AdaptT.reads {σ ι ω : Type} (ad : AdaptT σ ι ω) : σ → List ι → Result (List TCPSegment × σ) :=
  Latch.reads fun s x => (ad.read s x).map fun (seg, s, _) => (seg, s)

namespace TCPOverUDPSocketAdapter

/-- The segment in a datagram. -/
def segmentOf (datagram : ReceivedDatagram) : TCPSegment := (TCPSegment.parse {} datagram.payload 0).2

/-- Who a datagram with a valid segment is from. -/
def peerOf (datagram : ReceivedDatagram) : Option Address :=
  if (TCPSegment.parse {} datagram.payload 0).1 = .noError then some datagram.sourceAddress else none

/-- A listener takes the connection. -/
def opens (datagram : ReceivedDatagram) : Bool :=
  (segmentOf datagram).header.syn && !(segmentOf datagram).header.rst

def heldBy (a : TCPOverUDPSocketAdapter) : Option Address := if a.listening then none else some a.config.destination

theorem read_latches : Latch.Latches (fun s x => (udpAdapter.read s x).map fun (seg, s, _) => (seg, s)) peerOf opens
    segmentOf heldBy fun _ => True where
  shut a d k _ hk := by
    unfold heldBy at hk
    split_ifs at hk with hl
    obtain rfl := Option.some.inj hk
    by_cases hsrc : d.sourceAddress = a.config.destination <;>
      by_cases hp : (TCPSegment.parse {} d.payload 0).1 = .noError <;>
      simp [udpAdapter, read, peerOf, segmentOf, Except.map, hl, hsrc, hp]
  opened a d _ hk hkey hopen := by
    unfold heldBy at hk
    split_ifs at hk with hl
    unfold peerOf at hkey
    split_ifs at hkey with hp
    · simp only [opens, segmentOf, Bool.and_eq_true, Bool.not_eq_true'] at hopen
      exact ⟨{ config := { a.config with destination := d.sourceAddress }, listening := false },
        by simp [udpAdapter, read, segmentOf, Except.map, hl, hp, hopen], by simp [heldBy, peerOf, hp], trivial⟩
    · exact absurd hkey (by decide)
  waits a d _ hk hno := by
    unfold heldBy at hk
    split_ifs at hk with hl
    by_cases hp : (TCPSegment.parse {} d.payload 0).1 = .noError
    · simp only [peerOf, hp, if_true, Option.isSome_some, Bool.true_and, opens, segmentOf] at hno
      have hno' : ¬ ((TCPSegment.parse {} d.payload 0).2.header.syn = true ∧
          ¬ (TCPSegment.parse {} d.payload 0).2.header.rst = true) := by
        simpa [Bool.and_eq_false_iff] using hno
      simp only [udpAdapter, read, Except.map, hl, hp, ne_eq, not_true_eq_false, false_and, if_false, if_true,
        if_neg hno']
    · simp [udpAdapter, read, Except.map, hl, hp]

/-- **A listener over UDP**: whatever datagrams come, it hands on nothing
before the first valid SYN without RST, then that segment and every valid one
from its sender, in order, and it replies to that sender. -/
theorem reads_exact (config : FdAdapterConfig) (datagrams : List ReceivedDatagram) : ∃ a,
    udpAdapter.reads { config, listening := true } datagrams =
        .ok ((Latch.passed peerOf opens datagrams).map segmentOf, a) ∧
      (Latch.passed peerOf opens datagrams = [] → a = { config, listening := true }) ∧
      ∀ first ∈ (Latch.passed peerOf opens datagrams).head?, a.heldBy = peerOf first := by
  obtain ⟨a, h1, -, h2, h3⟩ := read_latches.reads_of_open (s := { config, listening := true }) trivial rfl datagrams
  exact ⟨a, h1, h2, h3⟩

end TCPOverUDPSocketAdapter

namespace TCPOverIPv4OverTunFdAdapter

/-- The valid TCP segment for a port in the bytes of a datagram. -/
def find (port : UInt16) (bytes : Bytes) : Option (IPv4Header × TCPSegment) :=
  match IPv4Datagram.parse {} bytes with
  | (.noError, ⟨header, [buffer]⟩) =>
    if header.proto = 6 ∧ (TCPSegment.parse {} buffer header.pseudoCksum).1 = .noError ∧
        (TCPSegment.parse {} buffer header.pseudoCksum).2.header.dport = port then
      some (header, (TCPSegment.parse {} buffer header.pseudoCksum).2)
    else none
  | _ => none

def segmentOf (port : UInt16) (bytes : Bytes) : TCPSegment := ((find port bytes).map Prod.snd).getD {}

/-- Who a datagram with such a segment is from, and which address it is to. -/
def peerOf (port : UInt16) (bytes : Bytes) : Option (Address × UInt32) :=
  (find port bytes).map fun (header, seg) => (⟨header.src, seg.header.sport⟩, header.dst)

def opens (port : UInt16) (bytes : Bytes) : Bool :=
  (segmentOf port bytes).header.syn && !(segmentOf port bytes).header.rst

def heldBy (a : TCPOverIPv4Adapter) : Option (Address × UInt32) :=
  if a.listening then none else some (a.config.destination, a.config.source.ipv4Numeric)

theorem parse_payload (d : IPv4Datagram) (bytes : Bytes) : ∃ buffer, (d.parse bytes).2.payload = [buffer] := by
  unfold IPv4Datagram.parse
  dsimp only
  split_ifs
  · exact ⟨_, rfl⟩
  · exact ⟨_, rfl⟩

/-- What a datagram is to an adapter that listens. -/
theorem read_of_listening {a : TCPOverIPv4Adapter} (hl : a.listening = true) (bytes : Bytes) :
    read a bytes = .ok (match find a.config.source.port bytes with
      | none => (none, a)
      | some (header, seg) =>
        if seg.header.syn = true ∧ seg.header.rst = false then
          (some seg,
            { config := ⟨⟨header.dst, a.config.source.port⟩, ⟨header.src, seg.header.sport⟩⟩, listening := false })
        else (none, a)) := by
  obtain ⟨buffer, hb⟩ := parse_payload {} bytes
  unfold read find
  rcases hp : IPv4Datagram.parse {} bytes with ⟨result, ⟨header, payload⟩⟩
  rw [hp] at hb
  obtain rfl : payload = [buffer] := hb
  cases result with
  | noError =>
    rcases hs : TCPSegment.parse {} buffer header.pseudoCksum with ⟨result, seg⟩
    simp only [TCPOverIPv4Adapter.unwrapTcpInIp, TCPOverIPv4Adapter.target, BufferList.toBuffer, Except.map, hs, hl]
    by_cases hfind : header.proto = 6 ∧ result = .noError ∧ seg.header.dport = a.config.source.port
    · by_cases hsyn : seg.header.syn = true ∧ seg.header.rst = false
      · simp [hfind, hsyn]
      · simp [hfind, hsyn]
    · rw [if_neg hfind]
      split_ifs <;> simp_all
  | _ => rfl

theorem address_eq_iff {ip : UInt32} {port : UInt16} {a : Address} :
    ⟨ip, port⟩ = a ↔ ip = a.ipv4Numeric ∧ port = a.port := Address.mk.injEq _ _ _ _ ▸ Iff.rfl

/-- What it is to an adapter with a connection. -/
theorem read_of_connected {a : TCPOverIPv4Adapter} (hl : a.listening = false) (bytes : Bytes) :
    read a bytes = .ok (
      if peerOf a.config.source.port bytes = some (a.config.destination, a.config.source.ipv4Numeric)
      then some (segmentOf a.config.source.port bytes) else none, a) := by
  obtain ⟨buffer, hb⟩ := parse_payload {} bytes
  unfold read peerOf segmentOf find
  rcases hp : IPv4Datagram.parse {} bytes with ⟨result, ⟨header, payload⟩⟩
  rw [hp] at hb
  obtain rfl : payload = [buffer] := hb
  cases result with
  | noError =>
    rcases hs : TCPSegment.parse {} buffer header.pseudoCksum with ⟨result, seg⟩
    simp only [TCPOverIPv4Adapter.unwrapTcpInIp, TCPOverIPv4Adapter.target, BufferList.toBuffer, Except.map, hs, hl]
    by_cases hfind : header.proto = 6 ∧ result = .noError ∧ seg.header.dport = a.config.source.port
    · simp only [hfind, and_self, if_true, Option.map_some, Option.some.injEq, Prod.mk.injEq, address_eq_iff]
      split_ifs <;> simp_all
    · rw [if_neg hfind]
      split_ifs <;> simp_all
  | _ => rfl

theorem read_latches (port : UInt16) :
    Latch.Latches (fun s x => (tunAdapter.read s x).map fun (seg, s, _) => (seg, s)) (peerOf port) (opens port)
      (segmentOf port) heldBy fun a => a.config.source.port = port where
  shut a bytes k hport hk := by
    unfold heldBy at hk
    split_ifs at hk with hl
    obtain rfl := Option.some.inj hk
    simp only [tunAdapter, read_of_connected (Bool.not_eq_true _ ▸ hl), Except.map, hport]
  opened a bytes hport hk hkey hopen := by
    unfold heldBy at hk
    split_ifs at hk with hl
    simp only [peerOf, Option.isSome_map] at hkey
    obtain ⟨⟨header, seg⟩, hf⟩ := Option.isSome_iff_exists.mp hkey
    simp only [opens, segmentOf, hf, Option.map_some, Option.getD_some, Bool.and_eq_true, Bool.not_eq_true'] at hopen
    refine ⟨{ config := ⟨⟨header.dst, port⟩, ⟨header.src, seg.header.sport⟩⟩, listening := false }, ?_, ?_, rfl⟩
    · simp only [tunAdapter, read_of_listening hl, Except.map, hport, hf, hopen, and_self, if_true, segmentOf,
        Option.map_some, Option.getD_some]
    · simp [heldBy, peerOf, hf]
  waits a bytes hport hk hno := by
    unfold heldBy at hk
    split_ifs at hk with hl
    simp only [tunAdapter, read_of_listening hl, Except.map, hport]
    simp only [peerOf, opens, segmentOf, Option.isSome_map] at hno
    rcases hf : find port bytes with _ | ⟨header, seg⟩
    · rfl
    · have hsyn : ¬ (seg.header.syn = true ∧ seg.header.rst = false) := by
        simpa [hf, Bool.and_eq_false_iff] using hno
      simp only [if_neg hsyn]

/-- **A listener over IPv4**: whatever comes from the device, it hands on
nothing before the first SYN without RST for its port in a valid datagram, then
that segment and every valid one between the same two ends, in order. -/
theorem tun_reads_exact (config : FdAdapterConfig) (datagrams : List Bytes) : ∃ a,
    tunAdapter.reads { config, listening := true } datagrams =
        .ok ((Latch.passed (peerOf config.source.port) (opens config.source.port) datagrams).map
          (segmentOf config.source.port), a) ∧
      (Latch.passed (peerOf config.source.port) (opens config.source.port) datagrams = [] →
        a = { config, listening := true }) ∧
      ∀ first ∈ (Latch.passed (peerOf config.source.port) (opens config.source.port) datagrams).head?,
        a.config.source.port = config.source.port ∧ heldBy a = peerOf config.source.port first := by
  obtain ⟨a, h1, h2, h3, h4⟩ :=
    (read_latches config.source.port).reads_of_open (s := { config, listening := true }) rfl rfl datagrams
  exact ⟨a, h1, h3, fun first hf => ⟨h2, h4 first hf⟩⟩

end TCPOverIPv4OverTunFdAdapter

end Sponge

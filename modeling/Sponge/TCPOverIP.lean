/-
# TCP in IPv4

`tcp_over_ip.cc`: an adapter puts the segments of one connection into IPv4
datagrams and takes the segments out of the datagrams that are for it. An
`Address` is its numeric IP address and its port; a listening adapter takes the
addresses of the first SYN for its own.

Key definitions: `TCPOverIPv4Adapter`, `TCPOverIPv4Adapter.wrapTcpInIp`,
`TCPOverIPv4Adapter.unwrapTcpInIp`.
Key theorem: `TCPOverIPv4Adapter.unwrap_wrapTcpInIp`.
-/
import Sponge.TCPWire

namespace Sponge

structure Address where
  ipv4Numeric : UInt32 := 0
  port : UInt16 := 0
  deriving DecidableEq

structure FdAdapterConfig where
  source : Address := {}
  destination : Address := {}
  deriving DecidableEq

structure TCPOverIPv4Adapter where
  config : FdAdapterConfig := {}
  listening : Bool := false
  deriving DecidableEq

namespace TCPOverIPv4Adapter

/-- What a listening adapter makes of a segment from `header.src`: with a SYN
and no RST the connection is theirs from now on. -/
def target (a : TCPOverIPv4Adapter) (header : IPv4Header) (tcpSeg : TCPSegment) : Option TCPOverIPv4Adapter :=
  if a.listening then
    if tcpSeg.header.syn ∧ ¬ tcpSeg.header.rst then
      some { config := ⟨⟨header.dst, a.config.source.port⟩, ⟨header.src, tcpSeg.header.sport⟩⟩, listening := false }
    else none
  else some a

/-- The segment in a datagram, if it is a valid one for this connection. -/
def unwrapTcpInIp (a : TCPOverIPv4Adapter) (ipDgram : IPv4Datagram) :
    Result (Option TCPSegment × TCPOverIPv4Adapter) :=
  let header := ipDgram.header
  if ¬ a.listening ∧ header.dst ≠ a.config.source.ipv4Numeric then .ok (none, a)
  else if ¬ a.listening ∧ header.src ≠ a.config.destination.ipv4Numeric then .ok (none, a)
  else if header.proto ≠ 6 then .ok (none, a)
  else ipDgram.payload.toBuffer.map fun buffer =>
    let (result, tcpSeg) := TCPSegment.parse {} buffer header.pseudoCksum
    if result ≠ .noError then (none, a)
    else if tcpSeg.header.dport ≠ a.config.source.port then (none, a)
    else match a.target header tcpSeg with
      | none => (none, a)
      | some a => if tcpSeg.header.sport ≠ a.config.destination.port then (none, a) else (some tcpSeg, a)

/-- The segment with the ports of this connection. -/
def setPorts (a : TCPOverIPv4Adapter) (seg : TCPSegment) : TCPSegment :=
  { seg with header := { seg.header with sport := a.config.source.port, dport := a.config.destination.port } }

/-- The header of the datagram for a segment. -/
def datagramHeader (a : TCPOverIPv4Adapter) (seg : TCPSegment) : IPv4Header :=
  let header : IPv4Header := { src := a.config.source.ipv4Numeric, dst := a.config.destination.ipv4Numeric }
  { header with len := UInt16.ofNat (header.hlen.toNat * 4 + seg.header.doff.toNat * 4 + seg.payload.length) }

/-- The datagram for a segment, and the segment with its ports set. -/
def wrapTcpInIp (a : TCPOverIPv4Adapter) (seg : TCPSegment) : Result (IPv4Datagram × TCPSegment) :=
  let seg := a.setPorts seg
  let header := a.datagramHeader seg
  (seg.serialize header.pseudoCksum).map fun payload => (⟨header, payload⟩, seg)

/-! ### The round trip -/

/-- A segment that the datagram is not too long for is wrapped. -/
theorem wrap_eq (a : TCPOverIPv4Adapter) {seg : TCPSegment} (h5 : 5 ≤ seg.header.doff) :
    a.wrapTcpInIp seg = .ok (⟨a.datagramHeader seg,
      [((a.setPorts seg).filled (a.datagramHeader seg).pseudoCksum).header.bytes, seg.payload]⟩, a.setPorts seg) := by
  unfold wrapTcpInIp
  dsimp only
  rw [TCPSegment.serialize_eq (by exact h5)]
  rfl

theorem datagramHeader_len (a : TCPOverIPv4Adapter) {seg : TCPSegment}
    (hlen : 20 + 4 * seg.header.doff.toNat + seg.payload.length ≤ 65535) :
    (a.datagramHeader seg).len.toNat = 20 + 4 * seg.header.doff.toNat + seg.payload.length := by
  have hlt : 20 + seg.header.doff.toNat * 4 + seg.payload.length < UInt16.size := by
    show _ < 65536
    omega
  calc (a.datagramHeader seg).len.toNat = 20 + seg.header.doff.toNat * 4 + seg.payload.length :=
        UInt16.toNat_ofNat_of_lt' hlt
    _ = 20 + 4 * seg.header.doff.toNat + seg.payload.length := by rw [mul_comm 4]

/-- A valid segment between the two ends of the connection is taken out of its
datagram. -/
theorem unwrap_eq {a : TCPOverIPv4Adapter} {header : IPv4Header} {buffer : Bytes} {seg : TCPSegment}
    (hl : a.listening = false) (hdst : header.dst = a.config.source.ipv4Numeric)
    (hsrc : header.src = a.config.destination.ipv4Numeric) (hproto : header.proto = 6)
    (hparse : TCPSegment.parse {} buffer header.pseudoCksum = (.noError, seg))
    (hdport : seg.header.dport = a.config.source.port) (hsport : seg.header.sport = a.config.destination.port) :
    a.unwrapTcpInIp ⟨header, [buffer]⟩ = .ok (some seg, a) := by
  have htarget : a.target header seg = some a := by
    unfold target
    rw [hl]
    rfl
  unfold unwrapTcpInIp
  simp only [hdst, hsrc, hproto, BufferList.toBuffer, Except.map, hparse, hdport, hsport, htarget, ne_eq,
    not_true_eq_false, and_false, if_false]

/-- **The TCP over IPv4 round trip**: what `P` wraps and the wire carries as
bytes, the other end unwraps, with the ports of `P` and a checksum. -/
theorem unwrap_wrapTcpInIp {P Q : TCPOverIPv4Adapter} (hsource : P.config.source = Q.config.destination)
    (hdest : P.config.destination = Q.config.source) (hQ : Q.listening = false) (seg : TCPSegment)
    (h5 : 5 ≤ seg.header.doff) (h15 : seg.header.doff ≤ 15)
    (hlen : 20 + 4 * seg.header.doff.toNat + seg.payload.length ≤ 65535) (d0 : IPv4Datagram) :
    ∃ dgram seg' bufs parsed cksum,
      P.wrapTcpInIp seg = .ok (dgram, seg') ∧ dgram.serialize = .ok bufs ∧
      d0.parse bufs.concatenate = (.noError, parsed) ∧
      Q.unwrapTcpInIp parsed = .ok (some { seg with header := { seg.header with
        sport := P.config.source.port, dport := P.config.destination.port, cksum } }, Q) := by
  set pseudo := (P.datagramHeader seg).pseudoCksum with hpseudo
  set filled := (P.setPorts seg).filled pseudo with hfilled
  have hheader : filled.header.bytes.length = 4 * seg.header.doff.toNat := TCPHeader.bytes_length h5
  have hiplen := P.datagramHeader_len hlen
  have hsize : BufferList.size [filled.header.bytes, seg.payload] = (P.datagramHeader seg).len.toNat - 4 * 5 := by
    rw [hiplen, BufferList.size_eq]
    show (filled.header.bytes ++ (seg.payload ++ [])).length = _
    rw [List.append_nil, List.length_append, hheader]
    omega
  obtain ⟨hserialize, hparse⟩ := IPv4Datagram.parse_serialize
    ⟨P.datagramHeader seg, [filled.header.bytes, seg.payload]⟩ d0 rfl (show (5 : UInt8) ≤ 5 by decide)
    (show (5 : UInt8) ≤ 15 by decide) (show (0 : UInt16) < 8192 by decide)
    (show 4 * 5 ≤ (P.datagramHeader seg).len.toNat by omega) hsize
  have hconcat : BufferList.concatenate [filled.header.bytes, seg.payload] = filled.header.bytes ++ seg.payload := by
    show filled.header.bytes ++ (seg.payload ++ []) = _
    rw [List.append_nil]
  have hsum : pseudo.toNat ≤ 6 * 65535 := by
    rw [hpseudo, TCPSegment.pseudoCksum_toNat]
    exact TCPSegment.sum_pseudoWords_le _
  have hseg : TCPSegment.parse {} (filled.header.bytes ++ seg.payload) pseudo = (.noError, filled) :=
    TCPSegment.parse_serialize h5 h15 hsum (show 4 * seg.header.doff.toNat + seg.payload.length ≤ 65535 by omega)
  refine ⟨_, _, _, _, filled.header.cksum, P.wrap_eq h5, hserialize, hparse, ?_⟩
  rw [hconcat]
  exact unwrap_eq hQ (congrArg Address.ipv4Numeric hdest) (congrArg Address.ipv4Numeric hsource) rfl
    (by rw [IPv4Header.filled_pseudoCksum]; exact hseg) (congrArg Address.port hdest) (congrArg Address.port hsource)

theorem unwrap_wrapTcpInIp_syn :
    ∃ dgram seg' bufs parsed cksum,
      wrapTcpInIp { config := ⟨⟨1, 80⟩, ⟨2, 443⟩⟩ } ⟨{ syn := true }, [7]⟩ = .ok (dgram, seg') ∧
      dgram.serialize = .ok bufs ∧ IPv4Datagram.parse {} bufs.concatenate = (.noError, parsed) ∧
      unwrapTcpInIp { config := ⟨⟨2, 443⟩, ⟨1, 80⟩⟩ } parsed =
        .ok (some ⟨{ syn := true, sport := 80, dport := 443, cksum }, [7]⟩, { config := ⟨⟨2, 443⟩, ⟨1, 80⟩⟩ }) :=
  unwrap_wrapTcpInIp (P := { config := ⟨⟨1, 80⟩, ⟨2, 443⟩⟩ }) rfl rfl rfl ⟨{ syn := true }, [7]⟩ (by decide)
    (by decide) (by decide) {}

end TCPOverIPv4Adapter
end Sponge

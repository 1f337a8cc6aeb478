/-
# What the adapters carry

A network that only loses, repeats and reorders what an adapter wrote gives the
adapter at the other end segments that were written, up to the ports and the
checksum, which a connection does not look at. That is so for each of the
adapters, also if datagrams wait for an Ethernet address first.

Key definitions: `TCPSegment.IsCopy`, `AdaptT.Faithful`.
Key theorems: `udp_faithful`, `tun_faithful`, `ethernet_faithful`,
`AdaptT.Faithful.lossy`, `TCPConnection.segmentReceived_copy`.
-/
import Sponge.Adapter
import Sponge.PendingDatagrams
import Sponge.SegmentSize

namespace Sponge

/-- The same segment up to the ports and the checksum. -/
def TCPSegment.IsCopy (seg copy : TCPSegment) : Prop :=
  ∃ sport dport cksum, copy = { seg with header := { seg.header with sport, dport, cksum } }

/-- A connection does with a copy what it does with the segment. -/
theorem TCPConnection.segmentReceived_copy (c : TCPConnection) {seg copy : TCPSegment} (h : seg.IsCopy copy) :
    c.segmentReceived copy = c.segmentReceived seg := by
  obtain ⟨sport, dport, cksum, rfl⟩ := h
  rfl

namespace AdaptT

variable {σ ι ω : Type}

/-- An adapter is faithful over a network that makes `carry y` of what it
writes: `J` relates the segments it was handed, its state and what it wrote,
its calls keep that, and whatever adapter reads what it wrote gets copies. -/
structure Faithful (ad : AdaptT σ ι ω) (carry : ω → Option ι) (J : List TCPSegment → σ → List ω → Prop) : Prop where
  reads : ∀ {sent a written x seg a' out}, J sent a written → ad.read a x = .ok (seg, a', out) →
    J sent a' (written ++ out)
  writes : ∀ {sent a written seg a' out}, J sent a written → seg.Fits → ad.write a seg = .ok (a', out) →
    J (sent ++ [seg]) a' (written ++ out)
  drops : ∀ {sent a written} (seg : TCPSegment), J sent a written → J (sent ++ [seg]) a written
  ticks : ∀ {sent a written ms order a' out}, J sent a written → ad.tick a ms order = some (a', out) →
    J sent a' (written ++ out)
  yields : ∀ {sent a written y x b seg b' out}, J sent a written → y ∈ written → carry y = some x →
    ad.read b x = .ok (some seg, b', out) → ∃ orig ∈ sent, orig.IsCopy seg

theorem shouldDrop_adapter (l : LossyFdAdapter σ) (loss : UInt16) : (l.shouldDrop loss).2.adapter = l.adapter := by
  unfold LossyFdAdapter.shouldDrop
  split_ifs <;> rfl

/-- A read may lose the segment. -/
theorem lossy_read {ad : AdaptT σ ι ω} {l l' : LossyFdAdapter σ} {x : ι} {seg : Option TCPSegment} {out : List ω}
    (h : ad.lossy.read l x = .ok (seg, l', out)) : ∃ seg', ad.read l.adapter x = .ok (seg', l'.adapter, out) ∧
      (seg = none ∨ seg = seg') := by
  obtain ⟨⟨seg', a, out'⟩, hread, heq⟩ := Result.map_eq_ok.mp h
  simp only [Prod.mk.injEq] at heq
  obtain ⟨rfl, rfl, rfl⟩ := heq
  refine ⟨seg', ?_, ?_⟩
  · rw [shouldDrop_adapter]
    exact hread
  · split_ifs
    · exact Or.inl rfl
    · exact Or.inr rfl

/-- A write may not happen. -/
theorem lossy_write {ad : AdaptT σ ι ω} {l l' : LossyFdAdapter σ} {seg : TCPSegment} {out : List ω}
    (h : ad.lossy.write l seg = .ok (l', out)) :
    l'.adapter = l.adapter ∧ out = [] ∨ ad.write l.adapter seg = .ok (l'.adapter, out) := by
  simp only [lossy, LossyFdAdapter.write] at h
  split_ifs at h
  · cases h
    exact Or.inl ⟨shouldDrop_adapter _ _, rfl⟩
  · obtain ⟨⟨a, out'⟩, hwrite, heq⟩ := Result.map_eq_ok.mp h
    cases heq
    rw [shouldDrop_adapter] at hwrite
    exact Or.inr hwrite

/-- An adapter that loses segments on purpose carries what it does not lose. -/
theorem Faithful.lossy {ad : AdaptT σ ι ω} {carry : ω → Option ι} {J : List TCPSegment → σ → List ω → Prop}
    (h : ad.Faithful carry J) : ad.lossy.Faithful carry fun sent l written => J sent l.adapter written where
  reads hJ hr := by
    obtain ⟨seg', hread, -⟩ := lossy_read hr
    exact h.reads hJ hread
  writes {sent l written seg l' out} hJ hseg hw := by
    rcases lossy_write hw with ⟨hl, rfl⟩ | hwrite
    · rw [hl, List.append_nil]
      exact h.drops seg hJ
    · exact h.writes hJ hseg hwrite
  drops seg hJ := h.drops seg hJ
  ticks hJ ht := by
    obtain ⟨⟨a, out'⟩, htick, heq⟩ := Option.map_eq_some_iff.mp ht
    cases heq
    exact h.ticks hJ htick
  yields hJ hy hx hr := by
    obtain ⟨seg', hread, hseg⟩ := lossy_read hr
    rcases hseg with hc | rfl
    · cases hc
    · exact h.yields hJ hy hx hread

end AdaptT

/-! ### UDP -/

/-- The bytes of the segment, with some ports. -/
def Encodes (seg : TCPSegment) (bytes : Bytes) : Prop :=
  ∃ sport dport, ∃ bufs, TCPSegment.serialize { seg with header := { seg.header with sport, dport } } 0 = .ok bufs ∧
    bufs.concatenate = bytes

/-- They are parsed as a copy. -/
theorem Encodes.parse {seg : TCPSegment} {bytes : Bytes} (hseg : seg.Fits) (h : Encodes seg bytes) :
    ∃ copy, TCPSegment.parse {} bytes 0 = (.noError, copy) ∧ seg.IsCopy copy := by
  obtain ⟨sport, dport, bufs, hs, rfl⟩ := h
  have hdoff : seg.header.doff = 5 := hseg.doff
  have hlen := hseg.payload_le
  set x : TCPSegment := { seg with header := { seg.header with sport, dport } } with hx
  have h5 : 5 ≤ x.header.doff := hdoff.symm ▸ UInt8.le_refl 5
  have hsize : 4 * x.header.doff.toNat + x.payload.length ≤ 65535 := by
    show 4 * seg.header.doff.toNat + seg.payload.length ≤ 65535
    rw [hdoff]
    unfold TCPConfig.maxPayloadSize at hlen
    have : (5 : UInt8).toNat = 5 := rfl
    omega
  rw [TCPSegment.serialize_eq h5] at hs
  obtain rfl := Except.ok.inj hs
  have hcat : BufferList.concatenate [(x.filled 0).header.bytes, x.payload] =
      (x.filled 0).header.bytes ++ x.payload := by simp [BufferList.concatenate]
  rw [hcat]
  exact ⟨_, TCPSegment.parse_serialize h5 (hdoff.symm ▸ (by decide)) (by decide) hsize, sport, dport, _, rfl⟩

/-- What the network makes of a datagram from `self`, for a socket at `other`. -/
def udpCarry (self other : Address) (sent : Address × Bytes) : Option ReceivedDatagram :=
  if sent.1 = other then some ⟨self, sent.2⟩ else none

/-- Every datagram is a segment that was handed over. -/
def UdpCarries (sent : List TCPSegment) (_ : TCPOverUDPSocketAdapter) (written : List (Address × Bytes)) : Prop :=
  ∀ y ∈ written, ∃ seg ∈ sent, seg.Fits ∧ Encodes seg y.2

theorem udp_read_some {a a' : TCPOverUDPSocketAdapter} {d : ReceivedDatagram} {seg : TCPSegment}
    (h : a.read d = (some seg, a')) : seg = (TCPSegment.parse {} d.payload 0).2 := by
  unfold TCPOverUDPSocketAdapter.read at h
  dsimp only at h
  split_ifs at h <;> cases h <;> rfl

theorem udp_faithful (self other : Address) : udpAdapter.Faithful (udpCarry self other) UdpCarries where
  reads hJ hr := by
    cases hr
    rwa [List.append_nil]
  writes {sent a written seg a' out} hJ hseg hw := by
    obtain ⟨y, hy, heq⟩ := Result.map_eq_ok.mp hw
    cases heq
    intro z hz
    rcases List.mem_append.mp hz with hz | hz
    · obtain ⟨orig, horig, h⟩ := hJ z hz
      exact ⟨orig, List.mem_append_left _ horig, h⟩
    · obtain rfl := List.mem_singleton.mp hz
      obtain ⟨bufs, hbufs, rfl⟩ := Result.map_eq_ok.mp hy
      exact ⟨seg, by simp, hseg, _, _, bufs, hbufs, rfl⟩
  drops seg hJ z hz := by
    obtain ⟨orig, horig, h⟩ := hJ z hz
    exact ⟨orig, List.mem_append_left _ horig, h⟩
  ticks hJ ht := by
    cases ht
    rwa [List.append_nil]
  yields {sent a written y x b seg b' out} hJ hy hx hr := by
    obtain ⟨orig, horig, hfits, henc⟩ := hJ y hy
    obtain ⟨copy, hparse, hcopy⟩ := henc.parse hfits
    unfold udpCarry at hx
    split_ifs at hx
    obtain rfl := Option.some.inj hx
    have hread : b.read ⟨self, y.2⟩ = (some seg, b') := by
      have := Except.ok.inj hr
      simp only [Prod.mk.injEq] at this
      exact Prod.ext this.1 this.2.1
    rw [udp_read_some hread, hparse]
    exact ⟨orig, horig, hcopy⟩

/-! ### IPv4 -/

/-- The datagram for a segment, of some connection. -/
def Wraps (seg : TCPSegment) (dgram : IPv4Datagram) : Prop :=
  seg.Fits ∧ ∃ (a : TCPOverIPv4Adapter) (seg' : TCPSegment), a.wrapTcpInIp seg = .ok (dgram, seg')

/-- It can be serialized, and the bytes are parsed as a datagram with a copy. -/
theorem Wraps.parse {seg : TCPSegment} {dgram : IPv4Datagram} (h : Wraps seg dgram) : ∃ bufs header buffer copy,
    dgram.serialize = .ok bufs ∧ IPv4Datagram.parse {} bufs.concatenate = (.noError, ⟨header, [buffer]⟩) ∧
      TCPSegment.parse {} buffer header.pseudoCksum = (.noError, copy) ∧ seg.IsCopy copy := by
  obtain ⟨hseg, a, seg', hw⟩ := h
  have hdoff : seg.header.doff = 5 := hseg.doff
  have h5 : 5 ≤ seg.header.doff := hdoff.symm ▸ UInt8.le_refl 5
  have h15 : seg.header.doff ≤ 15 := hdoff.symm ▸ (by decide)
  have hnat : seg.header.doff.toNat = 5 := congrArg UInt8.toNat hdoff
  have hlen := hseg.payload_le
  unfold TCPConfig.maxPayloadSize at hlen
  rw [TCPOverIPv4Adapter.wrap_eq a h5] at hw
  obtain ⟨rfl, -⟩ := Prod.mk.injEq .. ▸ Except.ok.inj hw
  set pseudo := (a.datagramHeader seg).pseudoCksum with hpseudo
  set filled := (a.setPorts seg).filled pseudo with hfilled
  have hheader : filled.header.bytes.length = 4 * seg.header.doff.toNat := TCPHeader.bytes_length h5
  have hiplen : (a.datagramHeader seg).len.toNat = 20 + 4 * seg.header.doff.toNat + seg.payload.length :=
    a.datagramHeader_len (by omega)
  have hsize : BufferList.size [filled.header.bytes, seg.payload] = (a.datagramHeader seg).len.toNat - 4 * 5 := by
    have hsum : BufferList.size [filled.header.bytes, seg.payload] =
        filled.header.bytes.length + (seg.payload.length + 0) := rfl
    omega
  obtain ⟨hserialize, hparse⟩ := IPv4Datagram.parse_serialize
    ⟨a.datagramHeader seg, [filled.header.bytes, seg.payload]⟩ {} rfl (show (5 : UInt8) ≤ 5 by decide)
    (show (5 : UInt8) ≤ 15 by decide) (show (0 : UInt16) < 8192 by decide)
    (show 4 * 5 ≤ (a.datagramHeader seg).len.toNat by omega) hsize
  have hcat : BufferList.concatenate [filled.header.bytes, seg.payload] = filled.header.bytes ++ seg.payload := by
    simp [BufferList.concatenate]
  have hsum : pseudo.toNat ≤ 6 * 65535 := by
    rw [hpseudo, TCPSegment.pseudoCksum_toNat]
    exact TCPSegment.sum_pseudoWords_le _
  have hcopy : TCPSegment.parse {} (filled.header.bytes ++ seg.payload) pseudo = (.noError, filled) :=
    TCPSegment.parse_serialize h5 h15 hsum (show 4 * seg.header.doff.toNat + seg.payload.length ≤ 65535 by omega)
  refine ⟨_, _, _, filled, hserialize, hparse, ?_, _, _, _, rfl⟩
  rw [hcat, IPv4Header.filled_pseudoCksum]
  exact hcopy

/-- What is taken out of a datagram is what its payload is parsed as. -/
theorem unwrap_some {a a' : TCPOverIPv4Adapter} {header : IPv4Header} {buffer : Bytes} {seg : TCPSegment}
    (h : a.unwrapTcpInIp ⟨header, [buffer]⟩ = .ok (some seg, a')) :
    seg = (TCPSegment.parse {} buffer header.pseudoCksum).2 := by
  simp only [TCPOverIPv4Adapter.unwrapTcpInIp, BufferList.toBuffer, Except.map] at h
  split_ifs at h
  · cases h
  · cases h
  · cases h
  · cases h
  · cases h
  · split at h
    · cases h
    · split_ifs at h
      · cases h
      · cases h
        rfl

/-- So from the datagram of a segment a copy is taken. -/
theorem Wraps.unwrap {seg copy : TCPSegment} {dgram dgram' : IPv4Datagram} {bufs : BufferList}
    {a a' : TCPOverIPv4Adapter} {result : ParseResult} (h : Wraps seg dgram) (hs : dgram.serialize = .ok bufs)
    (hp : IPv4Datagram.parse {} bufs.concatenate = (result, dgram'))
    (hu : a.unwrapTcpInIp dgram' = .ok (some copy, a')) : seg.IsCopy copy := by
  obtain ⟨bufs', header, buffer, copy', h1, h2, h3, h4⟩ := h.parse
  obtain rfl : bufs' = bufs := Except.ok.inj (h1.symm.trans hs)
  obtain ⟨-, rfl⟩ := Prod.mk.injEq .. ▸ h2.symm.trans hp
  rw [unwrap_some hu, h3]
  exact h4

/-- Every datagram on the device is one for a segment that was handed over. -/
def TunCarries (sent : List TCPSegment) (_ : TCPOverIPv4Adapter) (written : List Bytes) : Prop :=
  ∀ y ∈ written, ∃ seg ∈ sent, ∃ dgram bufs, Wraps seg dgram ∧ dgram.serialize = .ok bufs ∧ bufs.concatenate = y

theorem tun_faithful : tunAdapter.Faithful some TunCarries where
  reads hJ hr := by
    obtain ⟨⟨seg', a'⟩, -, heq⟩ := Result.map_eq_ok.mp hr
    cases heq
    rwa [List.append_nil]
  writes {sent a written seg a' out} hJ hseg hw := by
    obtain ⟨y, hy, heq⟩ := Result.map_eq_ok.mp hw
    cases heq
    intro z hz
    rcases List.mem_append.mp hz with hz | hz
    · obtain ⟨orig, horig, h⟩ := hJ z hz
      exact ⟨orig, List.mem_append_left _ horig, h⟩
    · obtain rfl := List.mem_singleton.mp hz
      unfold TCPOverIPv4OverTunFdAdapter.write at hy
      split at hy
      · cases hy
      · rename_i dgram seg' hwrap
        obtain ⟨bufs, hbufs, rfl⟩ := Result.map_eq_ok.mp hy
        exact ⟨seg, by simp, dgram, bufs, ⟨hseg, a, seg', hwrap⟩, hbufs, rfl⟩
  drops seg hJ z hz := by
    obtain ⟨orig, horig, h⟩ := hJ z hz
    exact ⟨orig, List.mem_append_left _ horig, h⟩
  ticks hJ ht := by
    cases ht
    rwa [List.append_nil]
  yields {sent a written y x b seg b' out} hJ hy hx hr := by
    obtain ⟨orig, horig, dgram, bufs, hwrap, hbufs, rfl⟩ := hJ y hy
    obtain rfl := Option.some.inj hx
    obtain ⟨⟨seg', b''⟩, hread, heq⟩ := Result.map_eq_ok.mp hr
    cases heq
    unfold TCPOverIPv4OverTunFdAdapter.read at hread
    split at hread
    · rename_i dgram' hp
      exact ⟨orig, horig, hwrap.unwrap hbufs hp hread⟩
    · cases hread

/-! ### Ethernet -/

/-- The frame carries a segment that was handed over, if it carries a datagram. -/
def FrameCarries (sent : List TCPSegment) (frame : EthernetFrame) : Prop :=
  NetworkInterface.isIPv4 frame = true →
    ∃ seg ∈ sent, ∃ dgram, Wraps seg dgram ∧ dgram.serialize = .ok frame.payload

/-- What waits in the interface, and every frame on the device, carries
segments that were handed over. -/
structure EthernetCarries (sent : List TCPSegment) (a : TCPOverIPv4OverEthernetAdapter) (written : List Bytes) :
    Prop where
  waiting : ∀ x, ∀ dgram ∈ a.interface.pending x, ∃ seg ∈ sent, Wraps seg dgram
  flushed : a.interface.framesOut = []
  frames : ∀ y ∈ written, ∃ frame : EthernetFrame, frame.serialize.concatenate = y ∧ FrameCarries sent frame

namespace EthernetCarries

variable {sent sent' : List TCPSegment} {a : TCPOverIPv4OverEthernetAdapter} {written : List Bytes}

theorem init (eth : EthernetAddress) (ip nextHop : UInt32) :
    EthernetCarries [] (TCPOverIPv4OverEthernetAdapter.init eth ip nextHop).1
      (TCPOverIPv4OverEthernetAdapter.init eth ip nextHop).2 where
  waiting x dgram h := by cases h
  flushed := rfl
  frames y hy := by
    rw [List.mem_singleton.mp hy]
    exact ⟨_, rfl, fun hc => absurd hc (by decide)⟩

theorem mono (h : EthernetCarries sent a written) (hsub : sent ⊆ sent') : EthernetCarries sent' a written where
  waiting x dgram hd := by
    obtain ⟨seg, hseg, hw⟩ := h.waiting x dgram hd
    exact ⟨seg, hsub hseg, hw⟩
  flushed := h.flushed
  frames y hy := by
    obtain ⟨frame, hf, hc⟩ := h.frames y hy
    refine ⟨frame, hf, fun htype => ?_⟩
    obtain ⟨seg, hseg, rest⟩ := hc htype
    exact ⟨seg, hsub hseg, rest⟩

/-- A call of the interface, and the frames it left are written. -/
theorem step (h : EthernetCarries sent a written) {op : NetworkInterface.Op} {ni : NetworkInterface}
    (hop : ∀ x, ∀ dgram ∈ NetworkInterface.sentTo x op, ∃ seg ∈ sent, Wraps seg dgram)
    (hs : NetworkInterface.step a.interface op = some ni) (base : TCPOverIPv4Adapter) :
    EthernetCarries sent { a with base, interface := { ni with framesOut := [] } }
      (written ++ ni.framesOut.map fun frame => frame.serialize.concatenate) := by
  obtain ⟨hwait, hem⟩ := NetworkInterface.step_from hop h.waiting hs
  have hsent := (NetworkInterface.step_emits hs).carries
  rw [h.flushed] at hsent
  refine ⟨hwait, rfl, fun y hy => ?_⟩
  rcases List.mem_append.mp hy with hy | hy
  · exact h.frames y hy
  · obtain ⟨frame, hf, rfl⟩ := List.mem_map.mp hy
    refine ⟨frame, rfl, fun htype => ?_⟩
    obtain ⟨e, he, hframe⟩ := (hsent frame hf htype).resolve_left List.not_mem_nil
    obtain ⟨seg, hseg, hw⟩ := hem e he
    obtain ⟨payload, hpay, rfl⟩ := Result.map_eq_ok.mp hframe
    exact ⟨seg, hseg, e.dgram, hw, hpay⟩

end EthernetCarries

theorem ethernet_faithful : ethernetAdapter.Faithful some EthernetCarries where
  reads {sent a written x seg a' out} hJ hr := by
    simp only [ethernetAdapter, TCPOverIPv4OverEthernetAdapter.read] at hr
    split at hr
    · rename_i frame hp
      split at hr
      · cases hr
      · rename_i dgram ni hrecv
        have hs : NetworkInterface.step a.interface (.recv frame) = some ni := congrArg some (congrArg Prod.snd hrecv)
        have hkeep := hJ.step (fun _ _ hd => by cases hd) hs
        split at hr
        · obtain ⟨⟨seg', base⟩, -, heq⟩ := Result.map_eq_ok.mp hr
          cases heq
          exact hkeep base
        · cases hr
          exact hkeep a.base
    · cases hr
      rwa [List.append_nil]
  writes {sent a written seg a' out} hJ hseg hw := by
    simp only [ethernetAdapter, TCPOverIPv4OverEthernetAdapter.write] at hw
    split at hw
    · cases hw
    · rename_i dgram seg' hwrap
      split at hw
      · cases hw
      · rename_i u ni hsend
        cases hw
        have hs : NetworkInterface.step a.interface (.send dgram a.nextHop) = some ni :=
          congrArg some (congrArg Prod.snd hsend)
        refine (hJ.mono (List.subset_append_left sent [seg])).step (fun x d hd => ?_) hs a.base
        simp only [NetworkInterface.sentTo] at hd
        split_ifs at hd
        · rw [List.mem_singleton.mp hd]
          exact ⟨seg, by simp, hseg, a.base, seg', hwrap⟩
        · cases hd
  drops seg hJ := hJ.mono (List.subset_append_left _ _)
  ticks {sent a written ms order a' out} hJ ht := by
    simp only [ethernetAdapter, TCPOverIPv4OverEthernetAdapter.tick] at ht
    split_ifs at ht with horder
    split at ht
    · cases ht
    · rename_i u ni htick
      cases ht
      have hs : NetworkInterface.step a.interface (.tick ms order) = some ni := by
        simp only [NetworkInterface.step, if_pos horder, htick]
      exact hJ.step (fun _ _ hd => by cases hd) hs a.base
  yields {sent a written y x b seg b' out} hJ hy hx hr := by
    obtain ⟨frame, rfl, hcarry⟩ := hJ.frames y hy
    obtain rfl := Option.some.inj hx
    simp only [ethernetAdapter, TCPOverIPv4OverEthernetAdapter.read, EthernetFrame.parse_serialize] at hr
    split at hr
    · cases hr
    · rename_i dgram ni hrecv
      split at hr
      · rename_i dgram'
        obtain ⟨⟨seg', base⟩, hun, heq⟩ := Result.map_eq_ok.mp hr
        cases heq
        obtain ⟨-, htype, buffer, hb, hp⟩ := NetworkInterface.recvFrame_some (congrArg Prod.fst hrecv)
        obtain rfl := Except.ok.inj hb
        obtain ⟨orig, horig, d, hwrap, hser⟩ := hcarry htype
        exact ⟨orig, horig, hwrap.unwrap hser hp hun⟩
      · cases hr

end Sponge

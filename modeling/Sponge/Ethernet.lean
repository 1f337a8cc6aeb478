/-
# Ethernet frames and ARP messages

`ethernet_header.cc`, `ethernet_frame.cc` and `arp_message.cc`. A frame that
is serialized and parsed again is the frame with its payload in one buffer,
and so is an ARP message that the parser supports.

Key definitions: `EthernetFrame.parse`, `EthernetFrame.serialize`,
`ARPMessage.parse`, `ARPMessage.serialize`.
Key theorems: `EthernetFrame.parse_serialize`, `ARPMessage.parse_unparse`.
-/
import Sponge.Parser

namespace Sponge

/-- Six bytes. -/
abbrev EthernetAddress := Vector UInt8 6

def ethernetBroadcast : EthernetAddress := #v[0xff, 0xff, 0xff, 0xff, 0xff, 0xff]

/-- The loop over the bytes of an address. -/
def NetParser.address (p : NetParser) : EthernetAddress × NetParser :=
  let (b0, p) := p.u8
  let (b1, p) := p.u8
  let (b2, p) := p.u8
  let (b3, p) := p.u8
  let (b4, p) := p.u8
  let (b5, p) := p.u8
  (#v[b0, b1, b2, b3, b4, b5], p)

def NetUnparser.address (s : Bytes) (a : EthernetAddress) : Bytes := a.toList.foldl NetUnparser.u8 s

structure EthernetHeader where
  dst : EthernetAddress := Vector.replicate 6 0
  src : EthernetAddress := Vector.replicate 6 0
  type : UInt16 := 0
  deriving DecidableEq

namespace EthernetHeader

def length : ℕ := 14

def typeIPv4 : UInt16 := 0x800

def typeARP : UInt16 := 0x806

def parse (h : EthernetHeader) (p : NetParser) : ParseResult × EthernetHeader × NetParser :=
  if p.buffer.length < length then (.packetTooShort, h, p)
  else
    let (dst, p) := p.address
    let (src, p) := p.address
    let (type, p) := p.u16
    (p.error, { dst, src, type }, p)

def serialize (h : EthernetHeader) : Bytes :=
  let ret := NetUnparser.address [] h.dst
  let ret := NetUnparser.address ret h.src
  NetUnparser.u16 ret h.type

end EthernetHeader

structure EthernetFrame where
  header : EthernetHeader := {}
  payload : BufferList := []
  deriving DecidableEq

namespace EthernetFrame

/-- What the header answers is not looked at: a buffer too short for a header
is accepted as the payload of the frame as it was. -/
def parse (f : EthernetFrame) (buffer : Bytes) : ParseResult × EthernetFrame :=
  let (_, header, p) := f.header.parse ⟨buffer, .noError⟩
  (p.error, { header, payload := [p.buffer] })

def serialize (f : EthernetFrame) : BufferList := f.header.serialize :: f.payload

end EthernetFrame

structure ARPMessage where
  hardwareType : UInt16 := 1
  protocolType : UInt16 := EthernetHeader.typeIPv4
  hardwareAddressSize : UInt8 := 6
  protocolAddressSize : UInt8 := 4
  opcode : UInt16 := 0
  senderEthernetAddress : EthernetAddress := Vector.replicate 6 0
  senderIpAddress : UInt32 := 0
  targetEthernetAddress : EthernetAddress := Vector.replicate 6 0
  targetIpAddress : UInt32 := 0
  deriving DecidableEq

namespace ARPMessage

def length : ℕ := 28

def typeEthernet : UInt16 := 1

def opcodeRequest : UInt16 := 1

def opcodeReply : UInt16 := 2

def supported (m : ARPMessage) : Bool :=
  m.hardwareType == typeEthernet && m.protocolType == EthernetHeader.typeIPv4 && m.hardwareAddressSize == 6 &&
    m.protocolAddressSize == 4 && (m.opcode == opcodeRequest || m.opcode == opcodeReply)

def parse (m : ARPMessage) (buffer : Bytes) : ParseResult × ARPMessage :=
  let p : NetParser := ⟨buffer, .noError⟩
  if p.buffer.length < length then (.packetTooShort, m)
  else
    let (hardwareType, p) := p.u16
    let (protocolType, p) := p.u16
    let (hardwareAddressSize, p) := p.u8
    let (protocolAddressSize, p) := p.u8
    let (opcode, p) := p.u16
    let m := { m with hardwareType, protocolType, hardwareAddressSize, protocolAddressSize, opcode }
    if m.supported = false then (.unsupported, m)
    else
      let (senderEthernetAddress, p) := p.address
      let (senderIpAddress, p) := p.u32
      let (targetEthernetAddress, p) := p.address
      let (targetIpAddress, p) := p.u32
      (p.error, { m with senderEthernetAddress, senderIpAddress, targetEthernetAddress, targetIpAddress })

/-- The fields, one after another. -/
def unparse (m : ARPMessage) : Bytes :=
  let ret := NetUnparser.u16 [] m.hardwareType
  let ret := NetUnparser.u16 ret m.protocolType
  let ret := NetUnparser.u8 ret m.hardwareAddressSize
  let ret := NetUnparser.u8 ret m.protocolAddressSize
  let ret := NetUnparser.u16 ret m.opcode
  let ret := NetUnparser.address ret m.senderEthernetAddress
  let ret := NetUnparser.u32 ret m.senderIpAddress
  let ret := NetUnparser.address ret m.targetEthernetAddress
  NetUnparser.u32 ret m.targetIpAddress

def serialize (m : ARPMessage) : Result Bytes :=
  if m.supported = false then .error (.runtimeError
    "ARPMessage::serialize(): unsupported field combination (must be Ethernet/IP, and request or reply)")
  else .ok m.unparse

end ARPMessage

/-! ### Round trips -/

open BigEndian

theorem toBytes_one (b : UInt8) : toBytes 1 b.toNat = [b] := by
  have hlt := b.toNat_lt
  show [] ++ [UInt8.ofNat (b.toNat % 256)] = [b]
  rw [Nat.mod_eq_of_lt (by omega), UInt8.ofNat_toNat, List.nil_append]

theorem NetUnparser.address_eq (s : Bytes) (a : EthernetAddress) : NetUnparser.address s a = s ++ a.toList := by
  unfold NetUnparser.address
  induction a.toList generalizing s with
  | nil => rw [List.foldl_nil, List.append_nil]
  | cons b bs ih =>
    rw [List.foldl_cons, ih, NetUnparser.u8, toBytes_one, List.append_assoc, List.singleton_append]

theorem NetParser.u8_cons (b : UInt8) (rest : Bytes) :
    NetParser.u8 ⟨b :: rest, .noError⟩ = (b, ⟨rest, .noError⟩) := by
  have h : NetParser.u8 ⟨toBytes 1 b.toNat ++ rest, .noError⟩ = _ := NetParser.u8_append b
  rwa [toBytes_one, List.singleton_append] at h

@[simp] theorem NetParser.address_append (a : EthernetAddress) (rest : Bytes) :
    NetParser.address ⟨a.toList ++ rest, .noError⟩ = (a, ⟨rest, .noError⟩) := by
  obtain ⟨⟨l⟩, hl⟩ := a
  match l, hl with
  | [b0, b1, b2, b3, b4, b5], _ =>
    show NetParser.address ⟨b0 :: b1 :: b2 :: b3 :: b4 :: b5 :: rest, .noError⟩ = _
    simp only [NetParser.address, NetParser.u8_cons]

theorem EthernetHeader.serialize_eq (h : EthernetHeader) :
    h.serialize = h.dst.toList ++ (h.src.toList ++ toBytes 2 h.type.toNat) := by
  simp [serialize, NetUnparser.address_eq, NetUnparser.u16]

theorem EthernetHeader.parse_serialize (h h' : EthernetHeader) (rest : Bytes) :
    h'.parse ⟨h.serialize ++ rest, .noError⟩ = (.noError, h, ⟨rest, .noError⟩) := by
  have hlen : ¬ (h.serialize ++ rest).length < EthernetHeader.length := by
    rw [serialize_eq]
    simp only [List.length_append, Vector.length_toList, toBytes_length, EthernetHeader.length]
    omega
  unfold parse
  dsimp only
  rw [if_neg hlen, serialize_eq]
  simp only [List.append_assoc, NetParser.address_append, NetParser.u16_append]

/-- **A frame survives the wire**, but for the way its payload is cut into
buffers. -/
theorem EthernetFrame.parse_serialize (f f' : EthernetFrame) : f'.parse f.serialize.concatenate =
    (.noError, { header := f.header, payload := [f.payload.concatenate] }) := by
  have h : f.serialize.concatenate = f.header.serialize ++ f.payload.concatenate := List.flatten_cons
  unfold parse
  rw [h, EthernetHeader.parse_serialize]

theorem ARPMessage.unparse_eq (m : ARPMessage) : m.unparse =
    toBytes 2 m.hardwareType.toNat ++ (toBytes 2 m.protocolType.toNat ++ (toBytes 1 m.hardwareAddressSize.toNat ++
      (toBytes 1 m.protocolAddressSize.toNat ++ (toBytes 2 m.opcode.toNat ++ (m.senderEthernetAddress.toList ++
        (toBytes 4 m.senderIpAddress.toNat ++ (m.targetEthernetAddress.toList ++
          (toBytes 4 m.targetIpAddress.toNat ++ [])))))))) := by
  simp [unparse, NetUnparser.address_eq, NetUnparser.u8, NetUnparser.u16, NetUnparser.u32]

/-- **An ARP message that is supported survives the wire.** -/
theorem ARPMessage.parse_unparse {m : ARPMessage} (hs : m.supported = true) (m' : ARPMessage) :
    m'.parse m.unparse = (.noError, m) := by
  have hlen : ¬ m.unparse.length < ARPMessage.length := by
    rw [unparse_eq]
    simp only [List.length_append, Vector.length_toList, toBytes_length, ARPMessage.length, List.length_nil]
    omega
  unfold parse
  dsimp only
  rw [if_neg hlen, unparse_eq]
  simp only [NetParser.u16_append, NetParser.u8_append, NetParser.address_append, NetParser.u32_append]
  exact if_neg fun hc => absurd (hc.symm.trans hs) Bool.false_ne_true

end Sponge

/-
# IPv4 datagrams

`ipv4_header.cc`, `ipv4_datagram.cc` and the `InternetChecksum` of `util.cc`.
`IPv4Datagram::parse` does not look at what `IPv4Header::parse` answers: it
accepts a datagram whose payload has the length the header says, and such a
datagram can be serialized exactly if its version is 4 and its header is long
enough.

Key definitions: `IPv4Header.parse`, `IPv4Header.serialize`,
`IPv4Datagram.parse`, `IPv4Datagram.serialize`, `IPv4Datagram.Sized`,
`IPv4Header.Plausible`, `IPv4Datagram.serializable`.
Key theorems: `IPv4Datagram.parse_sized`, `IPv4Datagram.serialize_isOk_iff`.
-/
import Sponge.Parser
import Sponge.Lib.OnesComplement

namespace Sponge

structure InternetChecksum where
  sum : UInt32
  parity : Bool := false

namespace InternetChecksum

def addByte (c : InternetChecksum) (b : UInt8) : InternetChecksum where
  sum := c.sum + (if c.parity then b.toUInt32 else b.toUInt32 <<< 8)
  parity := !c.parity

def add (c : InternetChecksum) (data : Bytes) : InternetChecksum := data.foldl addByte c

/-- The loop of `value`; two passes bring 32 bits down to 16 (`fold_le`). -/
def fold : ℕ → UInt32 → UInt32
  | 0, ret => ret
  | fuel + 1, ret => if 0xffff < ret then fold fuel ((ret >>> 16) + (ret &&& 0xffff)) else ret

def value (c : InternetChecksum) : UInt16 := ~~~ (fold 2 c.sum).toUInt16

end InternetChecksum

structure IPv4Header where
  ver : UInt8 := 4
  hlen : UInt8 := 5
  tos : UInt8 := 0
  len : UInt16 := 0
  id : UInt16 := 0
  df : Bool := true
  mf : Bool := false
  offset : UInt16 := 0
  ttl : UInt8 := 128
  proto : UInt8 := 6
  cksum : UInt16 := 0
  src : UInt32 := 0
  dst : UInt32 := 0
  deriving DecidableEq

namespace IPv4Header

def length : ℕ := 20

/-- The fields as they stand in the first twenty bytes. -/
def readFields (h : IPv4Header) (p : NetParser) : IPv4Header × NetParser :=
  let (firstByte, p) := p.u8
  let (tos, p) := p.u8
  let (len, p) := p.u16
  let (id, p) := p.u16
  let (foVal, p) := p.u16
  let (ttl, p) := p.u8
  let (proto, p) := p.u8
  let (cksum, p) := p.u16
  let (src, p) := p.u32
  let (dst, p) := p.u32
  ({ h with
      ver := firstByte >>> 4
      hlen := firstByte &&& 0x0f
      tos, len, id
      df := foVal &&& 0x4000 != 0
      mf := foVal &&& 0x2000 != 0
      offset := foVal &&& 0x1fff
      ttl, proto, cksum, src, dst }, p)

/-- The answer, the header and the parser after; the fields are read before
they are checked. -/
def parse (h : IPv4Header) (p : NetParser) : ParseResult × IPv4Header × NetParser :=
  let original := p.buffer
  let dataSize := p.buffer.length
  if dataSize < length then (.packetTooShort, h, p)
  else
    let (h, p) := h.readFields p
    if dataSize < 4 * h.hlen.toNat then (.packetTooShort, h, p)
    else if h.ver ≠ 4 then (.wrongIPVersion, h, p)
    else if h.hlen < 5 then (.headerTooShort, h, p)
    else if dataSize ≠ h.len.toNat then (.truncatedPacket, h, p)
    else
      let p := p.removePrefix (h.hlen.toNat * 4 - length)
      if p.error ≠ .noError then (p.error, h, p)
      else if (InternetChecksum.add ⟨0, false⟩ (original.take (4 * h.hlen.toNat))).value ≠ 0 then
        (.badChecksum, h, p)
      else (.noError, h, p)

/-- The twenty bytes of the fields. -/
def unparse (h : IPv4Header) : Bytes :=
  let firstByte := (h.ver <<< 4) ||| (h.hlen &&& 0xf)
  let foVal := (if h.df then 0x4000 else 0) ||| (if h.mf then 0x2000 else 0) ||| (h.offset &&& 0x1fff)
  let ret := NetUnparser.u8 [] firstByte
  let ret := NetUnparser.u8 ret h.tos
  let ret := NetUnparser.u16 ret h.len
  let ret := NetUnparser.u16 ret h.id
  let ret := NetUnparser.u16 ret foVal
  let ret := NetUnparser.u8 ret h.ttl
  let ret := NetUnparser.u8 ret h.proto
  let ret := NetUnparser.u16 ret h.cksum
  let ret := NetUnparser.u32 ret h.src
  NetUnparser.u32 ret h.dst

/-- The header resized to the length it has in its field. -/
def serialize (h : IPv4Header) : Result Bytes :=
  if h.ver ≠ 4 then .error (.runtimeError "wrong IP version")
  else if 4 * h.hlen.toNat < length then .error (.runtimeError "IP header too short")
  else .ok (h.unparse.takeD (4 * h.hlen.toNat) 0)

def payloadLength (h : IPv4Header) : UInt16 := h.len - 4 * h.hlen.toUInt16

/-- The sum of the pseudo-header that a TCP checksum covers. -/
def pseudoCksum (h : IPv4Header) : UInt32 :=
  let pcksum := (h.src >>> 16) + (h.src &&& 0xffff)
  let pcksum := pcksum + ((h.dst >>> 16) + (h.dst &&& 0xffff))
  let pcksum := pcksum + h.proto.toUInt32
  pcksum + h.payloadLength.toUInt32

end IPv4Header

structure IPv4Datagram where
  header : IPv4Header := {}
  payload : BufferList := []
  deriving DecidableEq

namespace IPv4Datagram

def parse (d : IPv4Datagram) (buffer : Bytes) : ParseResult × IPv4Datagram :=
  let (_, header, p) := d.header.parse ⟨buffer, .noError⟩
  let d : IPv4Datagram := { header, payload := [p.buffer] }
  if d.payload.size ≠ header.payloadLength.toNat then (.packetTooShort, d)
  else (p.error, d)

def serialize (d : IPv4Datagram) : Result BufferList :=
  if d.payload.size ≠ d.header.payloadLength.toNat then
    .error (.runtimeError "IPv4Datagram::serialize: payload is wrong size")
  else
    (IPv4Header.serialize { d.header with cksum := 0 }).bind fun headerZeroChecksum =>
      let cksum := (InternetChecksum.add ⟨0, false⟩ headerZeroChecksum).value
      (IPv4Header.serialize { d.header with cksum }).map fun header => header :: d.payload

/-- The payload is as long as the header says. -/
def Sized (d : IPv4Datagram) : Prop := d.payload.size = d.header.payloadLength.toNat

instance (d : IPv4Datagram) : Decidable d.Sized := inferInstanceAs (Decidable (_ = _))

end IPv4Datagram

/-- What `IPv4Header::serialize` asks of a header. -/
def IPv4Header.Plausible (h : IPv4Header) : Prop := h.ver = 4 ∧ 5 ≤ h.hlen

instance (h : IPv4Header) : Decidable h.Plausible := inferInstanceAs (Decidable (_ ∧ _))

/-- `serialize` returns, as `serialize_isOk_iff` shows. -/
def IPv4Datagram.serializable (d : IPv4Datagram) : Bool := decide (d.Sized ∧ d.header.Plausible)

namespace InternetChecksum

theorem foldStep_toNat (x : UInt32) :
    ((x >>> 16) + (x &&& 0xffff)).toNat = x.toNat / 2 ^ 16 + x.toNat % 2 ^ 16 := by
  have hlt := x.toNat_lt
  have h1 : (x >>> 16).toNat = x.toNat / 2 ^ 16 := by
    rw [UInt32.toNat_shiftRight, Nat.shiftRight_eq_div_pow]
    rfl
  have h2 : (x &&& 0xffff).toNat = x.toNat % 2 ^ 16 := by
    rw [UInt32.toNat_and]
    exact Nat.and_two_pow_sub_one_eq_mod _ 16
  rw [UInt32.toNat_add, h1, h2]
  omega

theorem fold_le (ret : UInt32) : fold 2 ret ≤ 0xffff := by
  have hlt := ret.toNat_lt
  have h1 := foldStep_toNat ret
  have h2 := foldStep_toNat ((ret >>> 16) + (ret &&& 0xffff))
  have hle : ∀ x : UInt32, x ≤ 0xffff ↔ x.toNat ≤ 2 ^ 16 - 1 := fun x => UInt32.le_iff_toNat_le
  unfold fold fold fold
  split_ifs with h3 h4
  · rw [hle, h2, h1]
    omega
  · exact UInt32.not_lt.mp h4
  · exact UInt32.not_lt.mp h3

open OnesComplement BigEndian

theorem fold_toNat (ret : UInt32) : (fold 2 ret).toNat = norm ret.toNat := by
  have hstep : ∀ x : UInt32, norm ((x >>> 16) + (x &&& 0xffff)).toNat = norm x.toNat := fun x => by
    rw [foldStep_toNat]
    exact norm_carry _
  have hnorm : norm (fold 2 ret).toNat = norm ret.toNat := by
    unfold fold fold fold
    split_ifs
    · rw [hstep, hstep]
    · rw [hstep]
    · rfl
  rw [← hnorm, norm_of_le (UInt32.le_iff_toNat_le.mp (fold_le ret))]

/-- The loop is over once sixteen bits hold the sum. -/
theorem fold_of_le (n : ℕ) {ret : UInt32} (h : ret ≤ 0xffff) : fold n ret = ret := by
  cases n with
  | zero => rfl
  | succ n => exact if_neg (UInt32.not_lt.mpr h)

theorem fold_add (m n : ℕ) (ret : UInt32) : fold (m + n) ret = fold n (fold m ret) := by
  induction m generalizing ret with
  | zero => exact congrArg (fold · ret) (Nat.zero_add n)
  | succ m ih =>
    rw [Nat.succ_add, fold, fold]
    split_ifs with h
    · exact ih _
    · exact (fold_of_le n (UInt32.not_lt.mp h)).symm

/-- With more passes the loop ends the same. -/
theorem fold_fuel (n : ℕ) (ret : UInt32) : fold (n + 2) ret = fold 2 ret := by
  rw [Nat.add_comm, fold_add, fold_of_le n (fold_le ret)]

theorem add_append (c : InternetChecksum) (a b : Bytes) : c.add (a ++ b) = (c.add a).add b := List.foldl_append

/-- Chunks fed one after another are their bytes in a row. -/
theorem foldl_add (c : InternetChecksum) (chunks : List Bytes) : chunks.foldl add c = c.add chunks.flatten := by
  induction chunks generalizing c with
  | nil => rfl
  | cons chunk chunks ih => rw [List.foldl_cons, ih, List.flatten_cons, add_append]

/-- The sum so far is the sum of the words of the text. -/
theorem add_sum (s : UInt32) (data : Bytes) :
    (add ⟨s, false⟩ data).sum.toNat = (s.toNat + (words data).sum) % 2 ^ 32 := by
  have hhigh : ∀ a : UInt8, (a.toUInt32 <<< 8).toNat = a.toNat * 256 := fun a => by
    have ha := a.toNat_lt
    rw [UInt32.toNat_shiftLeft, UInt8.toNat_toUInt32]
    show a.toNat <<< 8 % 2 ^ 32 = _
    rw [Nat.shiftLeft_eq]
    omega
  induction data using words.induct generalizing s with
  | case1 =>
    have hs := s.toNat_lt
    show s.toNat = (s.toNat + 0) % 2 ^ 32
    omega
  | case2 a =>
    show (s + a.toUInt32 <<< 8).toNat = _
    rw [UInt32.toNat_add, hhigh, words, List.sum_singleton]
  | case3 a b data ih =>
    have hstep : add ⟨s, false⟩ (a :: b :: data) = add ⟨s + a.toUInt32 <<< 8 + b.toUInt32, false⟩ data := rfl
    rw [hstep, ih, UInt32.toNat_add, UInt32.toNat_add, hhigh, UInt8.toNat_toUInt32, words, List.sum_cons]
    omega

/-- **The checksum of a text is the complement of the one's-complement sum of
its words**, as long as 32 bits hold the plain sum. -/
theorem value_toNat {s : UInt32} {data : Bytes} (h : s.toNat + (words data).sum < 2 ^ 32) :
    (add ⟨s, false⟩ data).value.toNat = 65535 - norm (s.toNat + (words data).sum) := by
  have hsum : (fold 2 (add ⟨s, false⟩ data).sum).toNat = norm (s.toNat + (words data).sum) := by
    rw [fold_toNat, add_sum, Nat.mod_eq_of_lt h]
  have hle := norm_le (s.toNat + (words data).sum)
  unfold value
  rw [UInt16.toNat_not, UInt32.toNat_toUInt16, hsum]
  show 65536 - 1 - _ % 65536 = _
  omega

theorem value_eq_zero_iff {s : UInt32} {data : Bytes} (h : s.toNat + (words data).sum < 2 ^ 32) :
    (add ⟨s, false⟩ data).value = 0 ↔ norm (s.toNat + (words data).sum) = 65535 := by
  have hle := norm_le (s.toNat + (words data).sum)
  rw [← UInt16.toNat_inj, value_toNat h]
  show 65535 - _ = 0 ↔ _
  omega

/-- **A checksum in its place makes a text verify**: the checksum computed with
zero there, put in after an even number of bytes. -/
theorem value_fill {s : UInt32} {a b : Bytes} (ha : Even a.length)
    (hfit : s.toNat + (words a).sum + (words b).sum + 65535 < 2 ^ 32) :
    (add ⟨s, false⟩ (a ++ toBytes 2 (add ⟨s, false⟩ (a ++ toBytes 2 0 ++ b)).value.toNat ++ b)).value = 0 := by
  have hsum : ∀ n < 65536, (words (a ++ toBytes 2 n ++ b)).sum = (words a).sum + n + (words b).sum := fun n hn => by
    rw [List.append_assoc, words_append ha, words_toBytes, Nat.mod_eq_of_lt hn, List.sum_append, List.sum_cons,
      add_assoc]
  have hzero := hsum 0 (by decide)
  have hlt32 : s.toNat + (words (a ++ toBytes 2 0 ++ b)).sum < 2 ^ 32 := by omega
  have hvalue := value_toNat hlt32
  set n := (add ⟨s, false⟩ (a ++ toBytes 2 0 ++ b)).value with hn
  have hlt : n.toNat < 65536 := n.toNat_lt
  have hfilled := hsum n.toNat hlt
  rw [value_eq_zero_iff (by omega), hfilled]
  rw [hzero] at hvalue
  have hnorm := norm_complement (s.toNat + ((words a).sum + 0 + (words b).sum))
  rw [← hvalue] at hnorm
  rw [← hnorm]
  congr 1
  omega

end InternetChecksum

namespace IPv4Header

theorem serialize_eq {h : IPv4Header} (hp : h.Plausible) :
    h.serialize = .ok (h.unparse.takeD (4 * h.hlen.toNat) 0) := by
  have hlen : 5 ≤ h.hlen.toNat := UInt8.le_iff_toNat_le.mp hp.2
  unfold serialize length
  rw [if_neg (not_not_intro hp.1), if_neg (by omega)]

theorem serialize_of_not {h : IPv4Header} (hp : ¬ h.Plausible) : ∃ e, h.serialize = .error e := by
  unfold serialize length
  split_ifs with h1 h2
  · exact ⟨_, rfl⟩
  · exact ⟨_, rfl⟩
  · exact absurd ⟨not_not.mp h1, UInt8.le_iff_toNat_le.mpr (show 5 ≤ h.hlen.toNat by omega)⟩ hp

end IPv4Header

namespace IPv4Datagram

/-- What the parser accepts has the size its header says. -/
theorem parse_sized {d d' : IPv4Datagram} {buffer : Bytes} (h : d.parse buffer = (.noError, d')) : d'.Sized := by
  unfold parse at h
  dsimp only at h
  split_ifs at h with h1
  · cases h
  · obtain ⟨-, rfl⟩ := Prod.mk.inj h
    exact not_not.mp h1

/-- **A datagram can be serialized iff its payload has the right size, its
version is 4 and its header length is at least 5.** -/
theorem serialize_isOk_iff (d : IPv4Datagram) : (∃ bufs, d.serialize = .ok bufs) ↔ d.serializable = true := by
  rw [serializable, decide_eq_true_iff]
  unfold serialize Sized
  constructor
  · rintro ⟨bufs, h⟩
    split_ifs at h with h1
    refine ⟨not_not.mp h1, ?_⟩
    by_contra hp
    obtain ⟨e, he⟩ := IPv4Header.serialize_of_not (h := { d.header with cksum := 0 }) hp
    rw [he] at h
    cases h
  · rintro ⟨h1, hp⟩
    rw [if_neg (not_not_intro h1), IPv4Header.serialize_eq (h := { d.header with cksum := 0 }) hp]
    show ∃ bufs, Except.map _ (IPv4Header.serialize _) = .ok bufs
    rw [IPv4Header.serialize_eq (by exact hp)]
    exact ⟨_, rfl⟩

end IPv4Datagram
end Sponge

/-
# Which byte strings are IPv4 datagrams

What makes a byte string a datagram, stated over its bytes, against what
`IPv4Datagram::parse` accepts. The parser's own error is set only by reading
past the end, and `IPv4Header::parse` answers the failed checks by its return
value, which `IPv4Datagram::parse` drops: a datagram with a bad checksum is
always accepted, and one that fails another check is accepted when what the
parser has left happens to be as long as the fields say.

Key definitions: `IPv4Header.versionAt`, `IPv4Header.hlenAt`, `IPv4Header.lenAt`,
`IPv4Header.Consistent`, `IPv4Datagram.Valid`, `IPv4Datagram.Unnoticed`.
Key theorems: `IPv4Datagram.parse_meets_valid_iff`,
`IPv4Datagram.datagram_round_trip`.
-/
import Sponge.IPv4

namespace Sponge

open BigEndian OnesComplement

namespace IPv4Header

/-! ### The fields where they stand -/

def versionAt (b : Bytes) : ℕ := (b.headD 0).toNat / 16

def hlenAt (b : Bytes) : ℕ := (b.headD 0).toNat % 16

def lenAt (b : Bytes) : ℕ := ofBytes ((b.drop 2).take 2)

/-- The four checks that come before the checksum. -/
structure Consistent (b : Bytes) : Prop where
  version : versionAt b = 4
  hlen : 5 ≤ hlenAt b
  whole : 4 * hlenAt b ≤ b.length
  len : lenAt b = b.length

theorem consistent_iff {b : Bytes} :
    Consistent b ↔ versionAt b = 4 ∧ 5 ≤ hlenAt b ∧ 4 * hlenAt b ≤ b.length ∧ lenAt b = b.length :=
  ⟨fun h => ⟨h.version, h.hlen, h.whole, h.len⟩, fun ⟨h1, h2, h3, h4⟩ => ⟨h1, h2, h3, h4⟩⟩

instance (b : Bytes) : Decidable (Consistent b) := decidable_of_iff' _ consistent_iff

/-- The one's-complement sum over the header is all ones. -/
def ChecksumOk (b : Bytes) : Prop := Verifies (words (b.take (4 * hlenAt b)))

instance (b : Bytes) : Decidable (ChecksumOk b) := inferInstanceAs (Decidable (Verifies _))

end IPv4Header

namespace IPv4Datagram

open IPv4Header

/-- What a datagram is. -/
structure Valid (b : Bytes) : Prop where
  long : 20 ≤ b.length
  consistent : Consistent b
  checksum : ChecksumOk b

theorem valid_iff {b : Bytes} : Valid b ↔ 20 ≤ b.length ∧ Consistent b ∧ ChecksumOk b :=
  ⟨fun h => ⟨h.long, h.consistent, h.checksum⟩, fun ⟨h1, h2, h3⟩ => ⟨h1, h2, h3⟩⟩

instance (b : Bytes) : Decidable (Valid b) := decidable_of_iff' _ valid_iff

/-- The byte strings whose defect is not noticed: too short for a header but as
long as the payload the datagram's old header speaks of; with a failed check
before the checksum, and as long behind the fields as they say in 16 bits; or
with a bad checksum only. -/
def Unnoticed (d : IPv4Datagram) (b : Bytes) : Prop :=
  (b.length < 20 ∧ b.length = d.header.payloadLength.toNat) ∨
  (20 ≤ b.length ∧ ¬ Consistent b ∧ b.length - 20 = (lenAt b + 65536 - 4 * hlenAt b) % 65536) ∨
  (20 ≤ b.length ∧ Consistent b ∧ ¬ ChecksumOk b)

instance (d : IPv4Datagram) (b : Bytes) : Decidable (Unnoticed d b) := inferInstanceAs (Decidable (_ ∨ _))

end IPv4Datagram

/-! ### Reading the fields -/

namespace IPv4Header

theorem lenAt_lt (b : Bytes) : lenAt b < 65536 := ofBytes_take_two_lt _

theorem hlenAt_lt (b : Bytes) : hlenAt b < 16 := Nat.mod_lt _ (by decide)

/-- The fields of twenty bytes or more are read without an error. -/
theorem readFields_eq (h : IPv4Header) {b : Bytes} (hb : 20 ≤ b.length) :
    (h.readFields ⟨b, .noError⟩).2 = ⟨b.drop 20, .noError⟩ ∧
      (h.readFields ⟨b, .noError⟩).1.ver.toNat = versionAt b ∧
      (h.readFields ⟨b, .noError⟩).1.hlen.toNat = hlenAt b ∧
      (h.readFields ⟨b, .noError⟩).1.len.toNat = lenAt b := by
  unfold readFields NetParser.u8 NetParser.u16 NetParser.u32
  simp (disch := grind) only [NetParser.parseInt_eq, List.drop_drop]
  rw [ofNat_ofBytes_take_one (by omega)]
  refine ⟨trivial, ?_, ?_, ?_⟩
  · rw [UInt8.toNat_shiftRight, Nat.shiftRight_eq_div_pow]
    rfl
  · rw [UInt8.toNat_and]
    exact Nat.and_two_pow_sub_one_eq_mod _ 4
  · exact UInt16.toNat_ofNat_of_lt (lenAt_lt b)

/-- The header's own view of the checks, once its fields are read. -/
theorem checks_iff {h : IPv4Header} {b : Bytes} (hver : h.ver.toNat = versionAt b) (hhlen : h.hlen.toNat = hlenAt b)
    (hlen : h.len.toNat = lenAt b) :
    Consistent b ↔ ¬ b.length < 4 * h.hlen.toNat ∧ ¬ h.ver ≠ 4 ∧ ¬ h.hlen < 5 ∧ ¬ b.length ≠ h.len.toNat := by
  have h4 : h.ver = 4 ↔ versionAt b = 4 := by
    rw [← hver, ← UInt8.toNat_inj]
    rfl
  have h5 : h.hlen < 5 ↔ hlenAt b < 5 := by
    rw [← hhlen, UInt8.lt_iff_toNat_lt]
    rfl
  rw [consistent_iff, h5, hhlen, hlen, not_not, not_not, h4]
  omega

theorem sum_header_lt (b : Bytes) : (words (b.take (4 * hlenAt b))).sum < 2 ^ 32 := by
  have hle := sum_words_le (b.take (4 * hlenAt b))
  have hlen := List.length_take_le (4 * hlenAt b) b
  have hlt := hlenAt_lt b
  omega

theorem checksumOk_iff (b : Bytes) :
    ChecksumOk b ↔ (InternetChecksum.add ⟨0, false⟩ (b.take (4 * hlenAt b))).value = 0 := by
  have hfit := sum_header_lt b
  rw [InternetChecksum.value_eq_zero_iff (by simpa using hfit), ChecksumOk, verifies_iff (words_lt _)]
  simp

/-- **What `IPv4Header::parse` does with twenty bytes or more**: the parser is
behind the fields, or behind the whole header where the checks before the
checksum pass, and never in error; the answer is no error iff the text is
consistent and its checksum is right. -/
theorem parse_eq (h : IPv4Header) {b : Bytes} (hb : 20 ≤ b.length) :
    (h.parse ⟨b, .noError⟩).2.1 = (h.readFields ⟨b, .noError⟩).1 ∧
      (h.parse ⟨b, .noError⟩).2.2 = ⟨b.drop (if Consistent b then 4 * hlenAt b else 20), .noError⟩ ∧
      ((h.parse ⟨b, .noError⟩).1 = .noError ↔ Consistent b ∧ ChecksumOk b) := by
  obtain ⟨hp, hver, hhlen, hlen⟩ := readFields_eq h hb
  have hchecks := checks_iff hver hhlen hlen
  unfold parse
  dsimp only
  rw [if_neg (show ¬ b.length < length by exact Nat.not_lt.mpr hb), hp]
  by_cases hc : Consistent b
  · obtain ⟨h1, h2, h3, h4⟩ := hchecks.mp hc
    have hskip : 20 + (4 * hlenAt b - 20) = 4 * hlenAt b := by
      have := hc.hlen
      omega
    have hleft : 4 * hlenAt b - 20 ≤ (b.drop 20).length := by
      have := hc.whole
      rw [List.length_drop]
      omega
    rw [if_neg h1, if_neg h2, if_neg h3, if_neg h4, hhlen, mul_comm (hlenAt b), length,
      NetParser.removePrefix_eq hleft, if_neg (not_not_intro rfl), List.drop_drop, hskip, if_pos hc, checksumOk_iff]
    split_ifs with h5
    · exact ⟨rfl, rfl, by simp [h5]⟩
    · exact ⟨rfl, rfl, by simp [hc, not_not.mp h5]⟩
  · rw [if_neg hc]
    split_ifs with h1 h2 h3 h4
    iterate 4 exact ⟨rfl, rfl, by simp [hc]⟩
    all_goals exact absurd (hchecks.mpr ⟨h1, h2, h3, h4⟩) hc

end IPv4Header

namespace IPv4Datagram

open IPv4Header

theorem payloadLength_toNat {h : IPv4Header} {b : Bytes} (hhlen : h.hlen.toNat = hlenAt b)
    (hlen : h.len.toNat = lenAt b) : h.payloadLength.toNat = (lenAt b + 65536 - 4 * hlenAt b) % 65536 := by
  have hlt := hlenAt_lt b
  have hmul : (4 * h.hlen.toUInt16).toNat = 4 * hlenAt b := by
    rw [UInt16.toNat_mul, UInt8.toNat_toUInt16, hhlen]
    show 4 * hlenAt b % 65536 = _
    omega
  rw [payloadLength, UInt16.toNat_sub, hmul, hlen]
  show (65536 - _ + _) % 65536 = _
  omega

/-- A consistent text is as long as the fields say, behind the header. -/
theorem length_drop_header {b : Bytes} (h : Consistent b) :
    (b.drop (4 * hlenAt b)).length = (lenAt b + 65536 - 4 * hlenAt b) % 65536 := by
  have hwhole := h.whole
  have hlen := h.len
  have hlt := lenAt_lt b
  rw [List.length_drop]
  omega

/-- The parse of a text too short for a header looks at the length alone. -/
theorem parse_short (d : IPv4Datagram) {b : Bytes} (hb : b.length < 20) :
    (d.parse b).1 = .noError ↔ b.length = d.header.payloadLength.toNat := by
  have hparse : d.header.parse ⟨b, .noError⟩ = (.packetTooShort, d.header, ⟨b, .noError⟩) := if_pos hb
  unfold parse
  simp only [hparse, BufferList.size_singleton]
  split_ifs with h
  · simp [h]
  · simp [not_not.mp h]

/-- **What `IPv4Datagram::parse` does with twenty bytes or more.** -/
theorem parse_long (d : IPv4Datagram) {b : Bytes} (hb : 20 ≤ b.length) :
    ((d.parse b).1 = .noError ↔
      Consistent b ∨ b.length - 20 = (lenAt b + 65536 - 4 * hlenAt b) % 65536) ∧
      (d.parse b).2.payload = [b.drop (if Consistent b then 4 * hlenAt b else 20)] := by
  obtain ⟨-, -, hhlen, hlen⟩ := readFields_eq d.header hb
  obtain ⟨hh, hp, -⟩ := IPv4Header.parse_eq d.header hb
  rw [← hh] at hhlen hlen
  have hleft : (b.drop (if Consistent b then 4 * hlenAt b else 20)).length =
        (lenAt b + 65536 - 4 * hlenAt b) % 65536 ↔
      Consistent b ∨ b.length - 20 = (lenAt b + 65536 - 4 * hlenAt b) % 65536 := by
    by_cases hc : Consistent b
    · rw [if_pos hc]
      exact iff_of_true (length_drop_header hc) (Or.inl hc)
    · rw [if_neg hc, List.length_drop, or_iff_right hc]
  rw [← hleft]
  -- what the parser has left is one buffer, whichever check it stopped at
  generalize b.drop (if Consistent b then 4 * hlenAt b else 20) = rest at hp ⊢
  unfold parse
  simp only [hp, BufferList.size_singleton, payloadLength_toNat hhlen hlen]
  split_ifs with h
  · exact ⟨by simp [h], rfl⟩
  · exact ⟨by simp [not_not.mp h], rfl⟩

/-- **`IPv4Datagram::parse` tells datagrams from other byte strings exactly
where no defect goes unnoticed.** -/
theorem parse_meets_valid_iff (d : IPv4Datagram) (b : Bytes) :
    (((d.parse b).1 = .noError ↔ Valid b) ∧ (Valid b → (d.parse b).2.payload = [b.drop (4 * hlenAt b)])) ↔
      ¬ Unnoticed d b := by
  rw [valid_iff, Unnoticed]
  rcases Nat.lt_or_ge b.length 20 with hb | hb
  · have hb' : ¬ 20 ≤ b.length := by omega
    simp only [parse_short d hb, hb, hb', false_and, iff_false, false_imp_iff, and_true, true_and, or_false]
  · have hb' : ¬ b.length < 20 := by omega
    obtain ⟨herr, hpay⟩ := parse_long d hb
    rw [herr, hpay]
    by_cases hc : Consistent b
    · simp only [hc, hb, hb', if_true, true_or, true_and, true_iff, false_and, not_true_eq_false, false_or, not_not]
      simp
    · simp only [hc, hb, hb', false_or, true_and, false_and, iff_false, false_imp_iff, and_true, not_false_eq_true,
        or_false]

/-- Twenty bytes with a zero checksum are accepted. -/
theorem parse_accepts_bad_checksum :
    ∃ b : Bytes, (parse {} b).1 = .noError ∧ ¬ Valid b :=
  ⟨[0x45, 0, 0, 20, 0, 0, 0x40, 0, 128, 6, 0, 0, 0, 0, 0, 0, 0, 0, 0, 0], by decide⟩

end IPv4Datagram

/-! ### The round trip -/

namespace IPv4Header

/-- Version and header length share a byte. -/
theorem firstByte_fields {hlen : UInt8} (h : hlen ≤ 15) :
    (((4 : UInt8) <<< 4) ||| (hlen &&& 0xf)) >>> 4 = 4 ∧
      (((4 : UInt8) <<< 4) ||| (hlen &&& 0xf)) &&& 0x0f = hlen := by
  have hall : ∀ n < 16, (((4 : UInt8) <<< 4) ||| (UInt8.ofNat n &&& 0xf)) >>> 4 = 4 ∧
      (((4 : UInt8) <<< 4) ||| (UInt8.ofNat n &&& 0xf)) &&& 0x0f = UInt8.ofNat n := by
    decide
  have hlt := hall hlen.toNat (Nat.lt_succ_of_le (UInt8.le_iff_toNat_le.mp h))
  rwa [UInt8.ofNat_toNat] at hlt

theorem and_or_right (a b m : UInt16) : (a ||| b) &&& m = (a &&& m) ||| (b &&& m) := by
  apply UInt16.eq_of_toBitVec_eq
  exact BitVec.and_or_distrib_right

/-- The two flags and the offset share a word. -/
theorem foVal_fields (df mf : Bool) {offset : UInt16} (h : offset < 8192) :
    let foVal : UInt16 := (if df then 0x4000 else 0) ||| (if mf then 0x2000 else 0) ||| (offset &&& 0x1fff)
    (foVal &&& 0x4000 != 0) = df ∧ (foVal &&& 0x2000 != 0) = mf ∧ foVal &&& 0x1fff = offset := by
  have hoffset : offset &&& 0x1fff = offset := by
    rw [← UInt16.toNat_inj, UInt16.toNat_and]
    have hlt : offset.toNat < 8192 := UInt16.lt_iff_toNat_lt.mp h
    show offset.toNat &&& 2 ^ 13 - 1 = _
    rw [Nat.and_two_pow_sub_one_eq_mod, Nat.mod_eq_of_lt hlt]
  have hclear : ∀ m : UInt16, 0x1fff &&& m = 0 → offset &&& m = 0 := fun m hm => by
    rw [← hoffset, UInt16.and_assoc, hm, UInt16.and_zero]
  have h14 : offset &&& 0x4000 = 0 := hclear _ rfl
  have h13 : offset &&& 0x2000 = 0 := hclear _ rfl
  have hdm : (0x4000 : UInt16) &&& 0x2000 = 0 := rfl
  have hmd : (0x2000 : UInt16) &&& 0x4000 = 0 := rfl
  have hdo : (0x4000 : UInt16) &&& 0x1fff = 0 := rfl
  have hmo : (0x2000 : UInt16) &&& 0x1fff = 0 := rfl
  cases df <;> cases mf <;> simp [and_or_right, hoffset, h14, h13, hdm, hmd, hdo, hmo]

/-- The fields before the checksum, and those after it. -/
def unparseFront (h : IPv4Header) : Bytes :=
  toBytes 1 ((h.ver <<< 4) ||| (h.hlen &&& 0xf)).toNat ++ toBytes 1 h.tos.toNat ++ toBytes 2 h.len.toNat ++
    toBytes 2 h.id.toNat ++
    toBytes 2 ((if h.df then 0x4000 else 0) ||| (if h.mf then 0x2000 else 0) ||| (h.offset &&& 0x1fff) : UInt16).toNat ++
    toBytes 1 h.ttl.toNat ++ toBytes 1 h.proto.toNat

def unparseBack (h : IPv4Header) : Bytes := toBytes 4 h.src.toNat ++ toBytes 4 h.dst.toNat

theorem unparse_eq (h : IPv4Header) : h.unparse = h.unparseFront ++ toBytes 2 h.cksum.toNat ++ h.unparseBack := by
  simp only [unparse, unparseFront, unparseBack, NetUnparser.u8, NetUnparser.u16, NetUnparser.u32, List.nil_append,
    List.append_assoc]

theorem unparseFront_length (h : IPv4Header) : h.unparseFront.length = 10 := by
  simp [unparseFront]

theorem unparse_length (h : IPv4Header) : h.unparse.length = 20 := by
  rw [unparse_eq]
  simp [unparseFront_length, unparseBack]

/-- **The fields are read as they were written.** -/
theorem readFields_unparse (h h0 : IPv4Header) (hver : h.ver = 4) (hhlen : h.hlen ≤ 15) (hoffset : h.offset < 8192)
    (rest : Bytes) : h0.readFields ⟨h.unparse ++ rest, .noError⟩ = (h, ⟨rest, .noError⟩) := by
  obtain ⟨hv, hl⟩ := firstByte_fields hhlen
  obtain ⟨hd, hm, ho⟩ := foVal_fields h.df h.mf hoffset
  rw [unparse_eq, unparseFront, unparseBack, hver]
  simp only [readFields, List.append_assoc, NetParser.u8_append, NetParser.u16_append, NetParser.u32_append, hv, hl,
    hd, hm, ho]
  rw [← hver]

/-- The bytes of a header of at least 20 bytes. -/
def bytes (h : IPv4Header) : Bytes := h.unparse ++ List.replicate (4 * h.hlen.toNat - 20) 0

theorem serialize_eq_bytes {h : IPv4Header} (hver : h.ver = 4) (h5 : 5 ≤ h.hlen) : h.serialize = .ok h.bytes := by
  have hlen : 5 ≤ h.hlen.toNat := UInt8.le_iff_toNat_le.mp h5
  rw [serialize_eq ⟨hver, h5⟩, takeD_eq_append (by rw [unparse_length]; omega), unparse_length, bytes]

theorem bytes_length {h : IPv4Header} (h5 : 5 ≤ h.hlen) : h.bytes.length = 4 * h.hlen.toNat := by
  have hlen : 5 ≤ h.hlen.toNat := UInt8.le_iff_toNat_le.mp h5
  rw [bytes, List.length_append, unparse_length, List.length_replicate]
  omega

/-- The checksum that `IPv4Datagram::serialize` puts in. -/
def filled (h : IPv4Header) : IPv4Header :=
  { h with cksum := (InternetChecksum.add ⟨0, false⟩ (bytes { h with cksum := 0 })).value }

@[simp] theorem filled_ver (h : IPv4Header) : h.filled.ver = h.ver := rfl
@[simp] theorem filled_hlen (h : IPv4Header) : h.filled.hlen = h.hlen := rfl
@[simp] theorem filled_len (h : IPv4Header) : h.filled.len = h.len := rfl

/-- The checksum is no part of the pseudo-header. -/
theorem filled_pseudoCksum (h : IPv4Header) : h.filled.pseudoCksum = h.pseudoCksum := by
  unfold pseudoCksum payloadLength
  rfl

theorem bytes_eq (h : IPv4Header) (cksum : UInt16) :
    bytes { h with cksum } =
      h.unparseFront ++ toBytes 2 cksum.toNat ++ (h.unparseBack ++ List.replicate (4 * h.hlen.toNat - 20) 0) := by
  rw [bytes, unparse_eq, List.append_assoc, List.append_assoc, List.append_assoc]
  rfl

/-- A header that was filled in verifies. -/
theorem value_filled (h : IPv4Header) : (InternetChecksum.add ⟨0, false⟩ h.filled.bytes).value = 0 := by
  have hfront := sum_words_le h.unparseFront
  have hback := sum_words_le (h.unparseBack ++ List.replicate (4 * h.hlen.toNat - 20) 0)
  have hhlen := h.hlen.toNat_lt
  simp only [unparseFront_length, unparseBack, List.length_append, List.length_replicate, toBytes_length]
    at hfront hback
  rw [filled, bytes_eq, bytes_eq]
  apply InternetChecksum.value_fill
  · rw [unparseFront_length]
    decide
  · show 0 + _ + _ + _ < _
    unfold unparseBack
    omega

/-- **A header is parsed as it was filled in.** -/
theorem parse_filled {h h0 : IPv4Header} (hver : h.ver = 4) (h5 : 5 ≤ h.hlen) (h15 : h.hlen ≤ 15)
    (hoffset : h.offset < 8192) {rest : Bytes} (hlen : h.len.toNat = 4 * h.hlen.toNat + rest.length) :
    h0.parse ⟨h.filled.bytes ++ rest, .noError⟩ = (.noError, h.filled, ⟨rest, .noError⟩) := by
  have hlength : h.filled.bytes.length = 4 * h.hlen.toNat := bytes_length h5
  have h5' : 5 ≤ h.hlen.toNat := UInt8.le_iff_toNat_le.mp h5
  have hread : h0.readFields ⟨h.filled.bytes ++ rest, .noError⟩ =
      (h.filled, ⟨List.replicate (4 * h.hlen.toNat - 20) 0 ++ rest, .noError⟩) := by
    rw [bytes, List.append_assoc]
    exact readFields_unparse h.filled h0 hver h15 hoffset _
  have hskip : NetParser.removePrefix ⟨List.replicate (4 * h.hlen.toNat - 20) 0 ++ rest, .noError⟩
      (4 * h.hlen.toNat - 20) = ⟨rest, .noError⟩ := NetParser.removePrefix_replicate _ rest
  have htake : (h.filled.bytes ++ rest).take (4 * h.hlen.toNat) = h.filled.bytes := List.take_left' hlength
  unfold parse
  simp only [hread, List.length_append, hlength, length, filled_ver, filled_hlen, filled_len]
  rw [if_neg (by omega), if_neg (show ¬ _ < 4 * h.hlen.toNat by omega), if_neg (not_not_intro hver),
    if_neg (show ¬ h.hlen < 5 from UInt8.not_lt.mpr h5), if_neg (not_not_intro hlen.symm), mul_comm h.hlen.toNat,
    hskip, if_neg (not_not_intro rfl), htake, value_filled, if_neg (not_not_intro rfl)]

theorem payloadLength_of_le {h : IPv4Header} (hle : 4 * h.hlen.toNat ≤ h.len.toNat) :
    h.payloadLength.toNat = h.len.toNat - 4 * h.hlen.toNat := by
  have hhlen := h.hlen.toNat_lt
  have hlen := h.len.toNat_lt
  have hmul : (4 * h.hlen.toUInt16).toNat = 4 * h.hlen.toNat := by
    rw [UInt16.toNat_mul, UInt8.toNat_toUInt16]
    show 4 * h.hlen.toNat % 65536 = _
    omega
  rw [payloadLength, UInt16.toNat_sub_of_le _ _ (UInt16.le_iff_toNat_le.mpr (by rw [hmul]; exact hle)), hmul]

end IPv4Header

namespace IPv4Datagram

open IPv4Header

theorem serialize_of_sized {d : IPv4Datagram} (hs : d.Sized) (hver : d.header.ver = 4) (h5 : 5 ≤ d.header.hlen) :
    d.serialize = .ok (d.header.filled.bytes :: d.payload) := by
  have hzero : IPv4Header.serialize { d.header with cksum := 0 } = .ok (bytes { d.header with cksum := 0 }) :=
    serialize_eq_bytes hver h5
  unfold Sized at hs
  unfold serialize
  rw [if_neg (not_not_intro hs), hzero]
  show Except.map _ (IPv4Header.serialize d.header.filled) = _
  rw [serialize_eq_bytes (by exact hver) (by exact h5)]
  rfl

/-- A datagram goes out with its checksum and is parsed as it went out. -/
theorem parse_serialize (d d0 : IPv4Datagram) (hver : d.header.ver = 4) (h5 : 5 ≤ d.header.hlen)
    (h15 : d.header.hlen ≤ 15) (hoffset : d.header.offset < 8192)
    (hlen : 4 * d.header.hlen.toNat ≤ d.header.len.toNat)
    (hpayload : d.payload.size = d.header.len.toNat - 4 * d.header.hlen.toNat) :
    d.serialize = .ok (d.header.filled.bytes :: d.payload) ∧
      d0.parse (BufferList.concatenate (d.header.filled.bytes :: d.payload)) =
        (.noError, ⟨d.header.filled, [d.payload.concatenate]⟩) := by
  have hsized : d.payload.size = d.header.payloadLength.toNat := by
    rw [hpayload, payloadLength_of_le hlen]
  have hrest : d.header.len.toNat = 4 * d.header.hlen.toNat + d.payload.concatenate.length := by
    rw [← BufferList.size_eq, hpayload]
    omega
  refine ⟨serialize_of_sized hsized hver h5, ?_⟩
  have hparse : d0.header.parse ⟨d.header.filled.bytes ++ d.payload.concatenate, .noError⟩ =
      (.noError, d.header.filled, ⟨d.payload.concatenate, .noError⟩) := parse_filled hver h5 h15 hoffset hrest
  have hsame : d.header.filled.payloadLength = d.header.payloadLength := rfl
  have hconcat : BufferList.concatenate (d.header.filled.bytes :: d.payload) =
      d.header.filled.bytes ++ d.payload.concatenate := rfl
  unfold parse
  simp only [hconcat, hparse, BufferList.size_singleton]
  rw [if_neg (by rw [hsame, ← hsized, BufferList.size_eq, not_not])]

/-- **The IPv4 round trip.** What is serialized is parsed without an error,
into the same fields but the checksum and the same payload. -/
theorem datagram_round_trip (d d0 : IPv4Datagram) (hver : d.header.ver = 4) (h5 : 5 ≤ d.header.hlen)
    (h15 : d.header.hlen ≤ 15) (hoffset : d.header.offset < 8192)
    (hlen : 4 * d.header.hlen.toNat ≤ d.header.len.toNat)
    (hpayload : d.payload.size = d.header.len.toNat - 4 * d.header.hlen.toNat) :
    ∃ bufs cksum, d.serialize = .ok bufs ∧
      d0.parse bufs.concatenate = (.noError, ⟨{ d.header with cksum }, [d.payload.concatenate]⟩) := by
  obtain ⟨hserialize, hparse⟩ := parse_serialize d d0 hver h5 h15 hoffset hlen hpayload
  exact ⟨_, d.header.filled.cksum, hserialize, hparse⟩

theorem datagram_round_trip_options :
    ∃ bufs cksum, serialize ⟨{ hlen := 6, len := 26 }, [[7], [8]]⟩ = .ok bufs ∧
      parse {} bufs.concatenate = (.noError, ⟨{ hlen := 6, len := 26, cksum }, [[7, 8]]⟩) :=
  datagram_round_trip ⟨{ hlen := 6, len := 26 }, [[7], [8]]⟩ {} rfl (by decide) (by decide) (by decide) (by decide)
    (by decide)

end IPv4Datagram
end Sponge

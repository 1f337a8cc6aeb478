/-
# TCP segments as bytes

`tcp_header.cc` and the rest of `tcp_segment.cc`: the checksum, which covers
the pseudo-header of the datagram and the whole segment, is looked at first;
then the header is parsed, and `TCPSegment::parse` answers the parser's error.
A data offset below 5 is answered by `TCPHeader::parse` alone, so a segment that
has one and a right checksum is accepted.

Key definitions: `TCPHeader.parse`, `TCPHeader.serialize`, `TCPSegment.parse`,
`TCPSegment.serialize`, `TCPSegment.Valid`.
Key theorems: `TCPSegment.value_chunks`, `TCPSegment.segment_meets_valid_iff`,
`TCPSegment.parse_serialize`.
-/
import Sponge.IPv4Wire
import Sponge.TCPSegment

namespace Sponge

open BigEndian OnesComplement

namespace TCPHeader

def length : ℕ := 20

/-- The fields as they stand in the first twenty bytes. -/
def readFields (h : TCPHeader) (p : NetParser) : TCPHeader × NetParser :=
  let (sport, p) := p.u16
  let (dport, p) := p.u16
  let (seqno, p) := p.u32
  let (ackno, p) := p.u32
  let (offset, p) := p.u8
  let (flB, p) := p.u8
  let (win, p) := p.u16
  let (cksum, p) := p.u16
  let (uptr, p) := p.u16
  ({ h with
      sport, dport
      seqno := ⟨seqno⟩
      ackno := ⟨ackno⟩
      doff := offset >>> 4
      urg := flB &&& 0b0010_0000 != 0
      ack := flB &&& 0b0001_0000 != 0
      psh := flB &&& 0b0000_1000 != 0
      rst := flB &&& 0b0000_0100 != 0
      syn := flB &&& 0b0000_0010 != 0
      fin := flB &&& 0b0000_0001 != 0
      win, cksum, uptr }, p)

/-- The answer, the header and the parser after. -/
def parse (h : TCPHeader) (p : NetParser) : ParseResult × TCPHeader × NetParser :=
  let (h, p) := h.readFields p
  if h.doff < 5 then (.headerTooShort, h, p)
  else
    let p := p.removePrefix (h.doff.toNat * 4 - length)
    if p.error ≠ .noError then (p.error, h, p) else (.noError, h, p)

/-- The byte of the flags. -/
def flags (h : TCPHeader) : UInt8 :=
  (if h.urg then 0b0010_0000 else 0) ||| (if h.ack then 0b0001_0000 else 0) ||| (if h.psh then 0b0000_1000 else 0) |||
    (if h.rst then 0b0000_0100 else 0) ||| (if h.syn then 0b0000_0010 else 0) ||| (if h.fin then 0b0000_0001 else 0)

/-- The twenty bytes of the fields. -/
def unparse (h : TCPHeader) : Bytes :=
  let ret := NetUnparser.u16 [] h.sport
  let ret := NetUnparser.u16 ret h.dport
  let ret := NetUnparser.u32 ret h.seqno.rawValue
  let ret := NetUnparser.u32 ret h.ackno.rawValue
  let ret := NetUnparser.u8 ret (h.doff <<< 4)
  let ret := NetUnparser.u8 ret h.flags
  let ret := NetUnparser.u16 ret h.win
  let ret := NetUnparser.u16 ret h.cksum
  NetUnparser.u16 ret h.uptr

/-- The header resized to the length it has in its field. -/
def serialize (h : TCPHeader) : Result Bytes :=
  if h.doff < 5 then .error (.runtimeError "TCP header too short")
  else .ok (h.unparse.takeD (4 * h.doff.toNat) 0)

end TCPHeader

namespace TCPSegment

def parse (seg : TCPSegment) (buffer : Bytes) (datagramLayerChecksum : UInt32) : ParseResult × TCPSegment :=
  if (InternetChecksum.add ⟨datagramLayerChecksum, false⟩ buffer).value ≠ 0 then (.badChecksum, seg)
  else
    let (_, header, p) := seg.header.parse ⟨buffer, .noError⟩
    (p.error, { header, payload := p.buffer })

def serialize (seg : TCPSegment) (datagramLayerChecksum : UInt32) : Result BufferList :=
  (TCPHeader.serialize { seg.header with cksum := 0 }).bind fun headerZeroChecksum =>
    let check := (InternetChecksum.add ⟨datagramLayerChecksum, false⟩ headerZeroChecksum).add seg.payload
    (TCPHeader.serialize { seg.header with cksum := check.value }).map fun header => [header, seg.payload]

/-! ### The fields where they stand -/

def doffAt (b : Bytes) : ℕ := ((b.drop 12).headD 0).toNat / 16

/-- The words of the pseudo-header: the addresses, the protocol, the length. -/
def pseudoWords (h : IPv4Header) : List ℕ :=
  [h.src.toNat / 65536, h.src.toNat % 65536, h.dst.toNat / 65536, h.dst.toNat % 65536, h.proto.toNat,
    h.payloadLength.toNat]

/-- The one's-complement sum over pseudo-header and segment is all ones. -/
def ChecksumOk (h : IPv4Header) (b : Bytes) : Prop := Verifies (pseudoWords h ++ words b)

instance (h : IPv4Header) (b : Bytes) : Decidable (ChecksumOk h b) := inferInstanceAs (Decidable (Verifies _))

/-- What a segment inside a datagram with the header `h` is. -/
structure Valid (h : IPv4Header) (b : Bytes) : Prop where
  checksum : ChecksumOk h b
  long : 20 ≤ b.length
  doff : 5 ≤ doffAt b
  whole : 4 * doffAt b ≤ b.length

theorem valid_iff {h : IPv4Header} {b : Bytes} :
    Valid h b ↔ ChecksumOk h b ∧ 20 ≤ b.length ∧ 5 ≤ doffAt b ∧ 4 * doffAt b ≤ b.length :=
  ⟨fun v => ⟨v.checksum, v.long, v.doff, v.whole⟩, fun ⟨h1, h2, h3, h4⟩ => ⟨h1, h2, h3, h4⟩⟩

instance (h : IPv4Header) (b : Bytes) : Decidable (Valid h b) := decidable_of_iff' _ valid_iff

end TCPSegment

/-! ### Reading -/

namespace TCPHeader

/-- The fields are there if the parser meets no error. -/
theorem readFields_reads (h : TCPHeader) (p : NetParser) : NetParser.Reads p 20 (h.readFields p).2 := by
  unfold readFields NetParser.u8 NetParser.u16 NetParser.u32
  dsimp only
  have hports := (p.parseInt_reads 2).trans (NetParser.parseInt_reads _ 2)
  have hnumbers := (hports.trans (NetParser.parseInt_reads _ 4)).trans (NetParser.parseInt_reads _ 4)
  have hflags := (hnumbers.trans (NetParser.parseInt_reads _ 1)).trans (NetParser.parseInt_reads _ 1)
  exact ((hflags.trans (NetParser.parseInt_reads _ 2)).trans (NetParser.parseInt_reads _ 2)).trans
    (NetParser.parseInt_reads _ 2)

theorem readFields_eq (h : TCPHeader) {b : Bytes} (hb : 20 ≤ b.length) :
    (h.readFields ⟨b, .noError⟩).2 = ⟨b.drop 20, .noError⟩ ∧
      (h.readFields ⟨b, .noError⟩).1.doff.toNat = TCPSegment.doffAt b := by
  unfold readFields NetParser.u8 NetParser.u16 NetParser.u32
  simp (disch := grind) only [NetParser.parseInt_eq, List.drop_drop]
  refine ⟨trivial, ?_⟩
  rw [ofNat_ofBytes_take_one (by rw [List.length_drop]; omega), UInt8.toNat_shiftRight, Nat.shiftRight_eq_div_pow]
  rfl

/-- What `TCPHeader::parse` leaves of less than twenty bytes is in error. -/
theorem parse_short (h : TCPHeader) {b : Bytes} (hb : b.length < 20) :
    (h.parse ⟨b, .noError⟩).2.2.error ≠ .noError := by
  have hread : (h.readFields ⟨b, .noError⟩).2.error ≠ .noError := fun he =>
    absurd (h.readFields_reads _ he).2.1 (Nat.not_le.mpr hb)
  unfold parse
  dsimp only
  generalize h.readFields ⟨b, .noError⟩ = fields at hread ⊢
  have hskip : ∀ n, (fields.2.removePrefix n).error ≠ .noError := fun n he =>
    hread (NetParser.removePrefix_noError.mp he).1
  split_ifs
  · exact hread
  · exact hskip _
  · exact hskip _

/-- What it leaves of more: the payload, and behind a data offset below 5
everything but the fields. -/
theorem parse_long (h : TCPHeader) {b : Bytes} (hb : 20 ≤ b.length) :
    ((h.parse ⟨b, .noError⟩).2.2.error = .noError ↔
      TCPSegment.doffAt b < 5 ∨ 4 * TCPSegment.doffAt b ≤ b.length) ∧
      (5 ≤ TCPSegment.doffAt b → 4 * TCPSegment.doffAt b ≤ b.length →
        (h.parse ⟨b, .noError⟩).2.2.buffer = b.drop (4 * TCPSegment.doffAt b)) := by
  obtain ⟨hp, hdoff⟩ := readFields_eq h hb
  have h5 : (h.readFields ⟨b, .noError⟩).1.doff < 5 ↔ TCPSegment.doffAt b < 5 := by
    rw [← hdoff, UInt8.lt_iff_toNat_lt]
    rfl
  unfold parse
  dsimp only
  rw [hp, hdoff, length, mul_comm]
  generalize (h.readFields ⟨b, .noError⟩).1 = fields at h5 ⊢
  by_cases hd : TCPSegment.doffAt b < 5
  · rw [if_pos (h5.mpr hd)]
    exact ⟨by simp [hd], fun h' => absurd hd (Nat.not_lt.mpr h')⟩
  · rw [if_neg (mt h5.mp hd)]
    have hskip : 20 + (4 * TCPSegment.doffAt b - 20) = 4 * TCPSegment.doffAt b := by omega
    by_cases hw : 4 * TCPSegment.doffAt b ≤ b.length
    · have hleft : 4 * TCPSegment.doffAt b - 20 ≤ (b.drop 20).length := by
        rw [List.length_drop]
        omega
      rw [NetParser.removePrefix_eq hleft, if_neg (not_not_intro rfl), List.drop_drop, hskip]
      exact ⟨by simp [hw], fun _ _ => rfl⟩
    · have hleft : (NetParser.removePrefix ⟨b.drop 20, .noError⟩ (4 * TCPSegment.doffAt b - 20)).error ≠
          .noError := by
        intro he
        have hle := (NetParser.removePrefix_noError.mp he).2
        simp only [List.length_drop] at hle
        omega
      rw [if_pos hleft]
      exact ⟨by simp [hleft, hd, hw], fun _ h' => absurd h' hw⟩

end TCPHeader

namespace TCPSegment

theorem pseudoWords_lt (h : IPv4Header) : ∀ w ∈ pseudoWords h, w < 65536 := by
  have hsrc := h.src.toNat_lt
  have hdst := h.dst.toNat_lt
  have hproto := h.proto.toNat_lt
  have hlen := h.payloadLength.toNat_lt
  simp only [pseudoWords, List.forall_mem_cons, List.not_mem_nil, false_imp_iff, implies_true, and_true]
  omega

/-- The pseudo-header is summed without a carry out of 32 bits. -/
theorem pseudoCksum_toNat (h : IPv4Header) : h.pseudoCksum.toNat = (pseudoWords h).sum := by
  have hsrc := h.src.toNat_lt
  have hdst := h.dst.toNat_lt
  have hproto := h.proto.toNat_lt
  have hlen := h.payloadLength.toNat_lt
  have hhalves : ∀ x : UInt32, ((x >>> 16) + (x &&& 0xffff)).toNat = x.toNat / 65536 + x.toNat % 65536 :=
    InternetChecksum.foldStep_toNat
  simp only [IPv4Header.pseudoCksum, pseudoWords, UInt32.toNat_add, hhalves, UInt8.toNat_toUInt32,
    UInt16.toNat_toUInt32, List.sum_cons, List.sum_nil]
  omega

theorem sum_pseudoWords_le (h : IPv4Header) : (pseudoWords h).sum ≤ 6 * 65535 := by
  have hle : (pseudoWords h).sum ≤ (pseudoWords h).length • 65535 :=
    List.sum_le_card_nsmul _ _ fun w hw => Nat.le_of_lt_succ (pseudoWords_lt h w hw)
  exact hle

/-- The sum that the checksum of a segment folds stays within 32 bits. -/
theorem sum_segment_lt (h : IPv4Header) {b : Bytes} (hb : b.length ≤ 65535) :
    h.pseudoCksum.toNat + (words b).sum < 2 ^ 32 := by
  have hpseudo := sum_pseudoWords_le h
  have hle := sum_words_le b
  rw [pseudoCksum_toNat]
  omega

theorem checksumOk_iff (h : IPv4Header) {b : Bytes} (hb : b.length ≤ 65535) :
    ChecksumOk h b ↔ (InternetChecksum.add ⟨h.pseudoCksum, false⟩ b).value = 0 := by
  have hlt : ∀ w ∈ pseudoWords h ++ words b, w < 65536 := fun w hw =>
    (List.mem_append.mp hw).elim (pseudoWords_lt h w) (words_lt b w)
  rw [InternetChecksum.value_eq_zero_iff (sum_segment_lt h hb), ChecksumOk, verifies_iff hlt, List.sum_append,
    pseudoCksum_toNat]

/-- The sum that a checksum starts from, and the words it stands for: none, or
those of a pseudo-header. -/
inductive InitialSum : UInt32 → List ℕ → Prop where
  | zero : InitialSum 0 []
  | pseudo (h : IPv4Header) : InitialSum h.pseudoCksum (pseudoWords h)

theorem InitialSum.toNat {s : UInt32} {ws : List ℕ} (h : InitialSum s ws) : s.toNat = ws.sum := by
  cases h with
  | zero => rfl
  | pseudo h => exact pseudoCksum_toNat h

theorem InitialSum.lt {s : UInt32} {ws : List ℕ} (h : InitialSum s ws) : ∀ w ∈ ws, w < 65536 := by
  cases h with
  | zero => exact fun w hw => absurd hw List.not_mem_nil
  | pseudo h => exact pseudoWords_lt h

theorem InitialSum.sum_le {s : UInt32} {ws : List ℕ} (h : InitialSum s ws) : ws.sum ≤ 6 * 65535 := by
  cases h with
  | zero => exact Nat.zero_le _
  | pseudo h => exact sum_pseudoWords_le h

/-- **The checksum does not depend on how the text is cut into chunks**: it is
the one's-complement checksum of the words the sum started from and of the words
of the whole text. The 32 bits hold the plain sum, and two passes fold it. -/
theorem value_chunks {s : UInt32} {ws : List ℕ} (hs : InitialSum s ws) {chunks : List Bytes}
    (hc : chunks.flatten.length ≤ 65535) :
    let check := chunks.foldl InternetChecksum.add ⟨s, false⟩
    check.value.toNat = checksum (ws ++ words chunks.flatten) ∧
      check.sum.toNat = (ws ++ words chunks.flatten).sum ∧
      ∀ n, InternetChecksum.fold (n + 2) check.sum = InternetChecksum.fold 2 check.sum := by
  have hwords := sum_words_le chunks.flatten
  have hinit := hs.sum_le
  have hlt : ∀ w ∈ ws ++ words chunks.flatten, w < 65536 := fun w hw =>
    (List.mem_append.mp hw).elim (hs.lt w) (words_lt chunks.flatten w)
  have hfit : s.toNat + (words chunks.flatten).sum < 2 ^ 32 := by
    rw [hs.toNat]
    omega
  rw [InternetChecksum.foldl_add]
  refine ⟨?_, ?_, fun n => InternetChecksum.fold_fuel n _⟩
  · rw [InternetChecksum.value_toNat hfit, checksum, sum_eq_norm hlt, List.sum_append, hs.toNat]
  · rw [InternetChecksum.add_sum, Nat.mod_eq_of_lt hfit, hs.toNat, List.sum_append]

/-- A text of three bytes, cut inside a word. -/
theorem value_chunks_odd :
    let check := [[1], [], [2, (3 : UInt8)]].foldl InternetChecksum.add ⟨IPv4Header.pseudoCksum {}, false⟩
    check.value.toNat = checksum (pseudoWords {} ++ words [1, 2, 3]) ∧
      check.sum.toNat = (pseudoWords {} ++ words [1, 2, 3]).sum ∧
      ∀ n, InternetChecksum.fold (n + 2) check.sum = InternetChecksum.fold 2 check.sum :=
  value_chunks (.pseudo {}) (show ([[1], [], [2, 3]] : List Bytes).flatten.length ≤ 65535 by decide)

/-- **`TCPSegment::parse` tells segments from other byte strings unless the
checksum and the length are right and the data offset is below 5.** -/
theorem segment_meets_valid_iff (seg : TCPSegment) (h : IPv4Header) (b : Bytes) (hb : b.length ≤ 65535) :
    (((seg.parse b h.pseudoCksum).1 = .noError ↔ Valid h b) ∧
      (Valid h b → (seg.parse b h.pseudoCksum).2.payload = b.drop (4 * doffAt b))) ↔
      ¬ (ChecksumOk h b ∧ 20 ≤ b.length ∧ doffAt b < 5) := by
  rw [valid_iff, checksumOk_iff h hb, parse]
  by_cases hc : (InternetChecksum.add ⟨h.pseudoCksum, false⟩ b).value = 0
  · rw [if_neg (not_not_intro hc)]
    simp only [hc, true_and]
    rcases Nat.lt_or_ge b.length 20 with hs | hl
    · have herr := seg.header.parse_short hs
      have hl : ¬ 20 ≤ b.length := Nat.not_le.mpr hs
      simp only [hl, false_and, iff_false, false_imp_iff, and_true, not_false_eq_true, iff_true]
      exact herr
    · obtain ⟨herr, hbuf⟩ := seg.header.parse_long hl
      rw [herr]
      simp only [hl, true_and]
      rcases Nat.lt_or_ge (doffAt b) 5 with hd | hd
      · have hd' : ¬ 5 ≤ doffAt b := Nat.not_le.mpr hd
        simp only [hd, hd', true_or, false_and, iff_false, not_true_eq_false]
      · have hd' : ¬ doffAt b < 5 := Nat.not_lt.mpr hd
        simp only [hd, hd', false_or, true_and, not_false_eq_true, iff_true]
        exact hbuf hd
  · rw [if_pos hc]
    simp [hc]

/-- Two bytes behind a header with four bytes of options. -/
def optionSegment : Bytes :=
  [3, 232, 0, 80, 0, 0, 0, 1, 0, 0, 0, 2, 0x60, 0x18, 4, 0, 0x27, 0x6b, 0, 0, 2, 4, 5, 0xb4, 104, 105]

theorem segment_meets_valid_options :
    Valid { len := 46 } optionSegment ∧ (parse {} optionSegment (IPv4Header.pseudoCksum { len := 46 })).1 = .noError ∧
      (parse {} optionSegment (IPv4Header.pseudoCksum { len := 46 })).2.payload = [104, 105] := by
  have hvalid : Valid { len := 46 } optionSegment := by decide
  obtain ⟨hanswer, hpayload⟩ := (segment_meets_valid_iff {} { len := 46 } optionSegment (by decide)).mpr (by decide)
  exact ⟨hvalid, hanswer.mpr hvalid, hpayload hvalid⟩

/-- A data offset of 4 with the right checksum is accepted. -/
theorem parse_accepts_short_doff :
    ∃ b : Bytes, b.length ≤ 65535 ∧ (parse {} b (IPv4Header.pseudoCksum { len := 40 })).1 = .noError ∧
      ¬ Valid { len := 40 } b :=
  ⟨[0, 0, 0, 0, 0, 0, 0, 0, 0, 0, 0, 0, 0x40, 0, 0, 0, 0xbf, 0xe5, 0, 0], by decide⟩

end TCPSegment

/-! ### The round trip -/

namespace TCPHeader

theorem doff_field {doff : UInt8} (h : doff ≤ 15) : (doff <<< 4) >>> 4 = doff := by
  have hall : ∀ n < 16, (UInt8.ofNat n <<< 4) >>> 4 = UInt8.ofNat n := by decide
  have hlt := hall doff.toNat (Nat.lt_succ_of_le (UInt8.le_iff_toNat_le.mp h))
  rwa [UInt8.ofNat_toNat] at hlt

/-- Each flag is read back from its bit. -/
theorem flags_fields (h : TCPHeader) :
    (h.flags &&& 0b0010_0000 != 0) = h.urg ∧ (h.flags &&& 0b0001_0000 != 0) = h.ack ∧
      (h.flags &&& 0b0000_1000 != 0) = h.psh ∧ (h.flags &&& 0b0000_0100 != 0) = h.rst ∧
      (h.flags &&& 0b0000_0010 != 0) = h.syn ∧ (h.flags &&& 0b0000_0001 != 0) = h.fin := by
  unfold flags
  cases h.urg <;> cases h.ack <;> cases h.psh <;> cases h.rst <;> cases h.syn <;> cases h.fin <;> decide

/-- The fields before the checksum. -/
def unparseFront (h : TCPHeader) : Bytes :=
  toBytes 2 h.sport.toNat ++ toBytes 2 h.dport.toNat ++ toBytes 4 h.seqno.rawValue.toNat ++
    toBytes 4 h.ackno.rawValue.toNat ++ toBytes 1 (h.doff <<< 4).toNat ++ toBytes 1 h.flags.toNat ++
    toBytes 2 h.win.toNat

theorem unparse_eq (h : TCPHeader) :
    h.unparse = h.unparseFront ++ toBytes 2 h.cksum.toNat ++ toBytes 2 h.uptr.toNat := by
  simp only [unparse, unparseFront, NetUnparser.u8, NetUnparser.u16, NetUnparser.u32, List.nil_append,
    List.append_assoc]

theorem unparseFront_length (h : TCPHeader) : h.unparseFront.length = 16 := by
  simp [unparseFront]

theorem unparse_length (h : TCPHeader) : h.unparse.length = 20 := by
  rw [unparse_eq]
  simp [unparseFront_length]

/-- **The fields are read as they were written.** -/
theorem readFields_unparse (h h0 : TCPHeader) (hdoff : h.doff ≤ 15) (rest : Bytes) :
    h0.readFields ⟨h.unparse ++ rest, .noError⟩ = (h, ⟨rest, .noError⟩) := by
  obtain ⟨hu, ha, hp, hr, hs, hf⟩ := h.flags_fields
  rw [unparse_eq, unparseFront]
  simp only [readFields, List.append_assoc, NetParser.u8_append, NetParser.u16_append, NetParser.u32_append,
    doff_field hdoff, hu, ha, hp, hr, hs, hf]

/-- The bytes of a header of at least 20 bytes. -/
def bytes (h : TCPHeader) : Bytes := h.unparse ++ List.replicate (4 * h.doff.toNat - 20) 0

theorem serialize_eq_bytes {h : TCPHeader} (h5 : 5 ≤ h.doff) : h.serialize = .ok h.bytes := by
  have hdoff : 5 ≤ h.doff.toNat := UInt8.le_iff_toNat_le.mp h5
  unfold serialize
  rw [if_neg (UInt8.not_lt.mpr h5), takeD_eq_append (by rw [unparse_length]; omega), unparse_length, bytes]

theorem bytes_length {h : TCPHeader} (h5 : 5 ≤ h.doff) : h.bytes.length = 4 * h.doff.toNat := by
  have hdoff : 5 ≤ h.doff.toNat := UInt8.le_iff_toNat_le.mp h5
  rw [bytes, List.length_append, unparse_length, List.length_replicate]
  omega

/-- The bytes of a header and what is behind it, around the checksum. -/
theorem bytes_append (h : TCPHeader) (cksum : UInt16) (rest : Bytes) :
    bytes { h with cksum } ++ rest =
      h.unparseFront ++ toBytes 2 cksum.toNat ++
        (toBytes 2 h.uptr.toNat ++ (List.replicate (4 * h.doff.toNat - 20) 0 ++ rest)) := by
  rw [bytes, unparse_eq, List.append_assoc, List.append_assoc, List.append_assoc, List.append_assoc]
  rfl

/-- **A header is parsed as it was written.** -/
theorem parse_bytes {h h0 : TCPHeader} (h5 : 5 ≤ h.doff) (h15 : h.doff ≤ 15) (rest : Bytes) :
    h0.parse ⟨h.bytes ++ rest, .noError⟩ = (.noError, h, ⟨rest, .noError⟩) := by
  have hread : h0.readFields ⟨h.bytes ++ rest, .noError⟩ =
      (h, ⟨List.replicate (4 * h.doff.toNat - 20) 0 ++ rest, .noError⟩) := by
    rw [bytes, List.append_assoc]
    exact readFields_unparse h h0 h15 _
  have hskip : NetParser.removePrefix ⟨List.replicate (4 * h.doff.toNat - 20) 0 ++ rest, .noError⟩
      (h.doff.toNat * 4 - 20) = ⟨rest, .noError⟩ := by
    rw [mul_comm h.doff.toNat]
    exact NetParser.removePrefix_replicate _ rest
  unfold parse
  simp only [hread, length]
  rw [if_neg (UInt8.not_lt.mpr h5), hskip, if_neg (not_not_intro rfl)]

end TCPHeader

namespace TCPSegment

/-- The segment with the checksum that `serialize` puts in. -/
def filled (seg : TCPSegment) (s : UInt32) : TCPSegment :=
  let check := (InternetChecksum.add ⟨s, false⟩ (TCPHeader.bytes { seg.header with cksum := 0 } ++ seg.payload)).value
  { seg with header := { seg.header with cksum := check } }

theorem serialize_eq {seg : TCPSegment} (h5 : 5 ≤ seg.header.doff) (s : UInt32) :
    seg.serialize s = .ok [(seg.filled s).header.bytes, seg.payload] := by
  have hzero : TCPHeader.serialize { seg.header with cksum := 0 } =
      .ok (TCPHeader.bytes { seg.header with cksum := 0 }) := TCPHeader.serialize_eq_bytes h5
  unfold serialize
  rw [hzero]
  show Except.map _ (TCPHeader.serialize _) = _
  rw [TCPHeader.serialize_eq_bytes (by exact h5), ← InternetChecksum.add_append]
  rfl

/-- **What is serialized is parsed back**, with the checksum in place. -/
theorem parse_serialize {seg seg0 : TCPSegment} {s : UInt32} (h5 : 5 ≤ seg.header.doff) (h15 : seg.header.doff ≤ 15)
    (hs : s.toNat ≤ 6 * 65535) (hlen : 4 * seg.header.doff.toNat + seg.payload.length ≤ 65535) :
    seg0.parse ((seg.filled s).header.bytes ++ seg.payload) s = (.noError, seg.filled s) := by
  have hfront := sum_words_le seg.header.unparseFront
  have hback := sum_words_le
    (toBytes 2 seg.header.uptr.toNat ++ (List.replicate (4 * seg.header.doff.toNat - 20) 0 ++ seg.payload))
  simp only [TCPHeader.unparseFront_length, List.length_append, List.length_replicate, toBytes_length] at hfront hback
  have hvalue : (InternetChecksum.add ⟨s, false⟩ ((seg.filled s).header.bytes ++ seg.payload)).value = 0 := by
    unfold filled
    rw [TCPHeader.bytes_append, TCPHeader.bytes_append]
    apply InternetChecksum.value_fill
    · rw [TCPHeader.unparseFront_length]
      decide
    · omega
  unfold parse
  rw [if_neg (not_not_intro hvalue)]
  simp only [TCPHeader.parse_bytes (h := (seg.filled s).header) h5 h15]
  rfl

end TCPSegment
end Sponge

/-
# The decoders of the chat client

`lab2/client/client.cpp`: what the client prints for a payload it received,
and which bytes of memory it looks at for that. A payload lies in memory
before bytes that are not its own. `process_sync_response` checks every field
against the length of the payload. `print_async_message` checks the fields,
but hands the text of a message to `printf` with the length the message
claims, so it looks past the payload when the text is cut short and no zero
byte ends it (`reads_inside_iff`).

What the server writes the client reads: the entries of a list reply, and the
sender of a message with its text, as far as a C string goes (`formats_agree`).

Key definitions: `Memory`, `Decoded`, `syncResponse`, `printAsyncMessage`, `Overrun`.
Key theorems: `listLoop_inside`, `reads_inside_iff`, `listLoop_entries`, `formats_agree`.
-/
import Sponge.Chat.Buffers
import Sponge.Chat.Framing
import Mathlib.Data.List.TakeWhile

namespace Chat

open BigEndian

/-- Memory from the first byte of a payload on. -/
abbrev Memory := ℕ → UInt8

/-- `len` bytes from the offset on. -/
def Memory.bytes (buf : Memory) (off len : ℕ) : List UInt8 := (List.range' off len).map buf

/-- What the decoders put out: lines of text, and the signal to the main
thread. -/
inductive Output where
  | time (str : List UInt8)
  | name (str : List UInt8)
  | connections
  | entry (id : ℕ) (ip : List UInt8) (port : ℕ)
  | message (id : ℕ) (ip : List UInt8) (port : ℕ) (text : List UInt8)
  | signal
  deriving DecidableEq

/-- What a decoder puts out, and the offsets that it reads, in order. -/
structure Decoded where
  output : List Output
  reads : List ℕ
  deriving DecidableEq

/-- The C string in the bytes: what comes before the first zero. -/
def cString (bytes : List UInt8) : List UInt8 := bytes.takeWhile (· ≠ 0)

/-- The bytes `printf` looks at for `"%.*s"`: as many as the precision, but
none after a zero. -/
def printReads (buf : Memory) : ℕ → ℕ → List ℕ
  | _, 0 => []
  | off, precision + 1 => off :: if buf off = 0 then [] else printReads buf (off + 1) precision

/-- The address: up to 15 bytes are copied into an array of 16 zeros, if the
payload has them. The address as it is printed, and the bytes read. -/
def copyIp (buf : Memory) (plen off iplen : ℕ) : List UInt8 × List ℕ :=
  let ipBytes := if 15 < iplen then 15 else iplen
  if off + ipBytes ≤ plen then (cString (buf.bytes off ipBytes), List.range' off ipBytes) else ([], [])

/-- The loop over the entries of a list. -/
def listLoop (buf : Memory) (plen : ℕ) : ℕ → ℕ → Decoded
  | 0, _ => ⟨[], []⟩
  | num + 1, off =>
    if plen ≤ off ∨ plen < off + 8 then ⟨[], []⟩
    else
      let cid := ofBytes (buf.bytes off 4)
      let cport := ofBytes (buf.bytes (off + 4) 2)
      let ciplen := ofBytes (buf.bytes (off + 6) 2)
      let cip := copyIp buf plen (off + 8) ciplen
      let rest := listLoop buf plen num (off + 8 + ciplen)
      ⟨.entry cid cip.1 cport :: rest.output, List.range' off 8 ++ cip.2 ++ rest.reads⟩

/-- `process_sync_response` for one message of the queue. -/
def syncResponse (type : UInt8) (buf : Memory) (plen : ℕ) : Decoded :=
  if type = 10 then ⟨[.time (cString (buf.bytes 0 plen))], printReads buf 0 plen⟩
  else if type = 11 then ⟨[.name (cString (buf.bytes 0 plen))], printReads buf 0 plen⟩
  else if type = 12 then
    if plen < 4 then ⟨[], []⟩
    else
      let rest := listLoop buf plen (ofBytes (buf.bytes 0 4)) 4
      ⟨.connections :: rest.output, List.range' 0 4 ++ rest.reads⟩
  else ⟨[], []⟩

def printAsyncMessage (type : UInt8) (buf : Memory) (plen : ℕ) : Decoded :=
  if type ≠ 13 ∨ plen < 12 then ⟨[], []⟩
  else
    let sid := ofBytes (buf.bytes 0 4)
    let sport := ofBytes (buf.bytes 4 2)
    let siplen := ofBytes (buf.bytes 6 2)
    let sip := copyIp buf plen 8 siplen
    let off := 8 + siplen
    if plen < off + 2 then ⟨[], List.range' 0 8 ++ sip.2⟩
    else
      let mlen := ofBytes (buf.bytes off 2)
      let msgBytes := if 255 < mlen then 255 else mlen
      ⟨[.message sid sip.1 sport (cString (buf.bytes (off + 2) msgBytes)), .signal],
        List.range' 0 8 ++ sip.2 ++ List.range' off 2 ++ printReads buf (off + 2) msgBytes⟩

/-! ### What the decoders read -/

/-- A decoder reads nothing but the payload. -/
def Inside (plen : ℕ) (reads : List ℕ) : Prop := ∀ o ∈ reads, o < plen

theorem inside_nil (plen : ℕ) : Inside plen [] := by
  intro o ho
  cases ho

theorem inside_append {plen : ℕ} {l l' : List ℕ} : Inside plen (l ++ l') ↔ Inside plen l ∧ Inside plen l' :=
  List.forall_mem_append

theorem inside_range' {plen off len : ℕ} (h : off + len ≤ plen) : Inside plen (List.range' off len) := by
  intro o ho
  rw [List.mem_range'_1] at ho
  omega

theorem copyIp_inside (buf : Memory) (plen off iplen : ℕ) : Inside plen (copyIp buf plen off iplen).2 := by
  unfold copyIp
  generalize (if 15 < iplen then 15 else iplen) = ipBytes
  by_cases h : off + ipBytes ≤ plen
  · simpa only [if_pos h] using inside_range' h
  · simpa only [if_neg h] using inside_nil plen

/-- Printing stays inside if the precision does, or if a zero byte stops it. -/
theorem printReads_inside_iff (buf : Memory) (plen : ℕ) : ∀ precision off, off ≤ plen →
    (Inside plen (printReads buf off precision) ↔
      off + precision ≤ plen ∨ ∃ o < plen, off ≤ o ∧ buf o = 0)
  | 0, off, h => by simp [printReads, Inside, h]
  | precision + 1, off, h => by
    have ih := printReads_inside_iff buf plen precision (off + 1)
    rw [printReads, Inside, List.forall_mem_cons]
    constructor
    · rintro ⟨hlt, hrest⟩
      by_cases h0 : buf off = 0
      · exact Or.inr ⟨off, hlt, le_rfl, h0⟩
      · rw [if_neg h0] at hrest
        rcases (ih hlt).mp hrest with hle | ⟨o, ho, hoff, hz⟩
        · exact Or.inl (by omega)
        · exact Or.inr ⟨o, ho, by omega, hz⟩
    · intro hin
      have hlt : off < plen := by
        rcases hin with hle | ⟨o, ho, hoff, -⟩ <;> omega
      refine ⟨hlt, ?_⟩
      split
      · exact inside_nil plen
      · rename_i h0
        refine (ih hlt).mpr ?_
        rcases hin with hle | ⟨o, ho, hoff, hz⟩
        · exact Or.inl (by omega)
        · have hne : o ≠ off := fun he => h0 (he ▸ hz)
          exact Or.inr ⟨o, ho, by omega, hz⟩

/-- The loop stays inside the payload, whatever number of entries it is to
read and whatever their lengths are. -/
theorem listLoop_inside (buf : Memory) (plen : ℕ) : ∀ num off, Inside plen (listLoop buf plen num off).reads
  | 0, _ => inside_nil plen
  | num + 1, off => by
    unfold listLoop
    split
    · exact inside_nil plen
    · rename_i h
      rw [not_or, not_lt] at h
      exact inside_append.mpr ⟨inside_append.mpr ⟨inside_range' h.2, copyIp_inside buf plen _ _⟩,
        listLoop_inside buf plen num _⟩

theorem syncResponse_inside (type : UInt8) (buf : Memory) (plen : ℕ) :
    Inside plen (syncResponse type buf plen).reads := by
  have hall : Inside plen (printReads buf 0 plen) :=
    (printReads_inside_iff buf plen plen 0 (Nat.zero_le _)).mpr (Or.inl (Nat.zero_add _).le)
  unfold syncResponse
  split_ifs with h10 h11 h12 h4
  · exact hall
  · exact hall
  · exact inside_nil plen
  · exact inside_append.mpr ⟨inside_range' (by omega), listLoop_inside buf plen _ _⟩
  · exact inside_nil plen

/-- The message has its fixed fields and its address, its text is longer than
what is left of the payload, and there is no zero byte in what is left. -/
def Overrun (buf : Memory) (plen : ℕ) : Prop :=
  let text := 10 + ofBytes (buf.bytes 6 2)
  12 ≤ plen ∧ text ≤ plen ∧ plen < text + min 255 (ofBytes (buf.bytes (text - 2) 2)) ∧
    ∀ o < plen, text ≤ o → buf o ≠ 0

instance (buf : Memory) (plen : ℕ) : Decidable (Overrun buf plen) := inferInstanceAs (Decidable (_ ∧ _ ∧ _ ∧ _))

theorem printAsyncMessage_inside_iff (buf : Memory) (plen : ℕ) :
    Inside plen (printAsyncMessage 13 buf plen).reads ↔ ¬ Overrun buf plen := by
  unfold printAsyncMessage Overrun
  by_cases h12 : plen < 12
  · rw [if_pos (Or.inr h12)]
    exact iff_of_true (inside_nil plen) fun h => absurd h.1 (not_le.mpr h12)
  rw [if_neg (not_or.mpr ⟨not_not.mpr rfl, h12⟩)]
  dsimp only
  generalize ofBytes (buf.bytes 6 2) = siplen
  have hfields : Inside plen (List.range' 0 8 ++ (copyIp buf plen 8 siplen).2) :=
    inside_append.mpr ⟨inside_range' (by omega), copyIp_inside buf plen 8 siplen⟩
  by_cases hoff : plen < 8 + siplen + 2
  · rw [if_pos hoff]
    refine iff_of_true hfields fun h => ?_
    omega
  rw [if_neg hoff, show 10 + siplen - 2 = 8 + siplen by omega, show 10 + siplen = 8 + siplen + 2 by omega]
  generalize ofBytes (buf.bytes (8 + siplen) 2) = mlen
  have hmin : (if 255 < mlen then 255 else mlen) = min 255 mlen := by
    split <;> omega
  have hlen : Inside plen (List.range' (8 + siplen) 2) := inside_range' (not_lt.mp hoff)
  -- what is left to decide is how far the text is read
  rw [inside_append, inside_append, and_iff_right hfields, and_iff_right hlen, hmin,
    printReads_inside_iff buf plen _ _ (not_lt.mp hoff)]
  constructor
  · rintro (hle | ⟨o, ho, hoff', hz⟩) ⟨-, -, hlt, hne⟩
    · omega
    · exact hne o ho hoff' hz
  · intro h
    by_cases hle : 8 + siplen + 2 + min 255 mlen ≤ plen
    · exact Or.inl hle
    · right
      by_contra hno
      refine h ⟨not_lt.mp h12, not_lt.mp hoff, not_le.mp hle, fun o ho hoff' hz => hno ⟨o, ho, hoff', hz⟩⟩

/-- **The decoders stay inside a payload unless its message overruns it.** -/
theorem reads_inside_iff (buf : Memory) (plen : ℕ) :
    ((∀ type, ∀ o ∈ (syncResponse type buf plen).reads, o < plen) ∧
      ∀ o ∈ (printAsyncMessage 13 buf plen).reads, o < plen) ↔ ¬ Overrun buf plen := by
  rw [← printAsyncMessage_inside_iff]
  constructor
  · intro h
    exact h.2
  · intro h
    exact ⟨fun type => syncResponse_inside type buf plen, h⟩

/-- A payload in memory, and what comes behind it. -/
def Memory.of (payload beyond : List UInt8) : Memory := fun o => (payload ++ beyond).getD o 0

/-- Client 1 at port 80, no address, and a message of 255 bytes of which two are there. -/
def cutShort : List UInt8 := [0, 0, 0, 1, 0, 80, 0, 0, 0, 255, 104, 105]

/-- The claimed length is believed: what comes behind the payload is read and
printed. -/
theorem cutShort_overruns : ¬ ∀ (buf : Memory) (plen : ℕ), plen < 65536 →
    (∀ o ∈ (syncResponse 12 buf plen).reads, o < plen) ∧
      ∀ o ∈ (printAsyncMessage 13 buf plen).reads, o < plen := by
  intro h
  have h12 := (h (Memory.of cutShort [115, 101, 99, 114, 101, 116]) 12 (by decide)).2
  have hread : 17 ∈ (printAsyncMessage 13 (Memory.of cutShort [115, 101, 99, 114, 101, 116]) 12).reads := by decide
  exact absurd (h12 17 hread) (by decide)

/-! ### What the decoders recover -/

/-- The bytes are in memory at the offset. -/
def Memory.Holds (buf : Memory) (off : ℕ) (bytes : List UInt8) : Prop := buf.bytes off bytes.length = bytes

theorem bytes_length (buf : Memory) (off len : ℕ) : (buf.bytes off len).length = len := by
  rw [Memory.bytes, List.length_map, List.length_range']

theorem of_holds (payload beyond : List UInt8) : (Memory.of payload beyond).Holds 0 payload := by
  apply List.ext_getElem (bytes_length _ _ _)
  intro i h1 h2
  simp [Memory.bytes, Memory.of, List.getElem?_append_left h2, List.getElem?_eq_getElem h2]

theorem holds_append {buf : Memory} {off : ℕ} {l l' : List UInt8} :
    buf.Holds off (l ++ l') ↔ buf.Holds off l ∧ buf.Holds (off + l.length) l' := by
  have hsplit : buf.bytes off (l ++ l').length = buf.bytes off l.length ++ buf.bytes (off + l.length) l'.length := by
    rw [Memory.bytes, List.length_append, ← List.range'_append_1, List.map_append]
    rfl
  rw [Memory.Holds, hsplit]
  constructor
  · intro h
    exact List.append_inj h (bytes_length buf off l.length)
  · rintro ⟨h1, h2⟩
    rw [h1, h2]

/-- A number field gives back the number. -/
theorem ofBytes_field {buf : Memory} {off len n : ℕ} (h : buf.Holds off (toBytes len n)) (hn : n < 256 ^ len) :
    ofBytes (buf.bytes off len) = n := by
  rw [Memory.Holds, toBytes_length] at h
  rw [h, ofBytes_toBytes, Nat.mod_eq_of_lt hn]

theorem cString_eq {bytes : List UInt8} (h : 0 ∉ bytes) : cString bytes = bytes := by
  rw [cString, List.takeWhile_eq_self_iff]
  intro b hb
  exact decide_eq_true fun h0 => h (h0 ▸ hb)

/-- A string of the length of a dotted quad. -/
def Address (ip : List UInt8) : Prop := 7 ≤ ip.length ∧ ip.length ≤ 15 ∧ 0 ∉ ip

instance (ip : List UInt8) : Decidable (Address ip) := inferInstanceAs (Decidable (_ ∧ _ ∧ _))

theorem decimal_ne_zero (b : UInt8) : 0 ∉ decimal b := by
  have hall : ∀ n : Fin 256, 0 ∉ decimal (UInt8.ofNat n.val) := by decide +kernel
  have h := hall ⟨b.toNat, b.toNat_lt⟩
  rwa [UInt8.ofNat_toNat] at h

theorem decimal_length_pos (b : UInt8) : 0 < (decimal b).length := by
  unfold decimal
  split_ifs <;> simp

/-- Dotted quads are such strings. -/
theorem inetNtoa_address (a b c d : UInt8) : Address (inetNtoa a b c d) := by
  refine ⟨?_, inetNtoa_length_le a b c d, ?_⟩
  · have ha := decimal_length_pos a
    have hb := decimal_length_pos b
    have hc := decimal_length_pos c
    have hd := decimal_length_pos d
    simp only [inetNtoa, List.length_append, List.length_cons]
    omega
  · simp only [inetNtoa, List.mem_append, List.mem_cons, not_or]
    exact ⟨⟨⟨decimal_ne_zero a, by decide, decimal_ne_zero b⟩, by decide, decimal_ne_zero c⟩, by decide,
      decimal_ne_zero d⟩

theorem copyIp_fst {buf : Memory} {plen off : ℕ} {ip : List UInt8} (hip : Address ip) (h : buf.Holds off ip)
    (hle : off + ip.length ≤ plen) : (copyIp buf plen off ip.length).1 = ip := by
  have hshort : (if 15 < ip.length then 15 else ip.length) = ip.length := if_neg (not_lt.mpr hip.2.1)
  rw [copyIp, hshort, if_pos hle, h, cString_eq hip.2.2]

/-- A client whose fields fit their formats. -/
def Writable (c : Client) : Prop := c.id < 2 ^ 32 ∧ Address c.ip

instance (c : Client) : Decidable (Writable c) := inferInstanceAs (Decidable (_ ∧ _))

/-- The line that is printed for a client. -/
def entryOf (c : Client) : Output := .entry c.id c.ip c.port.toNat

/-- The loop recovers the entries, one after another. -/
theorem listLoop_entries (buf : Memory) (plen : ℕ) : ∀ (cs : List Client) (off : ℕ), (∀ c ∈ cs, Writable c) →
    buf.Holds off (cs.flatMap Server.encodeClient) → off + (cs.flatMap Server.encodeClient).length ≤ plen →
      (listLoop buf plen cs.length off).output = cs.map entryOf
  | [], _, _, _, _ => rfl
  | c :: cs, off, hcs, h, hle => by
    obtain ⟨⟨hid, hip⟩, hcs⟩ := List.forall_mem_cons.mp hcs
    rw [List.flatMap_cons, holds_append] at h
    obtain ⟨hc, hrest⟩ := h
    have hclen : (Server.encodeClient c).length = 8 + c.ip.length := by
      simp only [Server.encodeClient, List.length_append, toBytes_length]
    rw [List.flatMap_cons, List.length_append, hclen] at hle
    simp only [Server.encodeClient, holds_append, List.length_append, toBytes_length] at hc
    obtain ⟨⟨⟨h1, h2⟩, h3⟩, h4⟩ := hc
    have hport := c.port.toNat_lt
    have hiplen := hip.2.1
    rw [hclen, ← Nat.add_assoc] at hrest
    rw [List.length_cons, listLoop, if_neg (by omega), ofBytes_field h1 hid, ofBytes_field h2 hport,
      ofBytes_field h3 (by omega)]
    dsimp only
    rw [copyIp_fst hip h4 (by omega), listLoop_entries buf plen cs _ hcs hrest (by omega)]
    rfl

/-- A forwarded message: its sender, and its text as a C string. -/
theorem printAsyncMessage_forward {s : Server} {myId index : ℕ} {msg : List UInt8} {buf : Memory}
    (hid : myId < 2 ^ 32) (hip : Address (s.clientList.getD index default).ip) (hmsg : msg.length ≤ 255)
    (h : buf.Holds 0 (s.forwardPayload myId index msg)) :
    (printAsyncMessage 13 buf (s.forwardPayload myId index msg).length).output =
      [.message myId (s.clientList.getD index default).ip (s.clientList.getD index default).port.toNat (cString msg),
        .signal] := by
  unfold Server.forwardPayload at h ⊢
  generalize s.clientList.getD index default = c at hip h ⊢
  have hport := c.port.toNat_lt
  obtain ⟨hge, hle, -⟩ := id hip
  simp only [holds_append, List.length_append, toBytes_length, Nat.zero_add, Nat.reduceAdd] at h ⊢
  obtain ⟨⟨⟨⟨⟨h1, h2⟩, h3⟩, h4⟩, h5⟩, h6⟩ := h
  have hshort : (if 255 < msg.length then 255 else msg.length) = msg.length := if_neg (not_lt.mpr hmsg)
  rw [printAsyncMessage, if_neg (not_or.mpr ⟨not_not.mpr rfl, by omega⟩)]
  dsimp only
  rw [ofBytes_field h3 (by omega), if_neg (by omega), ofBytes_field h5 (by omega), hshort, h6, ofBytes_field h1 hid,
    ofBytes_field h2 hport, copyIp_fst hip h4 (by omega)]

/-- **Server and client agree on the formats.** For any table of the server
and any memory that holds a reply: the client lists exactly the entries of the
table, in order. Of a message that was forwarded it shows the sender's number,
port and address, and the text up to its first zero byte, which is all of it
if it has none. Both payloads fit the length field of a packet. -/
theorem formats_agree (s : Server) (hlen : s.clientList.length = maxClients) (hnum : s.numClients ≤ maxClients)
    (hs : ∀ c ∈ s.entries, Writable c) (buf : Memory) :
    (Packet.Fits ⟨12, s.listPayload⟩ ∧
      (buf.Holds 0 s.listPayload → (syncResponse 12 buf s.listPayload.length).output =
        .connections :: s.entries.map fun c => .entry c.id c.ip c.port.toNat)) ∧
    ∀ myId index msg, myId < 2 ^ 32 → Address (s.clientList.getD index default).ip → msg.length ≤ 255 →
      let c := s.clientList.getD index default
      let payload := s.forwardPayload myId index msg
      Packet.Fits ⟨13, payload⟩ ∧
        (buf.Holds 0 payload → (printAsyncMessage 13 buf payload.length).output =
          [.message myId c.ip c.port.toNat (msg.takeWhile (· ≠ 0)), .signal]) ∧
        (0 ∉ msg → msg.takeWhile (· ≠ 0) = msg) := by
  constructor
  · have hle := Server.listPayload_length_le hnum fun c hc => (hs c hc).2.2.1
    refine ⟨hle.trans (by decide), fun h => ?_⟩
    have hentries : s.entries.length = s.numClients := by
      rw [Server.entries, List.length_take, hlen]
      exact min_eq_left hnum
    unfold Server.listPayload at h ⊢
    obtain ⟨h1, h2⟩ := holds_append.mp h
    rw [toBytes_length, Nat.zero_add] at h2
    have hn : s.numClients < 2 ^ 32 := hnum.trans_lt (by decide)
    have hloop := listLoop_entries buf (toBytes 4 s.numClients ++ s.entries.flatMap Server.encodeClient).length
      s.entries 4 hs h2 (by rw [List.length_append, toBytes_length])
    rw [syncResponse, if_neg (by decide), if_neg (by decide), if_pos rfl, if_neg, ofBytes_field h1 hn, ← hentries]
    · exact congrArg _ hloop
    · rw [List.length_append, toBytes_length]
      omega
  · intro myId index msg hid hip hmsg
    refine ⟨?_, fun h => printAsyncMessage_forward hid hip hmsg h, cString_eq⟩
    obtain ⟨-, hiplen, -⟩ := hip
    rw [Packet.Fits, Server.forwardPayload_length]
    omega

/-- A server with one client, from the local machine. -/
def oneClient : Server := Server.init.accept 4 (inetNtoa 127 0 0 1) 5000

/-- And one more, from another host, with a longer address. -/
def twoClients : Server := oneClient.accept 5 (inetNtoa 192 168 10 4) 6000

theorem formats_agree_two :
    (syncResponse 12 (Memory.of twoClients.listPayload [255]) twoClients.listPayload.length).output =
        [.connections, .entry 1 (inetNtoa 127 0 0 1) 5000, .entry 2 (inetNtoa 192 168 10 4) 6000] ∧
      (printAsyncMessage 13 (Memory.of (twoClients.forwardPayload 2 1 [104, 105]) [255])
          (twoClients.forwardPayload 2 1 [104, 105]).length).output =
        [.message 2 (inetNtoa 192 168 10 4) 6000 [104, 105], .signal] := by
  have hentries : ∀ c ∈ twoClients.entries, Writable c := by decide
  constructor
  · exact (formats_agree twoClients (by decide) (by decide) hentries (Memory.of twoClients.listPayload [255])).1.2
      (of_holds _ _)
  · exact ((formats_agree twoClients (by decide) (by decide) hentries
      (Memory.of (twoClients.forwardPayload 2 1 [104, 105]) [255])).2 2 1 [104, 105] (by decide) (by decide)
      (by decide)).2.1 (of_holds _ _)

/-- The text is a C string: of `A`, a zero byte and `B` the client shows `A`. -/
theorem formats_agree_not_whole : ¬ ∀ (s : Server) (buf : Memory) (myId index : ℕ) (msg : List UInt8),
    myId < 2 ^ 32 → Address (s.clientList.getD index default).ip → msg.length ≤ 255 →
      buf.Holds 0 (s.forwardPayload myId index msg) →
        (printAsyncMessage 13 buf (s.forwardPayload myId index msg).length).output =
          [.message myId (s.clientList.getD index default).ip (s.clientList.getD index default).port.toNat msg,
            .signal] := by
  intro h
  have h1 := h oneClient (Memory.of (oneClient.forwardPayload 1 0 [65, 0, 66]) []) 1 0 [65, 0, 66] (by decide)
    (by decide) (by decide) (of_holds _ _)
  exact absurd h1 (by decide +kernel)

end Chat

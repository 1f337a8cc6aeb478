/-
# The buffers of `handle_client`

What `handle_client` writes into arrays of its own while it answers a request:
offset and length of each copy, and the size of the array. A list reply fits
its buffer whatever the table holds, since the table has a bound and an address
has one. A forwarded message is as long as its sender likes, up to the largest
packet, and `fpay` is not.

Key definitions: `Write.Inside`, `memcpys`, `Server.writes`, `Server.Fits`.
Key theorems: `memcpys_inside`, `Server.step_short`, `Server.writes_inside_iff`.
-/
import Sponge.Chat.Server

namespace Chat

open BigEndian

/-- `length` bytes are written at `offset` into an array of `capacity` bytes. -/
structure Write where
  capacity : ℕ
  offset : ℕ
  length : ℕ
  deriving DecidableEq

def Write.Inside (w : Write) : Prop := w.offset + w.length ≤ w.capacity

instance (w : Write) : Decidable w.Inside := inferInstanceAs (Decidable (_ ≤ _))

/-- `memcpy` after `memcpy` into one array, each behind the one before. -/
def memcpys (capacity : ℕ) : ℕ → List (List UInt8) → List Write
  | _, [] => []
  | off, chunk :: chunks => ⟨capacity, off, chunk.length⟩ :: memcpys capacity (off + chunk.length) chunks

/-- The header of `send_packet`: the type, then the length. -/
def sendPacketWrites : List Write := [⟨3, 0, 1⟩, ⟨3, 1, 2⟩]

/-- They are inside iff all of it fits. -/
theorem memcpys_inside (capacity : ℕ) {chunks : List (List UInt8)} (hne : chunks ≠ []) (off : ℕ) :
    (∀ w ∈ memcpys capacity off chunks, w.Inside) ↔ off + chunks.flatten.length ≤ capacity := by
  induction chunks generalizing off with
  | nil => exact absurd rfl hne
  | cons chunk chunks ih =>
    rw [memcpys, List.forall_mem_cons, List.flatten_cons, List.length_append]
    by_cases hlast : chunks = []
    · subst hlast
      simp [memcpys, Write.Inside]
    · rw [ih hlast]
      unfold Write.Inside
      dsimp only
      omega

theorem sendPacket_inside : ∀ w ∈ sendPacketWrites, w.Inside := by decide

/-! ### Addresses -/

/-- A byte in decimal. -/
def decimal (b : UInt8) : List UInt8 :=
  if b < 10 then [48 + b]
  else if b < 100 then [48 + b / 10, 48 + b % 10]
  else [48 + b / 100, 48 + b / 10 % 10, 48 + b % 10]

/-- `inet_ntoa`: the four bytes of an address with dots between them. -/
def inetNtoa (a b c d : UInt8) : List UInt8 := decimal a ++ 46 :: decimal b ++ 46 :: decimal c ++ 46 :: decimal d

theorem decimal_length_le (b : UInt8) : (decimal b).length ≤ 3 := by
  unfold decimal
  split_ifs <;> simp

theorem inetNtoa_length_le (a b c d : UInt8) : (inetNtoa a b c d).length ≤ 15 := by
  have ha := decimal_length_le a
  have hb := decimal_length_le b
  have hc := decimal_length_le c
  have hd := decimal_length_le d
  simp only [inetNtoa, List.length_append, List.length_cons]
  omega

namespace Server

/-! ### The writes of an answer -/

/-- `strcpy` of the string of `ctime`, which has a newline and a zero behind
the time; the newline is overwritten. -/
def timeWrites (timeStr : List UInt8) : List Write := [⟨32, 0, timeStr.length + 2⟩, ⟨32, timeStr.length, 1⟩]

/-- `gethostname` is told the size of the array. -/
def nameWrites (hostname : List UInt8) : List Write := [⟨256, 0, min 256 (hostname.length + 1)⟩]

def clientChunks (c : Client) : List (List UInt8) :=
  [toBytes 4 c.id, toBytes 2 c.port.toNat, toBytes 2 c.ip.length, c.ip]

def listChunks (s : Server) : List (List UInt8) := toBytes 4 s.numClients :: s.entries.flatMap clientChunks

def forwardChunks (s : Server) (myId index : ℕ) (msg : List UInt8) : List (List UInt8) :=
  let c := s.clientList.getD index default
  [toBytes 4 myId, toBytes 2 c.port.toNat, toBytes 2 c.ip.length, c.ip, toBytes 2 msg.length, msg]

/-- A message: target and length are copied out of the packet, then the reply
is put together. -/
def messageWrites (s : Server) (myId index : ℕ) (data : List UInt8) : List Write :=
  if data.length < 6 then []
  else
    let targetId := ofBytes (data.take 4)
    let msgLen := ofBytes ((data.drop 4).take 2)
    [⟨4, 0, 4⟩, ⟨2, 0, 2⟩] ++
      if data.length ≠ 6 + msgLen then []
      else
        match s.entries.find? fun c => c.id % 2 ^ 32 == targetId with
        | some _ => memcpys 1024 0 (s.forwardChunks myId index (data.drop 6)) ++ sendPacketWrites
        | none => []

/-- What one request has `handle_client` write into its arrays. -/
def writes (s : Server) (myId index : ℕ) (type : UInt8) (data timeStr hostname : List UInt8) : List Write :=
  if type = 1 then timeWrites timeStr ++ sendPacketWrites
  else if type = 2 then nameWrites hostname ++ sendPacketWrites
  else if type = 3 then memcpys 4096 0 s.listChunks ++ sendPacketWrites
  else if type = 4 then s.messageWrites myId index data
  else []

/-- The message is forwarded: its length field is right, and its target there. -/
def Forwards (s : Server) (data : List UInt8) : Prop :=
  6 ≤ data.length ∧ data.length = 6 + ofBytes ((data.drop 4).take 2) ∧
    (s.entries.find? fun c => c.id % 2 ^ 32 == ofBytes (data.take 4)).isSome = true

instance (s : Server) (data : List UInt8) : Decidable (s.Forwards data) := inferInstanceAs (Decidable (_ ∧ _))

/-- A message that is forwarded leaves room for its header. -/
def Fits (s : Server) (index : ℕ) (type : UInt8) (data : List UInt8) : Prop :=
  type = 4 → s.Forwards data → 10 + (s.clientList.getD index default).ip.length + (data.length - 6) ≤ 1024

instance (s : Server) (index : ℕ) (type : UInt8) (data : List UInt8) : Decidable (s.Fits index type data) :=
  inferInstanceAs (Decidable (_ → _ → _))

variable {s s' : Server}

/-- What is copied together is what is sent. -/
theorem listChunks_flatten (s : Server) : s.listChunks.flatten = s.listPayload := by
  unfold listChunks listPayload
  rw [List.flatten_cons]
  congr 1
  induction s.entries with
  | nil => rfl
  | cons c cs ih => simp [clientChunks, encodeClient, ih]

theorem forwardPayload_length (s : Server) (myId index : ℕ) (msg : List UInt8) :
    (s.forwardPayload myId index msg).length = 10 + (s.clientList.getD index default).ip.length + msg.length := by
  simp only [forwardPayload, List.length_append, toBytes_length]
  omega

theorem forwardChunks_flatten (s : Server) (myId index : ℕ) (msg : List UInt8) :
    (s.forwardChunks myId index msg).flatten = s.forwardPayload myId index msg := by
  simp [forwardChunks, forwardPayload]

/-! ### The table -/

/-- A connection is accepted with the address it comes from. -/
def Addressed : Op → Prop
  | .accept _ ip _ => ∃ a b c d, ip = inetNtoa a b c d
  | .start _ => True
  | .request _ _ _ _ _ => True
  | .disconnect _ => True
  | .close _ => True

/-- Every address of the table has at most 15 characters. -/
def Short (s : Server) : Prop := ∀ c ∈ s.clientList, c.ip.length ≤ 15

theorem getD_short (h : Short s) (i : ℕ) : (s.clientList.getD i default).ip.length ≤ 15 := by
  rw [List.getD_eq_getElem?_getD]
  cases hi : s.clientList[i]? with
  | none => exact Nat.zero_le _
  | some c => exact h c (List.mem_of_getElem? hi)

theorem init_short : Short init := by
  intro c hc
  rw [List.eq_of_mem_replicate hc]
  exact Nat.zero_le _

theorem remove_short (h : Short s) (index : ℕ) : Short (s.remove index) := by
  unfold remove shift
  suffices key : ∀ (is : List ℕ) (l : List Client), (∀ c ∈ l, c.ip.length ≤ 15) →
      ∀ c ∈ is.foldl (fun l i => l.set i (l.getD (i + 1) default)) l, c.ip.length ≤ 15 from key _ _ h
  intro is
  induction is with
  | nil => exact fun l hl => hl
  | cons i is ih =>
    intro l hl
    rw [List.foldl_cons]
    apply ih
    intro c hc
    rcases List.mem_or_eq_of_mem_set hc with hc | rfl
    · exact hl c hc
    · exact getD_short (s := { s with clientList := l }) hl (i + 1)

theorem step_short {op : Op} (hop : Addressed op) (h : Short s) (hs : step s op = some s') : Short s' := by
  rcases step_cases hs with ⟨sock, ip, port, rfl, hroom, rfl⟩ | ⟨hq, -⟩ | ⟨k, hd, sock, -, -, -, rfl⟩
  · obtain ⟨a, b, c, d, rfl⟩ := hop
    unfold accept
    rw [if_pos hroom]
    intro client hc
    rcases List.mem_or_eq_of_mem_set hc with hc | rfl
    · exact h client hc
    · exact inetNtoa_length_le a b c d
  · intro c hc
    exact h c (hq.list ▸ hc)
  · exact remove_short h hd.index

theorem run_short {ops : List Op} (hops : ∀ op ∈ ops, Addressed op) (hr : Runs.run step init ops = some s) :
    WF s ∧ Short s := by
  have hall : Runs.Along step (fun _ op => Addressed op) init ops := Runs.along_of_forall hops
  apply Runs.run_along (I := fun s => WF s ∧ Short s) _ ⟨init_wf, init_short⟩ hall hr
  intro s op s' h hop hs
  exact ⟨step_wf h.1 hs, step_short hop h.2 hs⟩

/-! ### The bounds -/

/-- A list reply has at most a hundred entries of 23 bytes. -/
theorem listPayload_length_le (h : s.numClients ≤ maxClients) (hs : ∀ c ∈ s.entries, c.ip.length ≤ 15) :
    s.listPayload.length ≤ 2304 := by
  have hentry : ∀ n ∈ s.entries.map fun c => (encodeClient c).length, n ≤ 23 := by
    intro n hn
    obtain ⟨c, hc, rfl⟩ := List.mem_map.mp hn
    have hip := hs c hc
    simp only [encodeClient, List.length_append, toBytes_length]
    omega
  have hnum : s.entries.length ≤ 100 := (List.length_take_le _ _).trans h
  calc s.listPayload.length = 4 + (s.entries.map fun c => (encodeClient c).length).sum := by
        rw [listPayload, List.length_append, toBytes_length, List.length_flatMap]
    _ ≤ 4 + s.entries.length * 23 := by
        apply Nat.add_le_add_left
        have hsum := List.sum_le_card_nsmul _ 23 hentry
        rw [List.length_map, smul_eq_mul] at hsum
        exact hsum
    _ ≤ 2304 := by omega

theorem messageWrites_inside (s : Server) (myId index : ℕ) (data : List UInt8) :
    (∀ w ∈ s.messageWrites myId index data, w.Inside) ↔ s.Fits index 4 data := by
  unfold messageWrites Fits Forwards
  by_cases hlen : data.length < 6
  · rw [if_pos hlen]
    exact iff_of_true (fun w hw => absurd hw List.not_mem_nil) fun _ hf => absurd hf.1 (not_le.mpr hlen)
  · rw [if_neg hlen]
    dsimp only
    have hfields : ∀ w ∈ ([⟨4, 0, 4⟩, ⟨2, 0, 2⟩] : List Write), w.Inside := by decide
    rw [List.forall_mem_append, and_iff_right hfields]
    split_ifs with hfield
    · exact iff_of_true (fun w hw => absurd hw List.not_mem_nil) fun _ hf => absurd hf.2.1 hfield
    · cases hfind : s.entries.find? fun c => c.id % 2 ^ 32 == ofBytes (data.take 4) with
      | none => exact iff_of_true (fun w hw => absurd hw List.not_mem_nil) fun _ hf => absurd hf.2.2 (by decide)
      | some target =>
        have hchunks : s.forwardChunks myId index (data.drop 6) ≠ [] := List.cons_ne_nil _ _
        have htotal : (s.forwardChunks myId index (data.drop 6)).flatten.length =
            10 + (s.clientList.getD index default).ip.length + (data.length - 6) := by
          rw [forwardChunks_flatten, forwardPayload_length, List.length_drop]
        rw [List.forall_mem_append, and_iff_left sendPacket_inside, memcpys_inside 1024 hchunks, htotal, Nat.zero_add]
        constructor
        · exact fun h _ _ => h
        · exact fun h => h rfl ⟨not_lt.mp hlen, not_not.mp hfield, rfl⟩

/-- **Every byte lies inside its array iff a forwarded message fits.** -/
theorem writes_inside_iff {ops : List Op} (hops : ∀ op ∈ ops, Addressed op) (hr : Runs.run step init ops = some s)
    (myId index : ℕ) (type : UInt8) (data timeStr hostname : List UInt8) (htime : timeStr.length = 24) :
    (∀ w ∈ s.writes myId index type data timeStr hostname, w.Inside) ↔ s.Fits index type data := by
  obtain ⟨hwf, hshort⟩ := run_short hops hr
  have hother : ∀ {l : List Write}, type ≠ 4 → (∀ w ∈ l, w.Inside) →
      ((∀ w ∈ l, w.Inside) ↔ s.Fits index type data) := fun hne hl => iff_of_true hl fun hc => absurd hc hne
  unfold writes
  split_ifs with h1 h2 h3 h4
  · apply hother (by rw [h1]; decide)
    rw [List.forall_mem_append, and_iff_left sendPacket_inside]
    simp [timeWrites, Write.Inside, htime]
  · apply hother (by rw [h2]; decide)
    rw [List.forall_mem_append, and_iff_left sendPacket_inside]
    simp [nameWrites, Write.Inside]
  · apply hother (by rw [h3]; decide)
    have hchunks : s.listChunks ≠ [] := List.cons_ne_nil _ _
    rw [List.forall_mem_append, and_iff_left sendPacket_inside, memcpys_inside 4096 hchunks, Nat.zero_add,
      listChunks_flatten]
    exact (listPayload_length_le hwf.num_le fun c hc => hshort c (List.mem_of_mem_take hc)).trans (by decide)
  · subst h4
    exact messageWrites_inside s myId index data
  · exact hother h4 fun w hw => absurd hw List.not_mem_nil

/-- A client of the same host joins. -/
def joinRun : List Op := [.accept 4 (inetNtoa 127 0 0 1) 5000, .start 0]

/-- A message of `n` bytes to client 1. -/
def messageOf (n : ℕ) : List UInt8 := toBytes 4 1 ++ toBytes 2 n ++ List.replicate n 0

/-- Client 1 sends itself 1006 bytes: one byte more than `fpay` takes. -/
theorem message_overflows : ∃ s, Runs.run step init joinRun = some s ∧
    s.handlers.map Handler.phase = [.serving 4 1] ∧ (messageOf 1006).length ≤ 65532 ∧
    ⟨1024, 19, 1006⟩ ∈ s.writes 1 0 4 (messageOf 1006) (List.replicate 24 48) [] ∧
    ¬ ∀ w ∈ s.writes 1 0 4 (messageOf 1006) (List.replicate 24 48) [], w.Inside := by
  refine ⟨_, rfl, by decide +kernel, by decide +kernel, by decide +kernel, by decide +kernel⟩

theorem writes_inside_iff_five : ∃ s, Runs.run step init joinRun = some s ∧
    ((∀ w ∈ s.writes 1 0 4 (messageOf 5) (List.replicate 24 48) [], w.Inside) ↔ s.Fits 0 4 (messageOf 5)) := by
  have hops : ∀ op ∈ joinRun, Addressed op := by
    intro op hop
    simp only [joinRun, List.mem_cons, List.not_mem_nil, or_false] at hop
    rcases hop with rfl | rfl
    · exact ⟨127, 0, 0, 1, rfl⟩
    · trivial
  exact ⟨_, rfl, writes_inside_iff hops rfl 1 0 4 (messageOf 5) (List.replicate 24 48) [] List.length_replicate⟩

end Server
end Chat

/-
# The network interface

`network_interface.cc`: datagrams for a next hop whose Ethernet address is in
the ARP table go out as frames, the others wait until an ARP message from the
next hop arrives. A call that throws leaves what it had done so far. The order
in which `tick` visits the waiting datagrams is that of an `unordered_map`, so
it is an argument here.

Key definitions: `NetworkInterface.sendDatagram`, `NetworkInterface.recvFrame`,
`NetworkInterface.tick`, `NetworkInterface.step`.
Key theorems: `NetworkInterface.sendDatagram_cases`,
`NetworkInterface.recvARP_spec`, `NetworkInterface.tick_spec`,
`NetworkInterface.step_emits`.
-/
import Sponge.Ethernet
import Sponge.IPv4
import Sponge.Lib.Runs
import Sponge.Lib.Table

namespace Sponge

structure ARPEntry where
  ethernetAddress : EthernetAddress
  ttl : ℕ
  deriving DecidableEq

structure NetworkInterface where
  ethernetAddress : EthernetAddress
  ipAddress : UInt32
  framesOut : List EthernetFrame
  arpTable : Table UInt32 ARPEntry
  pendingDatagrams : Table UInt32 (List IPv4Datagram)
  arpRequestTimers : Table UInt32 ℕ
  deriving DecidableEq

namespace NetworkInterface

def init (ethernetAddress : EthernetAddress) (ipAddress : UInt32) : NetworkInterface where
  ethernetAddress := ethernetAddress
  ipAddress := ipAddress
  framesOut := []
  arpTable := ∅
  pendingDatagrams := ∅
  arpRequestTimers := ∅

def push (ni : NetworkInterface) (frame : EthernetFrame) : NetworkInterface :=
  { ni with framesOut := ni.framesOut ++ [frame] }

/-- A datagram in a frame. -/
def ipv4Frame (ni : NetworkInterface) (dst : EthernetAddress) (dgram : IPv4Datagram) : Result EthernetFrame :=
  dgram.serialize.map fun payload =>
    { header := { dst, src := ni.ethernetAddress, type := EthernetHeader.typeIPv4 }, payload }

/-- An ARP message in a frame. -/
def arpFrame (ni : NetworkInterface) (dst : EthernetAddress) (msg : ARPMessage) : Result EthernetFrame :=
  msg.serialize.map fun bytes =>
    { header := { dst, src := ni.ethernetAddress, type := EthernetHeader.typeARP }, payload := [bytes] }

def arpRequest (ni : NetworkInterface) (ip : UInt32) : ARPMessage where
  opcode := ARPMessage.opcodeRequest
  senderEthernetAddress := ni.ethernetAddress
  senderIpAddress := ni.ipAddress
  targetIpAddress := ip

def arpReply (ni : NetworkInterface) (msg : ARPMessage) : ARPMessage where
  opcode := ARPMessage.opcodeReply
  senderEthernetAddress := ni.ethernetAddress
  senderIpAddress := ni.ipAddress
  targetEthernetAddress := msg.senderEthernetAddress
  targetIpAddress := msg.senderIpAddress

/-- A request for `ip` goes out and its timer is set. -/
def request (ni : NetworkInterface) (ip : UInt32) : Result Unit × NetworkInterface :=
  match ni.arpFrame ethernetBroadcast (ni.arpRequest ip) with
  | .error e => (.error e, ni)
  | .ok frame => (.ok (), { ni.push frame with arpRequestTimers := ni.arpRequestTimers.insert ip 5000 })

/-- No request for `ip` was sent, or its time is over. -/
def due (ni : NetworkInterface) (ip : UInt32) : Bool :=
  match ni.arpRequestTimers.lookup ip with
  | some timer => timer == 0
  | none => true

/-- The datagrams that wait for `ip`. -/
def pending (ni : NetworkInterface) (ip : UInt32) : List IPv4Datagram := (ni.pendingDatagrams.lookup ip).getD []

/-- The entry of the table that is still alive. -/
def live (ni : NetworkInterface) (ip : UInt32) : Option ARPEntry := (ni.arpTable.lookup ip).filter fun e => 0 < e.ttl

def sendDatagram (ni : NetworkInterface) (dgram : IPv4Datagram) (nextHop : UInt32) : Result Unit × NetworkInterface :=
  match ni.live nextHop with
  | some entry =>
    match ni.ipv4Frame entry.ethernetAddress dgram with
    | .error e => (.error e, ni)
    | .ok frame => (.ok (), ni.push frame)
  | none =>
    let ni : NetworkInterface :=
      { ni with pendingDatagrams := ni.pendingDatagrams.insert nextHop (ni.pending nextHop ++ [dgram]) }
    if ni.due nextHop then ni.request nextHop else (.ok (), ni)

/-- The loop over the datagrams that waited. -/
def sendPending (ni : NetworkInterface) (dst : EthernetAddress) : List IPv4Datagram → Result Unit × NetworkInterface
  | [] => (.ok (), ni)
  | dgram :: dgrams =>
    match ni.ipv4Frame dst dgram with
    | .error e => (.error e, ni)
    | .ok frame => (ni.push frame).sendPending dst dgrams

/-- The table learns the sender of an ARP message. -/
def learn (ni : NetworkInterface) (msg : ARPMessage) : NetworkInterface :=
  { ni with arpTable := ni.arpTable.insert msg.senderIpAddress ⟨msg.senderEthernetAddress, 30000⟩ }

/-- A request for this interface is answered. -/
def answer (ni : NetworkInterface) (msg : ARPMessage) : Result Unit × NetworkInterface :=
  if msg.opcode = ARPMessage.opcodeRequest ∧ msg.targetIpAddress = ni.ipAddress then
    match ni.arpFrame msg.senderEthernetAddress (ni.arpReply msg) with
    | .error e => (.error e, ni)
    | .ok frame => (.ok (), ni.push frame)
  else (.ok (), ni)

/-- What waited for the sender of an ARP message is sent. -/
def release (ni : NetworkInterface) (msg : ARPMessage) : Result Unit × NetworkInterface :=
  match ni.pendingDatagrams.lookup msg.senderIpAddress with
  | some dgrams =>
    match ni.sendPending msg.senderEthernetAddress dgrams with
    | (.error e, ni) => (.error e, ni)
    | (.ok _, ni) =>
      (.ok (), { ni with
        pendingDatagrams := ni.pendingDatagrams.erase msg.senderIpAddress
        arpRequestTimers := ni.arpRequestTimers.erase msg.senderIpAddress })
  | none => (.ok (), ni)

def recvARP (ni : NetworkInterface) (msg : ARPMessage) : Result Unit × NetworkInterface :=
  match (ni.learn msg).answer msg with
  | (.error e, ni) => (.error e, ni)
  | (.ok _, ni) => ni.release msg

/-- The frame is for another interface. -/
def ignores (ni : NetworkInterface) (frame : EthernetFrame) : Bool :=
  frame.header.dst != ni.ethernetAddress && frame.header.dst != ethernetBroadcast

def recvFrame (ni : NetworkInterface) (frame : EthernetFrame) : Result (Option IPv4Datagram) × NetworkInterface :=
  if ni.ignores frame then (.ok none, ni)
  else if frame.header.type = EthernetHeader.typeIPv4 then
    match frame.payload.toBuffer with
    | .error e => (.error e, ni)
    | .ok buffer =>
      match IPv4Datagram.parse {} buffer with
      | (.noError, datagram) => (.ok (some datagram), ni)
      | _ => (.ok none, ni)
  else if frame.header.type = EthernetHeader.typeARP then
    match frame.payload.toBuffer with
    | .error e => (.error e, ni)
    | .ok buffer =>
      match ARPMessage.parse {} buffer with
      | (.noError, msg) => ((ni.recvARP msg).1.map fun _ => none, (ni.recvARP msg).2)
      | _ => (.ok none, ni)
  else (.ok none, ni)

/-- Entries and timers get older. -/
def expire (ni : NetworkInterface) (ms : ℕ) : NetworkInterface :=
  { ni with
    arpTable := ni.arpTable.filterMap fun e => if e.ttl ≤ ms then none else some { e with ttl := e.ttl - ms }
    arpRequestTimers := ni.arpRequestTimers.filterMap fun timer => some (if timer ≤ ms then 0 else timer - ms) }

/-- The loop over the next hops that datagrams wait for. -/
def resend (ni : NetworkInterface) : List UInt32 → Result Unit × NetworkInterface
  | [] => (.ok (), ni)
  | ip :: ips =>
    if ni.pending ip ≠ [] ∧ ni.due ip = true then
      match ni.request ip with
      | (.error e, ni) => (.error e, ni)
      | (.ok _, ni) => ni.resend ips
    else ni.resend ips

/-- `order` is how the loop visits the map. -/
def tick (ni : NetworkInterface) (msSinceLastTick : ℕ) (order : List UInt32) : Result Unit × NetworkInterface :=
  (ni.expire msSinceLastTick).resend order

/-! ### Runs of an interface -/

inductive Op where
  | send (dgram : IPv4Datagram) (nextHop : UInt32)
  | recv (frame : EthernetFrame)
  | tick (ms : ℕ) (order : List UInt32)
  deriving DecidableEq

/-- What a call throws is lost, what it did stays; `none` is no order of the map. -/
def step (ni : NetworkInterface) : Op → Option NetworkInterface
  | .send dgram nextHop => some (ni.sendDatagram dgram nextHop).2
  | .recv frame => some (ni.recvFrame frame).2
  | .tick ms order => if order.Perm ni.pendingDatagrams.keys then some (ni.tick ms order).2 else none

/-! ### What a call sends -/

/-- A datagram that goes out to the address of its next hop. -/
structure Emission where
  nextHop : UInt32
  dgram : IPv4Datagram
  dst : EthernetAddress

/-- The frame carries the datagram to its address. -/
def IsFrame (ni : NetworkInterface) (frame : EthernetFrame) (e : Emission) : Prop :=
  ni.ipv4Frame e.dst e.dgram = .ok frame

def isIPv4 (frame : EthernetFrame) : Bool := frame.header.type == EthernetHeader.typeIPv4

/-- The ARP message of a frame that the interface takes. -/
def arpMessage (ni : NetworkInterface) (frame : EthernetFrame) : Option ARPMessage :=
  if ni.ignores frame = false ∧ frame.header.type = EthernetHeader.typeARP then
    match frame.payload.toBuffer with
    | .error _ => none
    | .ok buffer =>
      match ARPMessage.parse {} buffer with
      | (.noError, msg) => some msg
      | _ => none
  else none

/-- The datagrams a call sends: to a next hop whose address is known, or all
that waited for the sender of an ARP message, up to one that cannot be
serialized. -/
def emitted (ni : NetworkInterface) : Op → List Emission
  | .send dgram nextHop =>
    match ni.live nextHop with
    | some entry => if dgram.serializable then [⟨nextHop, dgram, entry.ethernetAddress⟩] else []
    | none => []
  | .recv frame =>
    match ni.arpMessage frame with
    | some msg => ((ni.pending msg.senderIpAddress).takeWhile IPv4Datagram.serializable).map fun dgram =>
        ⟨msg.senderIpAddress, dgram, msg.senderEthernetAddress⟩
    | none => []
  | .tick _ _ => []

/-- A frame with an ARP message of the interface's own. -/
def OwnARP (ni : NetworkInterface) (frame : EthernetFrame) : Prop :=
  ∃ dst msg, msg.supported = true ∧ msg.senderEthernetAddress = ni.ethernetAddress ∧
    msg.senderIpAddress = ni.ipAddress ∧ ni.arpFrame dst msg = .ok frame

/-- From `ni` to `ni'` the frames of `log` went out, and ARP messages. -/
structure Emits (ni ni' : NetworkInterface) (log : List Emission) : Prop where
  eth : ni'.ethernetAddress = ni.ethernetAddress
  ip : ni'.ipAddress = ni.ipAddress
  frames : ∃ new, ni'.framesOut = ni.framesOut ++ new ∧ List.Forall₂ ni.IsFrame (new.filter isIPv4) log ∧
    ∀ frame ∈ new, isIPv4 frame = true ∨ ni.OwnARP frame

variable {ni ni' ni'' : NetworkInterface}

/-- What is sent depends on the address of the interface only. -/
theorem isFrame_congr (h : ni'.ethernetAddress = ni.ethernetAddress) : ni'.IsFrame = ni.IsFrame := by
  unfold IsFrame ipv4Frame
  rw [h]

theorem ownARP_congr (h : ni'.ethernetAddress = ni.ethernetAddress) (h' : ni'.ipAddress = ni.ipAddress) :
    ni'.OwnARP = ni.OwnARP := by
  unfold OwnARP arpFrame
  rw [h, h']

theorem Emits.of_eq (h1 : ni'.ethernetAddress = ni.ethernetAddress) (h2 : ni'.ipAddress = ni.ipAddress)
    (h3 : ni'.framesOut = ni.framesOut) : Emits ni ni' [] := by
  refine ⟨h1, h2, [], ?_, List.Forall₂.nil, ?_⟩
  · rw [h3, List.append_nil]
  · intro frame hf
    cases hf

theorem Emits.refl (ni : NetworkInterface) : Emits ni ni [] := Emits.of_eq rfl rfl rfl

theorem Emits.trans {log log' : List Emission} (h : Emits ni ni' log) (h' : Emits ni' ni'' log') :
    Emits ni ni'' (log ++ log') := by
  obtain ⟨new, h1, h2, h3⟩ := h.frames
  obtain ⟨new', h1', h2', h3'⟩ := h'.frames
  rw [isFrame_congr h.eth] at h2'
  rw [ownARP_congr h.eth h.ip] at h3'
  refine ⟨h'.eth.trans h.eth, h'.ip.trans h.ip, new ++ new', ?_, ?_, ?_⟩
  · rw [h1', h1, List.append_assoc]
  · rw [List.filter_append]
    exact List.rel_append h2 h2'
  · intro frame hf
    rcases List.mem_append.mp hf with hf | hf
    · exact h3 frame hf
    · exact h3' frame hf

/-- Bookkeeping afterwards sends nothing. -/
theorem Emits.quiet {log : List Emission} (h : Emits ni ni' log) (h1 : ni''.ethernetAddress = ni'.ethernetAddress)
    (h2 : ni''.ipAddress = ni'.ipAddress) (h3 : ni''.framesOut = ni'.framesOut) : Emits ni ni'' log :=
  List.append_nil log ▸ h.trans (Emits.of_eq h1 h2 h3)

/-- A frame with a datagram was sent before, or carries one of the log. -/
theorem Emits.carries {log : List Emission} (h : Emits ni ni' log) :
    ∀ frame ∈ ni'.framesOut, isIPv4 frame = true → frame ∈ ni.framesOut ∨ ∃ e ∈ log, ni.IsFrame frame e := by
  obtain ⟨new, hout, hall, -⟩ := h.frames
  have hnew : ∀ {frames : List EthernetFrame} {log : List Emission}, List.Forall₂ ni.IsFrame frames log →
      ∀ frame ∈ frames, ∃ e ∈ log, ni.IsFrame frame e := by
    intro frames log hall
    induction hall with
    | nil => exact fun _ hf => absurd hf List.not_mem_nil
    | cons hab _ ih =>
      intro frame hf
      rcases List.mem_cons.mp hf with rfl | hf
      · exact ⟨_, List.mem_cons_self, hab⟩
      · obtain ⟨e, he, hr⟩ := ih frame hf
        exact ⟨e, List.mem_cons_of_mem _ he, hr⟩
  intro frame hf htype
  rw [hout] at hf
  rcases List.mem_append.mp hf with hf | hf
  · exact Or.inl hf
  · exact Or.inr (hnew hall frame (List.mem_filter.mpr ⟨hf, htype⟩))

theorem ipv4Frame_header {dst : EthernetAddress} {dgram : IPv4Datagram} {frame : EthernetFrame}
    (h : ni.ipv4Frame dst dgram = .ok frame) : frame.header.dst = dst ∧ isIPv4 frame = true := by
  obtain ⟨payload, -, rfl⟩ := Result.map_eq_ok.mp h
  exact ⟨rfl, rfl⟩

/-- A datagram goes out. -/
theorem emits_ipv4 {e : Emission} {frame : EthernetFrame} (h : ni.IsFrame frame e) :
    Emits ni (ni.push frame) [e] := by
  have htype : isIPv4 frame = true := (ipv4Frame_header h).2
  refine ⟨rfl, rfl, [frame], rfl, ?_, ?_⟩
  · rw [List.filter_cons_of_pos htype]
    exact List.Forall₂.cons h List.Forall₂.nil
  · intro f hf
    obtain rfl := List.mem_singleton.mp hf
    exact Or.inl htype

/-- An ARP message of the interface's own goes out. -/
theorem emits_arp {frame : EthernetFrame} (h : ni.OwnARP frame) : Emits ni (ni.push frame) [] := by
  have htype : isIPv4 frame = false := by
    obtain ⟨dst, msg, -, -, -, hf⟩ := h
    obtain ⟨bytes, -, rfl⟩ := Result.map_eq_ok.mp hf
    rfl
  refine ⟨rfl, rfl, [frame], rfl, ?_, ?_⟩
  · rw [List.filter_cons_of_neg (by rw [htype]; exact Bool.false_ne_true)]
    exact List.Forall₂.nil
  · intro f hf
    obtain rfl := List.mem_singleton.mp hf
    exact Or.inr h

/-! ### The parts of a call -/

/-- An ARP message that is supported always goes out. -/
theorem arpFrame_eq (ni : NetworkInterface) (dst : EthernetAddress) (msg : ARPMessage) (h : msg.supported = true) :
    ni.arpFrame dst msg =
      .ok ⟨{ dst, src := ni.ethernetAddress, type := EthernetHeader.typeARP }, [msg.unparse]⟩ := by
  have hs : msg.serialize = .ok msg.unparse := if_neg fun hc => Bool.false_ne_true (hc.symm.trans h)
  unfold arpFrame
  rw [hs]
  rfl

theorem request_spec (ni : NetworkInterface) (ip : UInt32) : ∃ frame, ni.OwnARP frame ∧ ni.request ip =
    (.ok (), { ni.push frame with arpRequestTimers := ni.arpRequestTimers.insert ip 5000 }) := by
  have hf := arpFrame_eq ni ethernetBroadcast (ni.arpRequest ip) rfl
  refine ⟨_, ⟨_, ni.arpRequest ip, rfl, rfl, rfl, hf⟩, ?_⟩
  unfold request
  rw [hf]

theorem answer_spec (ni : NetworkInterface) (msg : ARPMessage) : ni.answer msg = (.ok (), ni) ∨
    ∃ frame, ni.OwnARP frame ∧ ni.answer msg = (.ok (), ni.push frame) := by
  have hf := arpFrame_eq ni msg.senderEthernetAddress (ni.arpReply msg) rfl
  unfold answer
  split_ifs
  · rw [hf]
    exact Or.inr ⟨_, ⟨_, ni.arpReply msg, rfl, rfl, rfl, hf⟩, rfl⟩
  · exact Or.inl rfl

theorem ipv4Frame_isOk_iff (ni : NetworkInterface) (dst : EthernetAddress) (dgram : IPv4Datagram) :
    (∃ frame, ni.ipv4Frame dst dgram = .ok frame) ↔ dgram.serializable = true := by
  rw [← IPv4Datagram.serialize_isOk_iff]
  unfold ipv4Frame
  constructor
  · rintro ⟨frame, h⟩
    obtain ⟨bufs, h1, -⟩ := Result.map_eq_ok.mp h
    exact ⟨bufs, h1⟩
  · rintro ⟨bufs, h⟩
    exact ⟨_, Result.map_eq_ok.mpr ⟨bufs, h, rfl⟩⟩

/-- Two interfaces that differ in what was sent only. -/
structure SameTables (ni ni' : NetworkInterface) : Prop where
  arpTable : ni'.arpTable = ni.arpTable
  pendingDatagrams : ni'.pendingDatagrams = ni.pendingDatagrams

/-- The loop sends up to the first datagram that cannot be serialized. -/
theorem sendPending_spec (nextHop : UInt32) (dst : EthernetAddress) (dgrams : List IPv4Datagram)
    (ni : NetworkInterface) :
    SameTables ni (ni.sendPending dst dgrams).2 ∧
    Emits ni (ni.sendPending dst dgrams).2
      ((dgrams.takeWhile IPv4Datagram.serializable).map fun dgram => ⟨nextHop, dgram, dst⟩) ∧
    ((ni.sendPending dst dgrams).1 = .ok () ↔ ∀ dgram ∈ dgrams, dgram.serializable = true) := by
  induction dgrams generalizing ni with
  | nil =>
    refine ⟨⟨rfl, rfl⟩, Emits.refl ni, fun _ dgram h => ?_, fun _ => rfl⟩
    cases h
  | cons dgram dgrams ih =>
    cases hf : ni.ipv4Frame dst dgram with
    | error e =>
      have hs : ¬ dgram.serializable = true := by
        intro hc
        obtain ⟨frame, h⟩ := (ipv4Frame_isOk_iff ni dst dgram).mpr hc
        rw [hf] at h
        cases h
      have heq : ni.sendPending dst (dgram :: dgrams) = (.error e, ni) := by
        unfold sendPending
        rw [hf]
      rw [heq, List.takeWhile_cons_of_neg hs]
      refine ⟨⟨rfl, rfl⟩, Emits.refl ni, fun h => ?_, fun h => ?_⟩
      · cases h
      · exact absurd (h dgram List.mem_cons_self) hs
    | ok frame =>
      have hs : dgram.serializable = true := (ipv4Frame_isOk_iff ni dst dgram).mp ⟨frame, hf⟩
      have heq : ni.sendPending dst (dgram :: dgrams) = (ni.push frame).sendPending dst dgrams := by
        rw [sendPending, hf]
      obtain ⟨⟨h1, h2⟩, h3, h4⟩ := ih (ni.push frame)
      rw [heq, List.takeWhile_cons_of_pos hs, List.map_cons]
      refine ⟨⟨h1, h2⟩, (emits_ipv4 (e := ⟨nextHop, dgram, dst⟩) hf).trans h3, h4.trans ?_⟩
      simp [hs]

/-! ### The calls -/

theorem pending_insert (ni : NetworkInterface) (x y : UInt32) (dgrams : List IPv4Datagram) :
    pending { ni with pendingDatagrams := ni.pendingDatagrams.insert x dgrams } y =
      if y = x then dgrams else ni.pending y := by
  unfold pending
  split_ifs with h
  · subst h
    simp
  · simp [AList.lookup_insert_ne h]

/-- What waits for `x` once the entry of `y` is erased. -/
theorem pending_erase (ni : NetworkInterface) (x y : UInt32) :
    ((ni.pendingDatagrams.erase y).lookup x).getD [] = if x = y then [] else ni.pending x := by
  unfold pending
  split_ifs with h
  · subst h
    simp
  · rw [AList.lookup_erase_ne h]

/-- A datagram for a known address goes out or throws; another one waits. -/
theorem sendDatagram_cases (ni : NetworkInterface) (dgram : IPv4Datagram) (nextHop : UInt32) :
    (∃ entry frame, ni.live nextHop = some entry ∧ dgram.serializable = true ∧
      ni.IsFrame frame ⟨nextHop, dgram, entry.ethernetAddress⟩ ∧
      ni.sendDatagram dgram nextHop = (.ok (), ni.push frame)) ∨
    (∃ entry e, ni.live nextHop = some entry ∧ dgram.serializable = false ∧
      ni.sendDatagram dgram nextHop = (.error e, ni)) ∨
    (ni.live nextHop = none ∧ ∃ ni', ni.sendDatagram dgram nextHop = (.ok (), ni') ∧ Emits ni ni' [] ∧
      ni'.arpTable = ni.arpTable ∧
      ∀ x, ni'.pending x = if x = nextHop then ni.pending nextHop ++ [dgram] else ni.pending x) := by
  unfold sendDatagram
  cases hl : ni.live nextHop with
  | some entry =>
    cases hf : ni.ipv4Frame entry.ethernetAddress dgram with
    | error e =>
      refine Or.inr (Or.inl ⟨entry, e, rfl, ?_, by simp only [hf]⟩)
      rw [← Bool.not_eq_true]
      intro hc
      obtain ⟨frame, h⟩ := (ipv4Frame_isOk_iff ni entry.ethernetAddress dgram).mpr hc
      rw [hf] at h
      cases h
    | ok frame =>
      have hs := (ipv4Frame_isOk_iff ni entry.ethernetAddress dgram).mp ⟨frame, hf⟩
      exact Or.inl ⟨entry, frame, rfl, hs, hf, by simp only [hf]⟩
  | none =>
    refine Or.inr (Or.inr ⟨rfl, ?_⟩)
    set waiting : NetworkInterface :=
      { ni with pendingDatagrams := ni.pendingDatagrams.insert nextHop (ni.pending nextHop ++ [dgram]) }
    have hwait : Emits ni waiting [] := Emits.of_eq rfl rfl rfl
    by_cases hd : waiting.due nextHop = true
    · obtain ⟨frame, hf, heq⟩ := request_spec waiting nextHop
      simp only [hd, ↓reduceIte, heq]
      refine ⟨_, rfl, ?_, rfl, fun x => pending_insert ni nextHop x _⟩
      exact hwait.trans ((emits_arp hf).quiet rfl rfl rfl)
    · simp only [hd]
      exact ⟨_, rfl, hwait, rfl, fun x => pending_insert ni nextHop x _⟩

/-- Only a datagram for a known address can throw, and only the queue of its
next hop changes. -/
theorem sendDatagram_spec (ni : NetworkInterface) (dgram : IPv4Datagram) (nextHop : UInt32) :
    ((ni.sendDatagram dgram nextHop).1 = .ok () ↔
      ((ni.live nextHop).isSome = true → dgram.serializable = true)) ∧
    (ni.sendDatagram dgram nextHop).2.arpTable = ni.arpTable ∧
    ∀ x, ∀ d ∈ (ni.sendDatagram dgram nextHop).2.pending x, d ∈ ni.pending x ∨ d = dgram := by
  rcases sendDatagram_cases ni dgram nextHop with ⟨entry, frame, -, hd, -, heq⟩ | ⟨entry, e, hl, hd, heq⟩ |
    ⟨hl, ni', heq, -, harp, hpend⟩
  · rw [heq]
    exact ⟨⟨fun _ _ => hd, fun _ => rfl⟩, rfl, fun x d hm => Or.inl hm⟩
  · rw [heq, hl, hd]
    refine ⟨⟨fun hc => ?_, fun hc => ?_⟩, rfl, fun x d hm => Or.inl hm⟩
    · cases hc
    · exact absurd (hc rfl) Bool.false_ne_true
  · rw [heq, hl]
    refine ⟨⟨fun _ hc => absurd hc Bool.false_ne_true, fun _ => rfl⟩, harp, fun x d hm => ?_⟩
    rw [hpend] at hm
    split_ifs at hm with hx
    · subst hx
      simpa using hm
    · exact Or.inl hm

/-- An accepted ARP message teaches the table its sender, and what waited for
the sender goes out, up to a datagram that cannot be serialized. -/
structure Released (ni : NetworkInterface) (msg : ARPMessage) (r : Result Unit) (ni' : NetworkInterface) : Prop where
  emits : Emits ni ni' (((ni.pending msg.senderIpAddress).takeWhile IPv4Datagram.serializable).map
    fun dgram => ⟨msg.senderIpAddress, dgram, msg.senderEthernetAddress⟩)
  arpTable : ni'.arpTable = ni.arpTable.insert msg.senderIpAddress ⟨msg.senderEthernetAddress, 30000⟩
  result : r = .ok () ↔ ∀ dgram ∈ ni.pending msg.senderIpAddress, dgram.serializable = true
  pending : ∀ x, ni'.pending x = if r = .ok () ∧ x = msg.senderIpAddress then [] else ni.pending x

theorem release_spec (ni : NetworkInterface) (msg : ARPMessage) :
    Emits ni (ni.release msg).2 (((ni.pending msg.senderIpAddress).takeWhile IPv4Datagram.serializable).map
      fun dgram => ⟨msg.senderIpAddress, dgram, msg.senderEthernetAddress⟩) ∧
    (ni.release msg).2.arpTable = ni.arpTable ∧
    ((ni.release msg).1 = .ok () ↔ ∀ dgram ∈ ni.pending msg.senderIpAddress, dgram.serializable = true) ∧
    ∀ x, (ni.release msg).2.pending x =
      if (ni.release msg).1 = .ok () ∧ x = msg.senderIpAddress then [] else ni.pending x := by
  unfold release
  cases hl : ni.pendingDatagrams.lookup msg.senderIpAddress with
  | none =>
    have hp : ni.pending msg.senderIpAddress = [] := by simp [pending, hl]
    rw [hp]
    refine ⟨Emits.refl ni, rfl, ⟨fun _ dgram h => ?_, fun _ => rfl⟩, fun x => ?_⟩
    · cases h
    · split_ifs with hx
      · rw [hx.2, hp]
      · rfl
  | some dgrams =>
    have hp : ni.pending msg.senderIpAddress = dgrams := by simp [pending, hl]
    obtain ⟨h1, h2, h3⟩ := sendPending_spec msg.senderIpAddress msg.senderEthernetAddress dgrams ni
    rw [hp]
    cases hs : ni.sendPending msg.senderEthernetAddress dgrams with
    | mk r ni' =>
      rw [hs] at h1 h2 h3
      simp only [hs]
      cases r with
      | error e =>
        refine ⟨h2, h1.arpTable, h3, fun x => ?_⟩
        rw [if_neg fun hc => by cases hc.1]
        exact congrArg (fun t => (AList.lookup x t).getD []) h1.pendingDatagrams
      | ok u =>
        have hsame : ni'.pending = ni.pending := by
          unfold pending
          rw [h1.pendingDatagrams]
        refine ⟨h2.quiet rfl rfl rfl, h1.arpTable, ⟨fun _ => h3.mp rfl, fun _ => rfl⟩, fun x => ?_⟩
        have hx := pending_erase ni' x msg.senderIpAddress
        rw [hsame] at hx
        rw [if_congr (and_iff_right rfl) rfl rfl]
        exact hx

theorem recvARP_spec (ni : NetworkInterface) (msg : ARPMessage) :
    Released ni msg (ni.recvARP msg).1 (ni.recvARP msg).2 := by
  have hlearn : Emits ni (ni.learn msg) [] := Emits.of_eq rfl rfl rfl
  have key : ∀ ni', Emits ni ni' [] → ni'.arpTable = (ni.learn msg).arpTable → ni'.pending = ni.pending →
      Released ni msg (ni'.release msg).1 (ni'.release msg).2 := by
    intro ni' h1 h2 h3
    obtain ⟨g1, g2, g3, g4⟩ := release_spec ni' msg
    rw [h3] at g1 g3 g4
    exact ⟨h1.trans g1, g2.trans h2, g3, g4⟩
  unfold recvARP
  rcases answer_spec (ni.learn msg) msg with h | ⟨frame, hf, h⟩
  · rw [h]
    exact key _ hlearn rfl rfl
  · rw [h]
    exact key _ (hlearn.trans (emits_arp hf)) rfl rfl

/-- A frame brings an ARP message, or changes nothing. -/
theorem recvFrame_cases (ni : NetworkInterface) (frame : EthernetFrame) :
    (∃ msg, ni.arpMessage frame = some msg ∧ ni.recvFrame frame =
      ((ni.recvARP msg).1.map fun _ => none, (ni.recvARP msg).2)) ∨
    ni.arpMessage frame = none ∧ (ni.recvFrame frame).2 = ni := by
  have htypes : EthernetHeader.typeIPv4 ≠ EthernetHeader.typeARP := by decide
  unfold arpMessage recvFrame
  by_cases h1 : ni.ignores frame = true
  · rw [if_pos h1, if_neg (by simp [h1])]
    exact Or.inr ⟨rfl, rfl⟩
  · by_cases h2 : frame.header.type = EthernetHeader.typeIPv4
    · rw [if_neg h1, if_pos h2, if_neg (by rw [h2]; simp [htypes])]
      refine Or.inr ⟨rfl, ?_⟩
      cases frame.payload.toBuffer with
      | error e => rfl
      | ok buffer =>
        dsimp only
        split <;> rfl
    · by_cases h3 : frame.header.type = EthernetHeader.typeARP
      · rw [if_neg h1, if_neg h2, if_pos h3, if_pos ⟨Bool.not_eq_true _ ▸ h1, h3⟩]
        cases frame.payload.toBuffer with
        | error e => exact Or.inr ⟨rfl, rfl⟩
        | ok buffer =>
          dsimp only
          split
          · exact Or.inl ⟨_, rfl, rfl⟩
          · exact Or.inr ⟨rfl, rfl⟩
      · rw [if_neg h1, if_neg h2, if_neg h3, if_neg (by simp [h3])]
        exact Or.inr ⟨rfl, rfl⟩

/-- A frame with a contiguous payload makes the interface throw only if a
datagram that waited does. -/
theorem recvFrame_error {frame : EthernetFrame} {e : Exception} {buffer : Bytes}
    (hb : frame.payload.toBuffer = .ok buffer) (h : (ni.recvFrame frame).1 = .error e) :
    ∃ msg, ni.arpMessage frame = some msg ∧ (ni.recvARP msg).1 = .error e := by
  rcases recvFrame_cases ni frame with ⟨msg, hm, heq⟩ | ⟨hm, -⟩
  · rw [heq] at h
    refine ⟨msg, hm, ?_⟩
    cases hr : (ni.recvARP msg).1 with
    | error e' =>
      rw [hr] at h
      exact congrArg _ (Except.error.inj h)
    | ok u =>
      rw [hr] at h
      cases h
  · unfold recvFrame at h
    unfold arpMessage at hm
    rw [hb] at h hm
    split_ifs at h with h1 h2 h3
    · dsimp only at h
      split at h <;> cases h
    · rw [if_pos ⟨Bool.not_eq_true _ ▸ h1, h3⟩] at hm
      dsimp only at h hm
      split at h
      · rename_i hp
        simp only [hp] at hm
        cases hm
      · cases h

/-- A datagram that an interface hands up has the size its header says. -/
theorem recvFrame_sized {frame : EthernetFrame} {dgram : IPv4Datagram}
    (h : (ni.recvFrame frame).1 = .ok (some dgram)) : dgram.Sized := by
  unfold recvFrame at h
  split_ifs at h with h1 h2 h3
  · cases h
  · split at h
    · cases h
    · split at h
      · rename_i hp
        obtain rfl := Option.some.inj (Except.ok.inj h)
        exact IPv4Datagram.parse_sized hp
      · cases h
  · split at h
    · cases h
    · split at h
      · obtain ⟨u, -, hc⟩ := Result.map_eq_ok.mp h
        cases hc
      · cases h
  · cases h

/-- A datagram handed up was parsed from a frame that the interface takes. -/
theorem recvFrame_some {frame : EthernetFrame} {dgram : IPv4Datagram}
    (h : (ni.recvFrame frame).1 = .ok (some dgram)) :
    ni.ignores frame = false ∧ isIPv4 frame = true ∧ ∃ buffer, frame.payload.toBuffer = .ok buffer ∧
      IPv4Datagram.parse {} buffer = (.noError, dgram) := by
  unfold recvFrame at h
  split_ifs at h with h1 h2 h3
  · cases h
  · refine ⟨Bool.not_eq_true _ ▸ h1, beq_iff_eq.mpr h2, ?_⟩
    split at h
    · cases h
    · rename_i buffer hb
      split at h
      · rename_i hp
        obtain rfl := Option.some.inj (Except.ok.inj h)
        exact ⟨buffer, hb, hp⟩
      · cases h
  · split at h
    · cases h
    · split at h
      · obtain ⟨u, -, hc⟩ := Result.map_eq_ok.mp h
        cases hc
      · cases h
  · cases h

theorem resend_spec (order : List UInt32) (ni : NetworkInterface) : SameTables ni (ni.resend order).2 ∧
    Emits ni (ni.resend order).2 [] ∧ (ni.resend order).1 = .ok () := by
  induction order generalizing ni with
  | nil => exact ⟨⟨rfl, rfl⟩, Emits.refl ni, rfl⟩
  | cons ip ips ih =>
    obtain ⟨frame, hf, heq⟩ := request_spec ni ip
    unfold resend
    split_ifs
    · simp only [heq]
      have hsent : Emits ni { ni.push frame with arpRequestTimers := ni.arpRequestTimers.insert ip 5000 } [] :=
        (emits_arp hf).quiet rfl rfl rfl
      obtain ⟨⟨h1, h2⟩, h3, h4⟩ := ih { ni.push frame with arpRequestTimers := ni.arpRequestTimers.insert ip 5000 }
      exact ⟨⟨h1, h2⟩, hsent.trans h3, h4⟩
    · exact ih ni

/-- A tick never throws, and only the table and the timers get older. -/
theorem tick_spec (ni : NetworkInterface) (ms : ℕ) (order : List UInt32) :
    Emits ni (ni.tick ms order).2 [] ∧ (ni.tick ms order).1 = .ok () ∧
      (ni.tick ms order).2.arpTable = (ni.expire ms).arpTable ∧ (ni.tick ms order).2.pending = ni.pending := by
  obtain ⟨h1, h2, h3⟩ := resend_spec order (ni.expire ms)
  have hold : Emits ni (ni.expire ms) [] := Emits.of_eq rfl rfl rfl
  refine ⟨hold.trans h2, h3, h1.arpTable, ?_⟩
  unfold pending tick
  rw [h1.pendingDatagrams]
  rfl

/-- Every step sends what `emitted` says. -/
theorem step_emits {op : Op} (h : step ni op = some ni') : Emits ni ni' (ni.emitted op) := by
  cases op with
  | send dgram nextHop =>
    obtain rfl := Option.some.inj h
    show Emits ni _ (match ni.live nextHop with
      | some entry => if dgram.serializable then [_] else []
      | none => [])
    rcases sendDatagram_cases ni dgram nextHop with ⟨entry, frame, h1, h2, h3, h4⟩ | ⟨entry, e, h1, h2, h3⟩ |
      ⟨h1, ni', h2, h3, -⟩
    · rw [h1, h4]
      simp only [h2, ↓reduceIte]
      exact emits_ipv4 h3
    · rw [h1, h3]
      simp only [h2]
      exact Emits.refl ni
    · rw [h1, h2]
      exact h3
  | recv frame =>
    obtain rfl := Option.some.inj h
    show Emits ni _ (match ni.arpMessage frame with
      | some msg => _
      | none => [])
    rcases recvFrame_cases ni frame with ⟨msg, h1, h2⟩ | ⟨h1, h2⟩
    · rw [h1, h2]
      exact (recvARP_spec ni msg).emits
    · rw [h1, h2]
      exact Emits.refl ni
  | tick ms order =>
    simp only [step] at h
    split_ifs at h
    obtain rfl := Option.some.inj h
    exact (tick_spec ni ms order).1

theorem run_emits {ops : List Op} (hr : Runs.run step ni ops = some ni') :
    Emits ni ni' (Runs.outputs step emitted ni ops) := by
  refine (Runs.run_outputs (I := fun _ => True) (Q := fun _ => True) (R := fun ni ni' _ log => Emits ni ni' log)
    (fun _ _ _ _ _ _ => trivial) ?_ ?_ (fun _ _ => trivial) trivial hr).2
  · intro ni _
    exact Emits.refl ni
  · intro ni op ni₁ ni' ops log _ _ hs hrest
    exact (step_emits hs).trans hrest

end NetworkInterface
end Sponge

/-
# The times of ARP

What an interface does with its two timers, against two clocks for each IP
address: the time since it last took an ARP message from it, and the time since
it last asked for it. An entry of the table is the first clock below 30 s, and
a timer is what the second is short of 5 s (`Paced`). So requests for an
address are 5 s apart, and a datagram goes where the address was last heard
less than 30 s ago.

Key definitions: `NetworkInterface.requests`, `NetworkInterface.Timed`,
`NetworkInterface.Timed.step`, `NetworkInterface.Paced`.
Key theorems: `NetworkInterface.step_asks`, `NetworkInterface.step_paced`,
`NetworkInterface.request_pace`, `NetworkInterface.arp_fresh`.
-/
import Sponge.PendingDatagrams

namespace Sponge
namespace NetworkInterface

open Runs

/-- The address a frame asks for, if it is an ARP request. -/
def asksFor (frame : EthernetFrame) : Option UInt32 :=
  if frame.header.type = EthernetHeader.typeARP then
    match frame.payload.toBuffer with
    | .error _ => none
    | .ok buffer =>
      match ARPMessage.parse {} buffer with
      | (.noError, msg) => if msg.opcode = ARPMessage.opcodeRequest then some msg.targetIpAddress else none
      | _ => none
  else none

/-- The addresses asked for by the frames that went out from `ni` to `ni'`. -/
def requests (ni ni' : NetworkInterface) : List UInt32 :=
  (ni'.framesOut.drop ni.framesOut.length).filterMap asksFor

/-- Datagrams wait for an address, and its timer is at zero or missing. -/
def wanting (ni : NetworkInterface) (ip : UInt32) : Bool := decide (ni.pending ip ≠ [] ∧ ni.due ip = true)

/-- What a call asks for. -/
def asks (ni : NetworkInterface) : Op → List UInt32
  | .send _ nextHop => if ni.live nextHop = none ∧ ni.due nextHop = true then [nextHop] else []
  | .recv _ => []
  | .tick ms order => order.filter (ni.expire ms).wanting

/-- From `ni` to `ni'` the requests for `ips` went out. -/
def Asks (ni ni' : NetworkInterface) (ips : List UInt32) : Prop :=
  ∃ new, ni'.framesOut = ni.framesOut ++ new ∧ new.filterMap asksFor = ips

variable {ni ni' ni'' : NetworkInterface}

/-! ### The requests of a call -/

theorem Asks.requests {ips : List UInt32} (h : Asks ni ni' ips) : requests ni ni' = ips := by
  obtain ⟨new, hout, hnew⟩ := h
  unfold NetworkInterface.requests
  rw [hout, List.drop_left, hnew]

theorem Asks.of_eq (h : ni'.framesOut = ni.framesOut) : Asks ni ni' [] := ⟨[], by simp [h], rfl⟩

theorem Asks.trans {ips ips' : List UInt32} (h : Asks ni ni' ips) (h' : Asks ni' ni'' ips') :
    Asks ni ni'' (ips ++ ips') := by
  obtain ⟨new, hout, hnew⟩ := h
  obtain ⟨new', hout', hnew'⟩ := h'
  refine ⟨new ++ new', ?_, ?_⟩
  · rw [hout', hout, List.append_assoc]
  · rw [List.filterMap_append, hnew, hnew']

theorem asks_push (ni : NetworkInterface) (frame : EthernetFrame) :
    Asks ni (ni.push frame) (asksFor frame).toList := by
  refine ⟨[frame], rfl, ?_⟩
  cases h : asksFor frame <;> simp [h]

theorem asksFor_arp {msg : ARPMessage} (h : msg.supported = true) {dst : EthernetAddress} {frame : EthernetFrame}
    (hf : ni.arpFrame dst msg = .ok frame) :
    asksFor frame = if msg.opcode = ARPMessage.opcodeRequest then some msg.targetIpAddress else none := by
  rw [arpFrame_eq ni dst msg h] at hf
  obtain rfl := Except.ok.inj hf
  simp [asksFor, BufferList.toBuffer, ARPMessage.parse_unparse h]

theorem asksFor_ipv4 {frame : EthernetFrame} (h : isIPv4 frame = true) : asksFor frame = none := by
  have htype : frame.header.type ≠ EthernetHeader.typeARP := by
    intro hc
    rw [isIPv4, hc] at h
    cases h
  unfold asksFor
  rw [if_neg htype]

theorem request_asks (ni : NetworkInterface) (ip : UInt32) : Asks ni (ni.request ip).2 [ip] ∧
    ∀ x, (ni.request ip).2.arpRequestTimers.lookup x =
      if x = ip then some 5000 else ni.arpRequestTimers.lookup x := by
  obtain ⟨frame, hf⟩ : ∃ frame, ni.arpFrame ethernetBroadcast (ni.arpRequest ip) = .ok frame :=
    ⟨_, arpFrame_eq ni ethernetBroadcast (ni.arpRequest ip) rfl⟩
  have hask : asksFor frame = some ip := asksFor_arp rfl hf
  have hpush := asks_push ni frame
  rw [hask] at hpush
  unfold request
  simp only [hf]
  refine ⟨hpush, fun x => ?_⟩
  split_ifs with hx
  · rw [hx, AList.lookup_insert]
  · rw [AList.lookup_insert_ne hx]

/-- An answer asks for nothing. -/
theorem answer_asks (ni : NetworkInterface) (msg : ARPMessage) : Asks ni (ni.answer msg).2 [] ∧
    (ni.answer msg).2.arpRequestTimers = ni.arpRequestTimers ∧ (ni.answer msg).2.pending = ni.pending := by
  obtain ⟨frame, hf⟩ : ∃ frame, ni.arpFrame msg.senderEthernetAddress (ni.arpReply msg) = .ok frame :=
    ⟨_, arpFrame_eq ni msg.senderEthernetAddress (ni.arpReply msg) rfl⟩
  have hask : asksFor frame = none := asksFor_arp rfl hf
  have hpush := asks_push ni frame
  rw [hask] at hpush
  unfold answer
  simp only [hf]
  split_ifs
  · exact ⟨hpush, rfl, rfl⟩
  · exact ⟨Asks.of_eq rfl, rfl, rfl⟩

theorem sendPending_asks (dst : EthernetAddress) (dgrams : List IPv4Datagram) (ni : NetworkInterface) :
    Asks ni (ni.sendPending dst dgrams).2 [] ∧
      (ni.sendPending dst dgrams).2.arpRequestTimers = ni.arpRequestTimers := by
  induction dgrams generalizing ni with
  | nil => exact ⟨Asks.of_eq rfl, rfl⟩
  | cons dgram dgrams ih =>
    unfold sendPending
    cases hf : ni.ipv4Frame dst dgram with
    | error e => exact ⟨Asks.of_eq rfl, rfl⟩
    | ok frame =>
      have hpush := asks_push ni frame
      rw [asksFor_ipv4 (ipv4Frame_header hf).2] at hpush
      obtain ⟨h1, h2⟩ := ih (ni.push frame)
      exact ⟨hpush.trans h1, h2⟩

/-- A release asks for nothing; it may end the timer of an address for which no
datagram waits any more. -/
theorem release_asks (ni : NetworkInterface) (msg : ARPMessage) : Asks ni (ni.release msg).2 [] ∧
    ∀ x, (ni.release msg).2.arpRequestTimers.lookup x = ni.arpRequestTimers.lookup x ∨
      x = msg.senderIpAddress ∧ (ni.release msg).2.arpRequestTimers.lookup x = none ∧
        (ni.release msg).2.pending x = [] := by
  unfold release
  cases hl : ni.pendingDatagrams.lookup msg.senderIpAddress with
  | none => exact ⟨Asks.of_eq rfl, fun x => Or.inl rfl⟩
  | some dgrams =>
    obtain ⟨h1, h2⟩ := sendPending_asks msg.senderEthernetAddress dgrams ni
    cases hs : ni.sendPending msg.senderEthernetAddress dgrams with
    | mk r ni' =>
      rw [hs] at h1 h2
      dsimp only at h1 h2
      simp only [hs]
      cases r with
      | error e => exact ⟨h1, fun x => Or.inl (by rw [h2])⟩
      | ok u =>
        refine ⟨h1, fun x => ?_⟩
        by_cases hx : x = msg.senderIpAddress
        · refine Or.inr ⟨hx, ?_, ?_⟩
          · rw [hx]
            exact AList.lookup_erase _ _
          · have hpend := pending_erase ni' x msg.senderIpAddress
            rw [if_pos hx] at hpend
            exact hpend
        · left
          rw [← h2]
          exact AList.lookup_erase_ne hx

theorem recvARP_asks (ni : NetworkInterface) (msg : ARPMessage) : Asks ni (ni.recvARP msg).2 [] ∧
    ∀ x, (ni.recvARP msg).2.arpRequestTimers.lookup x = ni.arpRequestTimers.lookup x ∨
      x = msg.senderIpAddress ∧ (ni.recvARP msg).2.arpRequestTimers.lookup x = none ∧
        (ni.recvARP msg).2.pending x = [] := by
  obtain ⟨h1, h2, -⟩ := answer_asks (ni.learn msg) msg
  have hlearn : Asks ni ((ni.learn msg).answer msg).2 [] := h1
  unfold recvARP
  cases hr : (ni.learn msg).answer msg with
  | mk r ni' =>
    rw [hr] at hlearn h2
    cases r with
    | error e => exact ⟨hlearn, fun x => Or.inl (by rw [h2]; rfl)⟩
    | ok u =>
      obtain ⟨h3, h4⟩ := release_asks ni' msg
      refine ⟨hlearn.trans h3, fun x => ?_⟩
      rw [h2] at h4
      exact h4 x

theorem sendDatagram_asks (ni : NetworkInterface) (dgram : IPv4Datagram) (nextHop : UInt32) :
    Asks ni (ni.sendDatagram dgram nextHop).2 (ni.asks (.send dgram nextHop)) ∧
    ∀ x, (ni.sendDatagram dgram nextHop).2.arpRequestTimers.lookup x =
      if x ∈ ni.asks (.send dgram nextHop) then some 5000 else ni.arpRequestTimers.lookup x := by
  have hasks : ni.asks (.send dgram nextHop) =
      if ni.live nextHop = none ∧ ni.due nextHop = true then [nextHop] else [] := rfl
  rw [hasks]
  unfold sendDatagram
  cases hl : ni.live nextHop with
  | some entry =>
    simp only [reduceCtorEq, false_and, ↓reduceIte, List.not_mem_nil]
    cases hf : ni.ipv4Frame entry.ethernetAddress dgram with
    | error e => exact ⟨Asks.of_eq rfl, fun x => rfl⟩
    | ok frame =>
      have hpush := asks_push ni frame
      rw [asksFor_ipv4 (ipv4Frame_header hf).2] at hpush
      exact ⟨hpush, fun x => rfl⟩
  | none =>
    set waiting : NetworkInterface :=
      { ni with pendingDatagrams := ni.pendingDatagrams.insert nextHop (ni.pending nextHop ++ [dgram]) }
    have hdue : waiting.due nextHop = ni.due nextHop := rfl
    simp only [hdue, true_and]
    by_cases hd : ni.due nextHop = true
    · obtain ⟨h1, h2⟩ := request_asks waiting nextHop
      simp only [hd, ↓reduceIte, List.mem_singleton]
      exact ⟨h1, h2⟩
    · simp only [hd, Bool.false_eq_true, ↓reduceIte, List.not_mem_nil]
      exact ⟨Asks.of_eq rfl, fun x => rfl⟩

/-- The loop asks once for each address that wants it. -/
theorem resend_asks {order : List UInt32} (hnodup : order.Nodup) (ni : NetworkInterface) :
    Asks ni (ni.resend order).2 (order.filter ni.wanting) ∧
    ∀ x, (ni.resend order).2.arpRequestTimers.lookup x =
      if x ∈ order.filter ni.wanting then some 5000 else ni.arpRequestTimers.lookup x := by
  induction order generalizing ni with
  | nil => exact ⟨Asks.of_eq rfl, fun x => by simp [resend]⟩
  | cons ip ips ih =>
    obtain ⟨hip, hips⟩ := List.nodup_cons.mp hnodup
    unfold resend
    by_cases hw : ni.wanting ip = true
    · rw [if_pos (of_decide_eq_true hw), List.filter_cons_of_pos hw]
      obtain ⟨frame, -, heq⟩ := request_spec ni ip
      obtain ⟨h1, h2⟩ := request_asks ni ip
      rw [heq] at h1 h2 ⊢
      dsimp only at h1 h2 ⊢
      set asked : NetworkInterface := { ni.push frame with arpRequestTimers := ni.arpRequestTimers.insert ip 5000 }
      have hsame : ips.filter asked.wanting = ips.filter ni.wanting := by
        apply List.filter_congr
        intro x hx
        have hne : x ≠ ip := fun hc => hip (hc ▸ hx)
        have hdue : asked.due x = ni.due x := by
          unfold due
          rw [h2, if_neg hne]
        show decide (ni.pending x ≠ [] ∧ asked.due x = true) = _
        rw [hdue]
        rfl
      obtain ⟨h3, h4⟩ := ih hips asked
      rw [hsame] at h3 h4
      refine ⟨h1.trans h3, fun x => ?_⟩
      rw [h4, h2]
      by_cases hx : x = ip <;> simp [hx]
    · rw [if_neg (of_decide_eq_false (Bool.not_eq_true _ ▸ hw)), List.filter_cons_of_neg hw]
      exact ih hips ni

theorem tick_asks {ms : ℕ} {order : List UInt32} (hnodup : order.Nodup) (ni : NetworkInterface) :
    Asks ni (ni.tick ms order).2 (ni.asks (.tick ms order)) ∧
    ∀ x, (ni.tick ms order).2.arpRequestTimers.lookup x =
      if x ∈ ni.asks (.tick ms order) then some 5000 else (ni.arpRequestTimers.lookup x).map (· - ms) := by
  obtain ⟨h1, h2⟩ := resend_asks hnodup (ni.expire ms)
  have hold : Asks ni (ni.expire ms) [] := Asks.of_eq rfl
  have htimer : ∀ x, (ni.expire ms).arpRequestTimers.lookup x = (ni.arpRequestTimers.lookup x).map (· - ms) := by
    intro x
    show (Table.filterMap _ ni.arpRequestTimers).lookup x = _
    rw [Table.lookup_filterMap]
    cases ni.arpRequestTimers.lookup x with
    | none => rfl
    | some timer =>
      show some (if timer ≤ ms then 0 else timer - ms) = some (timer - ms)
      split_ifs with h
      · rw [Nat.sub_eq_zero_of_le h]
      · rfl
  refine ⟨hold.trans h1, fun x => ?_⟩
  rw [← htimer]
  exact h2 x

/-- Every step asks for what `asks` says. -/
theorem step_asks {op : Op} (hs : step ni op = some ni') : requests ni ni' = ni.asks op := by
  apply Asks.requests
  cases op with
  | send dgram nextHop =>
    obtain rfl := Option.some.inj hs
    exact (sendDatagram_asks ni dgram nextHop).1
  | recv frame =>
    obtain rfl := Option.some.inj hs
    rcases recvFrame_cases ni frame with ⟨msg, -, heq⟩ | ⟨-, heq⟩
    · rw [heq]
      exact (recvARP_asks ni msg).1
    · rw [heq]
      exact Asks.of_eq rfl
  | tick ms order =>
    simp only [step] at hs
    split_ifs at hs with hperm
    obtain rfl := Option.some.inj hs
    exact (tick_asks (hperm.nodup_iff.mpr ni.pendingDatagrams.nodupKeys) ni).1

/-! ### The clocks -/

/-- The time a call takes. -/
def Op.ms : Op → ℕ
  | .tick ms _ => ms
  | .send _ _ => 0
  | .recv _ => 0

/-- The Ethernet address that an accepted ARP message from `x` gives. -/
def announced (ni : NetworkInterface) (x : UInt32) : Op → Option EthernetAddress
  | .recv frame => (ni.arpMessage frame).bind fun msg =>
      if msg.senderIpAddress = x then some msg.senderEthernetAddress else none
  | .send _ _ => none
  | .tick _ _ => none

/-- An interface beside two clocks for each address: what its last ARP message
announced and the time since then, and the time since the last request. -/
structure Timed where
  ni : NetworkInterface
  heard : UInt32 → Option (EthernetAddress × ℕ)
  asked : UInt32 → Option ℕ

namespace Timed

def init (eth : EthernetAddress) (ip : UInt32) : Timed where
  ni := NetworkInterface.init eth ip
  heard := fun _ => none
  asked := fun _ => none

def step (g : Timed) (op : Op) : Option Timed := (NetworkInterface.step g.ni op).map fun ni =>
  { ni
    heard := fun x => match announced g.ni x op with
      | some a => some (a, 0)
      | none => (g.heard x).map fun h => (h.1, h.2 + op.ms)
    asked := fun x => if x ∈ requests g.ni ni then some 0 else (g.asked x).map (· + op.ms) }

/-- The clocks do not change what the interface does. -/
theorem run_ni (eth : EthernetAddress) (ip : UInt32) (ops : List Op) :
    (run step (init eth ip) ops).map Timed.ni = run NetworkInterface.step (NetworkInterface.init eth ip) ops := by
  apply run_map
  intro g op
  unfold step
  cases NetworkInterface.step g.ni op <;> rfl

end Timed

/-- The table and the timers show the clocks, a datagram that waits has a
timer, and a timer that is missing ended with an ARP message. -/
structure Paced (g : Timed) : Prop where
  table : ∀ x, g.ni.arpTable.lookup x =
    (g.heard x).bind fun h => if h.2 < 30000 then some ⟨h.1, 30000 - h.2⟩ else none
  timer : ∀ x t, g.ni.arpRequestTimers.lookup x = some t → ∃ age, g.asked x = some age ∧ t = 5000 - age
  waiting : ∀ x, g.ni.pending x ≠ [] → (g.ni.arpRequestTimers.lookup x).isSome = true
  ended : ∀ x age, g.ni.arpRequestTimers.lookup x = none → g.asked x = some age →
    ∃ a age', g.heard x = some (a, age') ∧ age' ≤ age

variable {g g' : Timed}

theorem init_paced (eth : EthernetAddress) (ip : UInt32) : Paced (Timed.init eth ip) where
  table := fun _ => rfl
  timer := fun _ _ h => by cases h
  waiting := fun _ h => absurd rfl h
  ended := fun _ _ _ h => by cases h

/-- An entry is alive. -/
theorem Paced.live (h : Paced g) (x : UInt32) : g.ni.live x = g.ni.arpTable.lookup x := by
  unfold NetworkInterface.live
  rw [h.table]
  cases g.heard x with
  | none => rfl
  | some heard =>
    simp only [Option.bind_some]
    split_ifs with hage
    · simp [hage]
    · rfl

theorem due_iff (ni : NetworkInterface) (x : UInt32) :
    ni.due x = true ↔ ∀ t, ni.arpRequestTimers.lookup x = some t → t = 0 := by
  unfold due
  cases ni.arpRequestTimers.lookup x <;> simp

/-! ### What a step does to the table and the timers -/

theorem announced_of_message {frame : EthernetFrame} {msg : ARPMessage} (h : ni.arpMessage frame = some msg)
    (x : UInt32) : announced ni x (.recv frame) =
      if msg.senderIpAddress = x then some msg.senderEthernetAddress else none := by
  simp [announced, h]

/-- An ARP message makes a new entry, the others get older. -/
theorem step_table {op : Op} (h : ∀ x e, ni.arpTable.lookup x = some e → 0 < e.ttl) (hs : step ni op = some ni')
    (x : UInt32) : ni'.arpTable.lookup x = match announced ni x op with
      | some a => some ⟨a, 30000⟩
      | none => (ni.arpTable.lookup x).bind fun e =>
          if e.ttl ≤ op.ms then none else some { e with ttl := e.ttl - op.ms } := by
  have hkeep : (ni.arpTable.lookup x).bind (fun e => if e.ttl ≤ 0 then none else some { e with ttl := e.ttl - 0 }) =
      ni.arpTable.lookup x := by
    cases he : ni.arpTable.lookup x with
    | none => rfl
    | some e =>
      have hpos := h x e he
      rw [Option.bind_some, if_neg (by omega)]
      rfl
  cases op with
  | send dgram nextHop =>
    obtain rfl := Option.some.inj hs
    exact (congrArg _ (sendDatagram_spec ni dgram nextHop).2.1).trans hkeep.symm
  | recv frame =>
    obtain rfl := Option.some.inj hs
    rcases recvFrame_cases ni frame with ⟨msg, hmsg, heq⟩ | ⟨hmsg, heq⟩
    · rw [heq, announced_of_message hmsg]
      show (ni.recvARP msg).2.arpTable.lookup x = _
      rw [(recvARP_spec ni msg).arpTable]
      by_cases hx : msg.senderIpAddress = x
      · subst hx
        simp
      · rw [if_neg hx, AList.lookup_insert_ne (Ne.symm hx)]
        exact hkeep.symm
    · have hnone : announced ni x (.recv frame) = none := by simp [announced, hmsg]
      rw [heq, hnone]
      exact hkeep.symm
  | tick ms order =>
    simp only [step] at hs
    split_ifs at hs
    obtain rfl := Option.some.inj hs
    rw [(tick_spec ni ms order).2.2.1]
    exact Table.lookup_filterMap _ _ _

/-- A request sets the timer, else it gets older; or an ARP message ends it,
and what waited is gone. -/
theorem step_timers {op : Op} (hs : step ni op = some ni') (x : UInt32) :
    (ni'.arpRequestTimers.lookup x = if x ∈ ni.asks op then some 5000 else
      (ni.arpRequestTimers.lookup x).map (· - op.ms)) ∨
    (∃ a, announced ni x op = some a) ∧ x ∉ ni.asks op ∧ ni'.arpRequestTimers.lookup x = none ∧
      ni'.pending x = [] := by
  have hkeep : (ni.arpRequestTimers.lookup x).map (· - 0) = ni.arpRequestTimers.lookup x := by
    cases ni.arpRequestTimers.lookup x <;> rfl
  cases op with
  | send dgram nextHop =>
    obtain rfl := Option.some.inj hs
    left
    rw [(sendDatagram_asks ni dgram nextHop).2]
    exact congrArg _ hkeep.symm
  | recv frame =>
    obtain rfl := Option.some.inj hs
    have hno : x ∉ ni.asks (.recv frame) := List.not_mem_nil
    rw [if_neg hno]
    rcases recvFrame_cases ni frame with ⟨msg, hmsg, heq⟩ | ⟨hmsg, heq⟩
    · rw [heq]
      rcases (recvARP_asks ni msg).2 x with hsame | ⟨hx, hnone, hnil⟩
      · exact Or.inl (hsame.trans hkeep.symm)
      · refine Or.inr ⟨⟨msg.senderEthernetAddress, ?_⟩, hno, hnone, hnil⟩
        rw [announced_of_message hmsg, if_pos hx.symm]
    · rw [heq]
      exact Or.inl hkeep.symm
  | tick ms order =>
    simp only [step] at hs
    split_ifs at hs with hperm
    obtain rfl := Option.some.inj hs
    exact Or.inl ((tick_asks (hperm.nodup_iff.mpr ni.pendingDatagrams.nodupKeys) ni).2 x)

/-- Only a call of `send_datagram` makes a queue. -/
theorem step_queue {op : Op} (hs : step ni op = some ni') {x : UInt32} (hne : ni'.pending x ≠ []) :
    ni.pending x ≠ [] ∨ ∃ dgram, op = .send dgram x ∧ ni.live x = none := by
  cases op with
  | send dgram nextHop =>
    obtain rfl := Option.some.inj hs
    rcases sendDatagram_cases ni dgram nextHop with ⟨entry, frame, -, -, -, heq⟩ | ⟨entry, e, -, -, heq⟩ |
      ⟨hl, ni', heq, -, -, hpend⟩
    · rw [heq] at hne
      exact Or.inl hne
    · rw [heq] at hne
      exact Or.inl hne
    · rw [heq] at hne
      by_cases hx : x = nextHop
      · subst hx
        exact Or.inr ⟨dgram, rfl, hl⟩
      · have hsame := hpend x
        rw [if_neg hx] at hsame
        exact Or.inl (hsame ▸ hne)
  | recv frame =>
    obtain rfl := Option.some.inj hs
    rcases recvFrame_cases ni frame with ⟨msg, -, heq⟩ | ⟨-, heq⟩
    · rw [heq] at hne
      change (ni.recvARP msg).2.pending x ≠ [] at hne
      rw [(recvARP_spec ni msg).pending] at hne
      split_ifs at hne
      · exact absurd rfl hne
      · exact Or.inl hne
    · rw [heq] at hne
      exact Or.inl hne
  | tick ms order =>
    simp only [step] at hs
    split_ifs at hs
    obtain rfl := Option.some.inj hs
    rw [(tick_spec ni ms order).2.2.2] at hne
    exact Or.inl hne

/-! ### The clocks and the interface -/

theorem Timed.step_eq {op : Op} (hs : Timed.step g op = some g') : NetworkInterface.step g.ni op = some g'.ni ∧
    (∀ x, g'.heard x = match announced g.ni x op with
      | some a => some (a, 0)
      | none => (g.heard x).map fun h => (h.1, h.2 + op.ms)) ∧
    ∀ x, g'.asked x = if x ∈ g.ni.asks op then some 0 else (g.asked x).map (· + op.ms) := by
  obtain ⟨ni', hni, rfl⟩ := Option.map_eq_some_iff.mp hs
  refine ⟨hni, fun x => rfl, fun x => ?_⟩
  rw [← step_asks hni]

theorem step_paced {op : Op} (h : Paced g) (hs : Timed.step g op = some g') : Paced g' := by
  obtain ⟨hni, hheard, hasked⟩ := Timed.step_eq hs
  have halive : ∀ x e, g.ni.arpTable.lookup x = some e → 0 < e.ttl := by
    intro x e he
    rw [h.table] at he
    obtain ⟨heard, -, hif⟩ := Option.bind_eq_some_iff.mp he
    split_ifs at hif with hage
    obtain rfl := Option.some.inj hif
    exact Nat.sub_pos_of_lt hage
  constructor
  · intro x
    rw [step_table halive hni, hheard]
    cases announced g.ni x op with
    | some a => simp
    | none =>
      rw [h.table]
      cases g.heard x with
      | none => rfl
      | some heard =>
        simp only [Option.bind_some, Option.map_some]
        split_ifs with h1 h2 h2
        · simp only [Option.bind_some]
          rw [if_neg (by omega), Nat.sub_sub]
        · simp only [Option.bind_some]
          rw [if_pos (by omega)]
        · omega
        · rfl
  · intro x t ht
    rw [hasked]
    rcases step_timers hni x with hx | ⟨-, -, hnone, -⟩
    · rw [hx] at ht
      split_ifs at ht ⊢ with hmem
      · exact ⟨0, rfl, (Option.some.inj ht).symm⟩
      · obtain ⟨t₀, ht₀, rfl⟩ := Option.map_eq_some_iff.mp ht
        obtain ⟨age, hage, rfl⟩ := h.timer x t₀ ht₀
        exact ⟨age + op.ms, by rw [hage]; rfl, Nat.sub_sub _ _ _⟩
    · rw [hnone] at ht
      cases ht
  · intro x hne
    rcases step_timers hni x with hx | ⟨-, -, -, hnil⟩
    · rw [hx]
      split_ifs with hmem
      · rfl
      · rw [Option.isSome_map]
        rcases step_queue hni hne with hold | ⟨dgram, rfl, hl⟩
        · exact h.waiting x hold
        · by_contra hnone
          apply hmem
          have hdue : g.ni.due x = true := by
            rw [due_iff]
            intro t ht
            rw [ht] at hnone
            exact absurd rfl hnone
          simp [asks, hl, hdue]
    · exact absurd hnil hne
  · intro x age hnone hage
    rw [hasked] at hage
    rw [hheard]
    have hno : x ∉ g.ni.asks op := by
      rcases step_timers hni x with hx | ⟨-, hno, -, -⟩
      · intro hmem
        rw [hx, if_pos hmem] at hnone
        cases hnone
      · exact hno
    rw [if_neg hno] at hage
    obtain ⟨age₀, hage₀, rfl⟩ := Option.map_eq_some_iff.mp hage
    cases ha : announced g.ni x op with
    | some a => exact ⟨a, 0, rfl, Nat.zero_le _⟩
    | none =>
      rcases step_timers hni x with hx | ⟨⟨a, ha'⟩, -, -, -⟩
      · rw [hx, if_neg hno, Option.map_eq_none_iff] at hnone
        obtain ⟨a, age', hheard', hle⟩ := h.ended x age₀ hnone hage₀
        exact ⟨a, age' + op.ms, by rw [hheard']; rfl, Nat.add_le_add_right hle _⟩
      · rw [ha] at ha'
        cases ha'

/-! ### Along a run -/

theorem run_paced (eth : EthernetAddress) (ip : UInt32) {ops : List Op}
    (hr : run Timed.step (Timed.init eth ip) ops = some g) : Paced g :=
  run_invariant (I := Paced) (fun _ _ _ h hs => step_paced h hs) (init_paced eth ip) hr

/-- With datagrams waiting, the timer is at zero once 5 s have passed. -/
theorem Paced.wanting_iff (h : Paced g) {x : UInt32} (hne : g.ni.pending x ≠ []) (ms : ℕ) :
    ∃ age, g.asked x = some age ∧ ((g.ni.expire ms).wanting x = true ↔ 5000 ≤ age + ms) := by
  obtain ⟨t, ht⟩ := Option.isSome_iff_exists.mp (h.waiting x hne)
  obtain ⟨age, hage, rfl⟩ := h.timer x t ht
  refine ⟨age, hage, ?_⟩
  have htimer : (g.ni.expire ms).arpRequestTimers.lookup x = some (5000 - age - ms) := by
    show (Table.filterMap _ g.ni.arpRequestTimers).lookup x = _
    rw [Table.lookup_filterMap, ht]
    show some (if 5000 - age ≤ ms then 0 else 5000 - age - ms) = some _
    split_ifs
    · congr 1
      omega
    · rfl
  have hpend : (g.ni.expire ms).pending x ≠ [] := hne
  unfold wanting
  rw [decide_eq_true_iff, due_iff, htimer]
  simp only [hpend, ne_eq, not_false_eq_true, true_and, Option.some.injEq, forall_eq']
  omega

/-- Who asks again waits 5 s: the timer ran out, or an ARP message ended it and
has been forgotten since. -/
theorem Paced.asks_gap (h : Paced g) {op : Op} {x : UInt32} {age : ℕ} (hmem : x ∈ g.ni.asks op)
    (hage : g.asked x = some age) : 5000 ≤ age + op.ms := by
  cases op with
  | send dgram nextHop =>
    simp only [asks] at hmem
    split_ifs at hmem with hcond
    · obtain rfl := List.mem_singleton.mp hmem
      obtain ⟨hl, hdue⟩ := hcond
      show 5000 ≤ age + 0
      cases ht : g.ni.arpRequestTimers.lookup x with
      | some t =>
        obtain ⟨age', hage', heq⟩ := h.timer x t ht
        have hzero := (due_iff g.ni x).mp hdue t ht
        obtain rfl := Option.some.inj (hage.symm.trans hage')
        omega
      | none =>
        obtain ⟨a, heard, hheard, hle⟩ := h.ended x age ht hage
        rw [h.live, h.table, hheard, Option.bind_some] at hl
        split_ifs at hl with hold
        dsimp only at hold
        omega
    · cases hmem
  | recv frame => cases hmem
  | tick ms order =>
    have hwant := (List.mem_filter.mp hmem).2
    have hne : g.ni.pending x ≠ [] := (of_decide_eq_true hwant).1
    obtain ⟨age', hage', hiff⟩ := h.wanting_iff hne ms
    obtain rfl := Option.some.inj (hage.symm.trans hage')
    exact hiff.mp hwant

theorem asks_nodup {op : Op} (hs : step ni op = some ni') : (ni.asks op).Nodup := by
  cases op with
  | send dgram nextHop =>
    simp only [asks]
    split_ifs <;> simp
  | recv frame => exact List.nodup_nil
  | tick ms order =>
    simp only [step] at hs
    split_ifs at hs with hperm
    apply List.Nodup.filter
    exact hperm.nodup_iff.mpr ni.pendingDatagrams.nodupKeys

/-- **Requests for an address are 5 s apart**, and while a datagram waits for
it the first tick that completes the 5 s sends the next one. -/
theorem request_pace (eth : EthernetAddress) (ip : UInt32) {ops : List Op} {op : Op}
    (hr : run Timed.step (Timed.init eth ip) ops = some g) (hs : Timed.step g op = some g') (x : UInt32) :
    (requests g.ni g'.ni).count x ≤ 1 ∧
    (x ∈ requests g.ni g'.ni → ∀ age, g.asked x = some age → 5000 ≤ age + op.ms) ∧
    ∀ ms order, op = .tick ms order → g.ni.pending x ≠ [] →
      ∃ age, g.asked x = some age ∧ (x ∈ requests g.ni g'.ni ↔ 5000 ≤ age + ms) := by
  have h := run_paced eth ip hr
  obtain ⟨hni, -, -⟩ := Timed.step_eq hs
  rw [step_asks hni]
  refine ⟨List.nodup_iff_count_le_one.mp (asks_nodup hni) x, fun hmem age => h.asks_gap hmem, ?_⟩
  intro ms order hop hne
  subst hop
  obtain ⟨age, hage, hiff⟩ := h.wanting_iff hne ms
  refine ⟨age, hage, ?_⟩
  rw [← hiff]
  show x ∈ order.filter _ ↔ _
  rw [List.mem_filter, and_iff_right]
  simp only [NetworkInterface.step] at hni
  split_ifs at hni with hperm
  apply hperm.mem_iff.mpr
  apply AList.lookup_isSome.mp
  rw [Option.isSome_iff_ne_none]
  intro hnone
  apply hne
  unfold pending
  rw [hnone]
  rfl

/-- A datagram waits for 9, and 5 s less 1 ms pass. -/
def waitRun : List Op := [.send { header := { len := 21 }, payload := [[7]] } 9, .tick 4999 [9]]

theorem waitRun_some : (run Timed.step (Timed.init (Vector.replicate 6 1) 5) waitRun).isSome = true := by
  decide +kernel

theorem request_pace_wait : ∃ g g', run Timed.step (Timed.init (Vector.replicate 6 1) 5) waitRun = some g ∧
    Timed.step g (.tick 1 [9]) = some g' ∧ g.asked 9 = some 4999 ∧ 9 ∈ requests g.ni g'.ni := by
  have hrun := (Option.some_get waitRun_some).symm
  have hsome : (Timed.step ((run Timed.step (Timed.init (Vector.replicate 6 1) 5) waitRun).get waitRun_some)
      (.tick 1 [9])).isSome = true := by decide +kernel
  have hstep := (Option.some_get hsome).symm
  obtain ⟨age, hage, hiff⟩ := (request_pace _ _ hrun hstep 9).2.2 1 [9] rfl (by decide +kernel)
  have hasked : ((run Timed.step (Timed.init (Vector.replicate 6 1) 5) waitRun).get waitRun_some).asked 9 =
      some 4999 := by decide +kernel
  obtain rfl := Option.some.inj (hasked.symm.trans hage)
  exact ⟨_, _, hrun, hstep, hasked, hiff.mpr (by decide)⟩

/-- The frame has the address that its next hop last announced, less than 30 s ago. -/
def Fresh (g : Timed) (frame : EthernetFrame) (e : Emission) : Prop :=
  g.ni.IsFrame frame e ∧ frame.header.dst = e.dst ∧ ∃ age, g.heard e.nextHop = some (e.dst, age) ∧ age < 30000

theorem emitted_fresh {op : Op} (h : Paced g) (hs : Timed.step g op = some g') :
    ∀ e ∈ g.ni.emitted op, ∃ age, g'.heard e.nextHop = some (e.dst, age) ∧ age < 30000 := by
  obtain ⟨-, hheard, -⟩ := Timed.step_eq hs
  intro e he
  cases op with
  | send dgram nextHop =>
    simp only [emitted] at he
    cases hl : g.ni.live nextHop with
    | none =>
      rw [hl] at he
      cases he
    | some entry =>
      simp only [hl] at he
      split_ifs at he
      · obtain rfl := List.mem_singleton.mp he
        rw [h.live, h.table] at hl
        obtain ⟨heard, hold, hif⟩ := Option.bind_eq_some_iff.mp hl
        split_ifs at hif with hage
        obtain rfl := Option.some.inj hif
        exact ⟨heard.2, by rw [hheard, hold]; rfl, hage⟩
      · cases he
  | recv frame =>
    simp only [emitted] at he
    cases hmsg : g.ni.arpMessage frame with
    | none =>
      rw [hmsg] at he
      cases he
    | some msg =>
      simp only [hmsg] at he
      obtain ⟨dgram, -, rfl⟩ := List.mem_map.mp he
      refine ⟨0, ?_, by decide⟩
      rw [hheard, announced_of_message hmsg, if_pos rfl]
  | tick ms order => cases he

/-- **A datagram goes where its next hop was last heard, less than 30 s ago**,
and at once while that is so. -/
theorem arp_fresh (eth : EthernetAddress) (ip : UInt32) {ops : List Op} {op : Op}
    (hops : ∀ o ∈ ops ++ [op], Serializable o) (hr : run Timed.step (Timed.init eth ip) ops = some g)
    (hs : Timed.step g op = some g') :
    (∃ new, g'.ni.framesOut = g.ni.framesOut ++ new ∧
      List.Forall₂ (Fresh g') (new.filter isIPv4) (g.ni.emitted op)) ∧
    (∀ x, emittedTo x (g.ni.emitted op) ++ g'.ni.pending x = g.ni.pending x ++ sentTo x op) ∧
    ∀ dgram x a age, op = .send dgram x → g.heard x = some (a, age) → age < 30000 →
      ∃ frame, g'.ni = g.ni.push frame ∧ Fresh g' frame ⟨x, dgram, a⟩ ∧ isIPv4 frame = true := by
  have h := run_paced eth ip hr
  obtain ⟨hni, hheard, -⟩ := Timed.step_eq hs
  have hfresh := emitted_fresh h hs
  have hem := step_emits hni
  refine ⟨?_, ?_, ?_⟩
  · obtain ⟨new, hout, hframes, -⟩ := hem.frames
    have hboth := (List.forall₂_and_left _ _).mpr ⟨hfresh, hframes.flip⟩
    refine ⟨new, hout, List.Forall₂.flip (hboth.imp ?_)⟩
    intro e frame hf
    exact ⟨isFrame_congr hem.eth ▸ hf.2, (ipv4Frame_header hf.2).1, hf.1⟩
  · have hrun : run step (NetworkInterface.init eth ip) ops = some g.ni := by
      rw [← Timed.run_ni, hr]
      rfl
    have hops₀ : ∀ o ∈ ops, Serializable o := fun o ho => hops o (List.mem_append_left _ ho)
    have hq := (run_conserves hops₀ (init_queued eth ip) hrun).1
    exact step_conserves (hops op (by simp)) hq hni
  · intro dgram x a age hop hh hage
    subst hop
    have hser : dgram.serializable = true := hops _ (List.mem_append_right _ List.mem_cons_self)
    have hl : g.ni.live x = some ⟨a, 30000 - age⟩ := by
      rw [h.live, h.table, hh, Option.bind_some, if_pos hage]
    rcases sendDatagram_cases g.ni dgram x with ⟨entry, frame, hentry, -, hf, heq⟩ | ⟨entry, e, -, hd, -⟩ | ⟨hnone, -⟩
    · obtain rfl := Option.some.inj (hl.symm.trans hentry)
      have hpush : g'.ni = g.ni.push frame := by
        have hcall : (g.ni.sendDatagram dgram x).2 = g'.ni := Option.some.inj hni
        rw [← hcall, heq]
      obtain ⟨hdst, htype⟩ := ipv4Frame_header hf
      refine ⟨frame, hpush, ⟨isFrame_congr hem.eth ▸ hf, hdst, age, ?_, hage⟩, htype⟩
      rw [hheard, hh]
      rfl
    · exact absurd (hd.symm.trans hser) Bool.false_ne_true
    · rw [hl] at hnone
      cases hnone

/-- 9 is heard of, and 30 s less 1 ms pass. -/
def heardRun : List Op :=
  let reply : ARPMessage :=
    { opcode := ARPMessage.opcodeReply, senderEthernetAddress := Vector.replicate 6 2, senderIpAddress := 9 }
  [.recv { header := { dst := Vector.replicate 6 1, type := EthernetHeader.typeARP }, payload := [reply.unparse] },
    .tick 29999 []]

theorem heardRun_some : (run Timed.step (Timed.init (Vector.replicate 6 1) 5) heardRun).isSome = true := by
  decide +kernel

theorem arp_fresh_heard : ∃ g g' frame, run Timed.step (Timed.init (Vector.replicate 6 1) 5) heardRun = some g ∧
    Timed.step g (.send { header := { len := 21 }, payload := [[7]] } 9) = some g' ∧
    g'.ni = g.ni.push frame ∧ frame.header.dst = Vector.replicate 6 2 := by
  have hrun := (Option.some_get heardRun_some).symm
  have hsome : (Timed.step ((run Timed.step (Timed.init (Vector.replicate 6 1) 5) heardRun).get heardRun_some)
      (.send { header := { len := 21 }, payload := [[7]] } 9)).isSome = true := by decide +kernel
  have hstep := (Option.some_get hsome).symm
  have hheard : ((run Timed.step (Timed.init (Vector.replicate 6 1) 5) heardRun).get heardRun_some).heard 9 =
      some (Vector.replicate 6 2, 29999) := by decide +kernel
  have hops : ∀ o ∈ heardRun ++ [.send { header := { len := 21 }, payload := [[7]] } 9], Serializable o := by
    decide +kernel
  obtain ⟨frame, hpush, hfresh, -⟩ := (arp_fresh _ _ hops hrun hstep).2.2 _ 9 _ _ rfl hheard (by decide)
  exact ⟨_, _, frame, hrun, hstep, hpush, hfresh.2.1⟩

end NetworkInterface
end Sponge

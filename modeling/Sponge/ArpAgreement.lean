/-
# A network of interfaces agrees on addresses

Any number of interfaces, and a link that delivers to any of them the bytes of
any frame that one of them has sent, as often and as late as it likes. Every
ARP message on the link tells the truth about the interface it is from, so
every entry of every table does, and every datagram is addressed to the
interface that owns its next hop.

Key definitions: `ArpNetwork.step`, `ArpNetwork.Truthful`.
Key theorems: `ArpNetwork.step_truthful`, `ArpNetwork.arp_agreement`.
-/
import Mathlib.Logic.Function.Basic
import Sponge.NetworkInterface

namespace Sponge
namespace ArpNetwork

open NetworkInterface Runs

variable {ι : Type}

/-- A call of an interface by its owner, or frame `k` that `j` sent reaches `i`. -/
inductive Op (ι : Type) where
  | send (i : ι) (dgram : IPv4Datagram) (nextHop : UInt32)
  | tick (i : ι) (ms : ℕ) (order : List UInt32)
  | deliver (j : ι) (k : ℕ) (i : ι)

def init (eth : ι → EthernetAddress) (ip : ι → UInt32) (i : ι) : NetworkInterface :=
  NetworkInterface.init (eth i) (ip i)

/-- A frame as it is parsed from its bytes. -/
def overWire (frame : EthernetFrame) : Option EthernetFrame :=
  match EthernetFrame.parse {} frame.serialize.concatenate with
  | (.noError, frame) => some frame
  | _ => none

/-- The interface that acts, and its call. -/
def call (net : ι → NetworkInterface) : Op ι → Option (ι × NetworkInterface.Op)
  | .send i dgram nextHop => some (i, .send dgram nextHop)
  | .tick i ms order => some (i, .tick ms order)
  | .deliver j k i => (net j).framesOut[k]?.bind fun frame => (overWire frame).map fun frame => (i, .recv frame)

def step [DecidableEq ι] (net : ι → NetworkInterface) (op : Op ι) : Option (ι → NetworkInterface) :=
  (call net op).bind fun c => (NetworkInterface.step (net c.1) c.2).map (Function.update net c.1)

/-- The datagrams a step sends, each with its interface. -/
def emitted (net : ι → NetworkInterface) (op : Op ι) : List (ι × Emission) :=
  match call net op with
  | some c => ((net c.1).emitted c.2).map (Prod.mk c.1)
  | none => []

/-- What an interface sent, of the log of all. -/
def sentBy [DecidableEq ι] (i : ι) (log : List (ι × Emission)) : List Emission :=
  (log.filter fun e => e.1 = i).map Prod.snd

/-! ### The truth on the link -/

/-- Some interface has this address and this Ethernet address. -/
def Own (eth : ι → EthernetAddress) (ip : ι → UInt32) (x : UInt32) (a : EthernetAddress) : Prop :=
  ∃ j, ip j = x ∧ eth j = a

structure Truthful (eth : ι → EthernetAddress) (ip : ι → UInt32) (net : ι → NetworkInterface) : Prop where
  ethernet : ∀ i, (net i).ethernetAddress = eth i
  address : ∀ i, (net i).ipAddress = ip i
  frames : ∀ i, ∀ frame ∈ (net i).framesOut, isIPv4 frame = true ∨ (net i).OwnARP frame
  tables : ∀ i x e, (net i).arpTable.lookup x = some e → Own eth ip x e.ethernetAddress

variable {eth : ι → EthernetAddress} {ip : ι → UInt32} {net net' : ι → NetworkInterface}

theorem init_truthful (eth : ι → EthernetAddress) (ip : ι → UInt32) : Truthful eth ip (init eth ip) where
  ethernet := fun _ => rfl
  address := fun _ => rfl
  frames := fun i frame h => by cases h
  tables := fun i x e h => by cases h

theorem overWire_eq (frame : EthernetFrame) :
    overWire frame = some { header := frame.header, payload := [frame.payload.concatenate] } := by
  unfold overWire
  rw [EthernetFrame.parse_serialize]

/-- The ARP message that an interface takes from a delivered frame is from the
interface that sent the frame. -/
theorem Truthful.message (h : Truthful eth ip net) {i j : ι} {frame : EthernetFrame} {msg : ARPMessage}
    (hf : frame ∈ (net j).framesOut)
    (hm : (net i).arpMessage { header := frame.header, payload := [frame.payload.concatenate] } = some msg) :
    Own eth ip msg.senderIpAddress msg.senderEthernetAddress := by
  unfold arpMessage at hm
  split_ifs at hm with htype
  rcases h.frames j frame hf with h4 | ⟨dst, own, hs, h1, h2, hown⟩
  · have h5 : frame.header.type = EthernetHeader.typeIPv4 := by simpa [isIPv4] using h4
    exact absurd (htype.2.symm.trans h5) (by decide)
  · rw [arpFrame_eq _ _ _ hs] at hown
    have hpay : frame.payload.concatenate = own.unparse := by
      rw [← Except.ok.inj hown]
      exact List.append_nil _
    rw [hpay] at hm
    simp only [BufferList.toBuffer, ARPMessage.parse_unparse hs, Option.some.injEq] at hm
    subst hm
    exact ⟨j, (h.address j).symm.trans h2.symm, (h.ethernet j).symm.trans h1.symm⟩

/-- A frame for the Ethernet address of an interface is taken by that one only. -/
theorem Truthful.taken (h : Truthful eth ip net) (heth : Function.Injective eth)
    (hb : ∀ i, eth i ≠ ethernetBroadcast) {frame : EthernetFrame} {j : ι} (hd : frame.header.dst = eth j) (i : ι) :
    (net i).ignores frame = false ↔ i = j := by
  unfold ignores
  rw [hd, h.ethernet i]
  simp only [Bool.and_eq_false_iff, bne_eq_false_iff_eq, hb j, or_false]
  exact ⟨fun he => heth he.symm, fun he => congrArg eth he.symm⟩

/-- An interface learns and sends the truth. -/
theorem Truthful.call (h : Truthful eth ip net) {op : Op ι} {i : ι} {c : NetworkInterface.Op} {ni : NetworkInterface}
    (hc : call net op = some (i, c)) (hs : NetworkInterface.step (net i) c = some ni) :
    (∀ x e, ni.arpTable.lookup x = some e → Own eth ip x e.ethernetAddress) ∧
      ∀ e ∈ (net i).emitted c, Own eth ip e.nextHop e.dst := by
  cases op with
  | send i' dgram nextHop =>
    obtain ⟨rfl, rfl⟩ := Prod.mk.inj (Option.some.inj hc)
    obtain rfl := Option.some.inj hs
    have hlive : ∀ e, (net i').live nextHop = some e → Own eth ip nextHop e.ethernetAddress := by
      intro e he
      exact h.tables i' nextHop e (Option.filter_eq_some_iff.mp he).1
    constructor
    · rcases sendDatagram_cases (net i') dgram nextHop with ⟨_, _, -, -, -, heq⟩ | ⟨_, _, -, -, heq⟩ |
        ⟨-, ni', heq, -, harp, -⟩
      · rw [heq]
        exact h.tables i'
      · rw [heq]
        exact h.tables i'
      · rw [heq, harp]
        exact h.tables i'
    · intro e he
      simp only [NetworkInterface.emitted] at he
      cases hl : (net i').live nextHop with
      | none =>
        rw [hl] at he
        cases he
      | some entry =>
        simp only [hl] at he
        split_ifs at he
        · obtain rfl := List.mem_singleton.mp he
          exact hlive entry hl
        · cases he
  | tick i' ms order =>
    obtain ⟨rfl, rfl⟩ := Prod.mk.inj (Option.some.inj hc)
    simp only [NetworkInterface.step] at hs
    split_ifs at hs
    obtain rfl := Option.some.inj hs
    obtain ⟨-, -, harp, -⟩ := tick_spec (net i') ms order
    refine ⟨fun x e => ?_, fun e he => ?_⟩
    · rw [harp]
      show (Table.filterMap _ (net i').arpTable).lookup x = some e → _
      rw [Table.lookup_filterMap, Option.bind_eq_some_iff]
      rintro ⟨e', he', heq⟩
      split_ifs at heq
      obtain rfl := Option.some.inj heq
      exact h.tables i' x e' he'
    · cases he
  | deliver j k i' =>
    obtain ⟨frame, hk, hw⟩ := Option.bind_eq_some_iff.mp hc
    rw [overWire_eq] at hw
    obtain ⟨rfl, rfl⟩ := Prod.mk.inj (Option.some.inj hw)
    obtain rfl := Option.some.inj hs
    have hmem : frame ∈ (net j).framesOut := List.mem_of_getElem? hk
    rcases recvFrame_cases (net i') { header := frame.header, payload := [frame.payload.concatenate] } with
      ⟨msg, hmsg, heq⟩ | ⟨hmsg, heq⟩
    · have hown := h.message hmem hmsg
      have hr := recvARP_spec (net i') msg
      constructor
      · rw [heq]
        show ∀ x e, ((net i').recvARP msg).2.arpTable.lookup x = some e → _
        rw [hr.arpTable]
        intro x e
        by_cases hx : x = msg.senderIpAddress
        · subst hx
          rw [AList.lookup_insert]
          intro he
          obtain rfl := Option.some.inj he
          exact hown
        · rw [AList.lookup_insert_ne hx]
          exact h.tables i' x e
      · intro e he
        simp only [NetworkInterface.emitted, hmsg, List.mem_map] at he
        obtain ⟨dgram, -, rfl⟩ := he
        exact hown
    · constructor
      · rw [heq]
        exact h.tables i'
      · intro e he
        simp only [NetworkInterface.emitted, hmsg] at he
        cases he

variable [DecidableEq ι]

/-- What a step does to the interface that acts, and what that one sends. -/
theorem step_cases {op : Op ι} (hs : step net op = some net') : ∃ i c ni, call net op = some (i, c) ∧
    NetworkInterface.step (net i) c = some ni ∧ net' = Function.update net i ni := by
  obtain ⟨⟨i, c⟩, h1, h2⟩ := Option.bind_eq_some_iff.mp hs
  obtain ⟨ni, h3, h4⟩ := Option.map_eq_some_iff.mp h2
  exact ⟨i, c, ni, h1, h3, h4.symm⟩

theorem step_truthful {op : Op ι} (h : Truthful eth ip net) (hs : step net op = some net') :
    Truthful eth ip net' := by
  obtain ⟨i, c, ni, hc, hstep, rfl⟩ := step_cases hs
  have hem := step_emits hstep
  obtain ⟨new, hout, -, hnew⟩ := hem.frames
  -- what holds of the interface that acted and of all others, holds of all
  have hall : ∀ {P : ι → NetworkInterface → Prop}, P i ni → (∀ i', P i' (net i')) →
      ∀ i', P i' (Function.update net i ni i') := by
    intro P h1 h2 i'
    by_cases hi : i' = i
    · subst hi
      rw [Function.update_self]
      exact h1
    · rw [Function.update_of_ne hi]
      exact h2 i'
  refine ⟨hall (P := fun i ni => ni.ethernetAddress = eth i) (hem.eth.trans (h.ethernet i)) h.ethernet,
    hall (P := fun i ni => ni.ipAddress = ip i) (hem.ip.trans (h.address i)) h.address,
    hall (P := fun _ ni => ∀ frame ∈ ni.framesOut, isIPv4 frame = true ∨ ni.OwnARP frame) ?_ h.frames,
    hall (P := fun _ ni => ∀ x e, ni.arpTable.lookup x = some e → Own eth ip x e.ethernetAddress) (h.call hc hstep).1
      h.tables⟩
  intro frame hf
  rw [ownARP_congr hem.eth hem.ip]
  rw [hout] at hf
  rcases List.mem_append.mp hf with hf | hf
  · exact h.frames i frame hf
  · exact hnew frame hf

/-! ### Runs -/

/-- What a step puts on the link, for each interface. -/
theorem step_emits {op : Op ι} (hs : step net op = some net') (i : ι) :
    Emits (net i) (net' i) (sentBy i (emitted net op)) := by
  obtain ⟨i', c, ni, hc, hstep, rfl⟩ := step_cases hs
  have hem : emitted net op = ((net i').emitted c).map (Prod.mk i') := by
    unfold emitted
    rw [hc]
  rw [hem]
  unfold sentBy
  by_cases hi : i' = i
  · subst hi
    have hall : (((net i').emitted c).map (Prod.mk i')).filter (fun e => e.1 = i') =
        ((net i').emitted c).map (Prod.mk i') := List.filter_eq_self.mpr (by simp)
    rw [hall, List.map_map, Function.update_self]
    have hid : Prod.snd ∘ Prod.mk i' = (id : Emission → Emission) := rfl
    rw [hid, List.map_id]
    exact NetworkInterface.step_emits hstep
  · have hnone : (((net i').emitted c).map (Prod.mk i')).filter (fun e => e.1 = i) = [] :=
      List.filter_eq_nil_iff.mpr (by simp [hi])
    rw [hnone, Function.update_of_ne (Ne.symm hi)]
    exact Emits.refl _

theorem emitted_own {op : Op ι} (h : Truthful eth ip net) (hs : step net op = some net') :
    ∀ e ∈ emitted net op, Own eth ip e.2.nextHop e.2.dst := by
  obtain ⟨i, c, ni, hc, hstep, -⟩ := step_cases hs
  intro e he
  unfold emitted at he
  rw [hc] at he
  obtain ⟨e', hm, rfl⟩ := List.mem_map.mp he
  exact (h.call hc hstep).2 e' hm

theorem run_truthful {ops : List (Op ι)} (h : Truthful eth ip net) (hr : run step net ops = some net') :
    Truthful eth ip net' ∧ (∀ i, Emits (net i) (net' i) (sentBy i (outputs step emitted net ops))) ∧
      ∀ e ∈ outputs step emitted net ops, Own eth ip e.2.nextHop e.2.dst := by
  refine run_outputs (I := Truthful eth ip) (Q := fun _ => True) (R := fun net net' _ log =>
    (∀ i, Emits (net i) (net' i) (sentBy i log)) ∧ ∀ e ∈ log, Own eth ip e.2.nextHop e.2.dst) ?_ ?_ ?_
    (fun _ _ => trivial) h hr
  · intro net op net' _ h hs
    exact step_truthful h hs
  · intro net _
    refine ⟨fun i => Emits.refl _, fun e he => ?_⟩
    cases he
  · rintro net op net₁ net' ops log - h hs ⟨h1, h2⟩
    refine ⟨fun i => ?_, fun e he => ?_⟩
    · have hsplit : sentBy i (emitted net op ++ log) = sentBy i (emitted net op) ++ sentBy i log := by
        simp [sentBy]
      rw [hsplit]
      exact (step_emits hs i).trans (h1 i)
    · rcases List.mem_append.mp he with he | he
      · exact emitted_own h hs e he
      · exact h2 e he

/-- **Every entry of every table, and the address of every datagram sent, is
that of the interface that owns the IP address.** -/
theorem arp_agreement {eth : ι → EthernetAddress} {ip : ι → UInt32} (hip : Function.Injective ip)
    (heth : Function.Injective eth) (hb : ∀ i, eth i ≠ ethernetBroadcast) {ops : List (Op ι)}
    {net : ι → NetworkInterface} (hr : run step (init eth ip) ops = some net) :
    (∀ i x e, (net i).arpTable.lookup x = some e → ∃ j, ip j = x ∧ (∀ j', ip j' = x → j' = j) ∧
      e.ethernetAddress = eth j) ∧
    ∀ i, let log := sentBy i (outputs step emitted (init eth ip) ops)
      List.Forall₂ (net i).IsFrame ((net i).framesOut.filter isIPv4) log ∧
      ∀ e ∈ log, ∀ frame, (net i).IsFrame frame e → ∃ j, ip j = e.nextHop ∧ (∀ j', ip j' = e.nextHop → j' = j) ∧
        frame.header.dst = eth j ∧ ∀ i', (net i').ignores frame = false ↔ i' = j := by
  obtain ⟨htrue, hem, hown⟩ := run_truthful (init_truthful eth ip) hr
  have huniq : ∀ {x j}, ip j = x → ∀ j', ip j' = x → j' = j := fun h j' h' => hip (h'.trans h.symm)
  refine ⟨fun i x e he => ?_, fun i => ⟨?_, fun e he frame hf => ?_⟩⟩
  · obtain ⟨j, h1, h2⟩ := htrue.tables i x e he
    exact ⟨j, h1, huniq h1, h2.symm⟩
  · obtain ⟨new, hout, hframes, -⟩ := (hem i).frames
    rw [isFrame_congr (hem i).eth, hout]
    exact hframes
  · obtain ⟨e', hm, rfl⟩ := List.mem_map.mp he
    obtain ⟨j, h1, h2⟩ := hown e' (List.mem_of_mem_filter hm)
    obtain ⟨payload, -, rfl⟩ := Result.map_eq_ok.mp hf
    exact ⟨j, h1, huniq h1, h2.symm, fun i' => htrue.taken heth hb h2.symm i'⟩

/-- Two interfaces. -/
def pairEth (b : Bool) : EthernetAddress := Vector.replicate 6 (if b then 2 else 1)

def pairIp (b : Bool) : UInt32 := if b then 9 else 5

/-- One asks for the other, which answers; the datagram goes out. -/
def pairRun : List (Op Bool) :=
  [.send false { header := { len := 21 }, payload := [[7]] } 9, .deliver false 0 true, .deliver true 0 false]

theorem pairRun_some : (run step (init pairEth pairIp) pairRun).isSome = true := by decide +kernel

theorem arp_agreement_pair : ∃ net, run step (init pairEth pairIp) pairRun = some net ∧
    ((net false).framesOut.filter isIPv4).length = 1 ∧
    ∀ i x e, (net i).arpTable.lookup x = some e → ∃ j, pairIp j = x ∧ (∀ j', pairIp j' = x → j' = j) ∧
      e.ethernetAddress = pairEth j := by
  have hrun := (Option.some_get pairRun_some).symm
  have hip : Function.Injective pairIp := by decide
  have heth : Function.Injective pairEth := by decide
  refine ⟨_, hrun, ?_, (arp_agreement hip heth (by decide) hrun).1⟩
  decide +kernel

end ArpNetwork
end Sponge

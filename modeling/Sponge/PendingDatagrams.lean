/-
# What waits for an address, and what was sent

Along a run of an interface the datagrams that went out to a next hop, in
order, and those that still wait for it are the datagrams that were passed to
`send_datagram` for it. What carries this: an entry of the ARP table is alive,
and nothing waits for a next hop that has one.

Key definitions: `NetworkInterface.sentTo`, `NetworkInterface.emittedTo`,
`NetworkInterface.Queued`.
Key theorems: `NetworkInterface.step_conserves`,
`NetworkInterface.datagrams_conserved`.
-/
import Mathlib.Data.List.TakeWhile
import Sponge.NetworkInterface

namespace Sponge
namespace NetworkInterface

open Runs

/-- The datagrams that a call is to send to `x`. -/
def sentTo (x : UInt32) : Op → List IPv4Datagram
  | .send dgram nextHop => if nextHop = x then [dgram] else []
  | .recv _ => []
  | .tick _ _ => []

/-- The datagrams of a log that went to `x`. -/
def emittedTo (x : UInt32) (log : List Emission) : List IPv4Datagram :=
  (log.filter fun e => e.nextHop = x).map Emission.dgram

theorem emittedTo_append (x : UInt32) (log log' : List Emission) :
    emittedTo x (log ++ log') = emittedTo x log ++ emittedTo x log' := by
  simp [emittedTo]

theorem emittedTo_map (x y : UInt32) (dst : EthernetAddress) (dgrams : List IPv4Datagram) :
    emittedTo x (dgrams.map fun dgram => ⟨y, dgram, dst⟩) = if y = x then dgrams else [] := by
  unfold emittedTo
  induction dgrams with
  | nil => simp
  | cons dgram dgrams ih =>
    rw [List.map_cons, List.filter_cons]
    split_ifs at ih ⊢ <;> simp_all

/-- A datagram to be sent can be serialized. -/
def Serializable : Op → Prop
  | .send dgram _ => dgram.serializable = true
  | .recv _ => True
  | .tick _ _ => True

instance : DecidablePred Serializable
  | .send dgram _ => inferInstanceAs (Decidable (dgram.serializable = true))
  | .recv _ => isTrue trivial
  | .tick _ _ => isTrue trivial

/-- Those of the datagrams that can be serialized. -/
def sound (dgrams : List IPv4Datagram) : List IPv4Datagram := dgrams.filter IPv4Datagram.serializable

@[simp] theorem sound_nil : sound [] = [] := rfl

@[simp] theorem sound_append (a b : List IPv4Datagram) : sound (a ++ b) = sound a ++ sound b :=
  List.filter_append ..

theorem sound_singleton (dgram : IPv4Datagram) :
    sound [dgram] = if dgram.serializable then [dgram] else [] :=
  List.filter_cons

theorem sound_eq_self {dgrams : List IPv4Datagram} (h : ∀ dgram ∈ dgrams, dgram.serializable = true) :
    sound dgrams = dgrams := List.filter_eq_self.mpr h

theorem sound_eq_nil {dgrams : List IPv4Datagram} :
    sound dgrams = [] ↔ ∀ dgram ∈ dgrams, dgram.serializable = false := by
  simp [sound]

/-- Nothing that can be sent waits for a next hop whose address is known. -/
def Clear (ni : NetworkInterface) : Prop := ∀ x, (ni.live x).isSome = true → sound (ni.pending x) = []

/-- An ARP message finds datagrams that can all be serialized, or none that can. -/
def Uniform (ni : NetworkInterface) : Op → Prop
  | .recv frame => ∀ msg ∈ ni.arpMessage frame,
      (∀ dgram ∈ ni.pending msg.senderIpAddress, dgram.serializable = true) ∨
        ∀ dgram ∈ ni.pending msg.senderIpAddress, dgram.serializable = false
  | .send _ _ => True
  | .tick _ _ => True

structure Queued (ni : NetworkInterface) : Prop where
  alive : ∀ x e, ni.arpTable.lookup x = some e → 0 < e.ttl
  unknown : ∀ x, ni.pending x ≠ [] → ni.arpTable.lookup x = none
  serializable : ∀ x, ∀ dgram ∈ ni.pending x, dgram.serializable = true

variable {ni ni' : NetworkInterface}

theorem init_queued (eth : EthernetAddress) (ip : UInt32) : Queued (init eth ip) where
  alive := fun x e h => by cases h
  unknown := fun x h => absurd rfl h
  serializable := fun x dgram h => by cases h

/-- An entry that is alive is an entry. -/
theorem Queued.live (h : Queued ni) (x : UInt32) : ni.live x = ni.arpTable.lookup x := by
  unfold NetworkInterface.live
  cases hl : ni.arpTable.lookup x with
  | none => rfl
  | some e => exact Option.filter_some_pos (by simpa using h.alive x e hl)

theorem Queued.send {dgram : IPv4Datagram} (hd : dgram.serializable = true) (h : Queued ni) (nextHop : UInt32) :
    Queued (ni.sendDatagram dgram nextHop).2 := by
  rcases sendDatagram_cases ni dgram nextHop with ⟨entry, frame, -, -, -, heq⟩ | ⟨entry, e, -, -, heq⟩ |
    ⟨hl, ni', heq, -, harp, hpend⟩
  · rw [heq]
    exact ⟨h.alive, h.unknown, h.serializable⟩
  · rw [heq]
    exact h
  · rw [heq]
    refine ⟨harp ▸ h.alive, fun x => ?_, fun x => ?_⟩
    · show ni'.pending x ≠ [] → ni'.arpTable.lookup x = none
      rw [hpend, harp]
      split_ifs with hx
      · intro _
        rw [hx, ← h.live, hl]
      · exact h.unknown x
    · show ∀ d ∈ ni'.pending x, _
      rw [hpend]
      split_ifs with hx
      · intro d hm
        rcases List.mem_append.mp hm with hm | hm
        · exact h.serializable _ d hm
        · obtain rfl := List.mem_singleton.mp hm
          exact hd
      · exact h.serializable x

theorem Queued.released {msg : ARPMessage} {r : Result Unit} (h : Queued ni) (hr : Released ni msg r ni') :
    Queued ni' := by
  have hok : r = .ok () := hr.result.mpr (h.serializable _)
  have hp : ∀ x, ni'.pending x = if x = msg.senderIpAddress then [] else ni.pending x := by
    intro x
    rw [hr.pending, if_congr (and_iff_right hok) rfl rfl]
  refine ⟨fun x e => ?_, fun x => ?_, fun x => ?_⟩
  · rw [hr.arpTable]
    by_cases hx : x = msg.senderIpAddress
    · subst hx
      rw [AList.lookup_insert]
      intro he
      obtain rfl := Option.some.inj he
      exact Nat.succ_pos _
    · rw [AList.lookup_insert_ne hx]
      exact h.alive x e
  · rw [hp, hr.arpTable]
    split_ifs with hx
    · exact fun hc => absurd rfl hc
    · rw [AList.lookup_insert_ne hx]
      exact h.unknown x
  · rw [hp]
    split_ifs with hx
    · intro d hm
      cases hm
    · exact h.serializable x

theorem Queued.tick (h : Queued ni) (ms : ℕ) (order : List UInt32) : Queued (ni.tick ms order).2 := by
  obtain ⟨-, -, harp, hpend⟩ := tick_spec ni ms order
  refine ⟨fun x e => ?_, fun x => ?_, fun x => ?_⟩
  · rw [harp]
    show (Table.filterMap _ ni.arpTable).lookup x = some e → 0 < e.ttl
    rw [Table.lookup_filterMap, Option.bind_eq_some_iff]
    rintro ⟨e', -, he⟩
    split_ifs at he with hms
    obtain rfl := Option.some.inj he
    show 0 < e'.ttl - ms
    omega
  · rw [harp, hpend]
    intro hne
    show (Table.filterMap _ ni.arpTable).lookup x = none
    rw [Table.lookup_filterMap, h.unknown x hne]
    rfl
  · rw [hpend]
    exact h.serializable x

theorem step_queued {op : Op} (hop : Serializable op) (h : Queued ni) (hs : step ni op = some ni') : Queued ni' := by
  cases op with
  | send dgram nextHop =>
    obtain rfl := Option.some.inj hs
    exact h.send hop nextHop
  | recv frame =>
    obtain rfl := Option.some.inj hs
    rcases recvFrame_cases ni frame with ⟨msg, -, heq⟩ | ⟨-, heq⟩
    · rw [heq]
      exact h.released (recvARP_spec ni msg)
    · rw [heq]
      exact h
  | tick ms order =>
    simp only [step] at hs
    split_ifs at hs
    obtain rfl := Option.some.inj hs
    exact h.tick ms order

theorem Queued.clear (h : Queued ni) : Clear ni := by
  intro x hx
  rw [h.live] at hx
  have hnil : ni.pending x = [] := by
    by_contra hne
    rw [h.unknown x hne] at hx
    cases hx
  rw [hnil, sound_nil]

theorem Queued.uniform (h : Queued ni) (op : Op) : Uniform ni op := by
  cases op with
  | recv frame => exact fun msg _ => Or.inl (h.serializable msg.senderIpAddress)
  | send dgram nextHop => trivial
  | tick ms order => trivial

/-- What a call sends to `x` comes from the front of what waited and what the
call itself is to send; the rest waits. Datagrams that cannot be serialized
are left out of account. -/
theorem step_sound {op : Op} (hop : Uniform ni op) (h : Clear ni) (hs : step ni op = some ni') (x : UInt32) :
    emittedTo x (ni.emitted op) ++ sound (ni'.pending x) = sound (ni.pending x) ++ sound (sentTo x op) := by
  cases op with
  | send dgram nextHop =>
    obtain rfl := Option.some.inj hs
    rcases sendDatagram_cases ni dgram nextHop with ⟨entry, frame, hl, hd, -, heq⟩ | ⟨entry, e, hl, hd, heq⟩ |
      ⟨hl, ni', heq, -, harp, hpend⟩
    · have hem : ni.emitted (.send dgram nextHop) = [⟨nextHop, dgram, entry.ethernetAddress⟩] := by
        simp only [emitted, hl, hd, ↓reduceIte]
      rw [heq, hem]
      show emittedTo x _ ++ sound (ni.pending x) = _
      by_cases hx : nextHop = x
      · subst hx
        have hnone := h nextHop (by rw [hl]; rfl)
        simp [emittedTo, sentTo, hnone, sound_singleton, hd]
      · simp [emittedTo, sentTo, hx]
    · have hem : ni.emitted (.send dgram nextHop) = [] := by
        simp [emitted, hl, hd]
      rw [heq, hem]
      show emittedTo x [] ++ sound (ni.pending x) = _
      by_cases hx : nextHop = x
      · simp [emittedTo, sentTo, hx, sound_singleton, hd]
      · simp [emittedTo, sentTo, hx]
    · have hem : ni.emitted (.send dgram nextHop) = [] := by
        simp only [emitted, hl]
      rw [heq, hem]
      show emittedTo x [] ++ sound (ni'.pending x) = _
      rw [hpend]
      by_cases hx : x = nextHop
      · subst hx
        simp [emittedTo, sentTo]
      · simp [emittedTo, sentTo, hx, Ne.symm hx]
  | recv frame =>
    obtain rfl := Option.some.inj hs
    rcases recvFrame_cases ni frame with ⟨msg, hmsg, heq⟩ | ⟨hmsg, heq⟩
    · have hr := recvARP_spec ni msg
      have hem : ni.emitted (.recv frame) =
          ((ni.pending msg.senderIpAddress).takeWhile IPv4Datagram.serializable).map fun dgram =>
            ⟨msg.senderIpAddress, dgram, msg.senderEthernetAddress⟩ := by
        simp only [emitted, hmsg]
      rw [heq, hem, emittedTo_map, hr.pending]
      by_cases hx : x = msg.senderIpAddress
      · subst hx
        rcases hop msg hmsg with hall | hnone
        · simp [sentTo, hr.result.mpr hall, List.takeWhile_eq_self_iff.mpr hall, sound_eq_self hall]
        · have hw : (ni.pending msg.senderIpAddress).takeWhile IPv4Datagram.serializable = [] := by
            cases hp : ni.pending msg.senderIpAddress with
            | nil => rfl
            | cons dgram dgrams => simp [hnone dgram (hp ▸ List.mem_cons_self)]
          rw [if_pos rfl, hw]
          split_ifs
          · simp [sentTo, sound_eq_nil.mpr hnone]
          · simp [sentTo]
      · simp [sentTo, hx, Ne.symm hx]
    · have hem : ni.emitted (.recv frame) = [] := by
        simp only [emitted, hmsg]
      rw [heq, hem]
      simp [emittedTo, sentTo]
  | tick ms order =>
    simp only [step] at hs
    split_ifs at hs
    obtain rfl := Option.some.inj hs
    obtain ⟨-, -, -, hpend⟩ := tick_spec ni ms order
    rw [hpend]
    simp [emittedTo, sentTo, emitted]

/-- If all of them can be serialized, nothing is left out. -/
theorem step_conserves {op : Op} (hop : Serializable op) (h : Queued ni) (hs : step ni op = some ni') (x : UInt32) :
    emittedTo x (ni.emitted op) ++ ni'.pending x = ni.pending x ++ sentTo x op := by
  have hsent : ∀ dgram ∈ sentTo x op, dgram.serializable = true := by
    intro dgram hd
    cases op with
    | send d nextHop =>
      simp only [sentTo] at hd
      split_ifs at hd
      · obtain rfl := List.mem_singleton.mp hd
        exact hop
      · cases hd
    | recv frame => cases hd
    | tick ms order => cases hd
  have hstep := step_sound (h.uniform op) h.clear hs x
  rw [sound_eq_self ((step_queued hop h hs).serializable x), sound_eq_self (h.serializable x),
    sound_eq_self hsent] at hstep
  exact hstep

/-- What goes out and what waits then was waiting, or the call is to send it. -/
theorem step_from {P : IPv4Datagram → Prop} {op : Op} (hop : ∀ x, ∀ d ∈ sentTo x op, P d)
    (h : ∀ x, ∀ d ∈ ni.pending x, P d) (hs : step ni op = some ni') :
    (∀ x, ∀ d ∈ ni'.pending x, P d) ∧ ∀ e ∈ ni.emitted op, P e.dgram := by
  cases op with
  | send dgram nextHop =>
    have hd : P dgram := hop nextHop dgram (by simp [sentTo])
    obtain rfl := Option.some.inj hs
    obtain ⟨-, -, hpend⟩ := sendDatagram_spec ni dgram nextHop
    refine ⟨fun x d hm => (hpend x d hm).elim (h x d) fun he => he ▸ hd, fun e he => ?_⟩
    simp only [emitted] at he
    split at he
    · split_ifs at he
      · rw [List.mem_singleton.mp he]
        exact hd
      · cases he
    · cases he
  | recv frame =>
    obtain rfl := Option.some.inj hs
    rcases recvFrame_cases ni frame with ⟨msg, hm, heq⟩ | ⟨hm, heq⟩
    · have hr := recvARP_spec ni msg
      rw [heq]
      refine ⟨fun x d hd => ?_, fun e he => ?_⟩
      · rw [hr.pending] at hd
        split_ifs at hd
        · cases hd
        · exact h x d hd
      · simp only [emitted, hm] at he
        obtain ⟨d, hd, rfl⟩ := List.mem_map.mp he
        exact h _ d ((List.takeWhile_prefix _).subset hd)
    · rw [heq]
      refine ⟨h, fun e he => ?_⟩
      simp only [emitted, hm] at he
      cases he
  | tick ms order =>
    simp only [step] at hs
    split_ifs at hs
    obtain rfl := Option.some.inj hs
    obtain ⟨-, -, -, hpend⟩ := tick_spec ni ms order
    exact ⟨hpend ▸ h, fun e he => by cases he⟩

/-- What a run sends, and what it leaves waiting. -/
theorem run_conserves {ops : List Op} (hops : ∀ op ∈ ops, Serializable op) (h : Queued ni)
    (hr : run step ni ops = some ni') : Queued ni' ∧ Emits ni ni' (outputs step emitted ni ops) ∧
      ∀ x, emittedTo x (outputs step emitted ni ops) ++ ni'.pending x = ni.pending x ++ ops.flatMap (sentTo x) := by
  have hall : Along step (fun _ op => Serializable op) ni ops := along_of_forall hops
  have hq : Queued ni' := run_along (fun _ _ _ h hop hs => step_queued hop h hs) h hall hr
  refine ⟨hq, run_emits hr, fun x => ?_⟩
  apply outputs_balance rfl (emittedTo_append x) _ hall h hr
  intro ni op ni' hop h hs
  exact ⟨step_queued hop h hs, step_conserves hop h hs x⟩

/-- **No datagram is lost, duplicated or reordered**: the IPv4 frames that went
out carry the datagrams of the log, and for every next hop those of the log and
those that still wait are the ones that were to be sent to it. -/
theorem datagrams_conserved (eth : EthernetAddress) (ip : UInt32) {ops : List Op} {ni : NetworkInterface}
    (hops : ∀ op ∈ ops, Serializable op) (hr : run step (init eth ip) ops = some ni) :
    let log := outputs step emitted (init eth ip) ops
    List.Forall₂ ni.IsFrame (ni.framesOut.filter isIPv4) log ∧
      ∀ x, emittedTo x log ++ ni.pending x = ops.flatMap (sentTo x) ∧
        (ni.pending x ≠ [] → ni.arpTable.lookup x = none) := by
  obtain ⟨hq, hem, hall⟩ := run_conserves hops (init_queued eth ip) hr
  obtain ⟨new, hout, hframes, -⟩ := hem.frames
  constructor
  · rw [isFrame_congr hem.eth, hout]
    exact hframes
  · exact fun x => ⟨hall x, hq.unknown x⟩

/-- A datagram waits for its next hop, the reply releases it, and another one
goes out at once. -/
def replyRun : List Op :=
  let dgram : IPv4Datagram := { header := { len := 21 }, payload := [[7]] }
  let reply : ARPMessage :=
    { opcode := ARPMessage.opcodeReply, senderEthernetAddress := Vector.replicate 6 2, senderIpAddress := 9 }
  [.send dgram 9, .tick 100 [9],
    .recv { header := { dst := Vector.replicate 6 1, type := EthernetHeader.typeARP }, payload := [reply.unparse] },
    .send dgram 9]

theorem replyRun_some : (run step (init (Vector.replicate 6 1) 5) replyRun).isSome = true := by decide +kernel

theorem datagrams_conserved_reply : ∃ ni, run step (init (Vector.replicate 6 1) 5) replyRun = some ni ∧
    (ni.framesOut.filter isIPv4).length = 2 ∧
    emittedTo 9 (outputs step emitted (init (Vector.replicate 6 1) 5) replyRun) ++ ni.pending 9 =
      replyRun.flatMap (sentTo 9) := by
  have hrun := (Option.some_get replyRun_some).symm
  have hops : ∀ op ∈ replyRun, Serializable op := by decide +kernel
  refine ⟨_, hrun, ?_, ((datagrams_conserved _ _ hops hrun).2 9).1⟩
  decide +kernel

end NetworkInterface
end Sponge

/-
# Datagrams that cannot be serialized, in the queues

`send_datagram` queues a datagram without serializing it. The loop of
`recv_frame` that releases a queue throws at the first datagram that cannot be
serialized, and the queue is erased only after the loop: those in front of it
have been sent and are sent again with the next ARP message, those behind it
stay. So a release is all or nothing exactly where the queue is: every datagram
in it can be serialized, or none can.

Key definitions: `NetworkInterface.Atomic`.
Key theorems: `NetworkInterface.step_clear`, `NetworkInterface.release_atomic_iff`.
-/
import Sponge.PendingDatagrams

namespace Sponge
namespace NetworkInterface

open Runs

/-- After the run, the datagrams that can be serialized are accounted for once
each: they were sent, or wait for a next hop that has not been heard of. -/
structure Atomic (eth : EthernetAddress) (ip : UInt32) (ops : List Op) (ni : NetworkInterface) : Prop where
  frames : List.Forall₂ ni.IsFrame (ni.framesOut.filter isIPv4) (outputs step emitted (init eth ip) ops)
  once : ∀ x, emittedTo x (outputs step emitted (init eth ip) ops) ++ sound (ni.pending x) =
    sound (ops.flatMap (sentTo x))
  clear : Clear ni

variable {ni ni' : NetworkInterface}

theorem init_clear (eth : EthernetAddress) (ip : UInt32) : Clear (init eth ip) := fun _ _ => rfl

/-- The table decides which addresses are known. -/
theorem live_congr (h : ni'.arpTable = ni.arpTable) : ni'.live = ni.live := by
  unfold live
  rw [h]

theorem live_learned {x y : UInt32} {entry : ARPEntry} (h : ni'.arpTable = ni.arpTable.insert y entry) (hx : x ≠ y) :
    ni'.live x = ni.live x := by
  unfold live
  rw [h, AList.lookup_insert_ne hx]

/-- Time makes no address known. -/
theorem live_expire {ms : ℕ} {x : UInt32} (h : ((ni.expire ms).live x).isSome = true) :
    (ni.live x).isSome = true := by
  obtain ⟨e, he⟩ := Option.isSome_iff_exists.mp h
  obtain ⟨h1, h2⟩ := Option.filter_eq_some_iff.mp he
  have hold : (Table.filterMap _ ni.arpTable).lookup x = some e := h1
  rw [Table.lookup_filterMap] at hold
  obtain ⟨old, h3, h4⟩ := Option.bind_eq_some_iff.mp hold
  split_ifs at h4 with hms
  apply Option.isSome_iff_exists.mpr
  refine ⟨old, Option.filter_eq_some_iff.mpr ⟨h3, ?_⟩⟩
  simp only [decide_eq_true_eq]
  omega

/-- What is in the queue of a known address after a step can be sent by no one. -/
theorem step_clear {op : Op} (hop : Uniform ni op) (h : Clear ni) (hs : step ni op = some ni') : Clear ni' := by
  intro x hx
  cases op with
  | send dgram nextHop =>
    obtain rfl := Option.some.inj hs
    rcases sendDatagram_cases ni dgram nextHop with ⟨entry, frame, -, -, -, heq⟩ | ⟨entry, e, -, -, heq⟩ |
      ⟨hl, ni', heq, -, harp, hpend⟩
    · rw [heq] at hx ⊢
      exact h x hx
    · rw [heq] at hx ⊢
      exact h x hx
    · rw [heq] at hx ⊢
      rw [live_congr harp] at hx
      show sound (ni'.pending x) = []
      rw [hpend]
      split_ifs with hnext
      · subst hnext
        rw [hl] at hx
        cases hx
      · exact h x hx
  | recv frame =>
    obtain rfl := Option.some.inj hs
    rcases recvFrame_cases ni frame with ⟨msg, hmsg, heq⟩ | ⟨-, heq⟩
    · have hr := recvARP_spec ni msg
      rw [heq] at hx ⊢
      show sound ((ni.recvARP msg).2.pending x) = []
      rw [hr.pending]
      by_cases hsender : x = msg.senderIpAddress
      · subst hsender
        rcases hop msg hmsg with hall | hnone
        · rw [if_pos ⟨hr.result.mpr hall, rfl⟩, sound_nil]
        · split_ifs
          · exact sound_nil
          · exact sound_eq_nil.mpr hnone
      · rw [if_neg fun hc => hsender hc.2]
        apply h x
        rw [← live_learned hr.arpTable hsender]
        exact hx
    · rw [heq] at hx ⊢
      exact h x hx
  | tick ms order =>
    simp only [step] at hs
    split_ifs at hs
    obtain rfl := Option.some.inj hs
    obtain ⟨-, -, harp, hpend⟩ := tick_spec ni ms order
    rw [hpend]
    rw [live_congr harp] at hx
    exact h x (live_expire hx)

/-- What a run sends, and what it leaves waiting. -/
theorem run_sound {ops : List Op} (hops : Along step Uniform ni ops) (h : Clear ni)
    (hr : run step ni ops = some ni') (x : UInt32) :
    emittedTo x (outputs step emitted ni ops) ++ sound (ni'.pending x) =
      sound (ni.pending x) ++ sound (ops.flatMap (sentTo x)) := by
  have hsent : sound (ops.flatMap (sentTo x)) = ops.flatMap fun op => sound (sentTo x op) := List.filter_flatMap ..
  rw [hsent]
  apply outputs_balance rfl (emittedTo_append x) _ hops h hr
  intro ni op ni' hop h hs
  exact ⟨step_clear hop h hs, step_sound hop h hs x⟩

/-- A message from a next hop whose queue is mixed leaves one behind that could
be sent. -/
theorem uniform_of_clear {op : Op} (h : ∀ ni', step ni op = some ni' → Clear ni') : Uniform ni op := by
  cases op with
  | send dgram nextHop => trivial
  | tick ms order => trivial
  | recv frame =>
    intro msg hmsg
    rcases recvFrame_cases ni frame with ⟨msg', hmsg', heq⟩ | ⟨hnone, -⟩
    · obtain rfl := Option.some.inj (hmsg'.symm.trans hmsg)
      have hr := recvARP_spec ni msg'
      have hclear := h _ rfl msg'.senderIpAddress
      rw [heq] at hclear
      by_cases hok : (ni.recvARP msg').1 = .ok ()
      · exact Or.inl (hr.result.mp hok)
      · right
        apply sound_eq_nil.mp
        have hlive : ((ni.recvARP msg').2.live msg'.senderIpAddress).isSome = true := by
          unfold live
          rw [hr.arpTable, AList.lookup_insert]
          rfl
        have hnil : sound ((ni.recvARP msg').2.pending msg'.senderIpAddress) = [] := hclear hlive
        rw [hr.pending, if_neg fun hc => hok hc.1] at hnil
        exact hnil
    · rw [hnone] at hmsg
      cases hmsg

/-- **A queue is released as a whole iff it is uniform.** -/
theorem release_atomic_iff (eth : EthernetAddress) (ip : UInt32) (ops : List Op) :
    (∀ pre ni, pre <+: ops → run step (init eth ip) pre = some ni → Atomic eth ip pre ni) ↔
      Along step Uniform (init eth ip) ops := by
  constructor
  · intro h
    have hclear : ∀ pre ni, pre <+: ops → run step (init eth ip) pre = some ni → Clear ni :=
      fun pre ni hp hr => (h pre ni hp hr).clear
    exact along_mono (fun _ _ => uniform_of_clear) (forall_prefix_iff_along.mp hclear).2
  · intro h pre ni hp hr
    obtain ⟨rest, rfl⟩ := hp
    have hops := (along_append.mp h).1
    have hem := run_emits hr
    have hclear : Clear ni := run_along (fun _ _ _ h hop hs => step_clear hop h hs) (init_clear eth ip) hops hr
    obtain ⟨new, hout, hframes, -⟩ := hem.frames
    refine ⟨?_, run_sound hops (init_clear eth ip) hr, hclear⟩
    rw [isFrame_congr hem.eth, hout]
    exact hframes

/-- A datagram of version 6 waits between two others, and the reply comes twice. -/
def mixedRun : List Op :=
  let reply : ARPMessage :=
    { opcode := ARPMessage.opcodeReply, senderEthernetAddress := Vector.replicate 6 2, senderIpAddress := 9 }
  let frame : EthernetFrame :=
    { header := { dst := Vector.replicate 6 1, type := EthernetHeader.typeARP }, payload := [reply.unparse] }
  [.send { header := { len := 21 }, payload := [[7]] } 9,
    .send { header := { ver := 6, len := 21 }, payload := [[8]] } 9,
    .send { header := { len := 21 }, payload := [[9]] } 9, .recv frame, .recv frame]

theorem mixedRun_some : (run step (init (Vector.replicate 6 1) 5) mixedRun).isSome = true := by decide +kernel

/-- The first one is sent twice, the last one, which can be serialized, still waits. -/
theorem mixed_twice : ∃ ni, run step (init (Vector.replicate 6 1) 5) mixedRun = some ni ∧
    emittedTo 9 (outputs step emitted (init (Vector.replicate 6 1) 5) mixedRun) =
      [{ header := { len := 21 }, payload := [[7]] }, { header := { len := 21 }, payload := [[7]] }] ∧
    (ni.framesOut.filter isIPv4).length = 2 ∧
    ni.pending 9 = mixedRun.flatMap (sentTo 9) ∧ (sound (ni.pending 9)).length = 2 ∧
    ¬ Atomic (Vector.replicate 6 1) 5 mixedRun ni := by
  have hrun := (Option.some_get mixedRun_some).symm
  have hlength : (sound (((run step (init (Vector.replicate 6 1) 5) mixedRun).get mixedRun_some).pending 9)).length =
      2 := by decide +kernel
  refine ⟨_, hrun, by decide +kernel, by decide +kernel, by decide +kernel, hlength, fun hatomic => ?_⟩
  rw [hatomic.clear 9 (by decide +kernel)] at hlength
  cases hlength

end NetworkInterface
end Sponge

/-
# After a reset

When the inbound stream is in error, the callback of rule 3 shuts the owner's
side down, and the rule should never ask for its descriptor again. The error
freezes the stream, though: its bytes are no longer shown and no longer popped,
so bytes that were unread at the reset stay in the buffer, and the rule is
interested as long as the buffer is not empty.

Key definitions: `SpongeSocket.act`, `SpongeSocket.Frozen`.
Key theorems: `SpongeSocket.turn_reach`, `SpongeSocket.act_frozen`,
`SpongeSocket.quiesces_iff`.
-/
import Sponge.SpongeSocket
import Sponge.Window

namespace Sponge

namespace SpongeSocket

open EventLoop TCPConnection

/-- What happens to the socket, one thing at a time: the callback of a rule, its
cancellation, or a tick. -/
inductive Act where
  | callback (r : RuleName) (input : Input)
  | cancel (r : RuleName)
  | tick (ms : ℕ)

def act (s : SpongeSocket) : Act → Option SpongeSocket
  | .callback r input => ((rule r).callback input s).toOption.map (·.1)
  | .cancel r => some ((rule r).cancel s)
  | .tick ms => some { s with tcp := s.tcp.tick ms }

variable {s s' : SpongeSocket}

theorem act_callback {r : RuleName} {input : Input} (h : act s (.callback r input) = some s') :
    ∃ served, (rule r).callback input s = .ok (s', served) := by
  obtain ⟨⟨s₁, served⟩, hc, rfl⟩ := Option.map_eq_some_iff.mp h
  refine ⟨served, ?_⟩
  cases hres : (rule r).callback input s with
  | error e =>
    rw [hres] at hc
    cases hc
  | ok res =>
    rw [hres] at hc
    cases hc
    rfl

/-- A turn of the loop is a number of acts. -/
theorem turn_reach {l l' : Loop} {e : Event} (h : turn l e = some l') : Runs.Reach act l.socket l'.socket := by
  have hcancel : ∀ r s, Runs.Reach act l.socket s → Runs.Reach act l.socket ((rule r).cancel s) := fun r s hs =>
    hs.tail (e := .cancel r) rfl
  have hcallback : ∀ r s s' served, Runs.Reach act l.socket s → (rule r).callback e.input s = .ok (s', served) →
      Runs.Reach act l.socket s' := fun r s s' served hs hc => by
    refine hs.tail (e := .callback r e.input) ?_
    rw [act, hc]
    rfl
  unfold turn at h
  split at h
  · cases h
  · rename_i res rules s hw
    obtain ⟨hreach, -⟩ := waitNextEvent_invariant hcancel hcallback (Runs.Reach.refl _) hw
    split_ifs at h with hx ha <;> cases h
    · exact hreach
    · exact hreach.tail (e := .tick e.ms) rfl
    · exact hreach

/-! ### The error freezes the stream -/

/-- The inbound stream is in error, with the bytes `b` unread. -/
structure Frozen (b : Bytes) (c : TCPConnection) : Prop where
  error : c.inboundStream.error = true
  buffer : c.inboundStream.buffer = b

variable {b : Bytes}

theorem frozen_segment {c c' : TCPConnection} {seg : TCPSegment} (h : Frozen b c)
    (hs : c.segmentReceived seg = some c') : Frozen b c' := by
  rcases segment_cases hs with ⟨-, rfl⟩ | ⟨-, -, rfl⟩ | ⟨-, -, receiver, hrcv, rfl⟩
  · exact h
  · exact ⟨rfl, h.buffer⟩
  · have hpush : receiver.streamOut.error = true ∧ receiver.streamOut.buffer = b := by
      apply TCPReceiver.segmentReceived_push (P := fun r => r.output.error = true ∧ r.output.buffer = b) hrcv
        ⟨h.error, h.buffer⟩
      intro data index r' hr'
      refine StreamReassembler.pushSubstring_induct (P := fun o => o.error = true ∧ o.buffer = b) ?_
        (fun o ho => ho) ⟨h.error, h.buffer⟩ hr'
      intro o d ho
      rw [ByteStream.write_of_not_open fun hopen => Bool.false_ne_true (hopen.1.symm.trans ho.1)]
      exact ho
    have hstart : Frozen b { c with timeSinceLastSegmentReceived := 0, receiver, sender := c.acked seg } :=
      ⟨hpush.1, hpush.2⟩
    refine respond_induct (P := Frozen b) (Q := Frozen b) ?_ ?_ ?_ ?_ ?_ hstart seg
    all_goals exact fun c hc => ⟨hc.error, hc.buffer⟩

theorem frozen_tick {c : TCPConnection} (h : Frozen b c) (ms : ℕ) : Frozen b (c.tick ms) := by
  rcases Bool.eq_false_or_eq_true c.isActive with ha | ha
  · rcases tick_cases ha ms with ⟨-, ht⟩ | ⟨-, ht⟩ <;> rw [ht]
    · exact ⟨rfl, h.buffer⟩
    · exact ⟨h.error, h.buffer⟩
  · rw [tick_of_inactive ha]
    exact h

/-- A stream in error shows nothing and gives nothing away. -/
theorem frozen_readInbound {c : TCPConnection} (h : Frozen b c) (len : ℕ) : Frozen b (c.readInbound len).2 := by
  have hpop : c.receiver.reassembler.output.popOutput len = c.receiver.reassembler.output :=
    if_pos (Or.inr (Or.inr h.error))
  have hsame : (c.readInbound len).2.inboundStream = c.inboundStream := hpop
  exact ⟨hsame ▸ h.error, hsame ▸ h.buffer⟩

/-- The owner's side was shut down after the error. -/
structure Shut (b : Bytes) (s : SpongeSocket) : Prop where
  frozen : Frozen b s.tcp
  shutdown : s.inboundShutdown = true

theorem shut_readInbound (h : Frozen b s.tcp) (input : Input) : Shut b (s.readInbound input) := by
  have hread := frozen_readInbound h (min input.taken (s.tcp.inboundStream.peekOutput
    (min 65536 s.tcp.inboundStream.buffer.length)).length)
  refine ⟨hread, ?_⟩
  show (_ || _ || _) = true
  rw [Bool.or_eq_true]
  exact Or.inr hread.error

/-- **Nothing that happens to the socket thaws the stream.** -/
theorem act_frozen {a : Act} (h : Shut b s) (hs : act s a = some s') : Shut b s' := by
  cases a with
  | callback r input =>
    obtain ⟨served, hc⟩ := act_callback hs
    cases r with
    | rule1 =>
      obtain ⟨tcp, rfl, rfl | ⟨seg, -, hrcv⟩⟩ := receiveSegment_cases hc
      · exact ⟨h.frozen, h.shutdown⟩
      · exact ⟨frozen_segment h.frozen hrcv, h.shutdown⟩
    | rule2 =>
      rcases (writeOutbound_cases hc).2 with ⟨-, rfl⟩ | rfl
      · exact ⟨⟨h.frozen.error, h.frozen.buffer⟩, h.shutdown⟩
      · exact ⟨⟨h.frozen.error, h.frozen.buffer⟩, h.shutdown⟩
    | rule3 =>
      obtain rfl := Option.some.inj hs
      exact shut_readInbound h.frozen input
    | rule4 =>
      obtain rfl := Option.some.inj hs
      exact ⟨⟨h.frozen.error, h.frozen.buffer⟩, h.shutdown⟩
  | cancel r =>
    obtain rfl := Option.some.inj hs
    cases r with
    | rule1 => exact h
    | rule2 => exact ⟨⟨h.frozen.error, h.frozen.buffer⟩, h.shutdown⟩
    | rule3 => exact h
    | rule4 => exact h
  | tick ms =>
    obtain rfl := Option.some.inj hs
    exact ⟨frozen_tick h.frozen ms, h.shutdown⟩

theorem interest_of_shut (h : Shut b s) : (rule .rule3).interest s = !b.isEmpty := by
  show (!s.tcp.inboundStream.buffer.isEmpty || ((_ || _) && !s.inboundShutdown)) = _
  rw [h.frozen.buffer, h.shutdown, Bool.not_true, Bool.and_false, Bool.or_false]

/-- **With the inbound stream in error the loop comes to rest iff nothing was
left unread**: the callback of rule 3 runs, and from then on the rule has no
interest and nothing to write. -/
theorem quiesces_iff (s : SpongeSocket) (he : s.tcp.inboundStream.error = true) (input : Input) :
    (∀ s', Runs.Reach act (s.readInbound input) s' →
      (rule .rule3).interest s' = false ∧ ∀ len, s'.tcp.inboundStream.peekOutput len = []) ↔
      s.tcp.inboundStream.buffer = [] := by
  have hshut : Shut s.tcp.inboundStream.buffer (s.readInbound input) := shut_readInbound ⟨he, rfl⟩ input
  constructor
  · intro h
    obtain ⟨hrest, -⟩ := h _ (Runs.Reach.refl _)
    rw [interest_of_shut hshut] at hrest
    simpa using hrest
  · rintro hb s' ⟨acts, hacts⟩
    have hlater := Runs.run_invariant (fun _ _ _ => act_frozen) hshut hacts
    refine ⟨?_, fun len => if_pos (Or.inr (Or.inr hlater.frozen.error))⟩
    rw [interest_of_shut hlater, hb]
    rfl

/-! ### A reset over an unread byte -/

/-- A segment arrives, and no other rule is ready. -/
def arrivalEvent (segment : TCPSegment) : Event where
  poll := .events fun r => { ready := decide (r = .rule1) }
  input := { segment }
  ms := 0

/-- The peer accepts the SYN, sends a byte, and resets. -/
def resetEvents : List Event :=
  [arrivalEvent acceptSegment,
    arrivalEvent { header := { seqno := ⟨1⟩, ack := true, ackno := ⟨1⟩ }, payload := [98] },
    arrivalEvent { header := { rst := true } }]

theorem reset_isSome : (Runs.run turn (start .connect {} ⟨0⟩) resetEvents).isSome = true := by
  decide +kernel

/-- The byte is never written, and rule 3 is interested ever after. -/
theorem unread_byte_keeps_interest : ∃ l, Runs.Reach turn (start .connect {} ⟨0⟩) l ∧
    l.socket.tcp.inboundStream.error = true ∧
    ¬ ∀ s', Runs.Reach act (l.socket.readInbound { taken := 65536 }) s' →
      (rule .rule3).interest s' = false ∧ ∀ len, s'.tcp.inboundStream.peekOutput len = [] :=
  ⟨_, ⟨resetEvents, (Option.some_get reset_isSome).symm⟩, by decide +kernel,
    fun h => absurd (h _ (Runs.Reach.refl _)).1 (by decide +kernel)⟩

/-- The socket of a connection that was reset before anything arrived. -/
def resetSocket : SpongeSocket where
  tcp := (TCPConnection.init {} ⟨0⟩).setRstState false
  datagramEof := false
  threadDataEof := false
  inboundShutdown := false
  outboundShutdown := false

theorem quiesces_reset :
    (∀ s', Runs.Reach act (resetSocket.readInbound {}) s' →
      (rule .rule3).interest s' = false ∧ ∀ len, s'.tcp.inboundStream.peekOutput len = []) ↔
      resetSocket.tcp.inboundStream.buffer = [] :=
  quiesces_iff resetSocket rfl {}

end SpongeSocket
end Sponge

/-
# A passive connection

Until a SYN arrives the receiver ignores all segments, but `segment_received`
hands them on: a reset ends the connection, an acknowledgment goes to a sender
that has sent nothing yet, and what occupies sequence numbers is answered.
`Ignored` says which segments a connection in LISTEN lets pass without a
trace; a run of ticks and of segments without SYN ends in LISTEN, with nothing
sent, iff all its segments are such.

Key definitions: `TCPConnection.Passive`, `TCPConnection.Ignored`,
`TCPConnection.Listening`.
Key theorems: `TCPConnection.segmentReceived_unsynced`,
`TCPConnection.listening_iff`.
-/
import Sponge.Flight
import Sponge.Lib.Runs
import Sponge.TCPConnection

namespace Sponge

/-- Nothing but the initial number itself unwraps to zero at the start. -/
theorem unwrap_zero_iff {n isn : WrappingInt32} : unwrap n isn 0 = 0 ↔ n = isn := by
  constructor
  · intro h
    have h1 := n.rawValue.toNat_lt
    have h2 := isn.rawValue.toNat_lt
    have hraw : n.rawValue = isn.rawValue := by
      rw [← UInt32.toNat_inj]
      unfold unwrap at h
      simp only at h
      split_ifs at h <;> omega
    cases n
    cases isn
    exact congrArg WrappingInt32.mk hraw
  · rintro rfl
    have h : unwrap (wrap 0 n) n 0 = 0 := unwrap_wrap n (by decide) (by decide) (Or.inl le_rfl)
    rwa [wrap_zero] at h

/-- A sender that has sent nothing has its SYN to send. -/
theorem TCPSender.not_idle_of_zero {s : TCPSender} (h : s.nextSeqno = 0) (hfin : s.finSent = false) : ¬ s.Idle := by
  have hflight : s.bytesInFlight = 0 := by
    unfold bytesInFlight
    omega
  have hlen : 0 < (s.build s.currentWindow).1.lengthInSequenceSpace := by
    have hsyn : (s.build s.currentWindow).1.header.syn = true := by simp [build, h]
    unfold TCPSegment.lengthInSequenceSpace
    rw [if_pos hsyn]
    omega
  rintro (hc | hc | hc)
  · exact Bool.false_ne_true (hfin.symm.trans hc)
  · exact absurd s.currentWindow_pos (by omega)
  · omega

/-! ### Before the SYN of the peer -/

variable {seg : TCPSegment}

theorem TCPReceiver.segmentReceived_unsynced {rcv : TCPReceiver} (h : rcv.synReceived = false)
    (hsyn : seg.header.syn = false) : rcv.segmentReceived seg = some rcv := by
  simp [TCPReceiver.segmentReceived, TCPReceiver.synced, h, hsyn]

theorem TCPReceiver.ackno_unsynced {rcv : TCPReceiver} (h : rcv.synReceived = false) : rcv.ackno = none := if_pos h

namespace TCPConnection

open TCPSender

variable {c c' : TCPConnection}

/-- Then a response is an answer to what occupies sequence numbers. -/
theorem respond_unsynced (h : c.receiver.synReceived = false) (seg : TCPSegment) :
    c.respond seg = (c.answer seg).sendSegments := by
  have hack := TCPReceiver.ackno_unsynced h
  have hsum : c.receiver.stateSummary = .error ∨ c.receiver.stateSummary = .listen := by
    unfold TCPReceiver.stateSummary
    split_ifs with he
    · exact Or.inl rfl
    · exact Or.inr rfl
  have hrcv : (c.answer seg).receiver = c.receiver := by
    unfold answer
    split_ifs <;> rfl
  have hreply : c.reply seg = (c.answer seg).sendSegments := by
    unfold reply answerKeepAlive
    rw [hrcv, hack]
  have hsyn : ¬ (c.receiver.stateSummary = .synRecv ∧ c.sender.nextSeqno = 0) := by
    rcases hsum with hs | hs <;> rw [hs] <;> simp
  have hfin : ¬ (c.receiver.stateSummary = .finRecv ∧ c.sender.stateSummary = .synAcked) := by
    rcases hsum with hs | hs <;> rw [hs] <;> simp
  unfold respond
  rw [if_neg hsyn]
  simp only
  rw [if_neg hfin]
  exact hreply

/-- Any segment without SYN reaches the sender only. -/
theorem segmentReceived_unsynced (ha : c.isActive = true) (hr : c.receiver.synReceived = false)
    (hrst : seg.header.rst = false) (hsyn : seg.header.syn = false) : c.segmentReceived seg =
      some (answer { c with timeSinceLastSegmentReceived := 0, sender := c.acked seg } seg).sendSegments := by
  rw [segmentReceived_eq ha hrst, TCPReceiver.segmentReceived_unsynced hr hsyn, Option.map_some]
  exact congrArg some
    (respond_unsynced (c := { c with timeSinceLastSegmentReceived := 0, sender := c.acked seg }) hr seg)

/-- What occupies sequence numbers is answered. -/
theorem answer_ne_nil (c : TCPConnection) (h : 0 < seg.lengthInSequenceSpace) :
    (c.answer seg).sender.segmentsOut ≠ [] := by
  unfold answer
  rw [if_pos h]
  by_cases hq : c.sender.fillWindow.segmentsOut = []
  · simp only [hq, ↓reduceIte, sendEmptySegment]
    exact List.append_ne_nil_of_right_ne_nil _ (List.cons_ne_nil _ _)
  · simp only [hq, ↓reduceIte]
    exact hq

/-! ### In LISTEN -/

/-- What a passive connection meets: ticks, and segments without SYN. -/
def Passive : Op → Prop
  | .segment seg => seg.header.syn = false
  | .tick _ => True
  | _ => False

/-- A segment that changes nothing: no reset, nothing that occupies a sequence
number, no acknowledgment of the sender's initial number. -/
def Ignored (isn : WrappingInt32) (seg : TCPSegment) : Prop :=
  seg.header.rst = false ∧ seg.lengthInSequenceSpace = 0 ∧ ¬ (seg.header.ack = true ∧ seg.header.ackno = isn)

def Listening (c : TCPConnection) : Prop := c.state = .ofState .listen ∧ c.segmentsOut = []

instance (c : TCPConnection) : Decidable c.Listening := inferInstanceAs (Decidable (_ ∧ _))

variable {cfg : TCPConfig} {isn : WrappingInt32}

/-- A fresh connection, some time later. -/
def Fresh (cfg : TCPConfig) (isn : WrappingInt32) (c : TCPConnection) : Prop :=
  ∃ time, c = { init cfg isn with timeSinceLastSegmentReceived := time }

/-- One that has left LISTEN for good: it was reset, or it has sent something. -/
structure Left (c : TCPConnection) : Prop where
  unsynced : c.receiver.synReceived = false
  left : c.isActive = false ∨ c.segmentsOut ≠ []

theorem Fresh.listening (h : Fresh cfg isn c) : c.Listening := by
  obtain ⟨time, rfl⟩ := h
  exact ⟨rfl, rfl⟩

theorem Left.not_listening (h : Left c) : ¬ c.Listening := by
  rintro ⟨h1, h2⟩
  rcases h.left with ha | hout
  · have hact : c.state.active = true := by rw [h1]; rfl
    exact Bool.false_ne_true ((active_of_inactive ha).symm.trans hact)
  · exact hout h2

theorem fresh_tick (h : Fresh cfg isn c) (ms : ℕ) : Fresh cfg isn (c.tick ms) := by
  obtain ⟨time, rfl⟩ := h
  exact ⟨(time + ms) % 2 ^ 64, rfl⟩

/-- An acknowledgment of anything but the initial number is ignored. -/
theorem fresh_acked (h : Fresh cfg isn c) (hack : ¬ (seg.header.ack = true ∧ seg.header.ackno = c.sender.isn)) :
    c.acked seg = c.sender := by
  have hzero : c.sender.nextSeqno = 0 := by
    obtain ⟨time, rfl⟩ := h
    rfl
  unfold acked
  split_ifs with hb
  · refine ackReceived_of_lt ?_ _
    rw [hzero]
    exact Nat.pos_of_ne_zero fun hk => hack ⟨hb, unwrap_zero_iff.mp hk⟩
  · rfl

theorem fresh_ignored (h : Fresh cfg isn c) (hsyn : seg.header.syn = false)
    (hseg : Ignored (init cfg isn).sender.isn seg) : ∃ c', c.segmentReceived seg = some c' ∧ Fresh cfg isn c' := by
  have hacked : c.acked seg = c.sender := by
    refine fresh_acked h ?_
    obtain ⟨time, rfl⟩ := h
    exact hseg.2.2
  obtain ⟨time, rfl⟩ := h
  refine ⟨_, segmentReceived_unsynced rfl rfl hseg.1 hsyn, 0, ?_⟩
  rw [answer_of_empty _ hseg.2.1, hacked]
  rfl

/-- The acknowledgment of the initial number lets the SYN go out. -/
theorem fresh_acked_isn (h : Fresh cfg isn c) (hack : seg.header.ack = true ∧ seg.header.ackno = c.sender.isn) :
    (c.acked seg).segmentsOut ≠ [] := by
  have hs : c.sender.nextSeqno = 0 ∧ c.sender.finSent = false := by
    obtain ⟨time, rfl⟩ := h
    exact ⟨rfl, rfl⟩
  obtain ⟨h1, h2⟩ := hs
  have hk : unwrap seg.header.ackno c.sender.isn c.sender.nextSeqno = 0 := by
    rw [h1]
    exact unwrap_zero_iff.mpr hack.2
  obtain ⟨-, f2, -, f4, -, -⟩ := acknowledge_frame c.sender 0 seg.header.win
  have hidle : ¬ (c.sender.acknowledge 0 seg.header.win).Idle := not_idle_of_zero (f2.trans h1) (f4.trans h2)
  have hout := fillWindow_ne_nil hidle
  unfold acked
  rw [if_pos hack.1, ackReceived_of_le (by rw [hk]; exact Nat.zero_le _), hk, (settleTimer_timerOnly _ _).out]
  exact hout

theorem fresh_left (h : Fresh cfg isn c) (hsyn : seg.header.syn = false)
    (hseg : ¬ Ignored (init cfg isn).sender.isn seg) : ∃ c', c.segmentReceived seg = some c' ∧ Left c' := by
  have hc : c.isActive = true ∧ c.receiver.synReceived = false ∧ c.sender.isn = (init cfg isn).sender.isn := by
    obtain ⟨time, rfl⟩ := h
    exact ⟨rfl, rfl, rfl⟩
  obtain ⟨ha, hr, hisn⟩ := hc
  rcases Bool.eq_false_or_eq_true seg.header.rst with hrst | hrst
  · exact ⟨_, segmentReceived_rst ha hrst, hr, Or.inl rfl⟩
  · refine ⟨_, segmentReceived_unsynced ha hr hrst hsyn, ?_, Or.inr ?_⟩
    · unfold answer
      split_ifs <;> exact hr
    · rw [sendSegments_segmentsOut]
      refine List.append_ne_nil_of_right_ne_nil _ fun hmap => ?_
      have hnil := List.map_eq_nil_iff.mp hmap
      rcases Nat.eq_zero_or_pos seg.lengthInSequenceSpace with hlen | hlen
      · rw [answer_of_empty _ hlen] at hnil
        have hack : seg.header.ack = true ∧ seg.header.ackno = c.sender.isn := by
          rw [hisn]
          exact not_not.mp fun hc => hseg ⟨hrst, hlen, hc⟩
        exact fresh_acked_isn h hack hnil
      · exact answer_ne_nil _ hlen hnil

/-- A connection that has left LISTEN is not stopped by a segment, and does
not come back. -/
theorem left_step (h : Left c) {op : Op} (hop : Passive op) : ∃ c', step c op = some c' ∧ Left c' := by
  rcases Bool.eq_false_or_eq_true c.isActive with ha | ha
  · have hout := h.left.resolve_left (by rw [ha]; decide)
    cases op with
    | segment seg =>
      have hsyn : seg.header.syn = false := hop
      rcases Bool.eq_false_or_eq_true seg.header.rst with hrst | hrst
      · exact ⟨_, segmentReceived_rst ha hrst, h.unsynced, Or.inl rfl⟩
      · refine ⟨_, segmentReceived_unsynced ha h.unsynced hrst hsyn, ?_, Or.inr ?_⟩
        · unfold answer
          split_ifs <;> exact h.unsynced
        · rw [sendSegments_segmentsOut]
          refine List.append_ne_nil_of_left_ne_nil ?_ _
          unfold answer
          split_ifs <;> exact hout
    | tick ms =>
      refine ⟨_, rfl, ?_⟩
      rcases tick_cases ha ms with ⟨-, he⟩ | ⟨-, he⟩ <;> rw [he]
      · exact ⟨h.unsynced, Or.inl rfl⟩
      · exact ⟨h.unsynced, Or.inr (List.append_ne_nil_of_left_ne_nil hout _)⟩
    | _ => exact absurd hop not_false
  · cases op with
    | segment seg => exact ⟨c, segmentReceived_of_inactive ha seg, h⟩
    | tick ms => exact ⟨c, congrArg some (tick_of_inactive ha ms), h⟩
    | _ => exact absurd hop not_false

/-- A fresh connection stays so as long as the segments are ignored. -/
theorem run_fresh : ∀ {ops : List Op} {c : TCPConnection}, Fresh cfg isn c → (∀ op ∈ ops, Passive op) →
    ∃ c', Runs.run step c ops = some c' ∧
      ((∀ seg, .segment seg ∈ ops → Ignored (init cfg isn).sender.isn seg) ∧ Fresh cfg isn c' ∨
        (¬ ∀ seg, .segment seg ∈ ops → Ignored (init cfg isn).sender.isn seg) ∧ Left c')
  | [], c, h, _ => ⟨c, rfl, Or.inl ⟨fun _ hmem => absurd hmem List.not_mem_nil, h⟩⟩
  | op :: ops, c, h, hops => by
    have hop := hops op List.mem_cons_self
    have htail := fun o ho => hops o (List.mem_cons_of_mem op ho)
    -- the run goes on from a connection that is still fresh
    have hon : ∀ c₁, step c op = some c₁ → Fresh cfg isn c₁ →
        (∀ seg, op = .segment seg → Ignored (init cfg isn).sender.isn seg) → ∃ c',
        Runs.run step c (op :: ops) = some c' ∧
          ((∀ seg, .segment seg ∈ op :: ops → Ignored (init cfg isn).sender.isn seg) ∧ Fresh cfg isn c' ∨
            (¬ ∀ seg, .segment seg ∈ op :: ops → Ignored (init cfg isn).sender.isn seg) ∧ Left c') := by
      intro c₁ hs h₁ hfirst
      obtain ⟨c', hr, hc'⟩ := run_fresh h₁ htail
      have hiff : (∀ seg, .segment seg ∈ op :: ops → Ignored (init cfg isn).sender.isn seg) ↔
          ∀ seg, .segment seg ∈ ops → Ignored (init cfg isn).sender.isn seg := by
        constructor
        · exact fun hall seg hmem => hall seg (List.mem_cons_of_mem op hmem)
        · intro hall seg hmem
          rcases List.mem_cons.mp hmem with heq | hmem
          · exact hfirst seg heq.symm
          · exact hall seg hmem
      rw [hiff]
      exact ⟨c', Runs.run_cons.mpr ⟨c₁, hs, hr⟩, hc'⟩
    cases op with
    | segment seg =>
      by_cases hseg : Ignored (init cfg isn).sender.isn seg
      · obtain ⟨c₁, hs, h₁⟩ := fresh_ignored h hop hseg
        refine hon c₁ hs h₁ fun x hx => ?_
        cases hx
        exact hseg
      · obtain ⟨c₁, hs, h₁⟩ := fresh_left h hop hseg
        obtain ⟨c', hr, hc'⟩ := Runs.run_total (fun c op (hl : Left c) (ho : Passive op) => left_step hl ho) h₁ htail
        exact ⟨c', Runs.run_cons.mpr ⟨c₁, hs, hr⟩,
          Or.inr ⟨fun hall => hseg (hall seg List.mem_cons_self), hc'⟩⟩
    | tick ms =>
      refine hon _ rfl (fresh_tick h ms) fun x hx => ?_
      cases hx
    | _ => exact absurd hop not_false

/-- **A passive connection stays in LISTEN**, with nothing sent, through every
sequence of ticks and segments without SYN whose segments are all ignored, and
through no other. -/
theorem listening_iff {ops : List Op} (hops : ∀ op ∈ ops, Passive op) :
    ∃ c, Runs.run step (init cfg isn) ops = some c ∧
      (c.Listening ↔ ∀ seg, .segment seg ∈ ops → Ignored (init cfg isn).sender.isn seg) := by
  obtain ⟨c, hr, hc⟩ := run_fresh (⟨0, rfl⟩ : Fresh cfg isn (init cfg isn)) hops
  refine ⟨c, hr, ?_⟩
  rcases hc with ⟨hall, hf⟩ | ⟨hnot, hl⟩
  · exact ⟨fun _ => hall, fun _ => hf.listening⟩
  · exact ⟨fun hc => absurd hc hl.not_listening, fun hall => absurd hall hnot⟩

theorem listening_iff_later : ∃ c, Runs.run step (init {} ⟨0⟩)
      [.tick 1000, .segment { header := { ack := true, ackno := ⟨5⟩, win := 10 } }] = some c ∧
    (c.Listening ↔ ∀ seg, .segment seg ∈ ([.tick 1000,
      .segment { header := { ack := true, ackno := ⟨5⟩, win := 10 } }] : List Op) → Ignored ⟨0⟩ seg) :=
  listening_iff (by
    intro op hop
    simp only [List.mem_cons, List.not_mem_nil, or_false] at hop
    rcases hop with rfl | rfl
    · trivial
    · rfl)

/-- A reset. -/
def resetSegment : TCPSegment := { header := { rst := true } }

/-- An acknowledgment of the initial number. -/
def isnSegment : TCPSegment := { header := { ack := true, ackno := ⟨0⟩ } }

/-- One byte. -/
def byteSegment : TCPSegment := { payload := [97] }

/-- Each of the three alone ends LISTEN. -/
theorem segment_leaves_listen :
    (resetSegment.header.syn = false ∧ ∃ c ∈ Runs.run step (init {} ⟨0⟩) [.segment resetSegment], ¬ c.Listening) ∧
    (isnSegment.header.syn = false ∧ ∃ c ∈ Runs.run step (init {} ⟨0⟩) [.segment isnSegment], ¬ c.Listening) ∧
    (byteSegment.header.syn = false ∧ ∃ c ∈ Runs.run step (init {} ⟨0⟩) [.segment byteSegment], ¬ c.Listening) := by
  decide +kernel

end TCPConnection
end Sponge

/-
# The summaries of a connection move forward

`TCPState` does not store what state the two halves of a connection are in: it
computes a summary of each from counters and flags. The counters only grow
and the flags, once set, stay (`step_onward`), and from that both summaries
move along one line, with ERROR at its end (`run_forward`). So the loops of
`TCPSpongeSocket` that wait for a connection to leave a state do not see it
again: in between it would have been stopped, which no connection on the way
to ESTABLISHED is (`Steady`), or it would have stopped lingering, which is for
good.

Key definitions: `TCPSenderStateSummary.rank`, `TCPReceiverStateSummary.rank`,
`TCPSender.Onward`, `TCPConnection.Onward`, `TCPConnection.Steady`.
Key theorems: `TCPSender.WF.stateSummary_eq`, `TCPConnection.step_onward`,
`TCPConnection.step_steady`, `TCPConnection.summaries_forward`.
-/
import Sponge.Handshake
import Sponge.Linger

namespace Sponge

/-- The states of a sender in order, ERROR last. -/
def TCPSenderStateSummary.rank : TCPSenderStateSummary → ℕ
  | .closed => 0
  | .synSent => 1
  | .synAcked => 2
  | .finSent => 3
  | .finAcked => 4
  | .error => 5

/-- And those of a receiver. -/
def TCPReceiverStateSummary.rank : TCPReceiverStateSummary → ℕ
  | .listen => 0
  | .synRecv => 1
  | .finRecv => 2
  | .error => 3

/-! ### The sender -/

namespace TCPSender

variable {s s' s'' : TCPSender}

/-- The summary of a sender that is sound, by what was sent and acknowledged. -/
theorem WF.stateSummary_eq (h : WF s) : s.stateSummary =
    if s.stream.error then .error
    else if s.nextSeqno = 0 then .closed
    else if s.lastAckSeqno = 0 then .synSent
    else if s.finSent = false then .synAcked
    else if s.lastAckSeqno < s.nextSeqno then .finSent
    else .finAcked := by
  have hle := h.acked_le
  have hflight : s.bytesInFlight = s.nextSeqno - s.lastAckSeqno := rfl
  by_cases herr : s.stream.error = true
  · rw [if_pos herr]
    exact if_pos herr
  rw [if_neg herr]
  by_cases h0 : s.nextSeqno = 0
  · rw [if_pos h0, stateSummary, if_neg herr, if_pos h0]
  rw [if_neg h0]
  by_cases hlast : s.lastAckSeqno = 0
  · rw [if_pos hlast, stateSummary, if_neg herr, if_neg h0, if_pos (by omega)]
  rw [if_neg hlast]
  by_cases hfin : s.finSent = false
  · rw [if_pos hfin]
    exact h.synAcked_iff.mpr ⟨Bool.not_eq_true _ ▸ herr, Nat.pos_of_ne_zero hlast, hfin⟩
  -- the FIN is sent, so the stream is ended and empty, and all numbers are used
  rw [Bool.not_eq_false] at hfin
  obtain ⟨hended, hbuffer⟩ := h.fin hfin
  have heof : ¬ s.stream.eof = false := by simp [ByteStream.eof, hended, hbuffer]
  have hnext := h.next_of_finSent hfin
  rw [if_neg (by rw [hfin]; decide), stateSummary, if_neg herr, if_neg h0, if_neg (by omega), if_neg heof,
    if_neg (by omega)]
  exact if_congr (by omega) rfl rfl

/-- Nothing is taken back: what was sent, what was acknowledged, the FIN, an
error of the stream. -/
structure Onward (s s' : TCPSender) : Prop where
  next : s.nextSeqno ≤ s'.nextSeqno
  lastAck : s.lastAckSeqno ≤ s'.lastAckSeqno
  fin : s.finSent = true → s'.finSent = true ∧ s'.nextSeqno = s.nextSeqno
  error : s.stream.error = true → s'.stream.error = true

theorem Onward.refl (s : TCPSender) : Onward s s := ⟨le_rfl, le_rfl, fun h => ⟨h, rfl⟩, id⟩

theorem Onward.trans (h : Onward s s') (h' : Onward s' s'') : Onward s s'' where
  next := h.next.trans h'.next
  lastAck := h.lastAck.trans h'.lastAck
  fin := fun hf => ⟨(h'.fin (h.fin hf).1).1, (h'.fin (h.fin hf).1).2.trans (h.fin hf).2⟩
  error := fun he => h'.error (h.error he)

/-- The summary goes on with it. -/
theorem Onward.rank_le (ho : Onward s s') (h : WF s) (h' : WF s') : s.stateSummary.rank ≤ s'.stateSummary.rank := by
  have hnext := ho.next
  have hlast := ho.lastAck
  rw [h.stateSummary_eq, h'.stateSummary_eq]
  by_cases herr' : s'.stream.error = true
  · rw [if_pos herr']
    split_ifs <;> decide
  rw [if_neg herr', if_neg (mt ho.error herr')]
  rcases Bool.eq_false_or_eq_true s.finSent with hf | hf
  · obtain ⟨hf', hsame⟩ := ho.fin hf
    simp only [hf, hf', Bool.true_eq_false, ↓reduceIte]
    split_ifs <;> simp only [TCPSenderStateSummary.rank] <;> omega
  · simp only [hf, ↓reduceIte]
    split_ifs <;> simp only [TCPSenderStateSummary.rank] <;> omega

/-! What every call of the sender does. -/

theorem fillWindow_onward (h : s.lastAckSeqno ≤ s.nextSeqno) : Onward s s.fillWindow where
  next := by
    obtain ⟨segs, -, hchain, -⟩ := fillWindow_sends h
    exact hchain.le
  lastAck := (fillWindow_frame s).lastAck.ge
  fin := fun hf => by rw [fillWindow_of_idle (Or.inl hf)]; exact ⟨hf, rfl⟩
  error := fun he => (fillWindow_frame s).error.trans he

/-- Only the timer and the queues differ. -/
theorem Onward.of_eq (h1 : s'.nextSeqno = s.nextSeqno) (h2 : s'.lastAckSeqno = s.lastAckSeqno)
    (h3 : s'.finSent = s.finSent) (h4 : s'.stream.error = s.stream.error) : Onward s s' :=
  ⟨h1.ge, h2.ge, fun hf => ⟨h3.trans hf, h1⟩, fun he => h4.trans he⟩

theorem ackReceived_onward (h : WF s) (ackno : WrappingInt32) (w : UInt16) : Onward s (s.ackReceived ackno w) := by
  apply (ackReceived_induct (P := fun t => t.lastAckSeqno ≤ t.nextSeqno ∧ Onward s t) _ _ _ _ ackno).2
  · exact ⟨h.acked_le, Onward.refl s⟩
  · intro k hk
    obtain ⟨-, f2, f3, f4, -, -⟩ := acknowledge_frame s k w
    have hlast := acknowledge_lastAck s k w
    have hle := h.acked_le
    refine ⟨by omega, f2.ge, by omega, fun hf => ⟨f4.trans hf, f2⟩, fun he => ?_⟩
    rw [f3]
    exact he
  · rintro t ⟨hle, ht⟩
    have hfill := fillWindow_onward hle
    refine ⟨?_, ht.trans hfill⟩
    rw [(fillWindow_frame t).lastAck]
    exact hle.trans hfill.next
  · rintro t t' ⟨hle, ht⟩ hsame
    refine ⟨?_, ht.trans (Onward.of_eq hsame.next hsame.lastAck hsame.finSent (by rw [hsame.stream]))⟩
    rw [hsame.lastAck, hsame.next]
    exact hle

theorem tick_onward (s : TCPSender) (ms : ℕ) : Onward s (s.tick ms) := by
  obtain ⟨-, h2, h3, -, -, h6, h7⟩ := tick_frame s ms
  exact Onward.of_eq h2 h3 h7 (by rw [h6])

theorem write_onward (s : TCPSender) (data : Bytes) : Onward s (s.write data).2 :=
  Onward.of_eq rfl rfl rfl (ByteStream.write_snd_error _ _)

/-- The SYN goes out with the first segment. -/
theorem WF.fillWindow_next_ne_zero (h : WF s) : s.fillWindow.nextSeqno ≠ 0 := by
  have hge := (fillWindow_onward h.acked_le).next
  by_cases h0 : s.nextSeqno = 0
  · have hlt := fillWindow_next_lt h.acked_le (not_idle_of_zero h0 (h.first h0).2)
    omega
  · omega

end TCPSender
/-! ### The connection -/

namespace TCPReceiver

variable {rcv rcv' : TCPReceiver}

theorem stateSummary_eq (rcv : TCPReceiver) : rcv.stateSummary =
    if rcv.streamOut.error then .error
    else if rcv.synReceived = false then .listen
    else if rcv.streamOut.inputEnded then .finRecv
    else .synRecv := by
  unfold stateSummary ackno
  cases rcv.synReceived <;> rfl

/-- The summary of a receiver goes on when its flags are only set. -/
theorem rank_le (herr : rcv.streamOut.error = true → rcv'.streamOut.error = true)
    (hsyn : rcv.synReceived = true → rcv'.synReceived = true)
    (hended : rcv.streamOut.inputEnded = true → rcv'.streamOut.inputEnded = true) :
    rcv.stateSummary.rank ≤ rcv'.stateSummary.rank := by
  rw [stateSummary_eq, stateSummary_eq]
  by_cases herr' : rcv'.streamOut.error = true
  · rw [if_pos herr']
    split_ifs <;> decide
  rw [if_neg herr', if_neg (mt herr herr')]
  by_cases hs : rcv.synReceived = false
  · rw [if_pos hs]
    exact Nat.zero_le _
  have hs' : ¬ rcv'.synReceived = false := by
    rw [hsyn (Bool.not_eq_false _ ▸ hs)]
    decide
  rw [if_neg hs, if_neg hs']
  by_cases he : rcv.streamOut.inputEnded = true
  · rw [if_pos he, if_pos (hended he)]
  · rw [if_neg he]
    split_ifs <;> decide

end TCPReceiver

namespace TCPConnection

open TCPSender

variable {c c' c'' : TCPConnection} {seg : TCPSegment}

/-- Neither half takes anything back, and what stopped lingering does not
linger again. -/
structure Onward (c c' : TCPConnection) : Prop where
  sender : c.sender.Onward c'.sender
  synced : c.receiver.synReceived = true → c'.receiver.synReceived = true
  ended : c.inboundStream.inputEnded = true → c'.inboundStream.inputEnded = true
  linger : c'.lingerAfterStreamsFinish = true → c.lingerAfterStreamsFinish = true

theorem Onward.refl (c : TCPConnection) : Onward c c := ⟨TCPSender.Onward.refl _, id, id, id⟩

theorem Onward.trans (h : Onward c c') (h' : Onward c' c'') : Onward c c'' where
  sender := h.sender.trans h'.sender
  synced := fun hs => h'.synced (h.synced hs)
  ended := fun he => h'.ended (h.ended he)
  linger := fun hl => h.linger (h'.linger hl)

theorem acked_onward (h : WF c.sender) (seg : TCPSegment) : c.sender.Onward (c.acked seg) := by
  unfold acked
  split_ifs
  · exact ackReceived_onward h _ _
  · exact TCPSender.Onward.refl _

theorem respond_onward (h : WF c.sender) (seg : TCPSegment) : c.sender.Onward (c.respond seg).sender := by
  apply respond_induct (P := fun d => WF d.sender ∧ c.sender.Onward d.sender) (Q := fun d => c.sender.Onward d.sender)
  · exact fun d hd => ⟨hd.1.fillWindow, hd.2.trans (fillWindow_onward hd.1.acked_le)⟩
  · exact fun d hd => ⟨hd.1.sendEmptySegment, hd.2.trans (TCPSender.Onward.of_eq rfl rfl rfl rfl)⟩
  · exact fun d hd => hd
  · exact fun d hd => hd
  · exact fun d hd => hd.2.trans (TCPSender.Onward.of_eq rfl rfl rfl rfl)
  · exact ⟨h, TCPSender.Onward.refl _⟩

/-- Every call moves the sender on. -/
theorem step_sender (h : WF c.sender) {op : Op} (hs : step c op = some c') : c.sender.Onward c'.sender := by
  have hsent : ∀ s : TCPSender, s.Onward { s with segmentsOut := [] } := fun s =>
    TCPSender.Onward.of_eq rfl rfl rfl rfl
  have hfill : ∀ s : TCPSender, WF s → c.sender.Onward s → c.sender.Onward { s.fillWindow with segmentsOut := [] } :=
    fun s hwf ho => (ho.trans (fillWindow_onward hwf.acked_le)).trans (hsent _)
  have herr : ∀ s : TCPSender, s.Onward s.setError := fun s => ⟨le_rfl, le_rfl, fun hf => ⟨hf, rfl⟩, fun _ => rfl⟩
  cases op with
  | connect =>
    obtain rfl := Option.some.inj hs
    exact hfill _ h (TCPSender.Onward.refl _)
  | write data =>
    obtain rfl := Option.some.inj hs
    exact hfill _ (h.write data) (write_onward _ data)
  | endInputStream =>
    obtain rfl := Option.some.inj hs
    exact hfill _ h.endInput (TCPSender.Onward.of_eq rfl rfl rfl rfl)
  | segment seg =>
    change c.segmentReceived seg = some c' at hs
    rcases segment_cases hs with ⟨-, rfl⟩ | ⟨-, -, rfl⟩ | ⟨-, -, receiver, -, rfl⟩
    · exact TCPSender.Onward.refl _
    · exact herr _
    · exact (acked_onward h seg).trans (respond_onward
        (c := { c with timeSinceLastSegmentReceived := 0, receiver, sender := c.acked seg }) (acked_wf h seg) seg)
  | tick ms =>
    obtain rfl := Option.some.inj hs
    rcases Bool.eq_false_or_eq_true c.isActive with ha | ha
    · rcases tick_cases ha ms with ⟨-, he⟩ | ⟨-, he⟩ <;> rw [he]
      · exact (tick_onward _ ms).trans (herr _)
      · exact (tick_onward _ ms).trans (hsent _)
    · rw [tick_of_inactive ha]
      exact TCPSender.Onward.refl _
  | read len =>
    obtain rfl := Option.some.inj hs
    exact TCPSender.Onward.refl _

theorem Onward.receiver_rank_le (ho : Onward c c') (h : Sound c) (h' : Sound c') :
    c.receiver.stateSummary.rank ≤ c'.receiver.stateSummary.rank := by
  refine TCPReceiver.rank_le (fun he => ?_) ho.synced ho.ended
  rw [h'.error]
  exact ho.sender.error (h.error ▸ he)

/-- **Every call moves a connection on.** -/
theorem step_onward (h : Sound c) {op : Op} (hs : step c op = some c') : Onward c c' := by
  refine ⟨step_sender h.wf hs, fun hr => step_synced hr hs, ?_, ?_⟩
  · intro he
    rcases step_ending hs with ⟨h1, -⟩ | ⟨seg, rfl, hr⟩
    · exact h1.trans he
    · exact hr.ended h he
  · intro hl
    rcases step_ending hs with ⟨-, h2⟩ | ⟨seg, rfl, hr⟩
    · exact h2.symm.trans hl
    · rw [hr.linger h] at hl
      split_ifs at hl
      exact hl

/-- Both streams of a connection are finished iff the peer's is ended, and the
FIN sent and acknowledged. -/
theorem streamsClosed_iff (h : WF c.sender) : c.streamsClosed = true ↔
    c.inboundStream.inputEnded = true ∧ c.sender.finSent = true ∧ c.sender.lastAckSeqno = c.sender.nextSeqno := by
  have hle := h.acked_le
  simp only [streamsClosed, Bool.and_eq_true, beq_iff_eq, inboundStream, bytesInFlight, and_assoc]
  constructor
  · rintro ⟨h1, h2, h3, h4⟩
    refine ⟨h1, ?_, by omega⟩
    by_contra hf
    have hnext := h.next_le (Bool.not_eq_true _ ▸ hf)
    omega
  · rintro ⟨h1, h2, h3⟩
    obtain ⟨hended, hbuffer⟩ := h.fin h2
    refine ⟨h1, ?_, by omega, h.next_of_finSent h2⟩
    simp [ByteStream.eof, hended, hbuffer]

/-- That is for good. -/
theorem Onward.streamsClosed (ho : Onward c c') (h : WF c.sender) (h' : WF c'.sender) (hc : c.streamsClosed = true) :
    c'.streamsClosed = true := by
  obtain ⟨h1, h2, h3⟩ := (streamsClosed_iff h).mp hc
  obtain ⟨h4, h5⟩ := ho.sender.fin h2
  have hlast := ho.sender.lastAck
  have hle := h'.acked_le
  exact (streamsClosed_iff h').mpr ⟨ho.ended h1, h4, by omega⟩

/-- What every run keeps: an active connection has sent what its sender
queued, a connection that has the peer's SYN has sent its own, and one that
was stopped was reset or is finished. -/
structure Steady (c : TCPConnection) : Prop where
  sound : Sound c
  queue : c.isActive = true → c.sender.segmentsOut = []
  opened : c.receiver.synReceived = true → c.sender.nextSeqno ≠ 0
  stopped : c.isActive = false → c.sender.stream.error = true ∨ c.streamsClosed = true

theorem init_steady (cfg : TCPConfig) (isn : WrappingInt32) : Steady (init cfg isn) :=
  ⟨init_sound cfg isn, fun _ => rfl, fun h => absurd h Bool.false_ne_true, fun h => absurd h.symm Bool.false_ne_true⟩

/-- A response to what occupies sequence numbers has sent the own SYN. -/
theorem respond_opened (h : WF c.sender) (hlen : 0 < seg.lengthInSequenceSpace) :
    (c.respond seg).sender.nextSeqno ≠ 0 := by
  have hreply : ∀ d : TCPConnection, WF d.sender → (d.reply seg).sender.nextSeqno ≠ 0 := by
    intro d hd
    rw [reply_of_pos d hlen, answer, if_pos hlen]
    dsimp only
    split_ifs
    · exact hd.fillWindow_next_ne_zero
    · exact hd.fillWindow_next_ne_zero
  unfold respond
  split_ifs
  · exact h.fillWindow_next_ne_zero
  · exact hreply _ h
  · exact hreply c h

theorem respond_queue (c : TCPConnection) (seg : TCPSegment) : (c.respond seg).sender.segmentsOut = [] := by
  apply respond_induct (P := fun _ => True) (Q := fun d => d.sender.segmentsOut = []) (fun _ h => h) (fun _ h => h)
    (fun _ h => h) (fun _ h => h) (fun _ _ => rfl) trivial

theorem step_steady (h : Steady c) {op : Op} (hs : step c op = some c') : Steady c' := by
  have ho := step_onward h.sound hs
  have hsound := (step_sound h.sound hs).1
  -- a call that does not bring the SYN, and a connection that was stopped before
  have hopened : c'.receiver.synReceived = c.receiver.synReceived →
      c'.receiver.synReceived = true → c'.sender.nextSeqno ≠ 0 := by
    intro he hr
    have hnext := ho.sender.next
    have hne := h.opened (he.symm.trans hr)
    omega
  have hstopped : c.isActive = false → c'.sender.stream.error = true ∨ c'.streamsClosed = true := fun ha =>
    (h.stopped ha).imp ho.sender.error (ho.streamsClosed h.sound.wf hsound.wf)
  cases op with
  | connect =>
    obtain rfl := Option.some.inj hs
    exact ⟨hsound, fun _ => rfl, hopened rfl, fun ha => absurd ha.symm Bool.false_ne_true⟩
  | write data =>
    obtain rfl := Option.some.inj hs
    exact ⟨hsound, fun _ => rfl, hopened rfl, hstopped⟩
  | endInputStream =>
    obtain rfl := Option.some.inj hs
    exact ⟨hsound, fun _ => rfl, hopened rfl, hstopped⟩
  | segment seg =>
    have hs' := hs
    change c.segmentReceived seg = some c' at hs'
    rcases segment_cases hs' with ⟨-, rfl⟩ | ⟨-, -, rfl⟩ | ⟨ha, hrst, receiver, -, hc'⟩
    · exact h
    · exact ⟨hsound, fun ha => absurd ha Bool.false_ne_true, hopened rfl, fun _ => Or.inl rfl⟩
    · have hwf := acked_wf h.sound.wf seg
      refine ⟨hsound, fun _ => ?_, fun hr => ?_, fun hstop => ?_⟩
      · rw [hc']
        exact respond_queue _ _
      · rw [segmentReceived_syn ha hrst hs', Bool.or_eq_true] at hr
        rcases hr with hr | hsyn
        · have hne := h.opened hr
          have hnext := ho.sender.next
          omega
        · have hlen : 0 < seg.lengthInSequenceSpace := by
            unfold TCPSegment.lengthInSequenceSpace
            rw [if_pos hsyn]
            omega
          rw [hc']
          exact respond_opened hwf hlen
      · have hres := respond_responds
          (c := { c with timeSinceLastSegmentReceived := 0, receiver, sender := c.acked seg }) hwf seg
        rw [hc', hres.isActive ha] at hstop
        cases hstop
  | tick ms =>
    obtain rfl := Option.some.inj hs
    rcases Bool.eq_false_or_eq_true c.isActive with ha | ha
    · rcases tick_cases ha ms with ⟨-, he⟩ | ⟨-, he⟩
      · rw [he] at hsound hopened ⊢
        exact ⟨hsound, fun ha => absurd ha Bool.false_ne_true, hopened rfl, fun _ => Or.inl rfl⟩
      · rw [he] at hsound hopened ⊢
        have hclosed := active_eq_false_iff (c := c.ticked ms) ha
        exact ⟨hsound, fun _ => rfl, hopened rfl, fun hstop => Or.inr (hclosed.mp hstop).1⟩
    · rw [tick_of_inactive ha]
      exact h
  | read len =>
    obtain rfl := Option.some.inj hs
    exact ⟨hsound, h.queue, hopened rfl, hstopped⟩

theorem Steady.run (h : Steady c) {ops : List Op} (hr : Runs.run step c ops = some c') : Steady c' :=
  Runs.run_invariant (fun _ _ _ h hs => step_steady h hs) h hr

theorem run_steady {cfg : TCPConfig} {isn : WrappingInt32} {ops : List Op}
    (hr : Runs.run step (init cfg isn) ops = some c) : Steady c := (init_steady cfg isn).run hr

/-- A run moves a connection on. -/
theorem run_onward (h : Steady c) {ops : List Op} (hr : Runs.run step c ops = some c') : Onward c c' := by
  refine (Runs.run_invariant (I := fun d => Steady d ∧ Onward c d) ?_ ⟨h, Onward.refl c⟩ hr).2
  rintro d op d' ⟨hd, ho⟩ hs
  exact ⟨step_steady hd hs, ho.trans (step_onward hd.sound hs)⟩

/-! ### The states that are waited for -/

/-- While `connect` of the socket waits. -/
def Connecting (s : TCPState) : Prop := s = .ofState .synSent

/-- While `listen_and_accept` waits. -/
def Accepting (s : TCPState) : Prop := s = .ofState .listen ∨ s = .ofState .synRcvd ∨ s = .ofState .synSent

theorem state_eq_iff {r : TCPReceiverStateSummary} {t : TCPSenderStateSummary} :
    c.state = { receiver := r, sender := t } ↔ c.receiver.stateSummary = r ∧ c.sender.stateSummary = t ∧
      c.active = true ∧ c.lingerAfterStreamsFinish = true := by
  simp only [state, TCPState.mk.injEq]
  cases c.active <;> simp

/-- A connection whose SYN is not acknowledged was not stopped. -/
theorem Steady.active (h : Steady c) (hs : c.sender.stateSummary.rank ≤ 1) : c.active = true := by
  rw [h.sound.wf.stateSummary_eq] at hs
  have herr : ¬ c.sender.stream.error = true := by
    intro he
    rw [if_pos he] at hs
    exact absurd hs (by decide)
  have hclosed : ¬ c.streamsClosed = true := by
    intro hc
    obtain ⟨-, hfin, hacked⟩ := (streamsClosed_iff h.sound.wf).mp hc
    have hnext := h.sound.wf.next_of_finSent hfin
    rw [if_neg herr, if_neg (by omega), if_neg (by omega), hfin, if_neg (by decide)] at hs
    split_ifs at hs
    · omega
    · exact absurd hs (by decide)
  rcases Bool.eq_false_or_eq_true c.isActive with ha | ha
  · by_contra hc
    exact hclosed ((active_eq_false_iff ha).mp (Bool.not_eq_true _ ▸ hc)).1
  · rcases h.stopped ha with he | hc
    · exact absurd he herr
    · exact absurd hc hclosed

/-- The socket waits while the own SYN is not acknowledged, the peer's stream
is not ended, and the connection still lingers. -/
theorem accepting_iff (h : Steady c) : Accepting c.state ↔
    c.sender.stateSummary.rank ≤ 1 ∧ c.receiver.stateSummary.rank ≤ 1 ∧ c.lingerAfterStreamsFinish = true := by
  unfold Accepting
  constructor
  · rintro (he | he | he) <;> obtain ⟨h1, h2, -, h4⟩ := state_eq_iff.mp he <;> rw [h1, h2] <;>
      exact ⟨by decide, by decide, h4⟩
  · rintro ⟨hs, hr, hlinger⟩
    have hactive := h.active hs
    cases hsum : c.sender.stateSummary with
    | closed =>
      -- the own SYN goes out before the peer's is in the state
      have hnext : c.sender.nextSeqno = 0 := by
        rw [h.sound.wf.stateSummary_eq] at hsum
        split_ifs at hsum with h1 h2
        exact h2
      have hsyn : c.receiver.synReceived = false := by
        by_contra hc
        exact h.opened (Bool.not_eq_false _ ▸ hc) hnext
      by_cases herr : c.receiver.streamOut.error = true
      · rw [TCPReceiver.stateSummary_eq, if_pos herr] at hr
        exact absurd hr (by decide)
      · refine Or.inl (state_eq_iff.mpr ⟨?_, hsum, hactive, hlinger⟩)
        rw [TCPReceiver.stateSummary_eq, if_neg herr, if_pos hsyn]
    | synSent =>
      cases hrsum : c.receiver.stateSummary with
      | listen => exact Or.inr (Or.inr (state_eq_iff.mpr ⟨hrsum, hsum, hactive, hlinger⟩))
      | synRecv => exact Or.inr (Or.inl (state_eq_iff.mpr ⟨hrsum, hsum, hactive, hlinger⟩))
      | _ =>
        rw [hrsum] at hr
        exact absurd hr (by decide)
    | _ =>
      rw [hsum] at hs
      exact absurd hs (by decide)

theorem connecting_iff (h : Steady c) : Connecting c.state ↔
    c.sender.stateSummary.rank = 1 ∧ c.receiver.stateSummary.rank = 0 ∧ c.lingerAfterStreamsFinish = true := by
  constructor
  · intro he
    obtain ⟨h1, h2, -, h4⟩ := state_eq_iff.mp he
    rw [h1, h2]
    exact ⟨rfl, rfl, h4⟩
  · rintro ⟨hs, hr, hlinger⟩
    refine state_eq_iff.mpr ⟨?_, ?_, h.active hs.le, hlinger⟩
    · cases hsum : c.receiver.stateSummary <;> rw [hsum] at hr <;> first | rfl | cases hr
    · cases hsum : c.sender.stateSummary <;> rw [hsum] at hs <;> first | rfl | cases hs

/-- **The summaries move forward.** From any state of a run to any later one
both summaries stay or move on, ERROR being the last; so a state that one of
the loops waits for, once it is left, does not come back. -/
theorem summaries_forward {cfg : TCPConfig} {isn : WrappingInt32} {ops ops' : List Op}
    (hr : Runs.run step (init cfg isn) ops = some c) (hr' : Runs.run step c ops' = some c') :
    c.sender.stateSummary.rank ≤ c'.sender.stateSummary.rank ∧
      c.receiver.stateSummary.rank ≤ c'.receiver.stateSummary.rank ∧
      ∀ waits ∈ [Connecting, Accepting], waits c.state → ¬ waits c'.state →
        ∀ ops'' c'', Runs.run step c' ops'' = some c'' → ¬ waits c''.state := by
  have h := run_steady hr
  have h' := h.run hr'
  have ho := run_onward h hr'
  have hsender := ho.sender.rank_le h.sound.wf h'.sound.wf
  refine ⟨hsender, ho.receiver_rank_le h.sound h'.sound, ?_⟩
  intro waits hwaits hbefore hleft ops'' c'' hr'' hback
  have h'' := h'.run hr''
  have ho' := run_onward h' hr''
  have hsender' := ho'.sender.rank_le h'.sound.wf h''.sound.wf
  have hreceiver' := ho'.receiver_rank_le h'.sound h''.sound
  simp only [List.mem_cons, List.not_mem_nil, or_false] at hwaits
  rcases hwaits with rfl | rfl
  · obtain ⟨h1, -, -⟩ := (connecting_iff h).mp hbefore
    obtain ⟨h2, h3, h4⟩ := (connecting_iff h'').mp hback
    exact hleft ((connecting_iff h').mpr ⟨by omega, by omega, ho'.linger h4⟩)
  · obtain ⟨h2, h3, h4⟩ := (accepting_iff h'').mp hback
    exact hleft ((accepting_iff h').mpr ⟨by omega, by omega, ho'.linger h4⟩)

/-- An active open, and then the peer accepts. -/
theorem summaries_forward_accept : ∃ c ∈ Runs.run step (init {} ⟨0⟩) [.connect],
    ∃ c' ∈ Runs.run step c [.segment Watched.synAckSegment],
      c.state = .ofState .synSent ∧ c'.state = .ofState .established ∧
        ∀ ops c'', Runs.run step c' ops = some c'' → ¬ Connecting c''.state := by
  have hex : ∃ c ∈ Runs.run step (init {} ⟨0⟩) [.connect], ∃ c' ∈ Runs.run step c [.segment Watched.synAckSegment],
      c.state = .ofState .synSent ∧ c'.state = .ofState .established := by decide +kernel
  obtain ⟨c, hc, c', hc', h1, h2⟩ := hex
  refine ⟨c, hc, c', hc', h1, h2, (summaries_forward hc hc').2.2 Connecting (by simp) h1 ?_⟩
  unfold Connecting
  rw [h2]
  decide

end TCPConnection
end Sponge

/-
# After the end

A connection that is not active any more should stay so and be silent.
`segment_received` and `tick` look at `_is_active` first; `connect`, `write`
and `end_input_stream` do not, and a connection that has closed cleanly but
was not ticked since still answers. `Quiet` is the condition under which a
call on an inactive connection neither revives it nor sends anything, and a
run is silent after the end iff every call made then meets it.

Key definitions: `TCPConnection.Quiet`, `TCPConnection.Unsent`,
`TCPConnection.Inv`.
Key theorems: `TCPConnection.quiet_iff`, `TCPConnection.step_inv_of_retx`,
`TCPConnection.step_inv`, `TCPConnection.silent_iff`.
-/
import Sponge.Flight
import Sponge.TCPConnection
import Sponge.Lib.Runs

namespace Sponge

/-- A SYN or a FIN is still to be sent, and fits the window. -/
def TCPSender.Unsent (s : TCPSender) : Prop :=
  s.finSent = false ∧ s.bytesInFlight < s.currentWindow ∧ (s.nextSeqno = 0 ∨ s.stream.eof = true)

namespace TCPSender

/-- A sender whose stream is in error has no bytes to send. -/
theorem idle_iff_of_error {s : TCPSender} (h : s.stream.error = true) : s.Idle ↔ ¬ s.Unsent := by
  have hpeek : ∀ n, s.stream.peekOutput n = [] := fun n => by
    rw [ByteStream.peekOutput_eq, if_pos h, List.take_zero]
  have hlen : (s.build s.currentWindow).1.lengthInSequenceSpace = (if s.nextSeqno = 0 then 1 else 0) +
      if s.finSent = false ∧ s.stream.eof = true ∧ (if s.nextSeqno = 0 then 1 else 0) < s.currentWindow - s.bytesInFlight
        then 1 else 0 := by
    simp only [build, ByteStream.read, hpeek, ByteStream.popOutput_of_peek_nil (hpeek _),
      TCPSegment.lengthInSequenceSpace, List.length_nil, Bool.false_eq_true, ↓reduceIte, add_zero, zero_add,
      beq_iff_eq, Bool.and_eq_true, Bool.not_eq_true', decide_eq_true_eq, and_assoc]
  unfold Idle Unsent
  rw [hlen]
  rcases Bool.eq_false_or_eq_true s.finSent with hf | hf <;> rcases Bool.eq_false_or_eq_true s.stream.eof with he | he <;>
    simp only [hf, he] <;> by_cases h0 : s.nextSeqno = 0 <;> simp [h0]

/-- A sender that is done: the stream is empty and ended, the FIN sent and
acknowledged, nothing queued. -/
structure Done (s : TCPSender) : Prop where
  wf : WF s
  eof : s.stream.eof = true
  acked : s.lastAckSeqno = s.nextSeqno
  next : s.nextSeqno = s.stream.bytesWritten + 2
  queue : s.segmentsOut = []

namespace Done

variable {s : TCPSender}

theorem finSent (h : Done s) : s.finSent = true := by
  have h1 := h.next
  have h2 := h.wf.later (by omega)
  have h3 := s.stream.count
  by_contra hc
  rw [if_neg hc] at h2
  omega

theorem idle (h : Done s) : s.Idle := Or.inl h.finSent

theorem outstanding (h : Done s) : s.segmentsOutstanding = [] := h.wf.outstanding_eq_nil_iff.mpr h.acked

theorem inputEnded (h : Done s) : s.stream.inputEnded = true := by
  have := h.eof
  simp only [ByteStream.eof, Bool.and_eq_true] at this
  exact this.1

theorem not_unsent (h : Done s) : ¬ s.Unsent := fun hu => Bool.false_ne_true (hu.1.symm.trans h.finSent)

/-- An acknowledgment leaves a sender that is done so. -/
theorem ackReceived (h : Done s) (ackno : WrappingInt32) (w : UInt16) : Done (s.ackReceived ackno w) := by
  have hwf := h.wf.ackReceived ackno w
  rcases lt_or_ge s.nextSeqno (unwrap ackno s.isn s.nextSeqno) with hk | hk
  · rw [ackReceived_of_lt hk]
    exact h
  · rw [ackReceived_of_le hk] at hwf ⊢
    generalize unwrap ackno s.isn s.nextSeqno = k at hk hwf ⊢
    obtain ⟨-, f2, f3, f4, f5, -⟩ := acknowledge_frame s k w
    have hlast := acknowledge_lastAck s k w
    rw [fillWindow_of_idle (Or.inl (f4.trans h.finSent))] at hwf ⊢
    have ht := settleTimer_timerOnly (s.acknowledge k w) (decide (s.lastAckSeqno < k))
    refine ⟨hwf, ?_, ?_, ?_, ?_⟩
    · rw [ht.stream, f3, h.eof]
    · rw [ht.lastAck, ht.next, hlast, f2, h.acked, max_eq_left hk]
    · rw [ht.next, ht.stream, f2, f3, h.next]
    · rw [ht.out, f5, h.queue]

/-- So does a tick: there is nothing to send again. -/
theorem tick (h : Done s) (ms : ℕ) :
    Done (s.tick ms) ∧ (s.tick ms).consecutiveRetransmissions = s.consecutiveRetransmissions := by
  rcases tick_cases s ms with ⟨time, ht⟩ | ⟨seg, segs, -, ho, -⟩
  · rw [ht]
    exact ⟨⟨h.wf.congr rfl rfl rfl rfl rfl rfl, h.eof, h.acked, h.next, h.queue⟩, rfl⟩
  · rw [h.outstanding] at ho
    cases ho

end Done
end TCPSender

namespace TCPConnection

open TCPSender

/-- A keep-alive: its number is one before what the receiver waits for. -/
def Pings (c : TCPConnection) (seg : TCPSegment) : Prop :=
  ∃ ackno, c.receiver.ackno = some ackno ∧ seg.header.seqno = ackno.sub 1

/-- When a call on an inactive connection neither revives it nor sends. -/
def Quiet (c : TCPConnection) : Op → Prop
  | .connect => c.streamsClosed = true ∧
      (c.lingerAfterStreamsFinish = false ∨ 10 * c.cfg.rtTimeout.toNat ≤ c.timeSinceLastSegmentReceived)
  | .write _ => c.sender.segmentsOut = [] ∧ ¬ c.sender.Unsent
  | .endInputStream => c.sender.segmentsOut = [] ∧ ¬ c.sender.endInput.Unsent
  | .segment seg => c.isActive = false ∨ seg.header.rst = true ∨
      seg.lengthInSequenceSpace = 0 ∧ ¬ c.Pings seg ∧ (c.lingerAfterStreamsFinish = false ∨ c.cfg.rtTimeout = 0)
  | .tick ms => c.isActive = false ∨ c.lingerAfterStreamsFinish = false ∨
      10 * c.cfg.rtTimeout.toNat ≤ (c.timeSinceLastSegmentReceived + ms) % 2 ^ 64
  | .read _ => True

/-- The connection is still inactive and sent nothing. -/
def Stays (c c' : TCPConnection) : Prop := c'.active = false ∧ c'.segmentsOut = c.segmentsOut

/-- What every run keeps whose calls are all quiet after the end. Segments
stay queued only when the limit of retransmissions is passed. -/
structure Inv (c : TCPConnection) : Prop where
  wf : WF c.sender
  queue : c.sender.segmentsOut ≠ [] → c.isActive = false ∧ c.sender.segmentsOutstanding ≠ []
  retx : TCPConfig.maxRetxAttempts < c.sender.consecutiveRetransmissions →
    c.isActive = false ∧ c.sender.segmentsOutstanding ≠ []
  stopped : c.isActive = false → c.sender.stream.error = true ∨ c.streamsClosed = true

variable {c c' : TCPConnection}

theorem Inv.done (h : Inv c) (hc : c.streamsClosed = true) : Done c.sender ∧ c.receiver.streamOut.inputEnded = true := by
  simp only [streamsClosed, Bool.and_eq_true, beq_iff_eq] at hc
  obtain ⟨⟨⟨h1, h2⟩, h3⟩, h4⟩ := hc
  have hle := h.wf.acked_le
  unfold bytesInFlight at h3
  have hacked : c.sender.lastAckSeqno = c.sender.nextSeqno := by omega
  refine ⟨⟨h.wf, h2, hacked, h4, ?_⟩, h1⟩
  by_contra hq
  exact (h.queue hq).2 (h.wf.outstanding_eq_nil_iff.mpr hacked)

theorem streamsClosed_of_done (h : Done c.sender) (hr : c.receiver.streamOut.inputEnded = true) :
    c.streamsClosed = true := by
  simp only [streamsClosed, hr, h.eof, bytesInFlight, h.acked, h.next, Nat.sub_self, beq_self_eq_true, Bool.and_true]

theorem active_done (h : Done c.sender) (hr : c.receiver.streamOut.inputEnded = true) (ha : c.isActive = true) :
    c.active = false ↔ c.lingerAfterStreamsFinish = false ∨
      10 * c.cfg.rtTimeout.toNat ≤ c.timeSinceLastSegmentReceived := by
  rw [active_eq_false_iff ha]
  exact and_iff_right (streamsClosed_of_done h hr)

/-- An inactive connection is stopped, or both its streams are done. -/
theorem Inv.inactive (h : Inv c) (hc : c.active = false) (ha : c.isActive = true) :
    Done c.sender ∧ c.receiver.streamOut.inputEnded = true := h.done ((active_eq_false_iff ha).mp hc).1

/-! ### The calls -/

theorem quiet_connect (h : Inv c) : Stays c c.connect ↔ c.Quiet .connect := by
  unfold Stays connect Quiet
  rw [sendSegments_active, active_eq_false_iff rfl]
  by_cases hclosed : c.streamsClosed = true
  · obtain ⟨hd, hr⟩ := h.done hclosed
    rw [fillWindow_of_idle hd.idle]
    have hs : (sendSegments { c with isActive := true }).segmentsOut = c.segmentsOut :=
      sendSegments_silent.mpr hd.queue
    exact ⟨fun h1 => ⟨hclosed, h1.1.2⟩, fun h1 => ⟨⟨hclosed, h1.2⟩, hs⟩⟩
  · refine ⟨fun h1 => absurd ?_ hclosed, fun h1 => absurd h1.1 hclosed⟩
    have h2 := h1.1.1
    by_cases hidle : c.sender.Idle
    · rw [fillWindow_of_idle hidle] at h2
      exact h2
    · have h3 := fillWindow_next_lt h.wf.acked_le hidle
      have h4 := (fillWindow_frame c.sender).lastAck
      have h5 := h.wf.acked_le
      simp only [streamsClosed, bytesInFlight, Bool.and_eq_true, beq_iff_eq] at h2
      omega

/-- Filling the window after the stream was ended, or after a write. -/
theorem quiet_fill (hc : c.active = false) {s : TCPSender} (hq : s.segmentsOut = c.sender.segmentsOut)
    (hs : s.Idle ↔ ¬ s.Unsent) (hsame : c.isActive = true → s = c.sender) :
    Stays c (sendSegments { c with sender := s.fillWindow }) ↔ c.sender.segmentsOut = [] ∧ ¬ s.Unsent := by
  unfold Stays
  rw [sendSegments_active, ← hs]
  have hsil : (sendSegments { c with sender := s.fillWindow }).segmentsOut = c.segmentsOut ↔
      s.fillWindow.segmentsOut = [] := sendSegments_silent
  have hempty : s.fillWindow.segmentsOut = [] ↔ c.sender.segmentsOut = [] ∧ s.Idle := by
    rw [← hq]
    constructor
    · intro h1
      have h2 := fillWindow_out s
      rw [h1, List.prefix_nil] at h2
      refine ⟨h2, ?_⟩
      by_contra hi
      exact fillWindow_of_not_idle hi (h1.trans h2.symm)
    · rintro ⟨h1, h2⟩
      rw [fillWindow_of_idle h2, h1]
  rw [hsil, hempty]
  refine ⟨And.right, fun h1 => ⟨?_, h1⟩⟩
  rcases Bool.eq_false_or_eq_true c.isActive with ha | ha
  · rw [fillWindow_of_idle h1.2, hsame ha]
    exact hc
  · exact active_of_inactive ha

/-- What an inactive connection's stream is: in error, or ended and empty. -/
theorem Inv.stream (h : Inv c) (hc : c.active = false) : c.sender.stream.error = true ∨ Done c.sender := by
  rcases Bool.eq_false_or_eq_true c.isActive with ha | ha
  · exact Or.inr (h.inactive hc ha).1
  · exact (h.stopped ha).imp_right fun hcl => (h.done hcl).1

theorem write_inactive (h : Inv c) (hc : c.active = false) (data : Bytes) : (c.sender.write data).2 = c.sender := by
  have hn : ¬ c.sender.stream.Open := fun ho => by
    rcases h.stream hc with he | hd
    · exact Bool.false_ne_true (ho.1.symm.trans he)
    · exact Bool.false_ne_true (ho.2.symm.trans hd.inputEnded)
  simp only [TCPSender.write, ByteStream.write_of_not_open hn]

theorem quiet_write (h : Inv c) (hc : c.active = false) (data : Bytes) :
    Stays c (c.write data).2 ↔ c.Quiet (.write data) := by
  have hidle : c.sender.Idle ↔ ¬ c.sender.Unsent := by
    rcases h.stream hc with he | hd
    · exact idle_iff_of_error he
    · exact iff_of_true hd.idle hd.not_unsent
  change Stays c (sendSegments { c with sender := (c.sender.write data).2.fillWindow }) ↔ _
  rw [write_inactive h hc]
  exact quiet_fill hc rfl hidle fun _ => rfl

theorem quiet_endInputStream (h : Inv c) (hc : c.active = false) :
    Stays c c.endInputStream ↔ c.Quiet .endInputStream := by
  have hidle : c.sender.endInput.Idle ↔ ¬ c.sender.endInput.Unsent := by
    rcases h.stream hc with he | hd
    · exact idle_iff_of_error he
    · exact iff_of_true (Or.inl hd.finSent) fun hu => Bool.false_ne_true (hu.1.symm.trans hd.finSent)
  refine quiet_fill hc rfl hidle fun ha => ?_
  have hd := (h.inactive hc ha).1
  unfold TCPSender.endInput
  rw [ByteStream.endInput_of_ended hd.inputEnded]

theorem quiet_tick (h : Inv c) (hc : c.active = false) (ms : ℕ) : Stays c (c.tick ms) ↔ c.Quiet (.tick ms) := by
  unfold Stays Quiet
  rcases Bool.eq_false_or_eq_true c.isActive with ha | ha
  · obtain ⟨hd, hr⟩ := h.inactive hc ha
    obtain ⟨hd', hretx⟩ := hd.tick ms
    have hact : (c.ticked ms).active = false ↔ _ := active_done (c := c.ticked ms) hd' hr ha
    rcases tick_cases ha ms with ⟨hlt, -⟩ | ⟨-, ht⟩
    · rw [hretx] at hlt
      exact absurd hd.outstanding (h.retx hlt).2
    · have hstays : (c.tick ms).active = (c.ticked ms).active := by
        rw [ht]
        rcases Bool.eq_false_or_eq_true (c.ticked ms).active with h1 | h1 <;> rw [h1]
        · exact ((congrArg (fun b => active { (c.ticked ms).sendSegments with isActive := b }) ha.symm).trans h1)
        · rfl
      have hsilent : (c.tick ms).segmentsOut = c.segmentsOut := by
        rw [ht]
        exact (sendSegments_silent (c := c.ticked ms)).mpr hd'.queue
      rw [hstays, hact]
      exact ⟨fun h1 => Or.inr h1.1, fun h1 => ⟨h1.resolve_left (by rw [ha]; decide), hsilent⟩⟩
  · rw [tick_of_inactive ha]
    exact ⟨fun _ => Or.inl ha, fun _ => ⟨hc, rfl⟩⟩

theorem answerKeepAlive_of_pings {seg : TCPSegment} (hlen : seg.lengthInSequenceSpace = 0) (hp : c.Pings seg) :
    c.answerKeepAlive seg = { c with sender := c.sender.sendEmptySegment } := by
  obtain ⟨ackno, h1, h2⟩ := hp
  unfold answerKeepAlive
  rw [h1]
  exact if_pos ⟨hlen, h2⟩

theorem answerKeepAlive_of_not {seg : TCPSegment} (h : seg.lengthInSequenceSpace = 0 → ¬ c.Pings seg) :
    c.answerKeepAlive seg = c := by
  unfold answerKeepAlive
  cases hack : c.receiver.ackno with
  | none => rfl
  | some ackno => exact if_neg fun hc => h hc.1 ⟨ackno, hack, hc.2⟩

/-- A reply answers what occupies sequence numbers. -/
theorem reply_of_pos (c : TCPConnection) {seg : TCPSegment} (h : 0 < seg.lengthInSequenceSpace) :
    c.reply seg = (c.answer seg).sendSegments := by
  rw [reply, answerKeepAlive_of_not fun h0 => absurd h0 h.ne']

/-- Of the others, it answers those that ping. -/
theorem reply_of_pings {seg : TCPSegment} (hlen : seg.lengthInSequenceSpace = 0) (hp : c.Pings seg) :
    c.reply seg = sendSegments { c with sender := c.sender.sendEmptySegment } := by
  rw [reply, answer_of_empty c hlen, answerKeepAlive_of_pings hlen hp]

theorem reply_of_quiet {seg : TCPSegment} (hlen : seg.lengthInSequenceSpace = 0) (hp : ¬ c.Pings seg) :
    c.reply seg = c.sendSegments := by
  rw [reply, answer_of_empty c hlen, answerKeepAlive_of_not fun _ => hp]

/-- After the sender is done, only what occupies sequence numbers and
keep-alives are answered. -/
theorem reply_done (hd : Done c.sender) (seg : TCPSegment) :
    (c.reply seg).active = c.active ∧ ((c.reply seg).segmentsOut = c.segmentsOut ↔
      seg.lengthInSequenceSpace = 0 ∧ ¬ c.Pings seg) := by
  have hsent : ∀ s : TCPSender, s.sendEmptySegment.segmentsOut ≠ [] := fun s => by simp [sendEmptySegment]
  rcases Nat.eq_zero_or_pos seg.lengthInSequenceSpace with hlen | hlen
  · by_cases hp : c.Pings seg
    · rw [reply_of_pings hlen hp]
      exact ⟨rfl, iff_of_false (fun h => hsent _ (sendSegments_silent.mp h)) fun h => h.2 hp⟩
    · rw [reply_of_quiet hlen hp]
      exact ⟨rfl, iff_of_true (sendSegments_silent.mpr hd.queue) ⟨hlen, hp⟩⟩
  · have hans : c.answer seg = { c with sender := c.sender.sendEmptySegment } := by
      unfold answer
      rw [if_pos hlen, fillWindow_of_idle hd.idle]
      simp only [hd.queue, ↓reduceIte]
    rw [reply_of_pos c hlen, hans]
    exact ⟨rfl, iff_of_false (fun h => hsent _ (sendSegments_silent.mp h)) fun h => hlen.ne' h.1⟩

theorem not_synAcked (hd : Done c.sender) : c.sender.stateSummary ≠ .synAcked := by
  have h1 := hd.next
  unfold TCPSender.stateSummary
  split_ifs with h2 h3 h4 h5 h6
  all_goals first
    | decide
    | exact absurd (h5.symm.trans hd.eof) Bool.false_ne_true
    | exact absurd h6 (by omega)

/-- A segment that is not a reset, to a connection that has closed cleanly. -/
theorem segmentReceived_done (hd : Done c.sender) (hr : c.receiver.streamOut.inputEnded = true)
    (ha : c.isActive = true) {seg : TCPSegment} (hrst : seg.header.rst = false)
    (h : c.segmentReceived seg = some c') :
    (c'.active = false ↔ c.lingerAfterStreamsFinish = false ∨ c.cfg.rtTimeout = 0) ∧
      (c'.segmentsOut = c.segmentsOut ↔ seg.lengthInSequenceSpace = 0 ∧ ¬ c.Pings seg) := by
  rw [segmentReceived_eq ha hrst] at h
  obtain ⟨receiver, h1, rfl⟩ := Option.map_eq_some_iff.mp h
  have hout := TCPReceiver.segmentReceived_streamOut hr h1
  have hd' : Done (c.acked seg) := by
    unfold acked
    split_ifs
    · exact hd.ackReceived _ _
    · exact hd
  have hnext := hd'.next
  have hlinger : ∀ d : TCPConnection, d.sender = c.acked seg → d.respond seg = d.reply seg := by
    intro d hds
    unfold respond
    rw [hds, if_neg (by omega), if_neg fun hc => not_synAcked (c := d) (hds ▸ hd') (hds ▸ hc.2)]
  rw [hlinger _ rfl]
  set d : TCPConnection := { c with timeSinceLastSegmentReceived := 0, receiver, sender := c.acked seg } with hdd
  obtain ⟨h2, h3⟩ := reply_done (c := d) hd' seg
  rw [h2, h3, active_done (c := d) hd' (hout ▸ hr) ha]
  refine ⟨or_congr_right ?_, ?_⟩
  · change 10 * c.cfg.rtTimeout.toNat ≤ 0 ↔ _
    rw [← UInt16.toNat_inj]
    change _ ↔ c.cfg.rtTimeout.toNat = 0
    omega
  · refine and_congr_right fun hlen => not_congr ?_
    have hsyn : seg.header.syn = false := by
      by_contra hc
      rw [Bool.not_eq_false] at hc
      simp only [TCPSegment.lengthInSequenceSpace, hc, ↓reduceIte] at hlen
      omega
    have hack := TCPReceiver.segmentReceived_ackno hr hsyn h1
    unfold Pings
    rw [← hack]

theorem quiet_segment (h : Inv c) (hc : c.active = false) {seg : TCPSegment} (hs : c.segmentReceived seg = some c') :
    Stays c c' ↔ c.Quiet (.segment seg) := by
  unfold Stays Quiet
  rcases segment_cases hs with ⟨ha, rfl⟩ | ⟨-, hrst, rfl⟩ | ⟨ha, hrst, -⟩
  · exact ⟨fun _ => Or.inl ha, fun _ => ⟨hc, rfl⟩⟩
  · exact ⟨fun _ => Or.inr (Or.inl hrst), fun _ => ⟨active_of_inactive rfl, rfl⟩⟩
  · obtain ⟨hd, hr⟩ := h.inactive hc ha
    obtain ⟨h1, h2⟩ := segmentReceived_done hd hr ha hrst hs
    rw [h1, h2]
    simp only [ha, hrst, Bool.true_eq_false, Bool.false_eq_true, false_or]
    exact ⟨fun h3 => ⟨h3.2.1, h3.2.2, h3.1⟩, fun h3 => ⟨h3.2.2, h3.1, h3.2.1⟩⟩

/-- **One call after the end** is without effect on the outside iff it is
`Quiet`. -/
theorem quiet_iff (h : Inv c) (hc : c.active = false) {op : Op} (hs : step c op = some c') :
    Stays c c' ↔ c.Quiet op := by
  cases op with
  | connect =>
    obtain rfl := Option.some.inj hs
    exact quiet_connect h
  | write data =>
    obtain rfl := Option.some.inj hs
    exact quiet_write h hc data
  | endInputStream =>
    obtain rfl := Option.some.inj hs
    exact quiet_endInputStream h hc
  | segment seg => exact quiet_segment h hc hs
  | tick ms =>
    obtain rfl := Option.some.inj hs
    exact quiet_tick h hc ms
  | read len =>
    obtain rfl := Option.some.inj hs
    refine iff_of_true ⟨?_, rfl⟩ trivial
    have hended : (c.readInbound len).2.receiver.streamOut.inputEnded = c.receiver.streamOut.inputEnded :=
      ByteStream.popOutput_inputEnded _ _
    unfold active streamsClosed at hc ⊢
    rw [hended]
    exact hc

/-! ### Runs -/

theorem init_inv (cfg : TCPConfig) (isn : WrappingInt32) : Inv (init cfg isn) :=
  ⟨init_wf _ _ _, fun h => absurd rfl h, fun h => absurd h (Nat.not_lt_zero _), fun h => absurd h.symm Bool.false_ne_true⟩

/-- A connection that is not stopped, has nothing queued, and has not given up. -/
theorem inv_of_isActive (hwf : WF c.sender) (ha : c.isActive = true) (hq : c.sender.segmentsOut = [])
    (hr : c.sender.consecutiveRetransmissions ≤ TCPConfig.maxRetxAttempts) : Inv c :=
  ⟨hwf, fun h => absurd hq h, fun h => absurd hr (not_le.mpr h), fun h => absurd (h.symm.trans ha) Bool.false_ne_true⟩

/-- As long as the connection is not stopped it has not given up. -/
theorem Inv.retx_le (h : Inv c) (ha : c.isActive = true) :
    c.sender.consecutiveRetransmissions ≤ TCPConfig.maxRetxAttempts :=
  not_lt.mp fun hc => Bool.false_ne_true ((h.retx hc).1.symm.trans ha)

theorem Inv.queue_nil (h : Inv c) (ha : c.isActive = true) : c.sender.segmentsOut = [] := by
  by_contra hc
  exact Bool.false_ne_true ((h.queue hc).1.symm.trans ha)

theorem sendSegments_wf (h : WF c.sender) : WF c.sendSegments.sender := h.congr rfl rfl rfl rfl rfl rfl

/-- What is outstanding stays so while the window is filled. -/
theorem fillWindow_outstanding {s : TCPSender} (h : WF s) (ho : s.segmentsOutstanding ≠ []) :
    s.fillWindow.segmentsOutstanding ≠ [] := by
  by_cases hi : s.Idle
  · rw [fillWindow_of_idle hi]
    exact ho
  · rw [ne_eq, h.fillWindow.outstanding_eq_nil_iff, (fillWindow_frame s).lastAck]
    have h1 := fillWindow_next_lt h.acked_le hi
    have h2 := h.acked_le
    omega

/-- What the calls on a connection that is not stopped work on. -/
structure Running (c : TCPConnection) : Prop where
  wf : WF c.sender
  isActive : c.isActive = true
  retx : c.sender.consecutiveRetransmissions ≤ TCPConfig.maxRetxAttempts

theorem Running.sent (h : Running c) : Inv c.sendSegments := inv_of_isActive (sendSegments_wf h.wf) h.isActive rfl h.retx

theorem Running.fill (h : Running c) : Running { c with sender := c.sender.fillWindow } :=
  ⟨h.wf.fillWindow, h.isActive, (fillWindow_frame c.sender).retx ▸ h.retx⟩

theorem Running.sendEmpty (h : Running c) : Running { c with sender := c.sender.sendEmptySegment } :=
  ⟨h.wf.sendEmptySegment, h.isActive, h.retx⟩

theorem Running.respond (h : Running c) (seg : TCPSegment) : Inv (c.respond seg) :=
  respond_induct (P := Running) (Q := Inv) (fun _ h => h.fill) (fun _ h => h.sendEmpty)
    (fun _ h => ⟨h.wf, h.isActive, h.retx⟩) (fun _ h => ⟨h.wf, rfl, h.retx⟩) (fun _ h => h.sent) h seg

theorem inv_connect (h : Inv c) (hr : c.sender.consecutiveRetransmissions ≤ TCPConfig.maxRetxAttempts) :
    Inv c.connect := Running.sent ⟨h.wf.fillWindow, rfl, (fillWindow_frame c.sender).retx ▸ hr⟩

/-- The owner writes or ends the stream (`s`), and the window is filled. -/
theorem inv_fill (h : Inv c) {s : TCPSender} (hwf : WF s)
    (ho : s.segmentsOutstanding = c.sender.segmentsOutstanding)
    (hr : s.consecutiveRetransmissions = c.sender.consecutiveRetransmissions)
    (he : s.stream.error = c.sender.stream.error) (hsame : Done c.sender → s = c.sender) :
    Inv (sendSegments { c with sender := s.fillWindow }) := by
  have hfr := fillWindow_frame s
  rcases Bool.eq_false_or_eq_true c.isActive with ha | ha
  · exact Running.sent ⟨hwf.fillWindow, ha, (hfr.retx.trans hr) ▸ h.retx_le ha⟩
  · refine ⟨sendSegments_wf hwf.fillWindow, fun hc => absurd rfl hc, fun hc => ⟨ha, ?_⟩, fun _ => ?_⟩
    · change TCPConfig.maxRetxAttempts < s.fillWindow.consecutiveRetransmissions at hc
      rw [hfr.retx, hr] at hc
      exact fillWindow_outstanding hwf (ho ▸ (h.retx hc).2)
    · rcases h.stopped ha with herr | hclosed
      · left
        calc s.fillWindow.stream.error = s.stream.error := hfr.error
          _ = c.sender.stream.error := he
          _ = true := herr
      · have hd := (h.done hclosed).1
        rw [hsame hd, fillWindow_of_idle hd.idle]
        exact Or.inr hclosed

theorem inv_tick (h : Inv c) (ms : ℕ) : Inv (c.tick ms) := by
  rcases Bool.eq_false_or_eq_true c.isActive with ha | ha
  · have hwf := h.wf.tick ms
    rcases tick_cases ha ms with ⟨h1, ht⟩ | ⟨h1, ht⟩ <;> rw [ht]
    · -- the limit is passed: the segment sent again stays queued
      have hout : (c.sender.tick ms).segmentsOutstanding ≠ [] := by
        rcases TCPSender.tick_cases c.sender ms with ⟨time, hs⟩ | ⟨seg, segs, rto, ho, hs⟩
        · rw [hs] at h1
          exact absurd (h.retx_le ha) (not_le.mpr h1)
        · rw [hs]
          exact ho ▸ List.cons_ne_nil _ _
      exact ⟨hwf.setError, fun _ => ⟨rfl, hout⟩, fun _ => ⟨rfl, hout⟩, fun _ => Or.inl rfl⟩
    · exact ⟨sendSegments_wf hwf, fun hc => absurd rfl hc, fun hc => absurd hc (not_lt.mpr h1),
        fun h2 => Or.inr ((active_eq_false_iff (c := c.ticked ms) ha).mp h2).1⟩
  · rw [tick_of_inactive ha]
    exact h

theorem acked_wf (h : WF c.sender) (seg : TCPSegment) : WF (c.acked seg) := by
  unfold acked
  split_ifs
  · exact h.ackReceived _ _
  · exact h

theorem Running.acked (h : Running c) (seg : TCPSegment) : WF (c.acked seg) ∧
    (c.acked seg).consecutiveRetransmissions ≤ TCPConfig.maxRetxAttempts := by
  refine ⟨acked_wf h.wf seg, ?_⟩
  unfold TCPConnection.acked
  split_ifs
  · rw [ackReceived_retx]
    split_ifs
    · exact Nat.zero_le _
    · exact h.retx
  · exact h.retx

theorem inv_segment (h : Inv c) {seg : TCPSegment} (hs : c.segmentReceived seg = some c') : Inv c' := by
  rcases segment_cases hs with ⟨-, rfl⟩ | ⟨ha, -, rfl⟩ | ⟨ha, -, receiver, -, rfl⟩
  · exact h
  · exact ⟨h.wf.setError, fun hc => absurd (h.queue_nil ha) hc,
      fun hc => absurd (h.retx_le ha) (not_le.mpr hc), fun _ => Or.inl rfl⟩
  · obtain ⟨h1, h2⟩ := Running.acked ⟨h.wf, ha, h.retx_le ha⟩ seg
    exact Running.respond (c := { c with timeSinceLastSegmentReceived := 0, receiver, sender := c.acked seg })
      ⟨h1, ha, h2⟩ seg

/-- Only a call of `connect` asks for more: that the connection has not given up. -/
theorem step_inv_of_retx (h : Inv c) {op : Op}
    (hr : op = .connect → c.sender.consecutiveRetransmissions ≤ TCPConfig.maxRetxAttempts)
    (hs : step c op = some c') : Inv c' := by
  cases op with
  | connect =>
    obtain rfl := Option.some.inj hs
    exact inv_connect h (hr rfl)
  | write data =>
    obtain rfl := Option.some.inj hs
    refine inv_fill h (h.wf.write data) rfl rfl (ByteStream.write_snd_error _ _) fun hd => ?_
    have hn : ¬ c.sender.stream.Open := fun ho => Bool.false_ne_true (ho.2.symm.trans hd.inputEnded)
    simp only [ByteStream.write_of_not_open hn]
  | endInputStream =>
    obtain rfl := Option.some.inj hs
    refine inv_fill h h.wf.endInput rfl rfl rfl fun hd => ?_
    unfold TCPSender.endInput
    rw [ByteStream.endInput_of_ended hd.inputEnded]
  | segment seg => exact inv_segment h hs
  | tick ms =>
    obtain rfl := Option.some.inj hs
    exact inv_tick h ms
  | read len =>
    obtain rfl := Option.some.inj hs
    refine ⟨h.wf, h.queue, h.retx, fun hc => (h.stopped hc).imp_right fun h1 => ?_⟩
    have hended : (c.readInbound len).2.receiver.streamOut.inputEnded = c.receiver.streamOut.inputEnded :=
      ByteStream.popOutput_inputEnded _ _
    unfold streamsClosed at h1 ⊢
    rw [hended]
    exact h1

theorem step_inv (h : Inv c) {op : Op} (hq : c.active = false → c.Quiet op) (hs : step c op = some c') : Inv c' := by
  refine step_inv_of_retx h (fun hop => ?_) hs
  subst hop
  by_contra hc
  obtain ⟨h1, h2⟩ := h.retx (not_le.mp hc)
  exact h2 (h.done (hq (active_of_inactive h1)).1).1.outstanding

/-- Before a reset nothing is queued, the limit is not passed, and a connection
that is stopped has nothing outstanding. -/
theorem Inv.unreset (h : Inv c) (he : c.sender.stream.error = false) : c.sender.segmentsOut = [] ∧
    c.sender.consecutiveRetransmissions ≤ TCPConfig.maxRetxAttempts ∧
      (c.isActive = false → c.sender.segmentsOutstanding = []) := by
  have hstop : c.isActive = false → c.sender.segmentsOutstanding = [] := by
    intro ha
    have hclosed := (h.stopped ha).resolve_left (by rw [he]; decide)
    exact (h.done hclosed).1.outstanding
  refine ⟨?_, ?_, hstop⟩
  · by_contra hc
    exact (h.queue hc).2 (hstop (h.queue hc).1)
  · by_contra hc
    obtain ⟨h1, h2⟩ := h.retx (not_le.mp hc)
    exact h2 (hstop h1)

/-- The calls made after the end are all quiet. -/
def QuietAfterEnd (c : TCPConnection) (op : Op) : Prop := c.active = false → c.Quiet op

/-- A run of quiet calls on an inactive connection is without effect. -/
theorem run_stays : ∀ {ops : List Op} {c c' : TCPConnection}, Inv c → c.active = false →
    Runs.Along step QuietAfterEnd c ops → Runs.run step c ops = some c' → Stays c c'
  | [], _, _, _, hc, _, hr => by
    obtain rfl := Option.some.inj hr
    exact ⟨hc, rfl⟩
  | op :: ops, c, c', h, hc, hq, hr => by
    obtain ⟨c₁, h1, h2⟩ := Runs.run_cons.mp hr
    obtain ⟨h3, h4⟩ := (quiet_iff h hc h1).mpr (hq.1 hc)
    obtain ⟨h5, h6⟩ := run_stays (step_inv h hq.1 h1) h3 (hq.2 c₁ h1) h2
    exact ⟨h5, h6.trans h4⟩

/-- Once the run is in an inactive state, no later part of it has an effect. -/
def Silent (c : TCPConnection) (ops : List Op) : Prop :=
  ∀ ops₁ ops₂ ops₃ c₁ c₂, ops = ops₁ ++ (ops₂ ++ ops₃) → Runs.run step c ops₁ = some c₁ →
    Runs.run step c₁ ops₂ = some c₂ → c₁.active = false → Stays c₁ c₂

theorem silent_iff_along : ∀ {ops : List Op} {c c' : TCPConnection}, Inv c → Runs.run step c ops = some c' →
    (Silent c ops ↔ Runs.Along step QuietAfterEnd c ops)
  | [], c, _, h, _ => by
    refine iff_of_true (fun ops₁ ops₂ ops₃ c₁ c₂ he h1 h2 hc => ?_) trivial
    simp only [List.nil_eq, List.append_eq_nil_iff] at he
    obtain ⟨rfl, rfl, rfl⟩ := he
    obtain rfl := Option.some.inj h2
    exact ⟨hc, rfl⟩
  | op :: ops, c, c', h, hr => by
    obtain ⟨c₁, h1, h2⟩ := Runs.run_cons.mp hr
    constructor
    · intro hsil
      have hq : QuietAfterEnd c op := fun hc => (quiet_iff h hc h1).mp
        (hsil [] [op] ops c c₁ rfl rfl (Runs.run_cons.mpr ⟨c₁, h1, rfl⟩) hc)
      refine ⟨hq, fun c₂ h3 => ?_⟩
      obtain rfl := Option.some.inj (h1.symm.trans h3)
      refine (silent_iff_along (step_inv h hq h1) h2).mp fun ops₁ ops₂ ops₃ c₂ c₃ he h4 h5 hc => ?_
      exact hsil (op :: ops₁) ops₂ ops₃ c₂ c₃ (by rw [he]; rfl) (Runs.run_cons.mpr ⟨c₁, h1, h4⟩) h5 hc
    · intro hq ops₁ ops₂ ops₃ c₂ c₃ he h4 h5 hc
      rw [he, Runs.along_append] at hq
      have hinv := Runs.run_along (fun _ _ _ hI hok hs => step_inv hI hok hs) h hq.1 h4
      exact run_stays hinv hc (Runs.along_append.mp (hq.2 c₂ h4)).1 h5

/-- **After the end**: a run of a connection is silent once it is inactive iff
every call it makes then is `Quiet`. -/
theorem silent_iff {cfg : TCPConfig} {isn : WrappingInt32} {ops : List Op} {c : TCPConnection}
    (hr : Runs.run step (init cfg isn) ops = some c) :
    Silent (init cfg isn) ops ↔ Runs.Along step QuietAfterEnd (init cfg isn) ops :=
  silent_iff_along (init_inv cfg isn) hr

/-- A reset ends a fresh connection. -/
def resetOps : List Op := [.segment { header := { rst := true } }]

/-- Then `connect` makes it active again and sends a SYN. -/
theorem connect_revives : ∃ c c', Runs.run step (init {} ⟨0⟩) resetOps = some c ∧ c.active = false ∧
    c.segmentsOut = [] ∧ step c .connect = some c' ∧ c'.active = true ∧ c'.segmentsOut = [{ header := { syn := true } }] :=
  ⟨_, _, rfl, rfl, rfl, rfl, by decide +kernel, by decide +kernel⟩

/-- Ticks, and another reset, do nothing. -/
theorem silent_iff_reset : Silent (init {} ⟨0⟩) (resetOps ++ [.tick 1000, .segment { header := { rst := true } }]) ↔
    Runs.Along step QuietAfterEnd (init {} ⟨0⟩)
      (resetOps ++ [.tick 1000, .segment { header := { rst := true } }]) :=
  silent_iff rfl

end TCPConnection
end Sponge

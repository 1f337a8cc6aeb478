/-
# The data in flight

What every call of the sender keeps: the outstanding segments follow one
another without a gap up to the next sequence number, the oldest is not wholly
acknowledged, at most a window is in flight, and the next sequence number
counts the SYN, the bytes read from the stream and the FIN. So little is in
flight that the number of an outstanding segment unwraps to itself, and the
queue is trimmed exactly.

Key definitions: `TCPSender.Chain`, `TCPSender.WF`.
Key theorems: `TCPSender.WF.fillWindow`, `TCPSender.WF.ackReceived`,
`TCPSender.WF.outstanding_eq_nil_iff`.
-/
import Sponge.TCPSender

namespace Sponge
namespace TCPSender

/-- Segments numbered from `a` on without a gap, up to `b`. -/
def Chain (isn : WrappingInt32) : ℕ → List TCPSegment → ℕ → Prop
  | a, [], b => a = b
  | a, seg :: segs, b =>
    seg.header.seqno = wrap a isn ∧ 0 < seg.lengthInSequenceSpace ∧ seg.lengthInSequenceSpace ≤ 1002 ∧
      Chain isn (a + seg.lengthInSequenceSpace) segs b

/-- The oldest outstanding segment is not wholly acknowledged. -/
def HeadOpen (lastAck : ℕ) : ℕ → List TCPSegment → Prop
  | _, [] => True
  | a, seg :: _ => lastAck < a + seg.lengthInSequenceSpace

structure WF (s : TCPSender) : Prop where
  acked_le : s.lastAckSeqno ≤ s.nextSeqno
  inflight_le : s.nextSeqno ≤ s.lastAckSeqno + 65535
  chain : ∃ a, a ≤ s.lastAckSeqno ∧ Chain s.isn a s.segmentsOutstanding s.nextSeqno ∧
    HeadOpen s.lastAckSeqno a s.segmentsOutstanding
  first : s.nextSeqno = 0 → s.stream.bytesRead = 0 ∧ s.finSent = false
  later : 0 < s.nextSeqno → s.nextSeqno = 1 + s.stream.bytesRead + if s.finSent then 1 else 0
  fin : s.finSent = true → s.stream.inputEnded = true ∧ s.stream.buffer = []

variable {s s' : TCPSender}

theorem Chain.le {isn : WrappingInt32} : ∀ {a b : ℕ} {segs : List TCPSegment}, Chain isn a segs b → a ≤ b
  | _, _, [], h => le_of_eq h
  | _, _, _ :: _, ⟨_, _, _, h⟩ => (Nat.le_add_right _ _).trans h.le

theorem Chain.snoc {isn : WrappingInt32} {seg : TCPSegment} (h1 : 0 < seg.lengthInSequenceSpace)
    (h2 : seg.lengthInSequenceSpace ≤ 1002) : ∀ {a b : ℕ} {segs : List TCPSegment}, Chain isn a segs b →
      seg.header.seqno = wrap b isn → Chain isn a (segs ++ [seg]) (b + seg.lengthInSequenceSpace)
  | _, _, [], rfl, h => ⟨h, h1, h2, rfl⟩
  | _, _, _ :: _, ⟨g1, g2, g3, g4⟩, h => ⟨g1, g2, g3, g4.snoc h1 h2 h⟩

theorem Chain.lt {isn : WrappingInt32} {a b : ℕ} {segs : List TCPSegment} (h : Chain isn a segs b) (hne : segs ≠ []) :
    a < b := by
  cases segs with
  | nil => exact absurd rfl hne
  | cons seg segs =>
    have h1 := h.2.1
    have h2 := h.2.2.2.le
    omega

theorem Sent.len_le {w : ℕ} {seg : TCPSegment} (h : Sent w s s' seg) : seg.lengthInSequenceSpace ≤ 1002 := by
  have := h.payload_le
  unfold TCPSegment.lengthInSequenceSpace TCPConfig.maxPayloadSize at *
  split_ifs <;> omega

theorem init_wf (capacity : ℕ) (rt : UInt16) (isn : WrappingInt32) : WF (init capacity rt isn) where
  acked_le := le_rfl
  inflight_le := Nat.zero_le _
  chain := ⟨0, le_rfl, rfl, trivial⟩
  first := fun _ => ⟨rfl, rfl⟩
  later := fun h => absurd h (lt_irrefl 0)
  fin := fun h => absurd h Bool.false_ne_true

/-- Nothing is outstanding iff everything is acknowledged. -/
theorem WF.outstanding_eq_nil_iff (h : WF s) : s.segmentsOutstanding = [] ↔ s.lastAckSeqno = s.nextSeqno := by
  obtain ⟨a, h1, h2, h3⟩ := h.chain
  have hle := h.acked_le
  cases ho : s.segmentsOutstanding with
  | nil =>
    rw [ho] at h2
    have h4 : a = s.nextSeqno := h2
    exact ⟨fun _ => by omega, fun _ => rfl⟩
  | cons seg segs =>
    rw [ho] at h2 h3
    have h4 := h2.2.2.2.le
    have h5 : s.lastAckSeqno < a + seg.lengthInSequenceSpace := h3
    exact ⟨fun hc => absurd hc (List.cons_ne_nil _ _), fun _ => by omega⟩

/-! ### Sending -/

/-- Until the FIN the next number is that of the next byte. -/
theorem WF.next_pred (h : WF s) (hfin : s.finSent = false) : s.nextSeqno - 1 = s.stream.bytesRead := by
  rcases Nat.eq_zero_or_pos s.nextSeqno with h0 | h0
  · rw [(h.first h0).1, h0]
  · have hlater := h.later h0
    rw [hfin, if_neg Bool.false_ne_true] at hlater
    omega

theorem WF.sent {w : ℕ} {seg : TCPSegment} (hw : w < 2 ^ 16) (h : WF s) (hfin : s.finSent = false)
    (hs : Sent w s s' seg) : WF s' := by
  have hlast := hs.frame.lastAck
  have hnext := hs.next
  have hfits := hs.fits
  have hpos := hs.pos
  have hle := h.acked_le
  have hread := hs.bytesRead
  have hlen : seg.lengthInSequenceSpace =
      seg.payload.length + (if s.nextSeqno = 0 then 1 else 0) + if s'.finSent then 1 else 0 := by
    rw [hs.finSent]
    unfold TCPSegment.lengthInSequenceSpace
    simp only [hs.syn]
  unfold bytesInFlight at hfits
  refine ⟨by omega, by omega, ?_, fun h0 => by omega, fun _ => ?_, fun hf => ?_⟩
  · obtain ⟨a, h1, h2, h3⟩ := h.chain
    rw [hlast, hs.outstanding, hs.frame.isn, hnext]
    refine ⟨a, h1, h2.snoc hpos hs.len_le hs.seqno, ?_⟩
    cases ho : s.segmentsOutstanding with
    | nil =>
      have := h.outstanding_eq_nil_iff.mp ho
      rw [ho] at h2
      have h4 : a = s.nextSeqno := h2
      change s.lastAckSeqno < a + seg.lengthInSequenceSpace
      omega
    | cons x xs =>
      rw [ho] at h3
      exact h3
  · rcases Nat.eq_zero_or_pos s.nextSeqno with h0 | h0
    · obtain ⟨h1, -⟩ := h.first h0
      rw [if_pos h0] at hlen
      omega
    · have h1 := h.later h0
      rw [hfin, if_neg Bool.false_ne_true] at h1
      rw [if_neg h0.ne'] at hlen
      omega
  · obtain ⟨h1, h2⟩ := hs.fin (hs.finSent ▸ hf)
    exact ⟨hs.frame.inputEnded.trans h1, h2⟩

theorem WF.fillWindow (h : WF s) : WF s.fillWindow :=
  fillWindow_induct (fun _ _ _ ha hf _ hs => ha.sent s.currentWindow_lt hf hs) h

/-- What filling the window sends: segments numbered on from the next sequence
number, all of them inside the window. -/
theorem fillWindow_sends (hle : s.lastAckSeqno ≤ s.nextSeqno) : ∃ segs,
    s.fillWindow.segmentsOut = s.segmentsOut ++ segs ∧
      Chain s.isn s.nextSeqno segs s.fillWindow.nextSeqno ∧
      (segs = [] ∨ s.fillWindow.nextSeqno ≤ s.lastAckSeqno + s.currentWindow) := by
  refine (fillWindow_induct (P := fun t => (t.isn = s.isn ∧ t.lastAckSeqno = s.lastAckSeqno) ∧ ∃ segs,
    t.segmentsOut = s.segmentsOut ++ segs ∧ Chain s.isn s.nextSeqno segs t.nextSeqno ∧
      (segs = [] ∨ t.nextSeqno ≤ s.lastAckSeqno + s.currentWindow)) ?_ ?_).2
  · rintro a b seg ⟨⟨h1, h2⟩, segs, h3, h4, -⟩ - hw hs
    have hfits := hs.fits
    have hnext := hs.next
    have hge := h4.le
    unfold bytesInFlight at hw hfits
    refine ⟨⟨hs.frame.isn.trans h1, hs.frame.lastAck.trans h2⟩, segs ++ [seg], ?_, ?_, Or.inr (by omega)⟩
    · rw [hs.out, h3, List.append_assoc]
    · rw [hnext]
      exact h4.snoc hs.pos hs.len_le (h1 ▸ hs.seqno)
  · exact ⟨⟨rfl, rfl⟩, [], (List.append_nil _).symm, rfl, Or.inl rfl⟩

theorem fillWindow_next_lt (hle : s.lastAckSeqno ≤ s.nextSeqno) (h : ¬ s.Idle) :
    s.nextSeqno < s.fillWindow.nextSeqno := by
  obtain ⟨segs, h1, h2, -⟩ := fillWindow_sends hle
  refine h2.lt fun hc => fillWindow_of_not_idle h ?_
  rw [h1, hc, List.append_nil]

/-! ### Acknowledgments -/

/-- So close to the next sequence number that unwrapping finds a segment's number. -/
theorem unwrap_seqno {isn : WrappingInt32} {a next : ℕ} (h1 : a ≤ next) (h2 : next ≤ a + 66537) :
    unwrap (wrap a isn) isn next = a := unwrap_wrap isn (by omega) (by omega) (Or.inl h1)

/-- The queue is trimmed to the segments that are not wholly acknowledged. -/
theorem dropWhile_acked {isn : WrappingInt32} {next absAck : ℕ} (hk : absAck ≤ next) : ∀ {a : ℕ} {segs : List TCPSegment},
    Chain isn a segs next → next ≤ a + 66537 → ∃ a',
      let segs' := segs.dropWhile fun seg =>
        decide (unwrap seg.header.seqno isn next + seg.lengthInSequenceSpace ≤ absAck)
      (a' = a ∧ segs' = segs ∨ a' ≤ absAck) ∧ a ≤ a' ∧ Chain isn a' segs' next ∧ HeadOpen absAck a' segs'
  | a, [], h, _ => ⟨a, Or.inl ⟨rfl, rfl⟩, le_rfl, h, trivial⟩
  | a, seg :: segs, ⟨h1, h2, h3, h4⟩, hn => by
    have hle := h4.le
    have hu : unwrap seg.header.seqno isn next = a := by
      rw [h1]
      exact unwrap_seqno (by omega) hn
    by_cases hd : a + seg.lengthInSequenceSpace ≤ absAck
    · obtain ⟨a', g1, g2, g3, g4⟩ := dropWhile_acked hk h4 (by omega)
      rw [List.dropWhile_cons_of_pos (by simpa [hu] using hd)]
      refine ⟨a', Or.inr ?_, by omega, g3, g4⟩
      rcases g1 with ⟨g1, -⟩ | g1 <;> omega
    · rw [List.dropWhile_cons_of_neg (by simpa [hu] using hd)]
      exact ⟨a, Or.inl ⟨rfl, rfl⟩, le_rfl, ⟨h1, h2, h3, h4⟩, not_le.mp hd⟩

/-- What an acknowledgment leaves alone. -/
theorem acknowledge_frame (s : TCPSender) (absAck : ℕ) (w : UInt16) :
    (s.acknowledge absAck w).isn = s.isn ∧ (s.acknowledge absAck w).nextSeqno = s.nextSeqno ∧
      (s.acknowledge absAck w).stream = s.stream ∧ (s.acknowledge absAck w).finSent = s.finSent ∧
      (s.acknowledge absAck w).segmentsOut = s.segmentsOut ∧ (s.acknowledge absAck w).windowSize = w := by
  unfold acknowledge
  dsimp only
  split <;> exact ⟨rfl, rfl, rfl, rfl, rfl, rfl⟩

theorem acknowledge_lastAck (s : TCPSender) (absAck : ℕ) (w : UInt16) :
    (s.acknowledge absAck w).lastAckSeqno = max s.lastAckSeqno absAck := by
  unfold acknowledge
  dsimp only
  split <;> dsimp only <;> omega

theorem acknowledge_outstanding (s : TCPSender) (absAck : ℕ) (w : UInt16) :
    (s.acknowledge absAck w).segmentsOutstanding = s.segmentsOutstanding.dropWhile fun seg =>
      decide (unwrap seg.header.seqno s.isn s.nextSeqno + seg.lengthInSequenceSpace ≤ absAck) := by
  unfold acknowledge
  dsimp only
  split <;> rfl

theorem acknowledge_suffix (s : TCPSender) (absAck : ℕ) (w : UInt16) :
    (s.acknowledge absAck w).segmentsOutstanding <:+ s.segmentsOutstanding := by
  rw [acknowledge_outstanding]
  exact List.dropWhile_suffix _

theorem WF.acknowledge (h : WF s) {absAck : ℕ} (hk : absAck ≤ s.nextSeqno) (w : UInt16) :
    WF (s.acknowledge absAck w) := by
  obtain ⟨f1, f2, f3, f4, -, -⟩ := acknowledge_frame s absAck w
  have hlast := acknowledge_lastAck s absAck w
  have hle := h.acked_le
  have hin := h.inflight_le
  refine ⟨by omega, by omega, ?_, ?_, ?_, ?_⟩
  · obtain ⟨a, h1, h2, h3⟩ := h.chain
    have hnear : s.nextSeqno ≤ a + 66537 := by
      cases ho : s.segmentsOutstanding with
      | nil =>
        rw [ho] at h2
        have h4 : a = s.nextSeqno := h2
        omega
      | cons seg segs =>
        rw [ho] at h2 h3
        have h4 : s.lastAckSeqno < a + seg.lengthInSequenceSpace := h3
        have h5 := h2.2.2.1
        omega
    obtain ⟨a', g1, g2, g3, g4⟩ := dropWhile_acked hk h2 hnear
    rw [f1, f2, acknowledge_outstanding, hlast]
    rcases Nat.lt_or_ge s.lastAckSeqno absAck with hnew | hold
    · rw [max_eq_right hnew.le]
      refine ⟨a', ?_, g3, g4⟩
      rcases g1 with ⟨rfl, -⟩ | g1 <;> omega
    · -- an old number finishes no segment
      rw [max_eq_left hold]
      have hsame : s.segmentsOutstanding.dropWhile (fun seg =>
          decide (unwrap seg.header.seqno s.isn s.nextSeqno + seg.lengthInSequenceSpace ≤ absAck)) =
          s.segmentsOutstanding := by
        cases ho : s.segmentsOutstanding with
        | nil => rfl
        | cons seg segs =>
          rw [ho] at h2 h3
          have h4 : s.lastAckSeqno < a + seg.lengthInSequenceSpace := h3
          have h5 := h2.2.2.2.le
          have hu : unwrap seg.header.seqno s.isn s.nextSeqno = a := by
            rw [h2.1]
            exact unwrap_seqno (by omega) hnear
          rw [List.dropWhile_cons_of_neg]
          simp only [hu, decide_eq_true_eq]
          omega
      rw [hsame]
      exact ⟨a, h1, h2, h3⟩
  · rw [f2, f3, f4]; exact h.first
  · rw [f2, f3, f4]; exact h.later
  · rw [f3, f4]; exact h.fin

/-- The timers, the queue of segments to send and the counters play no part. -/
theorem WF.congr (h : WF s) (h1 : s'.isn = s.isn) (h2 : s'.nextSeqno = s.nextSeqno)
    (h3 : s'.lastAckSeqno = s.lastAckSeqno) (h4 : s'.segmentsOutstanding = s.segmentsOutstanding)
    (h5 : s'.stream = s.stream) (h6 : s'.finSent = s.finSent) : WF s' where
  acked_le := by rw [h2, h3]; exact h.acked_le
  inflight_le := by rw [h2, h3]; exact h.inflight_le
  chain := by rw [h1, h2, h3, h4]; exact h.chain
  first := by rw [h2, h5, h6]; exact h.first
  later := by rw [h2, h5, h6]; exact h.later
  fin := by rw [h5, h6]; exact h.fin

theorem WF.timer (h : WF s) (ht : TimerOnly s s') : WF s' :=
  h.congr ht.isn ht.next ht.lastAck ht.outstanding ht.stream ht.finSent

theorem WF.ackReceived (h : WF s) (ackno : WrappingInt32) (w : UInt16) : WF (s.ackReceived ackno w) := by
  apply ackReceived_induct (P := WF) h
  · exact fun k hk => h.acknowledge hk w
  · exact fun t ht => ht.fillWindow
  · exact fun t t' ht => ht.timer

/-- What an acknowledgment leaves alone, though it lets segments out. -/
theorem ackReceived_frame (s : TCPSender) (ackno : WrappingInt32) (w : UInt16) :
    (s.ackReceived ackno w).isn = s.isn ∧ (s.ackReceived ackno w).stream.bytesWritten = s.stream.bytesWritten ∧
      (s.ackReceived ackno w).stream.error = s.stream.error ∧
      (s.ackReceived ackno w).stream.inputEnded = s.stream.inputEnded := by
  apply ackReceived_induct (P := fun t => t.isn = s.isn ∧ t.stream.bytesWritten = s.stream.bytesWritten ∧
    t.stream.error = s.stream.error ∧ t.stream.inputEnded = s.stream.inputEnded) ⟨rfl, rfl, rfl, rfl⟩
  · intro k _
    obtain ⟨h1, -, h3, -⟩ := acknowledge_frame s k w
    rw [h1, h3]
    exact ⟨rfl, rfl, rfl, rfl⟩
  · intro t h
    have hf := fillWindow_frame t
    rw [hf.isn, hf.bytesWritten, hf.error, hf.inputEnded]
    exact h
  · intro t t' h ht
    rw [ht.isn, ht.stream]
    exact h

theorem ackReceived_lastAck (s : TCPSender) (ackno : WrappingInt32) (w : UInt16) :
    (s.ackReceived ackno w).lastAckSeqno = if s.nextSeqno < unwrap ackno s.isn s.nextSeqno then s.lastAckSeqno
      else max s.lastAckSeqno (unwrap ackno s.isn s.nextSeqno) := by
  rcases lt_or_ge s.nextSeqno (unwrap ackno s.isn s.nextSeqno) with hk | hk
  · rw [ackReceived_of_lt hk, if_pos hk]
  · rw [ackReceived_of_le hk, if_neg (not_lt.mpr hk), (settleTimer_timerOnly _ _).lastAck,
      (fillWindow_frame _).lastAck, acknowledge_lastAck]

theorem acknowledge_retx (s : TCPSender) (absAck : ℕ) (w : UInt16) :
    (s.acknowledge absAck w).consecutiveRetransmissions =
      if s.lastAckSeqno < absAck then 0 else s.consecutiveRetransmissions := by
  unfold acknowledge
  dsimp only
  split_ifs <;> rfl

/-- New data resets the counter of retransmissions, else it stays. -/
theorem ackReceived_retx (s : TCPSender) (ackno : WrappingInt32) (w : UInt16) :
    (s.ackReceived ackno w).consecutiveRetransmissions =
      if s.lastAckSeqno < unwrap ackno s.isn s.nextSeqno ∧ unwrap ackno s.isn s.nextSeqno ≤ s.nextSeqno then 0
      else s.consecutiveRetransmissions := by
  rcases lt_or_ge s.nextSeqno (unwrap ackno s.isn s.nextSeqno) with hk | hk
  · rw [ackReceived_of_lt hk, if_neg fun hc => absurd hc.2 (not_le.mpr hk)]
  · rw [ackReceived_of_le hk, (settleTimer_timerOnly _ _).retx, (fillWindow_frame _).retx, acknowledge_retx]
    exact if_congr (and_iff_left hk).symm rfl rfl

/-! ### No resets -/

/-- No segment to send or to send again is a reset. -/
def Plain (s : TCPSender) : Prop :=
  (∀ seg ∈ s.segmentsOut, seg.header.rst = false) ∧ ∀ seg ∈ s.segmentsOutstanding, seg.header.rst = false

theorem Plain.fillWindow (h : Plain s) : Plain s.fillWindow := by
  refine fillWindow_induct (fun a b seg ha _ _ hs => ⟨fun x hx => ?_, fun x hx => ?_⟩) h
  · rw [hs.out] at hx
    rcases List.mem_append.mp hx with hx | hx
    · exact ha.1 x hx
    · rw [List.mem_singleton.mp hx]
      exact hs.plain.2
  · rw [hs.outstanding] at hx
    rcases List.mem_append.mp hx with hx | hx
    · exact ha.2 x hx
    · rw [List.mem_singleton.mp hx]
      exact hs.plain.2

theorem Plain.ackReceived (h : Plain s) (ackno : WrappingInt32) (w : UInt16) : Plain (s.ackReceived ackno w) := by
  apply ackReceived_induct (P := Plain) h
  · intro k _
    obtain ⟨-, -, -, -, f5, -⟩ := acknowledge_frame s k w
    exact ⟨f5.symm ▸ h.1, fun seg hseg => h.2 seg ((acknowledge_suffix s k w).subset hseg)⟩
  · exact fun t ht => ht.fillWindow
  · exact fun t t' hP ht => ⟨ht.out.symm ▸ hP.1, ht.outstanding.symm ▸ hP.2⟩

theorem Plain.sendEmptySegment (h : Plain s) : Plain s.sendEmptySegment := by
  refine ⟨fun seg hseg => ?_, h.2⟩
  rcases List.mem_append.mp hseg with hseg | hseg
  · exact h.1 seg hseg
  · rw [List.mem_singleton.mp hseg]

/-! ### The other calls -/

/-- A tick changes the timer, and sends the oldest segment again if it expires. -/
theorem tick_cases (s : TCPSender) (ms : ℕ) :
    (∃ time, s.tick ms = { s with timeElapsed := time }) ∨
      ∃ seg segs rto, s.segmentsOutstanding = seg :: segs ∧ s.tick ms =
        { s with
          segmentsOut := s.segmentsOut ++ [seg]
          currentRto := rto
          consecutiveRetransmissions := (s.consecutiveRetransmissions + 1) % 2 ^ 32
          timeElapsed := 0 } := by
  unfold tick
  split_ifs with hrun
  · exact Or.inl ⟨s.timeElapsed, rfl⟩
  · cases ho : s.segmentsOutstanding with
    | nil => exact Or.inl ⟨(s.timeElapsed + ms) % 2 ^ 32, rfl⟩
    | cons seg segs =>
      dsimp only
      split_ifs
      · exact Or.inr ⟨seg, segs, s.currentRto, rfl, rfl⟩
      · exact Or.inr ⟨seg, segs, s.currentRto * 2 % 2 ^ 32, rfl, rfl⟩
      · exact Or.inl ⟨(s.timeElapsed + ms) % 2 ^ 32, rfl⟩

/-- What a tick leaves alone: all but the timer and the queue. -/
theorem tick_frame (s : TCPSender) (ms : ℕ) : (s.tick ms).isn = s.isn ∧ (s.tick ms).nextSeqno = s.nextSeqno ∧
    (s.tick ms).lastAckSeqno = s.lastAckSeqno ∧ (s.tick ms).windowSize = s.windowSize ∧
    (s.tick ms).segmentsOutstanding = s.segmentsOutstanding ∧ (s.tick ms).stream = s.stream ∧
    (s.tick ms).finSent = s.finSent := by
  rcases tick_cases s ms with ⟨time, he⟩ | ⟨seg, segs, rto, -, he⟩
  · rw [he]
    exact ⟨rfl, rfl, rfl, rfl, rfl, rfl, rfl⟩
  · rw [he]
    exact ⟨rfl, rfl, rfl, rfl, rfl, rfl, rfl⟩

theorem WF.tick (h : WF s) (ms : ℕ) : WF (s.tick ms) := by
  obtain ⟨h1, h2, h3, -, h5, h6, h7⟩ := tick_frame s ms
  exact h.congr h1 h2 h3 h5 h6 h7

theorem Plain.tick (h : Plain s) (ms : ℕ) : Plain (s.tick ms) := by
  rcases tick_cases s ms with ⟨time, he⟩ | ⟨seg, segs, rto, ho, he⟩ <;> rw [he]
  · exact h
  · refine ⟨fun x hx => ?_, h.2⟩
    rcases List.mem_append.mp hx with hx | hx
    · exact h.1 x hx
    · rw [List.mem_singleton.mp hx]
      exact h.2 seg (ho ▸ List.mem_cons_self)

theorem WF.sendEmptySegment (h : WF s) : WF s.sendEmptySegment := h.congr rfl rfl rfl rfl rfl rfl

/-- The owner may write and end the stream. -/
theorem WF.stream (h : WF s) {stream : ByteStream} (hr : stream.bytesRead = s.stream.bytesRead)
    (hf : s.stream.inputEnded = true → s.stream.buffer = [] → stream.inputEnded = true ∧ stream.buffer = []) :
    WF { s with stream } where
  acked_le := h.acked_le
  inflight_le := h.inflight_le
  chain := h.chain
  first := fun h0 => by simp only [hr]; exact h.first h0
  later := fun h0 => by simp only [hr]; exact h.later h0
  fin := fun hfin => hf (h.fin hfin).1 (h.fin hfin).2

theorem WF.write (h : WF s) (data : Bytes) : WF (s.write data).2 := by
  refine h.stream (ByteStream.write_snd_bytesRead _ _) fun he hb => ?_
  have ho : ¬ s.stream.Open := fun ho => Bool.false_ne_true (ho.2.symm.trans he)
  rw [ByteStream.write_of_not_open ho]
  exact ⟨he, hb⟩

theorem WF.endInput (h : WF s) : WF s.endInput := h.stream rfl fun _ hb => ⟨rfl, hb⟩

theorem WF.setError (h : WF s) : WF s.setError := h.stream rfl fun he hb => ⟨he, hb⟩

end TCPSender
end Sponge

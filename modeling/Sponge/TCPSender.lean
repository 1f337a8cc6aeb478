/-
# The sender

`TCPSender` of `tcp_sender.hh` and `.cc`: it reads its stream into segments as
far as the window allows, keeps them until they are acknowledged and sends the
oldest again when the timer expires. Sequence numbers are absolute and
natural; the timers and the counter of retransmissions are 32 bits wide. The
loop of `fill_window` is `fillLoop`, with the size of the window for fuel: a
pass that goes on puts a sequence number in flight (`fillLoop_fuel`).

Key definitions: `TCPSender.build`, `TCPSender.fillWindow`,
`TCPSender.ackReceived`, `TCPSender.tick`, `TCPSender.Sent`.
Key theorems: `TCPSender.sendNext_sent`, `TCPSender.fillWindow_induct`,
`TCPSender.fillLoop_fuel`.
-/
import Sponge.TCPSegment

namespace Sponge

structure TCPSender where
  isn : WrappingInt32
  finSent : Bool
  initialRetransmissionTimeout : ℕ
  segmentsOut : List TCPSegment
  currentRto : ℕ
  stream : ByteStream
  nextSeqno : ℕ
  lastAckSeqno : ℕ
  timeElapsed : ℕ
  timerRunning : Bool
  consecutiveRetransmissions : ℕ
  segmentsOutstanding : List TCPSegment
  windowSize : UInt16
  deriving DecidableEq

namespace TCPSender

/-- The constructor; `isn` is the fixed one or a random one. -/
def init (capacity : ℕ) (retxTimeout : UInt16) (isn : WrappingInt32) : TCPSender where
  isn := isn
  finSent := false
  initialRetransmissionTimeout := retxTimeout.toNat
  segmentsOut := []
  currentRto := retxTimeout.toNat
  stream := ByteStream.init capacity
  nextSeqno := 0
  lastAckSeqno := 0
  timeElapsed := 0
  timerRunning := false
  consecutiveRetransmissions := 0
  segmentsOutstanding := []
  windowSize := 1

def bytesInFlight (s : TCPSender) : ℕ := s.nextSeqno - s.lastAckSeqno

/-- A window of zero counts as one. -/
def currentWindow (s : TCPSender) : ℕ := if s.windowSize = 0 then 1 else s.windowSize.toNat

/-- The segment one pass of the loop builds, without its number, and the
sender once it has read the payload. -/
def build (s : TCPSender) (window : ℕ) : TCPSegment × TCPSender :=
  let syn := s.nextSeqno == 0
  let windowRemain := window - s.bytesInFlight
  let payloadCapacity := windowRemain - if syn then 1 else 0
  let (payload, stream) := s.stream.read (min payloadCapacity TCPConfig.maxPayloadSize)
  let seg : TCPSegment := { header := { syn }, payload }
  let fin := !s.finSent && stream.eof && decide (seg.lengthInSequenceSpace < windowRemain)
  ({ header := { syn, fin }, payload }, { s with stream, finSent := s.finSent || fin })

/-- The segment gets its number, goes out and is kept; the timer starts if it
is not running. -/
def send (s : TCPSender) (seg : TCPSegment) : TCPSender :=
  let seg := { seg with header := { seg.header with seqno := wrap s.nextSeqno s.isn } }
  { s with
    segmentsOut := s.segmentsOut ++ [seg]
    segmentsOutstanding := s.segmentsOutstanding ++ [seg]
    nextSeqno := s.nextSeqno + seg.lengthInSequenceSpace
    timerRunning := true
    timeElapsed := if s.timerRunning then s.timeElapsed else 0 }

def fillLoop : ℕ → ℕ → TCPSender → TCPSender
  | 0, _, s => s
  | fuel + 1, window, s =>
    if s.bytesInFlight < window then
      let (seg, s) := s.build window
      if seg.lengthInSequenceSpace = 0 then s
      else if seg.header.fin then s.send seg
      else fillLoop fuel window (s.send seg)
    else s

def fillWindow (s : TCPSender) : TCPSender :=
  if s.finSent then s else fillLoop s.currentWindow s.currentWindow s

/-- What an acceptable acknowledgment records: the window, also if nothing new
is acknowledged, and the segments that are done with. -/
def acknowledge (s : TCPSender) (absAck : ℕ) (windowSize : UInt16) : TCPSender :=
  let s : TCPSender := { s with windowSize }
  let s : TCPSender :=
    if s.lastAckSeqno < absAck then
      { s with
        lastAckSeqno := absAck
        currentRto := s.initialRetransmissionTimeout
        consecutiveRetransmissions := 0
        timeElapsed := 0 }
    else s
  let acked (seg : TCPSegment) : Bool :=
    decide (unwrap seg.header.seqno s.isn s.nextSeqno + seg.lengthInSequenceSpace ≤ absAck)
  { s with segmentsOutstanding := s.segmentsOutstanding.dropWhile acked }

/-- With nothing outstanding the timer stops, and with new data it runs. -/
def settleTimer (s : TCPSender) (isNewData : Bool) : TCPSender :=
  if s.segmentsOutstanding = [] then { s with timerRunning := false, timeElapsed := 0 }
  else if isNewData then { s with timerRunning := true }
  else s

/-- An acknowledgment of more than was sent is ignored. -/
def ackReceived (s : TCPSender) (ackno : WrappingInt32) (windowSize : UInt16) : TCPSender :=
  let absAck := unwrap ackno s.isn s.nextSeqno
  if s.nextSeqno < absAck then s
  else (s.acknowledge absAck windowSize).fillWindow.settleTimer (decide (s.lastAckSeqno < absAck))

/-- The oldest segment goes out again when the timer expires. -/
def tick (s : TCPSender) (msSinceLastTick : ℕ) : TCPSender :=
  if s.timerRunning = false then s
  else
    let s : TCPSender := { s with timeElapsed := (s.timeElapsed + msSinceLastTick) % 2 ^ 32 }
    match s.segmentsOutstanding with
    | [] => s
    | seg :: _ =>
      if s.currentRto ≤ s.timeElapsed then
        { s with
          segmentsOut := s.segmentsOut ++ [seg]
          currentRto := if s.windowSize = 0 then s.currentRto else s.currentRto * 2 % 2 ^ 32
          consecutiveRetransmissions := (s.consecutiveRetransmissions + 1) % 2 ^ 32
          timeElapsed := 0 }
      else s

def sendEmptySegment (s : TCPSender) : TCPSender :=
  { s with segmentsOut := s.segmentsOut ++ [{ header := { seqno := wrap s.nextSeqno s.isn } }] }

/-- `stream_in().write`, by the owner. -/
def write (s : TCPSender) (data : Bytes) : ℕ × TCPSender :=
  ((s.stream.write data).1, { s with stream := (s.stream.write data).2 })

/-- `stream_in().end_input`. -/
def endInput (s : TCPSender) : TCPSender := { s with stream := s.stream.endInput }

/-- `stream_in().set_error`. -/
def setError (s : TCPSender) : TCPSender := { s with stream := s.stream.setError }

theorem ackReceived_of_lt {s : TCPSender} {ackno : WrappingInt32} (h : s.nextSeqno < unwrap ackno s.isn s.nextSeqno)
    (w : UInt16) : s.ackReceived ackno w = s := if_pos h

theorem ackReceived_of_le {s : TCPSender} {ackno : WrappingInt32} (h : unwrap ackno s.isn s.nextSeqno ≤ s.nextSeqno)
    (w : UInt16) : s.ackReceived ackno w = (s.acknowledge (unwrap ackno s.isn s.nextSeqno) w).fillWindow.settleTimer
      (decide (s.lastAckSeqno < unwrap ackno s.isn s.nextSeqno)) := if_neg (not_lt.mpr h)

theorem currentWindow_pos (s : TCPSender) : 0 < s.currentWindow := by
  unfold currentWindow
  split
  · exact Nat.one_pos
  · rename_i h
    exact Nat.pos_of_ne_zero fun hc => h (UInt16.toNat_inj.mp hc)

theorem currentWindow_lt (s : TCPSender) : s.currentWindow < 2 ^ 16 := by
  unfold currentWindow
  split
  · decide
  · exact s.windowSize.toNat_lt

/-- `s'` is `s` but for the timer. -/
structure TimerOnly (s s' : TCPSender) : Prop where
  isn : s'.isn = s.isn
  finSent : s'.finSent = s.finSent
  out : s'.segmentsOut = s.segmentsOut
  stream : s'.stream = s.stream
  next : s'.nextSeqno = s.nextSeqno
  lastAck : s'.lastAckSeqno = s.lastAckSeqno
  retx : s'.consecutiveRetransmissions = s.consecutiveRetransmissions
  outstanding : s'.segmentsOutstanding = s.segmentsOutstanding
  window : s'.windowSize = s.windowSize

theorem settleTimer_timerOnly (s : TCPSender) (b : Bool) : TimerOnly s (s.settleTimer b) := by
  unfold settleTimer
  split_ifs <;> exact ⟨rfl, rfl, rfl, rfl, rfl, rfl, rfl, rfl, rfl⟩

/-- The rule of `ack_received`: nothing happens, or the number is taken, the
window filled and the timer set. -/
theorem ackReceived_induct {P : TCPSender → Prop} {s : TCPSender} {w : UInt16} (h : P s)
    (hack : ∀ k ≤ s.nextSeqno, P (s.acknowledge k w)) (hfill : ∀ t, P t → P t.fillWindow)
    (htimer : ∀ t t', P t → TimerOnly t t' → P t') (ackno : WrappingInt32) : P (s.ackReceived ackno w) := by
  rcases lt_or_ge s.nextSeqno (unwrap ackno s.isn s.nextSeqno) with hk | hk
  · rw [ackReceived_of_lt hk]
    exact h
  · rw [ackReceived_of_le hk]
    exact htimer _ _ (hfill _ (hack _ hk)) (settleTimer_timerOnly _ _)

/-! ### One segment -/

/-- Two senders that agree on all but what sending changes. -/
structure Frame (s s' : TCPSender) : Prop where
  isn : s'.isn = s.isn
  lastAck : s'.lastAckSeqno = s.lastAckSeqno
  window : s'.windowSize = s.windowSize
  rto : s'.currentRto = s.currentRto
  initialRto : s'.initialRetransmissionTimeout = s.initialRetransmissionTimeout
  retx : s'.consecutiveRetransmissions = s.consecutiveRetransmissions
  capacity : s'.stream.capacity = s.stream.capacity
  bytesWritten : s'.stream.bytesWritten = s.stream.bytesWritten
  error : s'.stream.error = s.stream.error
  inputEnded : s'.stream.inputEnded = s.stream.inputEnded

theorem Frame.refl (s : TCPSender) : Frame s s := ⟨rfl, rfl, rfl, rfl, rfl, rfl, rfl, rfl, rfl, rfl⟩

theorem Frame.trans {a b c : TCPSender} (h : Frame a b) (h' : Frame b c) : Frame a c where
  isn := h'.isn.trans h.isn
  lastAck := h'.lastAck.trans h.lastAck
  window := h'.window.trans h.window
  rto := h'.rto.trans h.rto
  initialRto := h'.initialRto.trans h.initialRto
  retx := h'.retx.trans h.retx
  capacity := h'.capacity.trans h.capacity
  bytesWritten := h'.bytesWritten.trans h.bytesWritten
  error := h'.error.trans h.error
  inputEnded := h'.inputEnded.trans h.inputEnded

theorem Frame.currentWindow {s s' : TCPSender} (h : Frame s s') : s'.currentWindow = s.currentWindow := by
  unfold TCPSender.currentWindow
  rw [h.window]

/-- `s'` is `s` after it sent the new segment `seg` in a window of `w`. -/
structure Sent (w : ℕ) (s s' : TCPSender) (seg : TCPSegment) : Prop where
  frame : Frame s s'
  out : s'.segmentsOut = s.segmentsOut ++ [seg]
  outstanding : s'.segmentsOutstanding = s.segmentsOutstanding ++ [seg]
  next : s'.nextSeqno = s.nextSeqno + seg.lengthInSequenceSpace
  timer : s'.timerRunning = true
  seqno : seg.header.seqno = wrap s.nextSeqno s.isn
  syn : seg.header.syn = true ↔ s.nextSeqno = 0
  plain : seg.header.ack = false ∧ seg.header.rst = false
  pos : 0 < seg.lengthInSequenceSpace
  fits : seg.lengthInSequenceSpace ≤ w - s.bytesInFlight
  payload_le : seg.payload.length ≤ TCPConfig.maxPayloadSize
  payload : seg.payload ++ s'.stream.buffer = s.stream.buffer
  bytesRead : s'.stream.bytesRead = s.stream.bytesRead + seg.payload.length
  finSent : s'.finSent = seg.header.fin
  /-- the FIN goes out when the stream is ended and empty -/
  fin : seg.header.fin = true → s.stream.inputEnded = true ∧ s'.stream.buffer = []

/-- One pass of the loop that sends. -/
def sendNext (s : TCPSender) (window : ℕ) : TCPSender := (s.build window).2.send (s.build window).1

theorem sendNext_sent {s : TCPSender} {w : ℕ} (hfin : s.finSent = false) (hw : s.bytesInFlight < w)
    (hpos : 0 < (s.build w).1.lengthInSequenceSpace) : ∃ seg, Sent w s (s.sendNext w) seg := by
  refine ⟨{ (s.build w).1 with header := { (s.build w).1.header with seqno := wrap s.nextSeqno s.isn } }, ?_⟩
  have hfits : (s.build w).1.lengthInSequenceSpace ≤ w - s.bytesInFlight := by
    have hlen := ByteStream.read_length_le s.stream
      (min (w - s.bytesInFlight - if (s.nextSeqno == 0) = true then 1 else 0) TCPConfig.maxPayloadSize)
    simp only [build, TCPSegment.lengthInSequenceSpace, Bool.and_eq_true, decide_eq_true_eq, Bool.false_eq_true,
      ↓reduceIte, add_zero]
    generalize (s.stream.read _).1 = payload at hlen ⊢
    split_ifs at hlen ⊢ <;> omega
  exact {
    frame := ⟨rfl, rfl, rfl, rfl, rfl, rfl, ByteStream.popOutput_capacity _ _, ByteStream.popOutput_bytesWritten _ _,
      ByteStream.popOutput_error _ _, ByteStream.popOutput_inputEnded _ _⟩
    out := rfl
    outstanding := rfl
    next := rfl
    timer := rfl
    seqno := rfl
    syn := by simp [build]
    plain := ⟨rfl, rfl⟩
    pos := hpos
    fits := hfits
    payload_le := (ByteStream.read_length_le _ _).trans (min_le_right _ _)
    payload := ByteStream.read_append _ _
    bytesRead := ByteStream.read_bytesRead _ _
    finSent := by simp [sendNext, send, build, hfin]
    fin := fun hf => by
      simp only [build, Bool.and_eq_true] at hf
      have heof := hf.1.2
      simp only [ByteStream.eof, Bool.and_eq_true, List.isEmpty_iff] at heof
      exact ⟨(ByteStream.popOutput_inputEnded _ _).symm.trans heof.1, heof.2⟩ }

/-- A pass that builds an empty segment leaves the sender as it is. -/
theorem build_idle {s : TCPSender} {w : ℕ} (h : (s.build w).1.lengthInSequenceSpace = 0) : (s.build w).2 = s := by
  have hpay : (s.build w).1.payload = [] := by
    unfold TCPSegment.lengthInSequenceSpace at h
    exact List.length_eq_zero_iff.mp (by omega)
  have hfin : (s.build w).1.header.fin = false := by
    unfold TCPSegment.lengthInSequenceSpace at h
    by_contra hc
    rw [Bool.not_eq_false] at hc
    rw [if_pos hc] at h
    omega
  have hstream : (s.build w).2.stream = s.stream := ByteStream.popOutput_of_peek_nil hpay
  have hsent : (s.build w).2.finSent = s.finSent := by
    have h1 : (s.build w).2.finSent = (s.finSent || (s.build w).1.header.fin) := rfl
    rw [h1, hfin, Bool.or_false]
  calc (s.build w).2 = { s with stream := (s.build w).2.stream, finSent := (s.build w).2.finSent } := rfl
    _ = s := by rw [hstream, hsent]

/-! ### The loop -/

/-- The rule of the loop: what every pass that sends keeps, the loop keeps. -/
theorem fillLoop_induct {P : TCPSender → Prop} {w : ℕ} (hstep : ∀ s s' seg, P s → s.finSent = false →
    s.bytesInFlight < w → Sent w s s' seg → P s') :
    ∀ (n : ℕ) {s : TCPSender}, s.finSent = false → P s → P (fillLoop n w s)
  | 0, _, _, h => h
  | n + 1, s, hfin, h => by
    unfold fillLoop
    by_cases hw : s.bytesInFlight < w
    · rw [if_pos hw]
      simp only
      by_cases hlen : (s.build w).1.lengthInSequenceSpace = 0
      · rw [if_pos hlen, build_idle hlen]
        exact h
      · obtain ⟨seg, hs⟩ := sendNext_sent hfin hw (Nat.pos_of_ne_zero hlen)
        have hP := hstep s _ seg h hfin hw hs
        rw [if_neg hlen]
        by_cases hf : (s.build w).1.header.fin = true
        · rw [if_pos hf]
          exact hP
        · rw [if_neg hf]
          refine fillLoop_induct hstep n ?_ hP
          have h1 : ((s.build w).2.send (s.build w).1).finSent = (s.finSent || (s.build w).1.header.fin) := rfl
          rw [h1, hfin, Bool.false_or]
          exact Bool.not_eq_true _ ▸ hf
    · rw [if_neg hw]
      exact h

/-- The rule of `fill_window`. -/
theorem fillWindow_induct {P : TCPSender → Prop} {s : TCPSender} (hstep : ∀ a b seg, P a → a.finSent = false →
    a.bytesInFlight < s.currentWindow → Sent s.currentWindow a b seg → P b) (h : P s) : P s.fillWindow := by
  unfold fillWindow
  split
  · exact h
  · rename_i hfin
    exact fillLoop_induct hstep _ (Bool.not_eq_true _ ▸ hfin) h

/-- The size of the window is fuel enough: with more the loop ends the same. -/
theorem fillLoop_fuel {w : ℕ} : ∀ {n : ℕ} {s : TCPSender}, s.finSent = false → s.lastAckSeqno ≤ s.nextSeqno →
    w - s.bytesInFlight ≤ n → fillLoop (n + 1) w s = fillLoop n w s
  | 0, s, _, _, hn => by
    unfold fillLoop
    rw [if_neg (by omega)]
  | n + 1, s, hfin, hle, hn => by
    unfold fillLoop
    by_cases hw : s.bytesInFlight < w
    · rw [if_pos hw, if_pos hw]
      simp only
      by_cases hlen : (s.build w).1.lengthInSequenceSpace = 0
      · rw [if_pos hlen, if_pos hlen]
      · rw [if_neg hlen, if_neg hlen]
        by_cases hf : (s.build w).1.header.fin = true
        · rw [if_pos hf, if_pos hf]
        · obtain ⟨seg, hs⟩ := sendNext_sent hfin hw (Nat.pos_of_ne_zero hlen)
          have h1 : ((s.build w).2.send (s.build w).1).finSent = (s.finSent || (s.build w).1.header.fin) := rfl
          have hnext := hs.next
          have hlast := hs.frame.lastAck
          have hpos := hs.pos
          unfold sendNext at hnext hlast
          rw [if_neg hf, if_neg hf]
          refine fillLoop_fuel ?_ (by omega) ?_
          · rw [h1, hfin, Bool.false_or]
            exact Bool.not_eq_true _ ▸ hf
          · unfold bytesInFlight at hn hw ⊢
            omega
    · rw [if_neg hw, if_neg hw]

/-! ### Whether the window is filled -/

/-- `fill_window` has nothing to send. -/
def Idle (s : TCPSender) : Prop :=
  s.finSent = true ∨ s.currentWindow ≤ s.bytesInFlight ∨ (s.build s.currentWindow).1.lengthInSequenceSpace = 0

theorem fillWindow_of_idle {s : TCPSender} (h : s.Idle) : s.fillWindow = s := by
  unfold fillWindow
  split
  · rfl
  · rename_i hfin
    replace h := h.resolve_left hfin
    obtain ⟨n, hn⟩ := Nat.exists_eq_succ_of_ne_zero s.currentWindow_pos.ne'
    rw [hn]
    unfold fillLoop
    rw [← hn]
    rcases h with h | h
    · rw [if_neg (not_lt.mpr h)]
    · simp only
      rw [if_pos h, build_idle h, ite_self]

/-- The loop ends with nothing left to send. -/
theorem fillLoop_idle {w : ℕ} : ∀ {n : ℕ} {s : TCPSender}, s.finSent = false → s.lastAckSeqno ≤ s.nextSeqno →
    w - s.bytesInFlight ≤ n → (fillLoop n w s).finSent = true ∨ w ≤ (fillLoop n w s).bytesInFlight ∨
      ((fillLoop n w s).build w).1.lengthInSequenceSpace = 0
  | 0, s, _, _, hn => by
    unfold fillLoop
    exact Or.inr (Or.inl (by omega))
  | n + 1, s, hfin, hle, hn => by
    unfold fillLoop
    by_cases hw : s.bytesInFlight < w
    · rw [if_pos hw]
      simp only
      by_cases hlen : (s.build w).1.lengthInSequenceSpace = 0
      · rw [if_pos hlen, build_idle hlen]
        exact Or.inr (Or.inr hlen)
      · rw [if_neg hlen]
        have h1 : ((s.build w).2.send (s.build w).1).finSent = (s.finSent || (s.build w).1.header.fin) := rfl
        by_cases hf : (s.build w).1.header.fin = true
        · rw [if_pos hf, h1, hf, Bool.or_true]
          exact Or.inl rfl
        · obtain ⟨seg, hs⟩ := sendNext_sent hfin hw (Nat.pos_of_ne_zero hlen)
          have hnext := hs.next
          have hlast := hs.frame.lastAck
          have hpos := hs.pos
          unfold sendNext at hnext hlast
          rw [if_neg hf]
          refine fillLoop_idle ?_ (by omega) ?_
          · rw [h1, hfin, Bool.false_or]
            exact Bool.not_eq_true _ ▸ hf
          · unfold bytesInFlight at hn hw ⊢
            omega
    · rw [if_neg hw]
      exact Or.inr (Or.inl (not_lt.mp hw))

/-- What goes out is added to what is out. -/
theorem fillWindow_out (s : TCPSender) : s.segmentsOut <+: s.fillWindow.segmentsOut := by
  refine fillWindow_induct (P := fun t => s.segmentsOut <+: t.segmentsOut) (fun a b seg h _ _ hs => ?_)
    (List.prefix_refl _)
  rw [hs.out]
  exact h.trans (List.prefix_append _ _)

theorem fillWindow_frame (s : TCPSender) : Frame s s.fillWindow :=
  fillWindow_induct (fun _ _ _ h _ _ hs => h.trans hs.frame) (Frame.refl s)

/-- Filling the window once is enough. -/
theorem fillWindow_idle {s : TCPSender} (hle : s.lastAckSeqno ≤ s.nextSeqno) : s.fillWindow.Idle := by
  unfold Idle
  rw [(fillWindow_frame s).currentWindow]
  unfold fillWindow
  split
  · rename_i hfin
    exact Or.inl hfin
  · rename_i hfin
    exact fillLoop_idle (Bool.not_eq_true _ ▸ hfin) hle (Nat.sub_le _ _)

/-- Otherwise a segment goes out. -/
theorem fillWindow_of_not_idle {s : TCPSender} (h : ¬ s.Idle) : s.fillWindow.segmentsOut ≠ s.segmentsOut := by
  simp only [Idle, not_or, Bool.not_eq_true, not_le] at h
  obtain ⟨hfin, hw, hlen⟩ := h
  obtain ⟨seg, hs⟩ := sendNext_sent hfin hw (Nat.pos_of_ne_zero hlen)
  obtain ⟨n, hn⟩ := Nat.exists_eq_succ_of_ne_zero s.currentWindow_pos.ne'
  have hpre : (s.sendNext s.currentWindow).segmentsOut <+: s.fillWindow.segmentsOut := by
    unfold fillWindow
    rw [if_neg (by rw [hfin]; decide), hn]
    unfold fillLoop
    rw [← hn, if_pos hw]
    simp only
    rw [if_neg hlen]
    split
    · exact List.prefix_refl _
    · rename_i hf
      have h1 : (s.sendNext s.currentWindow).finSent = (s.finSent || (s.build s.currentWindow).1.header.fin) := rfl
      refine fillLoop_induct (P := fun t => (s.sendNext s.currentWindow).segmentsOut <+: t.segmentsOut)
        (fun a b seg h _ _ hs => ?_) n ?_ (List.prefix_refl _)
      · rw [hs.out]
        exact h.trans (List.prefix_append _ _)
      · change (s.sendNext s.currentWindow).finSent = false
        rw [h1, hfin, Bool.false_or]
        exact Bool.not_eq_true _ ▸ hf
  intro hc
  have hl := hpre.length_le
  rw [hc, hs.out, List.length_append, List.length_singleton] at hl
  omega

theorem fillWindow_ne_nil {s : TCPSender} (h : ¬ s.Idle) : s.fillWindow.segmentsOut ≠ [] := by
  intro hnil
  have hprefix := fillWindow_out s
  rw [hnil, List.prefix_nil] at hprefix
  exact fillWindow_of_not_idle h (hnil.trans hprefix.symm)

end TCPSender
end Sponge

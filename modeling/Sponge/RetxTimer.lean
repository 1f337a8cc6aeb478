/-
# The retransmission timer

The timer is started by `fill_window`, restarted and stopped by
`ack_received`, and expires in `tick`, which doubles the timeout unless the
window is zero. Beside the connection runs a clock of its own: the time since
the timer last started, was restarted or expired, and the number of times the
timeout was doubled since. The limit of retransmissions keeps that number
small, so the timeout, 32 bits wide in the code, is the exact power.

Key definitions: `TCPSender.TimerKept`, `TCPSender.Timing`, `TCPConnection.Resends`,
`RetxClock.step`.
Key theorems: `TCPSender.ackReceived_timing`, `TCPSender.Timing.tick`,
`RetxClock.step_inv`, `RetxClock.retx_timer`.
-/
import Sponge.Inactive
import Sponge.ZeroWindow

namespace Sponge
namespace TCPSender

/-- From `s` to `s'` the timer goes on, or starts at zero. -/
structure Starts (s s' : TCPSender) : Prop where
  keeps : s.timerRunning = true → s'.timerRunning = true
  elapsed : s'.timerRunning = true → s'.timeElapsed = if s.timerRunning then s.timeElapsed else 0

/-- From `s` to `s'` nothing new was acknowledged and no time passed. -/
structure TimerKept (s s' : TCPSender) : Prop where
  starts : Starts s s'
  running : s'.timerRunning = true ↔ s'.segmentsOutstanding ≠ []
  initial : s'.initialRetransmissionTimeout = s.initialRetransmissionTimeout
  rto : s'.currentRto = s.currentRto
  retx : s'.consecutiveRetransmissions = s.consecutiveRetransmissions

/-- The timer runs iff something is outstanding, for `elapsed` by now, and its
timeout was doubled `backoffs` times. -/
structure Timing (rt elapsed backoffs : ℕ) (s : TCPSender) : Prop where
  running : s.timerRunning = true ↔ s.segmentsOutstanding ≠ []
  elapsed : s.timerRunning = true → s.timeElapsed = elapsed
  initial : s.initialRetransmissionTimeout = rt
  rto : s.currentRto = rt * 2 ^ backoffs
  backoffs_le : backoffs ≤ s.consecutiveRetransmissions

variable {s t u : TCPSender} {rt e k : ℕ}

/-! ### Sending -/

theorem Starts.of_eq (h1 : t.timerRunning = s.timerRunning) (h2 : t.timeElapsed = s.timeElapsed) : Starts s t where
  keeps := fun h => h1.trans h
  elapsed := fun h => by rw [← h1, if_pos h, h2]

theorem Starts.trans (h : Starts s t) (h' : Starts t u) : Starts s u where
  keeps := fun hs => h'.keeps (h.keeps hs)
  elapsed := fun hu => by
    rw [h'.elapsed hu]
    by_cases ht : t.timerRunning = true
    · rw [if_pos ht, h.elapsed ht]
    · rw [if_neg ht, if_neg fun hs => ht (h.keeps hs)]

theorem fillLoop_starts (w : ℕ) : ∀ (n : ℕ) (s : TCPSender), Starts s (fillLoop n w s)
  | 0, s => Starts.of_eq rfl rfl
  | n + 1, s => by
    have hsend : Starts s ((s.build w).2.send (s.build w).1) := ⟨fun _ => rfl, fun _ => rfl⟩
    unfold fillLoop
    split_ifs
    · dsimp only
      split_ifs
      · exact Starts.of_eq rfl rfl
      · exact hsend
      · exact hsend.trans (fillLoop_starts w n _)
    · exact Starts.of_eq rfl rfl

theorem fillWindow_starts (s : TCPSender) : Starts s s.fillWindow := by
  unfold fillWindow
  split
  · exact Starts.of_eq rfl rfl
  · exact fillLoop_starts _ _ s

/-- What is sent is outstanding and has the timer running. -/
theorem fillWindow_running (h : s.segmentsOutstanding ≠ [] → s.timerRunning = true) :
    s.fillWindow.segmentsOutstanding ≠ [] → s.fillWindow.timerRunning = true := by
  apply fillWindow_induct (P := fun t => t.segmentsOutstanding ≠ [] → t.timerRunning = true) _ h
  intro a b seg _ _ _ hs _
  exact hs.timer

theorem fillWindow_running_iff (h : s.timerRunning = true ↔ s.segmentsOutstanding ≠ []) :
    s.fillWindow.timerRunning = true ↔ s.fillWindow.segmentsOutstanding ≠ [] := by
  apply fillWindow_induct (P := fun t => t.timerRunning = true ↔ t.segmentsOutstanding ≠ []) _ h
  intro a b seg _ _ _ hs
  simp [hs.timer, hs.outstanding]

theorem TimerKept.refl (h : s.timerRunning = true ↔ s.segmentsOutstanding ≠ []) : TimerKept s s :=
  ⟨Starts.of_eq rfl rfl, h, rfl, rfl, rfl⟩

theorem TimerKept.fillWindow (h : TimerKept s t) : TimerKept s t.fillWindow where
  starts := h.starts.trans (fillWindow_starts t)
  running := fillWindow_running_iff h.running
  initial := (fillWindow_frame t).initialRto.trans h.initial
  rto := (fillWindow_frame t).rto.trans h.rto
  retx := (fillWindow_frame t).retx.trans h.retx

theorem Timing.timerKept (h : Timing rt e k s) (hc : TimerKept s t) :
    Timing rt (if s.timerRunning then e else 0) k t where
  running := hc.running
  elapsed := fun ht => by
    rw [hc.starts.elapsed ht]
    split_ifs with hs
    · exact h.elapsed hs
    · rfl
  initial := hc.initial.trans h.initial
  rto := hc.rto.trans h.rto
  backoffs_le := hc.retx ▸ h.backoffs_le

/-- The queue of segments to send plays no part. -/
theorem TimerKept.queue (h : TimerKept s t) (segs : List TCPSegment) : TimerKept s { t with segmentsOut := segs } :=
  ⟨⟨h.starts.keeps, h.starts.elapsed⟩, h.running, h.initial, h.rto, h.retx⟩

theorem Timing.queue (h : Timing rt e k s) (segs : List TCPSegment) : Timing rt e k { s with segmentsOut := segs } :=
  ⟨h.running, h.elapsed, h.initial, h.rto, h.backoffs_le⟩

/-! ### Acknowledgments -/

theorem acknowledge_timer (s : TCPSender) (absAck : ℕ) (w : UInt16) :
    (s.acknowledge absAck w).timerRunning = s.timerRunning ∧
    (s.acknowledge absAck w).initialRetransmissionTimeout = s.initialRetransmissionTimeout ∧
    (s.acknowledge absAck w).currentRto =
      (if s.lastAckSeqno < absAck then s.initialRetransmissionTimeout else s.currentRto) ∧
    (s.acknowledge absAck w).timeElapsed = if s.lastAckSeqno < absAck then 0 else s.timeElapsed := by
  unfold acknowledge
  dsimp only
  split_ifs <;> exact ⟨rfl, rfl, rfl, rfl⟩

theorem settleTimer_of_nil (h : s.segmentsOutstanding = []) (b : Bool) :
    s.settleTimer b = { s with timerRunning := false, timeElapsed := 0 } := if_pos h

theorem settleTimer_of_running (h : s.segmentsOutstanding ≠ []) (hrun : s.timerRunning = true) (b : Bool) :
    s.settleTimer b = s := by
  unfold settleTimer
  rw [if_neg h]
  cases s
  cases b
  · rfl
  · simp only at hrun
    subst hrun
    rfl

/-- What is still outstanding was so before, so the timer runs. -/
theorem acknowledge_running (h : s.timerRunning = true ↔ s.segmentsOutstanding ≠ []) (absAck : ℕ) (w : UInt16) :
    (s.acknowledge absAck w).fillWindow.segmentsOutstanding ≠ [] →
      (s.acknowledge absAck w).fillWindow.timerRunning = true := by
  apply fillWindow_running
  intro hne
  rw [(acknowledge_timer s absAck w).1, h]
  intro hnil
  have hsuffix := acknowledge_suffix s absAck w
  rw [hnil, List.suffix_nil] at hsuffix
  exact hne hsuffix

/-- New data restarts the timer. -/
theorem Timing.acknowledge_new (h : Timing rt e k s) {absAck : ℕ} (hnew : s.lastAckSeqno < absAck) (w : UInt16)
    (b : Bool) : Timing rt 0 0 ((s.acknowledge absAck w).fillWindow.settleTimer b) := by
  have hsome := acknowledge_running h.running absAck w
  obtain ⟨-, hinit, hrto, htime⟩ := acknowledge_timer s absAck w
  rw [if_pos hnew] at hrto htime
  generalize s.acknowledge absAck w = t at *
  have hframe := fillWindow_frame t
  have hfresh : t.fillWindow.currentRto = rt * 2 ^ 0 := by
    rw [pow_zero, Nat.mul_one, ← h.initial, hframe.rto, hrto]
  have hinitial : t.fillWindow.initialRetransmissionTimeout = rt := by
    calc t.fillWindow.initialRetransmissionTimeout = t.initialRetransmissionTimeout := hframe.initialRto
      _ = s.initialRetransmissionTimeout := hinit
      _ = rt := h.initial
  by_cases hnil : t.fillWindow.segmentsOutstanding = []
  · rw [settleTimer_of_nil hnil]
    exact {
      running := iff_of_false Bool.false_ne_true (not_not_intro hnil)
      elapsed := fun hc => absurd hc Bool.false_ne_true
      initial := hinitial
      rto := hfresh
      backoffs_le := Nat.zero_le _ }
  · rw [settleTimer_of_running hnil (hsome hnil)]
    exact {
      running := iff_of_true (hsome hnil) hnil
      elapsed := fun hu => by rw [(fillWindow_starts t).elapsed hu, htime, ite_self]
      initial := hinitial
      rto := hfresh
      backoffs_le := Nat.zero_le _ }

/-- Otherwise the timer goes on. -/
theorem WF.acknowledge_old (hwf : WF s) (h : s.timerRunning = true ↔ s.segmentsOutstanding ≠ []) {absAck : ℕ}
    (hk : absAck ≤ s.nextSeqno) (hold : ¬ s.lastAckSeqno < absAck) (w : UInt16) (b : Bool) :
    TimerKept s ((s.acknowledge absAck w).fillWindow.settleTimer b) := by
  have hsome := acknowledge_running h absAck w
  have hwf' := hwf.acknowledge hk w
  have hlast := acknowledge_lastAck s absAck w
  have hnext := (acknowledge_frame s absAck w).2.1
  have hretx := acknowledge_retx s absAck w
  obtain ⟨hrun, hinit, hrto, htime⟩ := acknowledge_timer s absAck w
  rw [if_neg hold] at hrto htime hretx
  generalize s.acknowledge absAck w = t at *
  have hframe := fillWindow_frame t
  by_cases hnil : t.fillWindow.segmentsOutstanding = []
  · -- nothing is outstanding, and nothing was
    have hstopped : s.timerRunning ≠ true := by
      intro hs
      apply h.mp hs
      rw [hwf.outstanding_eq_nil_iff, ← hnext, ← max_eq_left (not_lt.mp hold), ← hlast, ← hwf'.outstanding_eq_nil_iff]
      by_contra hne
      exact TCPConnection.fillWindow_outstanding hwf' hne hnil
    rw [settleTimer_of_nil hnil]
    exact {
      starts := ⟨fun hs => absurd hs hstopped, fun hc => absurd hc Bool.false_ne_true⟩
      running := iff_of_false Bool.false_ne_true (not_not_intro hnil)
      initial := hframe.initialRto.trans hinit
      rto := hframe.rto.trans hrto
      retx := hframe.retx.trans hretx }
  · rw [settleTimer_of_running hnil (hsome hnil)]
    exact {
      starts := (Starts.of_eq hrun htime).trans (fillWindow_starts t)
      running := iff_of_true (hsome hnil) hnil
      initial := hframe.initialRto.trans hinit
      rto := hframe.rto.trans hrto
      retx := hframe.retx.trans hretx }

theorem ackReceived_timing (hwf : WF s) (h : Timing rt e k s) (ackno : WrappingInt32) (w : UInt16) :
    if s.lastAckSeqno < unwrap ackno s.isn s.nextSeqno ∧ unwrap ackno s.isn s.nextSeqno ≤ s.nextSeqno then
      Timing rt 0 0 (s.ackReceived ackno w)
    else TimerKept s (s.ackReceived ackno w) := by
  split_ifs with hnew
  · rw [ackReceived_of_le hnew.2]
    exact h.acknowledge_new hnew.1 w _
  · rcases lt_or_ge s.nextSeqno (unwrap ackno s.isn s.nextSeqno) with hk | hk
    · rw [ackReceived_of_lt hk]
      exact TimerKept.refl h.running
    · rw [ackReceived_of_le hk]
      exact hwf.acknowledge_old h.running hk (fun hc => hnew ⟨hc, hk⟩) w _

/-! ### Ticks -/

/-- The doubled timeout fits its 32 bits, for as long as the limit of
retransmissions allows. -/
theorem rto_lt {n : ℕ} (hrt : rt < 2 ^ 16) (hn : n ≤ TCPConfig.maxRetxAttempts + 1) : rt * 2 ^ n < 2 ^ 32 := by
  have hpow : 2 ^ n ≤ 2 ^ 9 := Nat.pow_le_pow_right Nat.two_pos hn
  calc rt * 2 ^ n ≤ rt * 2 ^ 9 := Nat.mul_le_mul_left _ hpow
    _ < 2 ^ 16 * 2 ^ 9 := Nat.mul_lt_mul_of_pos_right hrt (by norm_num)
    _ < 2 ^ 32 := by norm_num

/-- A tick sends the oldest segment again iff the timer runs and its time is
over; then the timer starts again, with twice the timeout if the window is open. -/
theorem Timing.tick (h : Timing rt e k s) (hrt : rt < 2 ^ 16)
    (hlimit : s.consecutiveRetransmissions ≤ TCPConfig.maxRetxAttempts) {ms : ℕ} (hms : e + ms < 2 ^ 32) :
    (s.timerRunning = true ∧ rt * 2 ^ k ≤ e + ms → ∃ seg segs, s.segmentsOutstanding = seg :: segs ∧
      (s.tick ms).segmentsOut = s.segmentsOut ++ [seg] ∧
      Timing rt 0 (if s.windowSize = 0 then k else k + 1) (s.tick ms)) ∧
    (¬ (s.timerRunning = true ∧ rt * 2 ^ k ≤ e + ms) → (s.tick ms).segmentsOut = s.segmentsOut ∧
      Timing rt (if s.timerRunning then e + ms else 0) k (s.tick ms)) := by
  by_cases hrun : s.timerRunning = true
  · obtain ⟨seg, segs, ho⟩ := List.exists_cons_of_ne_nil (h.running.mp hrun)
    have htime : (s.timeElapsed + ms) % 2 ^ 32 = e + ms := by rw [h.elapsed hrun, Nat.mod_eq_of_lt hms]
    unfold TCPSender.tick
    simp only [hrun, Bool.true_eq_false, ↓reduceIte, ho, htime, h.rto, true_and, not_le]
    have hk : k + 1 ≤ TCPConfig.maxRetxAttempts + 1 := Nat.succ_le_succ (h.backoffs_le.trans hlimit)
    have hdouble : rt * 2 ^ k * 2 % 2 ^ 32 = rt * 2 ^ (k + 1) := by
      rw [Nat.mul_assoc, ← pow_succ, Nat.mod_eq_of_lt (rto_lt hrt hk)]
    have hcount : (s.consecutiveRetransmissions + 1) % 2 ^ 32 = s.consecutiveRetransmissions + 1 :=
      Nat.mod_eq_of_lt (lt_of_le_of_lt (Nat.succ_le_succ hlimit) (by decide))
    have hle := h.backoffs_le
    constructor
    · intro hdue
      rw [if_pos hdue]
      refine ⟨seg, segs, rfl, rfl, ?_⟩
      exact {
        running := iff_of_true rfl (List.cons_ne_nil _ _)
        elapsed := fun _ => rfl
        initial := h.initial
        rto := by
          dsimp only
          rw [hdouble]
          split_ifs <;> rfl
        backoffs_le := by
          dsimp only
          rw [hcount]
          split_ifs <;> omega }
    · intro hearly
      rw [if_neg (not_le.mpr hearly)]
      refine ⟨rfl, ?_⟩
      exact {
        running := iff_of_true rfl (List.cons_ne_nil _ _)
        elapsed := fun _ => rfl
        initial := h.initial
        rto := rfl
        backoffs_le := hle }
  · have hsame : s.tick ms = s := if_pos (Bool.not_eq_true _ ▸ hrun)
    rw [hsame, if_neg hrun]
    refine ⟨fun hc => absurd hc.1 hrun, fun _ => ⟨rfl, ?_⟩⟩
    exact { h with elapsed := fun hc => absurd hc hrun }

end TCPSender

namespace TCPConnection

open TCPSender

/-- The tick has a segment sent again. -/
def Resends (c : TCPConnection) (ms : ℕ) : Prop :=
  c.isActive = true ∧ (c.sender.tick ms).segmentsOut ≠ c.sender.segmentsOut

instance (c : TCPConnection) (ms : ℕ) : Decidable (c.Resends ms) := inferInstanceAs (Decidable (_ ∧ _))

variable {c c' : TCPConnection}

theorem respond_timerKept {s : TCPSender} (h : TimerKept s c.sender) (seg : TCPSegment) :
    TimerKept s (c.respond seg).sender :=
  respond_induct (P := fun d => TimerKept s d.sender) (Q := fun d => TimerKept s d.sender) (fun _ h => h.fillWindow)
    (fun _ h => h.queue _) (fun _ h => h) (fun _ h => h) (fun _ h => h.queue _) h seg

/-- A tick that does not reset sends what the sender has. -/
theorem tick_of_unreset (ha : c.isActive = true) {ms : ℕ} (h : (c.tick ms).sender.stream.error = false) :
    c.tick ms = { (c.ticked ms).sendSegments with isActive := (c.ticked ms).active } := by
  rcases tick_cases ha ms with ⟨-, ht⟩ | ⟨-, ht⟩
  · rw [ht] at h
    cases h
  · exact ht

/-- A connection that is not reset now was not before. -/
theorem step_error {op : Op} (hs : step c op = some c') (h : c'.sender.stream.error = false) :
    c.sender.stream.error = false := by
  cases op with
  | connect =>
    obtain rfl := Option.some.inj hs
    rw [← (fillWindow_frame c.sender).error]
    exact h
  | write data =>
    obtain rfl := Option.some.inj hs
    rw [← ByteStream.write_snd_error c.sender.stream data]
    exact (fillWindow_frame (c.sender.write data).2).error.symm.trans h
  | endInputStream =>
    obtain rfl := Option.some.inj hs
    exact (fillWindow_frame c.sender.endInput).error.symm.trans h
  | segment seg =>
    rcases segment_cases hs with ⟨-, rfl⟩ | ⟨-, -, rfl⟩ | ⟨-, -, receiver, -, rfl⟩
    · exact h
    · cases h
    · have hacked : (c.acked seg).stream.error = c.sender.stream.error := by
        unfold acked
        split_ifs
        · exact (ackReceived_frame _ _ _).2.2.1
        · rfl
      have hkeep := respond_induct (P := fun d => d.sender.stream.error = (c.acked seg).stream.error)
        (Q := fun d => d.sender.stream.error = (c.acked seg).stream.error)
        (fun d hd => (fillWindow_frame d.sender).error.trans hd) (fun _ hd => hd) (fun _ hd => hd) (fun _ hd => hd)
        (fun _ hd => hd)
        (c := { c with timeSinceLastSegmentReceived := 0, receiver, sender := c.acked seg }) rfl seg
      rw [← hacked, ← hkeep]
      exact h
  | tick ms =>
    obtain rfl := Option.some.inj hs
    rcases Bool.eq_false_or_eq_true c.isActive with ha | ha
    · have hstream := (tick_frame c.sender ms).2.2.2.2.2.1
      rw [tick_of_unreset ha h] at h
      rw [← hstream]
      exact h
    · rw [tick_of_inactive ha] at h
      exact h
  | read len =>
    obtain rfl := Option.some.inj hs
    exact h

end TCPConnection

open TCPSender TCPConnection

/-- A connection, the time since its timer last started, was restarted by new
data or expired, how often it expired since with an open window, and the sum of
all ticks. -/
structure RetxClock where
  conn : TCPConnection
  elapsed : ℕ
  backoffs : ℕ
  time : ℕ

namespace RetxClock

def start (cfg : TCPConfig) (isn : WrappingInt32) : RetxClock := ⟨TCPConnection.init cfg isn, 0, 0, 0⟩

/-- The time the timer has run; it is to start at zero if it does not run. -/
def sinceStart (p : RetxClock) (ms : ℕ) : ℕ := if p.conn.sender.timerRunning then p.elapsed + ms else 0

/-- The time since, and the number of expiries, after the call. -/
def clock (p : RetxClock) : TCPConnection.Op → ℕ × ℕ
  | .tick ms =>
    if p.conn.Resends ms then (0, if p.conn.sender.windowSize = 0 then p.backoffs else p.backoffs + 1)
    else (p.sinceStart ms, p.backoffs)
  | .segment seg => if p.conn.NewData seg then (0, 0) else (p.sinceStart 0, p.backoffs)
  | _ => (p.sinceStart 0, p.backoffs)

def duration : TCPConnection.Op → ℕ
  | .tick ms => ms
  | _ => 0

def step (p : RetxClock) (op : TCPConnection.Op) : Option RetxClock := (p.conn.step op).map fun conn =>
  { conn, elapsed := (p.clock op).1, backoffs := (p.clock op).2, time := p.time + duration op }

/-- The clock does not change what the connection does. -/
theorem run_conn (cfg : TCPConfig) (isn : WrappingInt32) (ops : List TCPConnection.Op) :
    (Runs.run step (start cfg isn) ops).map RetxClock.conn =
      Runs.run TCPConnection.step (TCPConnection.init cfg isn) ops := by
  apply Runs.run_map
  intro p op
  unfold step
  cases TCPConnection.step p.conn op <;> rfl

structure Inv (rt : ℕ) (p : RetxClock) : Prop where
  conn : TCPConnection.Inv p.conn
  timing : Timing rt p.elapsed p.backoffs p.conn.sender
  le : p.elapsed ≤ p.time

/-- The connection was not reset, and the ticks add up to less than 2^32. -/
def Early (p : RetxClock) : Prop := p.conn.sender.stream.error = false ∧ p.time < 2 ^ 32

variable {rt : ℕ} {p p' : RetxClock}

theorem start_inv (cfg : TCPConfig) (isn : WrappingInt32) : Inv cfg.rtTimeout.toNat (start cfg isn) where
  conn := TCPConnection.init_inv cfg isn
  timing := ⟨iff_of_false Bool.false_ne_true fun h => h rfl, fun h => absurd h Bool.false_ne_true, rfl,
    (Nat.mul_one _).symm, le_rfl⟩
  le := le_rfl

theorem sinceStart_le (h : Inv rt p) (ms : ℕ) : p.sinceStart ms ≤ p.time + ms := by
  unfold sinceStart
  split_ifs
  · exact Nat.add_le_add_right h.le ms
  · exact Nat.zero_le _

theorem step_early {op : TCPConnection.Op} (hs : step p op = some p') (h : Early p') : Early p := by
  obtain ⟨conn, hc, rfl⟩ := Option.map_eq_some_iff.mp hs
  exact ⟨step_error hc h.1, lt_of_le_of_lt (Nat.le_add_right _ _) h.2⟩

/-- What a tick of a connection that is not reset does. -/
theorem Inv.tick (h : Inv rt p) (hrt : rt < 2 ^ 16) (he : Early p) {ms : ℕ} (hms : p.time + ms < 2 ^ 32) :
    (p.conn.sender.timerRunning = true ∧ rt * 2 ^ p.backoffs ≤ p.elapsed + ms → p.conn.isActive = true ∧
      ∃ seg segs, p.conn.sender.segmentsOutstanding = seg :: segs ∧ (p.conn.sender.tick ms).segmentsOut = [seg] ∧
        Timing rt 0 (if p.conn.sender.windowSize = 0 then p.backoffs else p.backoffs + 1) (p.conn.sender.tick ms)) ∧
    (¬ (p.conn.sender.timerRunning = true ∧ rt * 2 ^ p.backoffs ≤ p.elapsed + ms) →
      (p.conn.sender.tick ms).segmentsOut = [] ∧
        Timing rt (p.sinceStart ms) p.backoffs (p.conn.sender.tick ms)) := by
  obtain ⟨hqueue, hlimit, hstop⟩ := h.conn.unreset he.1
  obtain ⟨hdue, hearly⟩ := h.timing.tick hrt hlimit (lt_of_le_of_lt (Nat.add_le_add_right h.le ms) hms)
  rw [hqueue] at hdue hearly
  refine ⟨fun hd => ⟨?_, hdue hd⟩, hearly⟩
  rw [← Bool.not_eq_false]
  intro ha
  exact h.timing.running.mp hd.1 (hstop ha)

theorem Inv.resends_iff (h : Inv rt p) (hrt : rt < 2 ^ 16) (he : Early p) {ms : ℕ} (hms : p.time + ms < 2 ^ 32) :
    p.conn.Resends ms ↔ p.conn.sender.timerRunning = true ∧ rt * 2 ^ p.backoffs ≤ p.elapsed + ms := by
  obtain ⟨hdue, hearly⟩ := h.tick hrt he hms
  have hqueue := (h.conn.unreset he.1).1
  constructor
  · intro hr
    by_contra hc
    apply hr.2
    rw [(hearly hc).1, hqueue]
  · intro hd
    obtain ⟨ha, seg, segs, -, hout, -⟩ := hdue hd
    refine ⟨ha, ?_⟩
    rw [hout, hqueue]
    exact List.cons_ne_nil _ _

theorem Inv.tick_timing (h : Inv rt p) (hrt : rt < 2 ^ 16) (he : Early p) {ms : ℕ} (hms : p.time + ms < 2 ^ 32)
    (he' : (p.conn.tick ms).sender.stream.error = false) :
    Timing rt (p.clock (.tick ms)).1 (p.clock (.tick ms)).2 (p.conn.tick ms).sender := by
  obtain ⟨hdue, hearly⟩ := h.tick hrt he hms
  have hiff := h.resends_iff hrt he hms
  rcases Bool.eq_false_or_eq_true p.conn.isActive with ha | ha
  · rw [tick_of_unreset ha he']
    by_cases hr : p.conn.Resends ms
    · obtain ⟨-, seg, segs, -, -, htiming⟩ := hdue (hiff.mp hr)
      simp only [clock, if_pos hr]
      exact htiming.queue []
    · simp only [clock, if_neg hr]
      exact (hearly fun hc => hr (hiff.mpr hc)).2.queue []
  · have hrun : ¬ p.conn.sender.timerRunning = true := by
      rw [h.timing.running, not_not]
      exact (h.conn.unreset he.1).2.2 ha
    have hr : ¬ p.conn.Resends ms := fun hc => Bool.false_ne_true (ha.symm.trans hc.1)
    rw [tick_of_inactive ha]
    simp only [clock, if_neg hr]
    exact { h.timing with elapsed := fun hc => absurd hc hrun }

theorem Inv.segment_timing (h : Inv rt p) {seg : TCPSegment} {c : TCPConnection}
    (hs : p.conn.segmentReceived seg = some c) (he' : c.sender.stream.error = false) :
    Timing rt (p.clock (.segment seg)).1 (p.clock (.segment seg)).2 c.sender := by
  have hrefl := TimerKept.refl h.timing.running
  rcases segment_cases hs with ⟨ha, rfl⟩ | ⟨-, -, rfl⟩ | ⟨ha, hrst, receiver, -, rfl⟩
  · have hold : ¬ p.conn.NewData seg := fun hc => Bool.false_ne_true (ha.symm.trans hc.1)
    simp only [clock, if_neg hold]
    exact h.timing.timerKept hrefl
  · cases he'
  · have hacked := ackReceived_timing h.conn.wf h.timing seg.header.ackno seg.header.win
    by_cases hnew : p.conn.NewData seg
    · have hack : p.conn.acked seg = p.conn.sender.ackReceived seg.header.ackno seg.header.win := if_pos hnew.2.2.1
      rw [if_pos hnew.2.2.2, ← hack] at hacked
      have hkept := respond_timerKept (c := { p.conn with
        timeSinceLastSegmentReceived := 0, receiver, sender := p.conn.acked seg }) (TimerKept.refl hacked.running) seg
      have htiming := hacked.timerKept hkept
      rw [ite_self] at htiming
      simp only [clock, if_pos hnew]
      exact htiming
    · have hkept : TimerKept p.conn.sender (p.conn.acked seg) := by
        unfold acked
        split_ifs with hack
        · rw [if_neg fun hc => hnew ⟨ha, hrst, hack, hc⟩] at hacked
          exact hacked
        · exact hrefl
      simp only [clock, if_neg hnew]
      exact h.timing.timerKept (respond_timerKept (c := { p.conn with
        timeSinceLastSegmentReceived := 0, receiver, sender := p.conn.acked seg }) hkept seg)

theorem clock_le (h : Inv rt p) (op : TCPConnection.Op) : (p.clock op).1 ≤ p.time + duration op := by
  cases op with
  | tick ms =>
    by_cases hr : p.conn.Resends ms
    · simp only [clock, if_pos hr]
      exact Nat.zero_le _
    · simp only [clock, if_neg hr]
      exact sinceStart_le h ms
  | segment seg =>
    by_cases hnew : p.conn.NewData seg
    · simp only [clock, if_pos hnew]
      exact Nat.zero_le _
    · simp only [clock, if_neg hnew]
      exact sinceStart_le h 0
  | connect => exact sinceStart_le h 0
  | write data => exact sinceStart_le h 0
  | endInputStream => exact sinceStart_le h 0
  | read len => exact sinceStart_le h 0

theorem step_inv (h : Inv rt p) (hrt : rt < 2 ^ 16) {op : TCPConnection.Op} (hs : step p op = some p')
    (he' : Early p') : Inv rt p' := by
  have he := step_early hs he'
  obtain ⟨conn, hc, rfl⟩ := Option.map_eq_some_iff.mp hs
  refine ⟨step_inv_of_retx h.conn (fun _ => (h.conn.unreset he.1).2.1) hc, ?_, clock_le h op⟩
  have hrefl := TimerKept.refl h.timing.running
  have hwriter : ∀ stream : ByteStream, TimerKept p.conn.sender { p.conn.sender with stream } := fun _ =>
    ⟨⟨hrefl.starts.keeps, hrefl.starts.elapsed⟩, hrefl.running, rfl, rfl, rfl⟩
  cases op with
  | connect =>
    obtain rfl := Option.some.inj hc
    exact h.timing.timerKept (hrefl.fillWindow.queue [])
  | write data =>
    obtain rfl := Option.some.inj hc
    exact h.timing.timerKept ((hwriter _).fillWindow.queue [])
  | endInputStream =>
    obtain rfl := Option.some.inj hc
    exact h.timing.timerKept ((hwriter _).fillWindow.queue [])
  | segment seg => exact h.segment_timing hc he'.1
  | tick ms =>
    obtain rfl := Option.some.inj hc
    exact h.tick_timing hrt he he'.2 he'.1
  | read len =>
    obtain rfl := Option.some.inj hc
    exact h.timing.timerKept hrefl

/-- A segment sent again is the oldest one, with the receiver's stamp unless
the tick resets. -/
theorem Inv.resend (h : Inv rt p) (hrt : rt < 2 ^ 16) (he : Early p) {ms : ℕ} (hms : p.time + ms < 2 ^ 32)
    (hres : p.conn.Resends ms) : ∃ seg segs, p.conn.sender.segmentsOutstanding = seg :: segs ∧
      (p.conn.sender.tick ms).segmentsOut = [seg] ∧ ((p.conn.tick ms).sender.stream.error = false →
        (p.conn.tick ms).segmentsOut = p.conn.segmentsOut ++ [stamp p.conn.receiver seg]) := by
  obtain ⟨ha, seg, segs, ho, hout, -⟩ := (h.tick hrt he hms).1 ((h.resends_iff hrt he hms).mp hres)
  refine ⟨seg, segs, ho, hout, fun hafter => ?_⟩
  rw [tick_of_unreset ha hafter]
  show p.conn.segmentsOut ++ (p.conn.sender.tick ms).segmentsOut.map _ = _
  rw [hout]
  rfl

/-- Without one, the tick sends nothing. -/
theorem Inv.tick_quiet (h : Inv rt p) (he : Early p) {ms : ℕ} (hres : ¬ p.conn.Resends ms) :
    (p.conn.tick ms).segmentsOut = p.conn.segmentsOut := by
  obtain ⟨hqueue, hlimit, -⟩ := h.conn.unreset he.1
  rcases Bool.eq_false_or_eq_true p.conn.isActive with ha | ha
  · have hsame : (p.conn.sender.tick ms).segmentsOut = p.conn.sender.segmentsOut := by
      by_contra hne
      exact hres ⟨ha, hne⟩
    rcases tick_cases ha ms with ⟨hc, -⟩ | ⟨-, ht⟩
    · -- without an expiry the limit is not passed
      rcases TCPSender.tick_cases p.conn.sender ms with ⟨time, htick⟩ | ⟨seg, segs, rto, -, htick⟩
      · rw [htick] at hc
        exact absurd hlimit (not_le.mpr hc)
      · rw [htick] at hsame
        simp at hsame
    · rw [ht]
      show p.conn.segmentsOut ++ (p.conn.sender.tick ms).segmentsOut.map _ = _
      rw [hsame, hqueue, List.map_nil, List.append_nil]
  · rw [tick_of_inactive ha]

/-- **The timer**: it runs iff something is outstanding, its timeout is the
first one doubled without overflow, and a tick sends the oldest segment again,
once, iff the time since has reached it. -/
theorem retx_timer (cfg : TCPConfig) (isn : WrappingInt32) {ops : List TCPConnection.Op}
    (hr : Runs.run step (start cfg isn) ops = some p) (hreset : p.conn.sender.stream.error = false)
    (htime : p.time < 2 ^ 32) :
    let timeout := cfg.rtTimeout.toNat * 2 ^ p.backoffs
    (p.conn.sender.timerRunning = true ↔ p.conn.sender.segmentsOutstanding ≠ []) ∧
    p.conn.sender.currentRto = timeout ∧ timeout < 2 ^ 32 ∧
    ∀ ms, p.time + ms < 2 ^ 32 →
      (p.conn.Resends ms ↔ p.conn.sender.timerRunning = true ∧ timeout ≤ p.elapsed + ms) ∧
      (p.conn.Resends ms → ∃ seg segs, p.conn.sender.segmentsOutstanding = seg :: segs ∧
        (p.conn.sender.tick ms).segmentsOut = [seg] ∧ ((p.conn.tick ms).sender.stream.error = false →
          (p.conn.tick ms).segmentsOut = p.conn.segmentsOut ++ [stamp p.conn.receiver seg])) ∧
      (¬ p.conn.Resends ms → (p.conn.tick ms).segmentsOut = p.conn.segmentsOut) := by
  have hrt : cfg.rtTimeout.toNat < 2 ^ 16 := cfg.rtTimeout.toNat_lt
  have he : Early p := ⟨hreset, htime⟩
  have hall : ∀ op ∈ ops, True := fun _ _ => trivial
  have h : Inv cfg.rtTimeout.toNat p := Runs.run_bounded (B := Early) (fun _ _ _ hs hB => step_early hs hB)
    (fun _ _ _ _ hB hI hs => step_inv hI hrt hs hB) hall (start_inv cfg isn) hr he
  obtain ⟨-, hlimit, -⟩ := h.conn.unreset hreset
  refine ⟨h.timing.running, h.timing.rto, rto_lt hrt ?_, fun ms hms => ?_⟩
  · calc p.backoffs ≤ p.conn.sender.consecutiveRetransmissions := h.timing.backoffs_le
      _ ≤ TCPConfig.maxRetxAttempts := hlimit
      _ ≤ TCPConfig.maxRetxAttempts + 1 := Nat.le_succ _
  · exact ⟨h.resends_iff hrt he hms, h.resend hrt he hms, h.tick_quiet he⟩

/-- The SYN is sent again after one second, and almost two more pass. -/
def backoffOps : List TCPConnection.Op := [.connect, .tick 1000, .tick 1999]

theorem retx_timer_backoff : ∃ p, Runs.run step (start {} ⟨0⟩) backoffOps = some p ∧
    p.conn.sender.currentRto = 2000 ∧ ¬ p.conn.Resends 0 ∧ p.conn.Resends 1 := by
  obtain ⟨p, hp⟩ : ∃ p, Runs.run step (start {} ⟨0⟩) backoffOps = some p := ⟨_, rfl⟩
  have hsome := Option.some.inj hp
  have hreset : p.conn.sender.stream.error = false := by
    rw [← hsome]
    decide +kernel
  have hclock : p.backoffs = 1 ∧ p.elapsed = 1999 ∧ p.time = 2999 ∧ p.conn.sender.timerRunning = true := by
    rw [← hsome]
    decide +kernel
  obtain ⟨hb, he, ht, hrun⟩ := hclock
  obtain ⟨-, hrto, -, htick⟩ := retx_timer {} ⟨0⟩ hp hreset (by omega)
  have hfirst : (TCPConfig.rtTimeout {}).toNat = 1000 := rfl
  rw [hb, hfirst] at hrto htick
  rw [he, ht] at htick
  refine ⟨p, hp, hrto, ?_, ?_⟩
  · rw [(htick 0 (by decide)).1]
    exact fun hc => absurd hc.2 (by decide)
  · exact (htick 1 (by decide)).1.mpr ⟨hrun, by decide⟩

end RetxClock
end Sponge

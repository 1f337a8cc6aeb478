/-
# Probing a closed window

A sender whose window is zero sends one number at a time and sends it again
each time the timer expires. The peer answers, its window still zero, and
acknowledges nothing new. `tick` leaves the timeout as it is, but counts the
retransmission like any other, so the ninth probe in a row resets the
connection. `Probed` counts the expiries since new data was last acknowledged:
a run sends no reset from a tick iff the timer never expires a ninth time.

Key definitions: `TCPConnection.Expires`, `TCPConnection.NewData`,
`Probed.step`, `Probed.Live`, `Probed.Few`.
Key theorems: `TCPConnection.tick_resets`, `Probed.no_reset_iff`,
`Probed.ninth_probe_resets`.
-/
import Sponge.Flight
import Sponge.TCPConnection
import Sponge.Lib.Runs

namespace Sponge
namespace TCPConnection

open TCPSender

/-- The retransmission timer expires in this tick. -/
def Expires (c : TCPConnection) (ms : ℕ) : Prop :=
  c.isActive = true ∧ c.sender.timerRunning = true ∧ c.sender.segmentsOutstanding ≠ [] ∧
    c.sender.currentRto ≤ (c.sender.timeElapsed + ms) % 2 ^ 32

instance (c : TCPConnection) (ms : ℕ) : Decidable (c.Expires ms) := inferInstanceAs (Decidable (_ ∧ _))

/-- The segment acknowledges data not acknowledged before. -/
def NewData (c : TCPConnection) (seg : TCPSegment) : Prop :=
  let k := unwrap seg.header.ackno c.sender.isn c.sender.nextSeqno
  c.isActive = true ∧ seg.header.rst = false ∧ seg.header.ack = true ∧ c.sender.lastAckSeqno < k ∧
    k ≤ c.sender.nextSeqno

instance (c : TCPConnection) (seg : TCPSegment) : Decidable (c.NewData seg) := by
  unfold NewData
  infer_instance

/-- The segment acknowledges what was acknowledged before, with a window of zero. -/
def ClosedAck (c : TCPConnection) (seg : TCPSegment) : Prop :=
  c.isActive = true ∧ seg.header.rst = false ∧ seg.header.ack = true ∧ seg.header.win = 0 ∧
    unwrap seg.header.ackno c.sender.isn c.sender.nextSeqno = c.sender.lastAckSeqno

instance (c : TCPConnection) (seg : TCPSegment) : Decidable (c.ClosedAck seg) :=
  inferInstanceAs (Decidable (_ ∧ _))

variable {c c' : TCPConnection}

/-- What every call but a tick does to the counter of retransmissions. -/
structure Keeps (n : ℕ) (c : TCPConnection) : Prop where
  plain : Plain c.sender
  retx : c.sender.consecutiveRetransmissions = n

namespace Keeps

variable {n : ℕ}

theorem sent (h : Keeps n c) : Keeps n c.sendSegments :=
  ⟨⟨fun _ hx => absurd hx List.not_mem_nil, h.plain.2⟩, h.retx⟩

theorem fill (h : Keeps n c) : Keeps n { c with sender := c.sender.fillWindow } :=
  ⟨h.plain.fillWindow, (fillWindow_frame c.sender).retx.trans h.retx⟩

theorem sendEmpty (h : Keeps n c) : Keeps n { c with sender := c.sender.sendEmptySegment } :=
  ⟨h.plain.sendEmptySegment, h.retx⟩

theorem connect (h : Keeps n c) : Keeps n c.connect :=
  sent (c := { c with sender := c.sender.fillWindow, isActive := true }) ⟨h.fill.plain, h.fill.retx⟩

theorem respond (h : Keeps n c) (seg : TCPSegment) : Keeps n (c.respond seg) :=
  respond_induct (P := Keeps n) (Q := Keeps n) (fun _ => fill) (fun _ => sendEmpty) (fun _ h => ⟨h.plain, h.retx⟩)
    (fun _ h => ⟨h.plain, h.retx⟩) (fun _ => sent) h seg

theorem acked (h : Keeps n c) (ha : c.isActive = true) {seg : TCPSegment} (hrst : seg.header.rst = false) :
    Plain (c.acked seg) ∧ (c.acked seg).consecutiveRetransmissions = if c.NewData seg then 0 else n := by
  unfold TCPConnection.acked
  rcases Bool.eq_false_or_eq_true seg.header.ack with hack | hack
  · rw [if_pos hack]
    refine ⟨h.plain.ackReceived _ _, ?_⟩
    rw [ackReceived_retx, h.retx]
    exact if_congr ⟨fun hk => ⟨ha, hrst, hack, hk⟩, fun hk => hk.2.2.2⟩ rfl rfl
  · rw [if_neg (by rw [hack]; decide), if_neg fun hk => Bool.false_ne_true (hack.symm.trans hk.2.2.1)]
    exact ⟨h.plain, h.retx⟩

theorem segmentReceived (h : Keeps n c) {seg : TCPSegment} (hs : c.segmentReceived seg = some c') :
    Keeps (if c.NewData seg then 0 else n) c' := by
  rcases segment_cases hs with ⟨ha, rfl⟩ | ⟨-, hrst, rfl⟩ | ⟨ha, hrst, receiver, -, rfl⟩
  · rw [if_neg fun hc => Bool.false_ne_true (ha.symm.trans hc.1)]
    exact h
  · rw [if_neg fun hc => Bool.false_ne_true (hc.2.1.symm.trans hrst)]
    exact ⟨h.plain, h.retx⟩
  · obtain ⟨hplain, hretx⟩ := h.acked ha hrst
    exact respond (c := { c with timeSinceLastSegmentReceived := 0, receiver, sender := c.acked seg })
      ⟨hplain, hretx⟩ seg

end Keeps

/-- The call sends a reset: the new segments for the network include one. -/
def Resets (c c' : TCPConnection) : Prop :=
  ∃ seg ∈ c'.segmentsOut.drop c.segmentsOut.length, seg.header.rst = true

theorem stamp_rst (rcv : TCPReceiver) (seg : TCPSegment) : (stamp rcv seg).header.rst = seg.header.rst := by
  unfold stamp
  cases rcv.ackno <;> rfl

theorem sender_tick_retx (c : TCPConnection) (ha : c.isActive = true) (ms : ℕ) :
    (c.sender.tick ms).consecutiveRetransmissions =
      if c.Expires ms then (c.sender.consecutiveRetransmissions + 1) % 2 ^ 32
      else c.sender.consecutiveRetransmissions := by
  unfold Expires TCPSender.tick
  simp only [ha, true_and]
  rcases Bool.eq_false_or_eq_true c.sender.timerRunning with hr | hr
  · simp only [hr, Bool.true_eq_false, ↓reduceIte, true_and]
    cases c.sender.segmentsOutstanding with
    | nil => simp
    | cons seg segs =>
      simp only [ne_eq, reduceCtorEq, not_false_eq_true, true_and]
      split_ifs <;> rfl
  · simp [hr]

/-- A tick sends a reset iff the counter passes the limit. -/
theorem tick_resets {n : ℕ} (h : Keeps n c) (hn : n ≤ TCPConfig.maxRetxAttempts) (ms : ℕ) :
    (Resets c (c.tick ms) ↔ c.Expires ms ∧ n = TCPConfig.maxRetxAttempts) ∧
      (¬ Resets c (c.tick ms) → Keeps (if c.Expires ms then n + 1 else n) (c.tick ms)) := by
  rcases Bool.eq_false_or_eq_true c.isActive with ha | ha
  · have hretx : (c.sender.tick ms).consecutiveRetransmissions = if c.Expires ms then n + 1 else n := by
      rw [sender_tick_retx c ha, h.retx]
      split_ifs
      · exact Nat.mod_eq_of_lt (lt_of_le_of_lt (Nat.succ_le_succ hn) (by decide))
      · rfl
    have hlimit : TCPConfig.maxRetxAttempts < (c.sender.tick ms).consecutiveRetransmissions ↔
        c.Expires ms ∧ n = TCPConfig.maxRetxAttempts := by
      rw [hretx]
      by_cases hx : c.Expires ms
      · rw [if_pos hx]
        exact ⟨fun hc => ⟨hx, by omega⟩, fun hc => by omega⟩
      · rw [if_neg hx]
        exact ⟨fun hc => absurd hc (not_lt.mpr hn), fun hc => absurd hc.1 hx⟩
    have hplain := h.plain.tick ms
    rw [← hlimit]
    rcases tick_cases ha ms with ⟨hc, ht⟩ | ⟨hc, ht⟩
    · have hr : Resets c (c.tick ms) := by
        refine ⟨{ header := { rst := true, seqno := wrap (c.sender.tick ms).nextSeqno (c.sender.tick ms).isn } }, ?_, rfl⟩
        rw [ht]
        show _ ∈ (c.segmentsOut ++ [_]).drop c.segmentsOut.length
        rw [List.drop_left]
        exact List.mem_singleton_self _
      exact ⟨iff_of_true hr hc, fun hno => absurd hr hno⟩
    · have hno : ¬ Resets c (c.tick ms) := by
        rintro ⟨seg, hseg, hrst⟩
        rw [ht] at hseg
        replace hseg : seg ∈ (c.segmentsOut ++ (c.sender.tick ms).segmentsOut.map (stamp c.receiver)).drop
          c.segmentsOut.length := hseg
        rw [List.drop_left] at hseg
        obtain ⟨x, hx, rfl⟩ := List.mem_map.mp hseg
        rw [stamp_rst] at hrst
        exact Bool.false_ne_true ((hplain.1 x hx).symm.trans hrst)
      refine ⟨iff_of_false hno (not_lt.mpr hc), fun _ => ?_⟩
      rw [ht]
      exact ⟨⟨fun _ hx => absurd hx List.not_mem_nil, hplain.2⟩, hretx⟩
  · rw [tick_of_inactive ha]
    have hx : ¬ c.Expires ms := fun hc => Bool.false_ne_true (ha.symm.trans hc.1)
    rw [if_neg hx]
    refine ⟨iff_of_false ?_ fun hc => hx hc.1, fun _ => h⟩
    rintro ⟨seg, hseg, -⟩
    rw [List.drop_length] at hseg
    exact absurd hseg List.not_mem_nil

end TCPConnection

/-- A connection, how often its timer expired since new data was last
acknowledged, and whether the peer answered since it last expired. -/
structure Probed where
  conn : TCPConnection
  expiries : ℕ
  answered : Bool

namespace Probed

open TCPConnection

def start (cfg : TCPConfig) (isn : WrappingInt32) : Probed := ⟨init cfg isn, 0, true⟩

def step (p : Probed) (op : TCPConnection.Op) : Option Probed :=
  (p.conn.step op).map fun conn =>
    match op with
    | .tick ms =>
      if p.conn.Expires ms then ⟨conn, p.expiries + 1, false⟩ else ⟨conn, p.expiries, p.answered⟩
    | .segment seg =>
      ⟨conn, if p.conn.NewData seg then 0 else p.expiries, p.answered || decide (p.conn.ClosedAck seg)⟩
    | _ => ⟨conn, p.expiries, p.answered⟩

/-- The peer answered the last expiry of the timer before the next. -/
def Live (p : Probed) : TCPConnection.Op → Prop
  | .tick ms => p.conn.Expires ms → p.answered = true
  | _ => True

/-- The tick sends no reset. -/
def NoReset (p : Probed) : TCPConnection.Op → Prop
  | .tick ms => ¬ Resets p.conn (p.conn.tick ms)
  | _ => True

/-- The timer has not yet expired too often. -/
def Few (p : Probed) : TCPConnection.Op → Prop
  | .tick ms => p.conn.Expires ms → p.expiries < TCPConfig.maxRetxAttempts
  | _ => True

instance (p : Probed) : ∀ op, Decidable (p.Live op)
  | .tick ms => inferInstanceAs (Decidable (p.conn.Expires ms → p.answered = true))
  | .connect => isTrue trivial
  | .write _ => isTrue trivial
  | .endInputStream => isTrue trivial
  | .segment _ => isTrue trivial
  | .read _ => isTrue trivial

structure Inv (p : Probed) : Prop where
  keeps : Keeps p.expiries p.conn
  le : p.expiries ≤ TCPConfig.maxRetxAttempts

variable {p p' : Probed}

theorem start_inv (cfg : TCPConfig) (isn : WrappingInt32) : Inv (start cfg isn) where
  keeps := ⟨⟨fun _ hx => absurd hx List.not_mem_nil, fun _ hx => absurd hx List.not_mem_nil⟩, rfl⟩
  le := Nat.zero_le _

theorem noReset_iff (h : Inv p) (op : TCPConnection.Op) : p.NoReset op ↔ p.Few op := by
  cases op with
  | tick ms =>
    have hle := h.le
    show ¬ Resets p.conn (p.conn.tick ms) ↔ (p.conn.Expires ms → p.expiries < TCPConfig.maxRetxAttempts)
    rw [(tick_resets h.keeps h.le ms).1, not_and]
    exact forall_congr' fun _ => by omega
  | connect => exact Iff.rfl
  | write data => exact Iff.rfl
  | endInputStream => exact Iff.rfl
  | segment seg => exact Iff.rfl
  | read len => exact Iff.rfl

theorem step_inv (h : Inv p) {op : TCPConnection.Op} (hno : p.NoReset op) (hs : step p op = some p') : Inv p' := by
  obtain ⟨conn, hc, rfl⟩ := Option.map_eq_some_iff.mp hs
  cases op with
  | connect =>
    obtain rfl := Option.some.inj hc
    exact ⟨h.keeps.connect, h.le⟩
  | write data =>
    obtain rfl := Option.some.inj hc
    have hw : Keeps p.expiries { p.conn with sender := (p.conn.sender.write data).2 } :=
      ⟨h.keeps.plain, h.keeps.retx⟩
    exact ⟨hw.fill.sent, h.le⟩
  | endInputStream =>
    obtain rfl := Option.some.inj hc
    have he : Keeps p.expiries { p.conn with sender := p.conn.sender.endInput } := ⟨h.keeps.plain, h.keeps.retx⟩
    exact ⟨he.fill.sent, h.le⟩
  | segment seg =>
    refine ⟨h.keeps.segmentReceived hc, ?_⟩
    show (if p.conn.NewData seg then 0 else p.expiries) ≤ _
    split_ifs
    · exact Nat.zero_le _
    · exact h.le
  | tick ms =>
    obtain rfl := Option.some.inj hc
    have hk := (tick_resets h.keeps h.le ms).2 hno
    have hfew := (noReset_iff h (.tick ms)).mp hno
    simp only
    split_ifs at hk ⊢ with hx
    · exact ⟨hk, hfew hx⟩
    · exact ⟨hk, h.le⟩
  | read len =>
    obtain rfl := Option.some.inj hc
    exact ⟨⟨h.keeps.plain, h.keeps.retx⟩, h.le⟩

/-- **Probes and resets**: the ticks of a run send no reset iff the timer
never expires more often than the limit between acknowledgments of new data,
whatever the peer answers in between. -/
theorem no_reset_iff (cfg : TCPConfig) (isn : WrappingInt32) (ops : List TCPConnection.Op) :
    Runs.Along step NoReset (start cfg isn) ops ↔ Runs.Along step Few (start cfg isn) ops :=
  Runs.along_congr (fun _ op h => noReset_iff h op) (fun _ _ _ h hno hs => step_inv h hno hs) (start_inv cfg isn)

/-! ### A peer that is alive -/

/-- The peer accepts the SYN and keeps its window closed. -/
def closedSegment (k : ℕ) : TCPSegment :=
  { header := { syn := k == 0, ack := true, seqno := ⟨UInt32.ofNat k⟩, ackno := ⟨1⟩, win := 0 } }

/-- The connection opens, writes a byte, and is probed `n` times. -/
def probeOps (n : ℕ) : List TCPConnection.Op :=
  [.connect, .segment (closedSegment 0), .write [97]] ++
    (List.replicate n [TCPConnection.Op.tick 1000, .segment (closedSegment 1)]).flatten

/-- The ninth probe resets, although every probe before was answered. -/
theorem ninth_probe_resets : Runs.Along step Live (start {} ⟨0⟩) (probeOps 8 ++ [.tick 1000]) ∧
    ∃ p, Runs.run step (start {} ⟨0⟩) (probeOps 8) = some p ∧ p.answered = true ∧
      Resets p.conn (p.conn.tick 1000) ∧ (p.conn.tick 1000).active = false := by
  refine ⟨by decide +kernel, _, rfl, by decide +kernel, ?_, by decide +kernel⟩
  show ∃ seg ∈ _, _
  decide +kernel

end Probed
end Sponge

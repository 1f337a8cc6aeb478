/-
# Flow control

A sender and the furthest right edge among the acknowledgments delivered to
it, in whatever order. `fill_window` never sends past the last acknowledged
number plus the window; but the two are recorded apart, so the window of an
outdated acknowledgment is laid out from a number it never spoke of. `Fits`
says that this reaches no further than what was delivered. In a run whose
acknowledgments all fit, nothing is sent past the edge.

Key definitions: `TCPSender.Op`, `Flow.step`, `Flow.Fits`.
Key theorems: `Flow.fits_of_current`, `Flow.sends_within`.
-/
import Sponge.Flight
import Sponge.Lib.Runs

namespace Sponge
namespace TCPSender

/-- The calls of an owner; acknowledgments by their absolute number. -/
inductive Op where
  | write (data : Bytes)
  | endInput
  | fillWindow
  | ack (a : ℕ) (w : UInt16)
  | tick (ms : ℕ)

def step (s : TCPSender) : Op → TCPSender
  | .write data => (s.write data).2
  | .endInput => s.endInput
  | .fillWindow => s.fillWindow
  | .ack a w => s.ackReceived (wrap a s.isn) w
  | .tick ms => s.tick ms

theorem step_wf {s : TCPSender} (h : WF s) (op : Op) : WF (s.step op) := by
  cases op with
  | write data => exact h.write data
  | endInput => exact h.endInput
  | fillWindow => exact h.fillWindow
  | ack a w => exact h.ackReceived _ w
  | tick ms => exact h.tick ms

/-- The segments a call sends for the first time; a tick only sends copies. -/
def firstSent (s : TCPSender) : Op → List TCPSegment
  | .tick _ => []
  | op => (s.step op).segmentsOut.drop s.segmentsOut.length

end TCPSender

/-- A sender, and the furthest `a + max w 1` of the acknowledgments delivered. -/
structure Flow where
  sender : TCPSender
  edge : ℕ
  deriving DecidableEq

namespace Flow

open TCPSender

/-- Before any acknowledgment the edge is one: the SYN. -/
def start (capacity : ℕ) (rt : UInt16) (isn : WrappingInt32) : Flow := ⟨TCPSender.init capacity rt isn, 1⟩

/-- The right edge of an acknowledgment; a window of zero counts as one. -/
def rightEdge (a : ℕ) (w : UInt16) : ℕ := a + max w.toNat 1

def step (f : Flow) (op : Op) : Option Flow :=
  some ⟨f.sender.step op, match op with
    | .ack a w => max f.edge (rightEdge a w)
    | _ => f.edge⟩

/-- The window of an accepted acknowledgment, laid out from the number the
sender has or takes from it, ends no further than what was delivered. -/
def Fits (f : Flow) : Op → Prop
  | .ack a w =>
    let k := unwrap (wrap a f.sender.isn) f.sender.isn f.sender.nextSeqno
    k ≤ f.sender.nextSeqno → rightEdge (max f.sender.lastAckSeqno k) w ≤ max f.edge (rightEdge a w)
  | _ => True

/-- An acknowledgment that is not outdated fits. -/
theorem fits_of_current {f : Flow} {a : ℕ} (w : UInt16) (h1 : f.sender.lastAckSeqno ≤ a) (h2 : a ≤ f.sender.nextSeqno)
    (h3 : f.sender.nextSeqno < a + 2 ^ 31) : f.Fits (.ack a w) := by
  intro _
  have hk : unwrap (wrap a f.sender.isn) f.sender.isn f.sender.nextSeqno = a :=
    unwrap_wrap _ (by omega) h3 (Or.inl h2)
  rw [hk, max_eq_right h1]
  exact le_max_right _ _

/-- The window the sender may fill ends at the edge at most. -/
structure Within (f : Flow) : Prop where
  wf : WF f.sender
  within : f.sender.lastAckSeqno + f.sender.currentWindow ≤ f.edge

theorem within_start (capacity : ℕ) (rt : UInt16) (isn : WrappingInt32) : Within (start capacity rt isn) :=
  ⟨init_wf capacity rt isn, le_rfl⟩

theorem currentWindow_eq (s : TCPSender) : s.currentWindow = max s.windowSize.toNat 1 := by
  unfold currentWindow
  split
  · rename_i h
    rw [h]
    rfl
  · rename_i h
    have : s.windowSize.toNat ≠ 0 := fun hc => h (UInt16.toNat_inj.mp hc)
    omega

/-- What a call does to the window and sends: the window of an accepted
acknowledgment is laid out from the larger number. -/
structure Sends (f : Flow) (op : Op) (s' : TCPSender) : Prop where
  within : f.Fits op → s'.lastAckSeqno + s'.currentWindow ≤
    match op with | .ack a w => max f.edge (rightEdge a w) | _ => f.edge
  chain : Chain f.sender.isn f.sender.nextSeqno (f.sender.firstSent op) s'.nextSeqno
  bound : f.sender.firstSent op = [] ∨ s'.nextSeqno ≤ s'.lastAckSeqno + s'.currentWindow

theorem sends_idle {f : Flow} (h : Within f) {op : Op} {s' : TCPSender} (h1 : f.sender.firstSent op = [])
    (h2 : s'.nextSeqno = f.sender.nextSeqno) (h3 : s'.lastAckSeqno = f.sender.lastAckSeqno)
    (h4 : s'.windowSize = f.sender.windowSize) : Sends f op s' where
  within := fun _ => by
    rw [h3, currentWindow_eq, h4, ← currentWindow_eq]
    refine h.within.trans ?_
    cases op with
    | ack a w => exact le_max_left _ _
    | _ => exact le_rfl
  chain := by rw [h1, h2]; rfl
  bound := Or.inl h1

/-- Filling a window sends what lies in it. -/
theorem chain_fillWindow {s : TCPSender} (hle : s.lastAckSeqno ≤ s.nextSeqno) :
    Chain s.isn s.nextSeqno (s.fillWindow.segmentsOut.drop s.segmentsOut.length) s.fillWindow.nextSeqno ∧
      (s.fillWindow.segmentsOut.drop s.segmentsOut.length = [] ∨
        s.fillWindow.nextSeqno ≤ s.fillWindow.lastAckSeqno + s.fillWindow.currentWindow) := by
  obtain ⟨segs, h1, h2, h3⟩ := fillWindow_sends hle
  rw [h1, List.drop_left, (fillWindow_frame s).lastAck, (fillWindow_frame s).currentWindow]
  exact ⟨h2, h3⟩

theorem sends_ack {f : Flow} (h : Within f) (a : ℕ) (w : UInt16) : Sends f (.ack a w) (f.sender.step (.ack a w)) := by
  rcases lt_or_ge f.sender.nextSeqno (unwrap (wrap a f.sender.isn) f.sender.isn f.sender.nextSeqno) with hk | hk
  · have he : f.sender.step (.ack a w) = f.sender := ackReceived_of_lt hk w
    refine sends_idle h ?_ (by rw [he]) (by rw [he]) (by rw [he])
    simp only [firstSent, he, List.drop_length]
  · have he := ackReceived_of_le hk w
    change f.sender.step (.ack a w) = _ at he
    have hwf := h.wf.acknowledge hk w
    set k := unwrap (wrap a f.sender.isn) f.sender.isn f.sender.nextSeqno with hkdef
    set t := f.sender.acknowledge k w with ht
    have hset := settleTimer_timerOnly t.fillWindow (decide (f.sender.lastAckSeqno < k))
    obtain ⟨g1, g2, -, -, g5, g6⟩ := acknowledge_frame f.sender k w
    obtain ⟨c1, c2⟩ := chain_fillWindow hwf.acked_le
    have hlast := acknowledge_lastAck f.sender k w
    have hfr := fillWindow_frame t
    rw [← he] at hset
    have hwin : (f.sender.step (.ack a w)).currentWindow = t.fillWindow.currentWindow := by
      rw [currentWindow_eq, hset.window, ← currentWindow_eq]
    have hfirst : f.sender.firstSent (.ack a w) = t.fillWindow.segmentsOut.drop t.segmentsOut.length := by
      simp only [firstSent, hset.out]
      rw [ht, g5]
    refine ⟨fun hfit => ?_, ?_, ?_⟩
    · rw [hset.lastAck, hwin, hfr.lastAck, hfr.currentWindow, currentWindow_eq, g6, hlast]
      exact hfit hk
    · rw [hfirst, hset.next, ← g1, ← g2]
      exact c1
    · rw [hfirst, hset.next, hset.lastAck, hwin]
      exact c2

theorem sends_step {f : Flow} (h : Within f) (op : Op) : Sends f op (f.sender.step op) := by
  cases op with
  | write data =>
    exact sends_idle h (by simp [firstSent, TCPSender.step, TCPSender.write]) rfl rfl rfl
  | endInput => exact sends_idle h (by simp [firstSent, TCPSender.step, TCPSender.endInput]) rfl rfl rfl
  | tick ms =>
    obtain ⟨-, h2, h3, h4, -⟩ := tick_frame f.sender ms
    exact sends_idle h rfl h2 h3 h4
  | ack a w => exact sends_ack h a w
  | fillWindow =>
    obtain ⟨c1, c2⟩ := chain_fillWindow h.wf.acked_le
    have hfr := fillWindow_frame f.sender
    refine ⟨fun _ => ?_, c1, c2⟩
    change f.sender.fillWindow.lastAckSeqno + f.sender.fillWindow.currentWindow ≤ f.edge
    rw [hfr.lastAck, hfr.currentWindow]
    exact h.within

theorem step_within {f f' : Flow} {op : Op} (h : Within f) (hfit : f.Fits op) (hs : f.step op = some f') :
    Within f' := by
  obtain rfl := Option.some.inj hs
  exact ⟨step_wf h.wf op, (sends_step h op).within hfit⟩

/-- **Flow control**: in a run whose acknowledgments all fit, the segments a
call sends for the first time are numbered on from the next sequence number,
and none reaches past the edge. -/
theorem sends_within {capacity : ℕ} {rt : UInt16} {isn : WrappingInt32} {ops : List Op} {op : Op} {f f' : Flow}
    (hfits : Runs.Along step Fits (start capacity rt isn) (ops ++ [op]))
    (hr : Runs.run step (start capacity rt isn) ops = some f) (hs : f.step op = some f') :
    Chain f.sender.isn f.sender.nextSeqno (f.sender.firstSent op) f'.sender.nextSeqno ∧
      (f.sender.firstSent op = [] ∨ f'.sender.nextSeqno ≤ f'.edge) := by
  obtain ⟨ha, hlast⟩ := Runs.along_append.mp hfits
  have h := Runs.run_along (fun _ _ _ hI hok hst => step_within hI hok hst) (within_start capacity rt isn) ha hr
  have hsend := sends_step h op
  have hin := step_within h (hlast f hr).1 hs
  obtain rfl := Option.some.inj hs
  exact ⟨hsend.chain, hsend.bound.imp_right fun hb => hb.trans hin.within⟩

/-- The SYN is acknowledged with a window of four, which is filled; then come
an acknowledgment of two bytes with a window of two, and the first one again. -/
def outdatedOps : List Op :=
  [.fillWindow, .ack 1 4, .write [97, 98, 99, 100, 101, 102, 103, 104], .fillWindow, .ack 3 2]

/-- The right edge delivered is 5 all along, yet the outdated acknowledgment
lets the bytes 5 and 6 out. -/
theorem outdated_ack_sends : ∃ f f', Runs.run step (start 64 1000 ⟨0⟩) outdatedOps = some f ∧
    f.step (.ack 1 4) = some f' ∧ rightEdge 1 4 = 5 ∧ rightEdge 3 2 = 5 ∧ f'.edge = 5 ∧
    (f.sender.firstSent (.ack 1 4)).map (·.header.seqno) = [wrap 5 ⟨0⟩] ∧ f'.sender.nextSeqno = 7 :=
  ⟨_, _, rfl, rfl, by decide, by decide, by decide +kernel, by decide +kernel, by decide +kernel⟩

instance (f : Flow) (op : Op) : Decidable (f.Fits op) := by
  cases op <;> unfold Fits <;> infer_instance

/-- With the last byte acknowledged instead, the window of two is filled. -/
theorem sends_within_current : ∃ f f', Runs.run step (start 64 1000 ⟨0⟩) outdatedOps = some f ∧
    f.step (.ack 5 2) = some f' ∧
    Chain f.sender.isn f.sender.nextSeqno (f.sender.firstSent (.ack 5 2)) f'.sender.nextSeqno ∧
      (f.sender.firstSent (.ack 5 2) = [] ∨ f'.sender.nextSeqno ≤ f'.edge) :=
  ⟨_, _, rfl, rfl, sends_within
    (show Runs.Along step Fits (start 64 1000 ⟨0⟩) (outdatedOps ++ [.ack 5 2]) by decide +kernel) rfl rfl⟩

end Flow
end Sponge

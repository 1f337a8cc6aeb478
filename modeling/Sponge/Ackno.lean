/-
# What the receiver acknowledges

The absolute acknowledgment number of a receiver and the right edge of its
window only grow, whatever arrives. On the wire the number is wrapped with the
initial sequence number, and every SYN sets that anew: the peer sees the
absolute number relative to its first SYN exactly as long as every later SYN
repeats it.

Key definitions: `TCPReceiver.Onward`, `TCPReceiver.AcknoFrom`.
Key theorems: `TCPReceiver.step_onward`, `TCPReceiver.ackno_eq_iff`,
`TCPReceiver.acknoFrom_iff`.
-/
import Sponge.TCPReceiver

namespace Sponge
namespace TCPReceiver

open Runs

/-! ### Onward -/

/-- What any call does to the counters of a receiver. -/
structure Onward (rcv rcv' : TCPReceiver) : Prop where
  capacity : rcv'.capacity = rcv.capacity
  streamCapacity : rcv'.streamOut.capacity = rcv.streamOut.capacity
  written : rcv.streamOut.bytesWritten ≤ rcv'.streamOut.bytesWritten
  read : rcv.streamOut.bytesRead ≤ rcv'.streamOut.bytesRead
  ended : rcv.streamOut.inputEnded = true → rcv'.streamOut.inputEnded = true

theorem Onward.refl (rcv : TCPReceiver) : Onward rcv rcv := ⟨rfl, rfl, le_rfl, le_rfl, id⟩

theorem Onward.trans {a b c : TCPReceiver} (h : Onward a b) (h' : Onward b c) : Onward a c where
  capacity := h'.capacity.trans h.capacity
  streamCapacity := h'.streamCapacity.trans h.streamCapacity
  written := h.written.trans h'.written
  read := h.read.trans h'.read
  ended := fun he => h'.ended (h.ended he)

theorem push_onward {rcv rcv' : TCPReceiver} {data : Bytes} {index : ℕ} {eof : Bool}
    (h : rcv.push data index eof = some rcv') : Onward rcv rcv' := by
  obtain ⟨r', hr', rfl⟩ := Option.map_eq_some_iff.mp h
  have hout : r'.output.capacity = rcv.streamOut.capacity ∧ rcv.streamOut.bytesWritten ≤ r'.output.bytesWritten ∧
      rcv.streamOut.bytesRead ≤ r'.output.bytesRead ∧
      (rcv.streamOut.inputEnded = true → r'.output.inputEnded = true) := by
    refine StreamReassembler.pushSubstring_induct (P := fun o => o.capacity = rcv.streamOut.capacity ∧
      rcv.streamOut.bytesWritten ≤ o.bytesWritten ∧ rcv.streamOut.bytesRead ≤ o.bytesRead ∧
      (rcv.streamOut.inputEnded = true → o.inputEnded = true)) ?_ ?_ ⟨rfl, le_rfl, le_rfl, id⟩ hr'
    · rintro o d ⟨h1, h2, h3, h4⟩
      rw [ByteStream.write_snd_capacity, ByteStream.write_snd_bytesWritten, ByteStream.write_snd_bytesRead,
        ByteStream.write_snd_inputEnded]
      exact ⟨h1, h2.trans (Nat.le_add_right _ _), h3, h4⟩
    · rintro o ⟨h1, h2, h3, -⟩
      exact ⟨h1, h2, h3, fun _ => rfl⟩
  exact ⟨rfl, hout.1, hout.2.1, hout.2.2.1, hout.2.2.2⟩

theorem synced_onward (rcv : TCPReceiver) (seg : TCPSegment) : Onward rcv (rcv.synced seg) := by
  unfold synced
  split
  · exact ⟨rfl, rfl, le_rfl, le_rfl, id⟩
  · exact Onward.refl rcv

theorem step_onward {rcv rcv' : TCPReceiver} {op : Op} (h : step rcv op = some rcv') : Onward rcv rcv' := by
  cases op with
  | segment seg =>
    rcases segmentReceived_cases h with rfl | ⟨data, index, -, -, hp⟩
    · exact synced_onward rcv seg
    · exact (synced_onward rcv seg).trans (push_onward hp)
  | read len =>
    obtain rfl := Option.some.inj h
    exact ⟨rfl, ByteStream.popOutput_capacity _ _, (ByteStream.popOutput_bytesWritten _ _).ge,
      ByteStream.bytesRead_le_popOutput _ _, fun he => (ByteStream.popOutput_inputEnded _ _).trans he⟩
  | setError =>
    obtain rfl := Option.some.inj h
    exact ⟨rfl, rfl, le_rfl, le_rfl, id⟩

theorem run_onward {rcv rcv' : TCPReceiver} {ops : List Op} (h : run step rcv ops = some rcv') : Onward rcv rcv' :=
  run_invariant (I := Onward rcv) (fun _ _ _ hI hs => hI.trans (step_onward hs)) (Onward.refl rcv) h

theorem Onward.absAck_le {rcv rcv' : TCPReceiver} (h : Onward rcv rcv') : rcv.absAck ≤ rcv'.absAck := by
  have h1 := h.written
  have h2 := h.ended
  rw [absAck_eq, absAck_eq]
  split_ifs at h2 ⊢ with h3 h4 <;> first | omega | exact absurd (h2 h3) h4

/-- The right edge: what is read and the capacity, and one each for SYN and FIN. -/
theorem absAck_add_windowSize {rcv : TCPReceiver} (h : rcv.capacity = rcv.streamOut.capacity) :
    rcv.absAck + rcv.windowSize =
      rcv.streamOut.bytesRead + rcv.capacity + 1 + if rcv.streamOut.inputEnded then 1 else 0 := by
  have h1 := rcv.streamOut.count
  have h2 := rcv.streamOut.fits
  unfold windowSize
  rw [absAck_eq]
  omega

theorem Onward.edge_le {rcv rcv' : TCPReceiver} (h : Onward rcv rcv') (hc : rcv.capacity = rcv.streamOut.capacity) :
    rcv.absAck + rcv.windowSize ≤ rcv'.absAck + rcv'.windowSize := by
  have hc' : rcv'.capacity = rcv'.streamOut.capacity := by rw [h.capacity, hc, h.streamCapacity]
  have h1 := h.read
  have h2 := h.ended
  have h3 := h.capacity
  rw [absAck_add_windowSize hc, absAck_add_windowSize hc']
  split_ifs at h2 ⊢ with h4 h5 <;> first | omega | exact absurd (h2 h4) h5

/-! ### The initial sequence number -/

/-- A SYN repeats `s`. -/
def SynIs (s : WrappingInt32) : Op → Prop
  | .segment seg => seg.header.syn = true → seg.header.seqno = s
  | .read _ => True
  | .setError => True

theorem segmentReceived_isn {rcv rcv' : TCPReceiver} {seg : TCPSegment} (h : rcv.segmentReceived seg = some rcv') :
    rcv'.synReceived = (rcv.synced seg).synReceived ∧ rcv'.isn = (rcv.synced seg).isn := by
  rcases segmentReceived_cases h with rfl | ⟨data, index, -, -, hp⟩
  · exact ⟨rfl, rfl⟩
  · obtain ⟨r', -, rfl⟩ := Option.map_eq_some_iff.mp hp
    exact ⟨rfl, rfl⟩

/-- Two initial sequence numbers wrap a number alike only if they are the same. -/
theorem wrap_inj {n : ℕ} {a b : WrappingInt32} (h : wrap n a = wrap n b) : a = b := by
  have ha := a.rawValue.toNat_lt
  have hb := b.rawValue.toNat_lt
  have h1 : (wrap n a).rawValue.toNat = (wrap n b).rawValue.toNat := by rw [h]
  rw [wrap_toNat, wrap_toNat] at h1
  have h2 : a.rawValue = b.rawValue := UInt32.toNat_inj.mp (by omega)
  cases a
  cases b
  exact congrArg WrappingInt32.mk h2

theorem ackno_eq_iff {rcv : TCPReceiver} (h : rcv.synReceived = true) (s : WrappingInt32) :
    rcv.ackno = some (wrap rcv.absAck s) ↔ rcv.isn = s := by
  unfold ackno
  rw [if_neg (by rw [h]; decide), Option.some.injEq]
  exact ⟨wrap_inj, fun hs => hs ▸ rfl⟩

/-- From a synchronized state with the number `s`, a step keeps the number iff
it is no SYN with another one. -/
theorem step_isn {rcv rcv' : TCPReceiver} {op : Op} {s : WrappingInt32} (h : rcv.synReceived = true ∧ rcv.isn = s)
    (hs : step rcv op = some rcv') : rcv'.synReceived = true ∧ (rcv'.isn = s ↔ SynIs s op) := by
  cases op with
  | segment seg =>
    obtain ⟨h1, h2⟩ := segmentReceived_isn hs
    rw [h1, h2]
    unfold synced SynIs
    by_cases hsyn : seg.header.syn = true
    · simp [hsyn]
    · simp [hsyn, h]
  | read len =>
    obtain rfl := Option.some.inj hs
    exact ⟨h.1, fun _ => trivial, fun _ => h.2⟩
  | setError =>
    obtain rfl := Option.some.inj hs
    exact ⟨h.1, fun _ => trivial, fun _ => h.2⟩

/-! ### The acknowledgments of a run -/

/-- In every state of the run the acknowledgment number is the absolute one,
wrapped with `s`, and neither that nor the right edge ever decreases. -/
def AcknoFrom (s : WrappingInt32) (rcv : TCPReceiver) (ops : List Op) : Prop :=
  (∀ pre a, pre <+: ops → run step rcv pre = some a → a.ackno = some (wrap a.absAck s)) ∧
    ∀ pre pre' a b, pre <+: pre' → pre' <+: ops → run step rcv pre = some a → run step rcv pre' = some b →
      a.absAck ≤ b.absAck ∧ a.absAck + a.windowSize ≤ b.absAck + b.windowSize

/-- **After a SYN with `s` the acknowledgments count from `s` iff every later
SYN has it too.** -/
theorem acknoFrom_iff {capacity : ℕ} {ops₁ ops₂ : List Op} {seg : TCPSegment} {rcv rcv' : TCPReceiver}
    (hsyn : seg.header.syn = true) (hr : run step (init capacity) (ops₁ ++ [.segment seg]) = some rcv)
    (hr' : run step rcv ops₂ = some rcv') :
    AcknoFrom seg.header.seqno rcv ops₂ ↔ ∀ op ∈ ops₂, SynIs seg.header.seqno op := by
  have hcap : rcv.capacity = rcv.streamOut.capacity := by
    have h1 := run_onward hr
    rw [h1.capacity, h1.streamCapacity]
    rfl
  have hisn : rcv.synReceived = true ∧ rcv.isn = seg.header.seqno := by
    obtain ⟨a, -, h2⟩ := run_append_eq_some.mp hr
    obtain ⟨b, h3, h4⟩ := run_cons.mp h2
    obtain rfl := Option.some.inj h4
    obtain ⟨h5, h6⟩ := segmentReceived_isn h3
    rw [h5, h6]
    simp [synced, hsyn]
  have hmono : ∀ pre pre' a b, pre <+: pre' → pre' <+: ops₂ → run step rcv pre = some a →
      run step rcv pre' = some b → a.absAck ≤ b.absAck ∧ a.absAck + a.windowSize ≤ b.absAck + b.windowSize := by
    rintro pre pre' a b ⟨mid, rfl⟩ - ha hb
    obtain ⟨a', h1, h2⟩ := run_append_eq_some.mp hb
    obtain rfl := Option.some.inj (ha.symm.trans h1)
    have h3 := run_onward ha
    exact ⟨(run_onward h2).absAck_le, (run_onward h2).edge_le (by rw [h3.capacity, hcap, h3.streamCapacity])⟩
  have hiff : ∀ s op, s.synReceived = true ∧ s.isn = seg.header.seqno →
      ((∀ s', step s op = some s' → s'.ackno = some (wrap s'.absAck seg.header.seqno)) ↔
        ∀ s', step s op = some s' → SynIs seg.header.seqno op) := by
    intro s op h
    refine forall₂_congr fun s' hs => ?_
    obtain ⟨h1, h2⟩ := step_isn h hs
    rw [ackno_eq_iff h1, h2]
  have hstep : ∀ s op s', s.synReceived = true ∧ s.isn = seg.header.seqno →
      (∀ s', step s op = some s' → s'.ackno = some (wrap s'.absAck seg.header.seqno)) → step s op = some s' →
      s'.synReceived = true ∧ s'.isn = seg.header.seqno := by
    intro s op s' h hok hs
    obtain ⟨h1, -⟩ := step_isn h hs
    exact ⟨h1, (ackno_eq_iff h1 _).mp (hok s' hs)⟩
  unfold AcknoFrom
  rw [and_iff_left hmono, forall_prefix_iff_along, along_congr hiff hstep hisn, along_events hr']
  exact and_iff_right ((ackno_eq_iff hisn.1 _).mpr hisn.2)

/-- A SYN with number 1000, then one with number 0. -/
def firstSyn : TCPSegment := { header := { seqno := ⟨1000⟩, syn := true } }

def secondSyn : TCPSegment := { header := { seqno := ⟨0⟩, syn := true } }

theorem twoSyns_some : (run step (init 4) [.segment firstSyn, .segment secondSyn]).isSome = true := by decide +kernel

/-- The acknowledgment number moves back: it is that of no absolute number up
to 2^31 + 2 relative to the first SYN. -/
theorem second_syn_moves : ∃ rcv, run step (init 4) [.segment firstSyn, .segment secondSyn] = some rcv ∧
    rcv.ackno = some ⟨1⟩ ∧ ∀ k ≤ 2 ^ 31 + 2, rcv.ackno ≠ some (wrap k firstSyn.header.seqno) := by
  have hack : ((run step (init 4) [.segment firstSyn, .segment secondSyn]).get twoSyns_some).ackno = some ⟨1⟩ := by
    decide +kernel
  refine ⟨_, (Option.some_get twoSyns_some).symm, hack, fun k hk hc => ?_⟩
  rw [hack] at hc
  have h1 : (1 : UInt32).toNat = (wrap k firstSyn.header.seqno).rawValue.toNat :=
    congrArg (fun w => w.rawValue.toNat) (Option.some.inj hc)
  rw [wrap_toNat] at h1
  have h2 : firstSyn.header.seqno.rawValue.toNat = 1000 := rfl
  have h3 : (1 : UInt32).toNat = 1 := rfl
  omega

theorem oneSyn_some : (run step (init 4) ([] ++ [.segment firstSyn])).isSome = true := by decide +kernel

theorem repeatedSyn_some : (run step ((run step (init 4) ([] ++ [.segment firstSyn])).get oneSyn_some)
    [.segment firstSyn, .read 1]).isSome = true := by decide +kernel

theorem acknoFrom_iff_repeated : ∃ rcv rcv', run step (init 4) ([] ++ [.segment firstSyn]) = some rcv ∧
    run step rcv [.segment firstSyn, .read 1] = some rcv' ∧
    (AcknoFrom firstSyn.header.seqno rcv [.segment firstSyn, .read 1] ↔
      ∀ op ∈ [Op.segment firstSyn, .read 1], SynIs firstSyn.header.seqno op) := by
  have hr := (Option.some_get oneSyn_some).symm
  have hr' := (Option.some_get repeatedSyn_some).symm
  exact ⟨_, _, hr, hr', acknoFrom_iff rfl hr hr'⟩

end TCPReceiver
end Sponge

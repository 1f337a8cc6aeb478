/-
# The socket

`TCPSpongeSocket` of `tcp_sponge_socket.cc`: the four rules of its event loop,
which move segments between the network and a connection and bytes between the
connection and the owner, and the loop that runs them. Outbound bytes are read
only as far as the connection said it has room, so `write` should accept all of
them; it does unless the connection was reset earlier in the same pass.

Key definitions: `SpongeSocket.rule`, `SpongeSocket.turn`,
`SpongeSocket.Spoiled`.
Key theorems: `SpongeSocket.turn_inv`, `SpongeSocket.accepted_less_iff`.
-/
import Sponge.EventLoop
import Sponge.Flight
import Sponge.TCPConnection
import Sponge.Lib.Runs

namespace Sponge

/-- The rules, in the order they were added. -/
inductive RuleName where
  /-- segments from the network -/
  | rule1
  /-- bytes from the owner -/
  | rule2
  /-- bytes to the owner -/
  | rule3
  /-- segments to the network -/
  | rule4
  deriving DecidableEq

structure SpongeSocket where
  tcp : TCPConnection
  datagramEof : Bool
  threadDataEof : Bool
  inboundShutdown : Bool
  outboundShutdown : Bool
  deriving DecidableEq

namespace SpongeSocket

open EventLoop TCPConnection

/-- The exceptions of the callbacks: `push_substring` fails, or `write`
accepted less than advertised. -/
inductive Error where
  | pushFailed
  | acceptedLess
  deriving DecidableEq

/-- What the callbacks of a pass find outside: a segment, unless the datagram
is not one of this connection, the bytes the owner wrote, how many bytes the
owner takes, and whether the adapter writes at once. -/
structure Input where
  segment : Option TCPSegment := none
  datagramEof : Bool := false
  data : Bytes := []
  taken : ℕ := 0
  written : Bool := true

/-- `_thread_data.read`: at most a buffer of bytes; an empty read is the end. -/
def readThreadData (s : SpongeSocket) (input : Input) (limit : ℕ) : Bytes × Bool :=
  let data := input.data.take (min (1024 * 1024) limit)
  (data, s.threadDataEof || (decide (0 < limit) && data.isEmpty))

def shutdownOutbound (s : SpongeSocket) : SpongeSocket :=
  { s with tcp := s.tcp.endInputStream, outboundShutdown := true }

def receiveSegment (input : Input) (s : SpongeSocket) : Except Error (SpongeSocket × Bool) :=
  let s : SpongeSocket := { s with datagramEof := s.datagramEof || input.datagramEof }
  match input.segment with
  | none => .ok (s, true)
  | some seg =>
    match s.tcp.segmentReceived seg with
    | none => .error .pushFailed
    | some tcp => .ok ({ s with tcp }, true)

def writeOutbound (input : Input) (s : SpongeSocket) : Except Error (SpongeSocket × Bool) :=
  let (data, threadDataEof) := s.readThreadData input s.tcp.remainingOutboundCapacity
  let (amountWritten, tcp) := s.tcp.write data
  if amountWritten ≠ data.length then .error .acceptedLess
  else
    let s : SpongeSocket := { s with tcp, threadDataEof }
    .ok (if s.threadDataEof then s.shutdownOutbound else s, true)

def readInbound (input : Input) (s : SpongeSocket) : SpongeSocket :=
  let buffer := s.tcp.inboundStream.peekOutput (min 65536 s.tcp.inboundStream.buffer.length)
  -- only what the owner takes is popped
  let tcp := (s.tcp.readInbound (min input.taken buffer.length)).2
  { s with
    tcp
    inboundShutdown := s.inboundShutdown || tcp.inboundStream.eof || tcp.inboundStream.error }

def rule : RuleName → Rule SpongeSocket Input Error
  | .rule1 =>
    { direction := .In
      eof := datagramEof
      closed := fun _ => false
      callback := receiveSegment
      interest := fun s => s.tcp.active
      cancel := id }
  | .rule2 =>
    { direction := .In
      eof := threadDataEof
      closed := fun _ => false
      callback := writeOutbound
      interest := fun s => s.tcp.active && !s.outboundShutdown && decide (0 < s.tcp.remainingOutboundCapacity)
      cancel := shutdownOutbound }
  | .rule3 =>
    { direction := .Out
      eof := threadDataEof
      closed := fun _ => false
      callback := fun input s => .ok (s.readInbound input, true)
      interest := fun s => !s.tcp.inboundStream.buffer.isEmpty ||
        ((s.tcp.inboundStream.eof || s.tcp.inboundStream.error) && !s.inboundShutdown)
      cancel := id }
  | .rule4 =>
    { direction := .Out
      eof := datagramEof
      closed := fun _ => false
      callback := fun input s => .ok ({ s with tcp := { s.tcp with segmentsOut := [] } }, input.written)
      interest := fun s => !s.tcp.segmentsOut.isEmpty
      cancel := id }

/-! ### The loop -/

/-- The socket and the rules not cancelled. -/
structure Loop where
  socket : SpongeSocket
  rules : List RuleName

/-- How the owner opens the connection. -/
inductive Open where
  | connect
  | listenAndAccept

def start (how : Open) (cfg : TCPConfig) (isn : WrappingInt32) : Loop where
  socket :=
    { tcp := match how with
        | .connect => (init cfg isn).connect
        | .listenAndAccept => init cfg isn
      datagramEof := false
      threadDataEof := false
      inboundShutdown := false
      outboundShutdown := false }
  rules := [.rule1, .rule2, .rule3, .rule4]

/-- What one turn of the loop meets: the poll, the input, and the time passed. -/
structure Event where
  poll : Poll RuleName
  input : Input
  ms : ℕ

/-- `_tcp_loop`: a pass, then a tick. After an exit the loop may be entered
again, by the thread; an exception ends it. -/
def turn (l : Loop) (e : Event) : Option Loop :=
  match waitNextEvent rule e.poll e.input l.rules l.socket with
  | .error _ => none
  | .ok (res, rules, s) =>
    if res = .exit then some ⟨s, rules⟩
    else some ⟨if s.tcp.active then { s with tcp := s.tcp.tick e.ms } else s, rules⟩

/-! ### What a callback does -/

section Callbacks

variable {s s' : SpongeSocket} {input : Input} {served : Bool}

/-- Rule 1 receives a segment, or none. -/
theorem receiveSegment_cases (h : s.receiveSegment input = .ok (s', served)) :
    ∃ tcp, s' = { s with tcp, datagramEof := s.datagramEof || input.datagramEof } ∧
      (tcp = s.tcp ∨ ∃ seg, input.segment = some seg ∧ s.tcp.segmentReceived seg = some tcp) := by
  simp only [receiveSegment] at h
  split at h
  · cases h
    exact ⟨s.tcp, rfl, Or.inl rfl⟩
  · rename_i seg hseg
    split at h
    · cases h
    · rename_i tcp hs
      cases h
      exact ⟨tcp, rfl, Or.inr ⟨seg, hseg, hs⟩⟩

/-- The socket when rule 2 has written, before it ends the stream. -/
def wrote (input : Input) (s : SpongeSocket) : SpongeSocket :=
  { s with
    tcp := (s.tcp.write (s.readThreadData input s.tcp.remainingOutboundCapacity).1).2
    threadDataEof := (s.readThreadData input s.tcp.remainingOutboundCapacity).2 }

/-- Rule 2 writes all it read, and ends the stream if the owner did. -/
theorem writeOutbound_cases (h : s.writeOutbound input = .ok (s', served)) :
    (s.tcp.write (s.readThreadData input s.tcp.remainingOutboundCapacity).1).1 =
        (s.readThreadData input s.tcp.remainingOutboundCapacity).1.length ∧
      ((s.wrote input).threadDataEof = true ∧ s' = (s.wrote input).shutdownOutbound ∨ s' = s.wrote input) := by
  simp only [writeOutbound] at h
  split_ifs at h with hlen hend <;> cases h
  · exact ⟨not_not.mp hlen, Or.inl ⟨hend, rfl⟩⟩
  · exact ⟨not_not.mp hlen, Or.inr rfl⟩

end Callbacks

/-! ### What the loop keeps -/

/-- A stream in error belongs to a connection that is not active, and an
ended one to a socket whose owner is done. -/
structure Inv (s : SpongeSocket) : Prop where
  error : s.tcp.sender.stream.error = true → s.tcp.isActive = false
  ended : s.tcp.sender.stream.inputEnded = true → s.outboundShutdown = true

/-- The connection is active and its outbound stream open as it was. -/
structure Same (stream : ByteStream) (c : TCPConnection) : Prop where
  isActive : c.isActive = true
  error : c.sender.stream.error = stream.error
  ended : c.sender.stream.inputEnded = stream.inputEnded

theorem segmentReceived_same {c c' : TCPConnection} {seg : TCPSegment} (ha : c.isActive = true)
    (hrst : seg.header.rst = false) (hs : c.segmentReceived seg = some c') : Same c.sender.stream c' := by
  rw [segmentReceived_eq ha hrst] at hs
  obtain ⟨receiver, -, rfl⟩ := Option.map_eq_some_iff.mp hs
  refine respond_induct (P := Same c.sender.stream) (Q := Same c.sender.stream) (fun d h => ?_)
    (fun d h => ⟨h.isActive, h.error, h.ended⟩) (fun d h => ⟨h.isActive, h.error, h.ended⟩)
    (fun d h => ⟨rfl, h.error, h.ended⟩) (fun d h => ⟨h.isActive, h.error, h.ended⟩) ?_ seg
  · have hf := TCPSender.fillWindow_frame d.sender
    exact ⟨h.isActive, hf.error.trans h.error, hf.inputEnded.trans h.ended⟩
  · unfold acked
    split_ifs
    · obtain ⟨-, -, h1, h2⟩ := TCPSender.ackReceived_frame c.sender seg.header.ackno seg.header.win
      exact ⟨ha, h1, h2⟩
    · exact ⟨ha, rfl, rfl⟩

variable {s s' : SpongeSocket} {input : Input}

theorem inv_segmentReceived (h : Inv s) {seg : TCPSegment} {tcp : TCPConnection} {eof : Bool}
    (hs : s.tcp.segmentReceived seg = some tcp) : Inv { s with tcp, datagramEof := eof } := by
  rcases segment_cases hs with ⟨-, rfl⟩ | ⟨-, -, rfl⟩ | ⟨ha, hrst, -⟩
  · exact ⟨h.error, h.ended⟩
  · exact ⟨fun _ => rfl, h.ended⟩
  · have hsame := segmentReceived_same ha hrst hs
    refine ⟨fun he => ?_, fun he => h.ended (hsame.ended.symm.trans he)⟩
    have hfalse := h.error (hsame.error.symm.trans he)
    exact absurd (ha.symm.trans hfalse) (by decide)

theorem inv_shutdownOutbound (h : Inv s) : Inv s.shutdownOutbound :=
  ⟨fun he => h.error ((TCPSender.fillWindow_frame s.tcp.sender.endInput).error.symm.trans he), fun _ => rfl⟩

/-- What `write` does to the flags of the stream: nothing. -/
theorem write_flags (c : TCPConnection) (data : Bytes) :
    (c.write data).2.sender.stream.error = c.sender.stream.error ∧
      (c.write data).2.sender.stream.inputEnded = c.sender.stream.inputEnded := by
  have hf := TCPSender.fillWindow_frame (c.sender.write data).2
  exact ⟨hf.error.trans (ByteStream.write_snd_error _ _), hf.inputEnded.trans (ByteStream.write_snd_inputEnded _ _)⟩

theorem inv_callback (r : RuleName) {served : Bool} (h : Inv s)
    (hc : (rule r).callback input s = .ok (s', served)) : Inv s' := by
  cases r with
  | rule1 =>
    obtain ⟨tcp, rfl, rfl | ⟨seg, -, hs⟩⟩ := receiveSegment_cases hc
    · exact ⟨h.error, h.ended⟩
    · exact inv_segmentReceived h hs
  | rule2 =>
    obtain ⟨he, hi⟩ := write_flags s.tcp (s.readThreadData input s.tcp.remainingOutboundCapacity).1
    have hw : Inv (s.wrote input) := ⟨fun hc => h.error (he.symm.trans hc), fun hc => h.ended (hi.symm.trans hc)⟩
    rcases (writeOutbound_cases hc).2 with ⟨-, rfl⟩ | rfl
    · exact inv_shutdownOutbound hw
    · exact hw
  | rule3 =>
    cases hc
    exact ⟨h.error, h.ended⟩
  | rule4 =>
    cases hc
    exact ⟨h.error, h.ended⟩

theorem inv_cancel (r : RuleName) (h : Inv s) : Inv ((rule r).cancel s) := by
  cases r with
  | rule1 => exact h
  | rule2 => exact inv_shutdownOutbound h
  | rule3 => exact h
  | rule4 => exact h

theorem inv_tick (h : Inv s) (ms : ℕ) : Inv { s with tcp := s.tcp.tick ms } := by
  rcases Bool.eq_false_or_eq_true s.tcp.isActive with ha | ha
  · obtain ⟨-, -, -, -, -, hstream, -⟩ := TCPSender.tick_frame s.tcp.sender ms
    rcases tick_cases ha ms with ⟨-, ht⟩ | ⟨-, ht⟩
    · rw [ht]
      exact ⟨fun _ => rfl, fun he => h.ended ((congrArg _ hstream).symm.trans he)⟩
    · rw [ht]
      refine ⟨fun he => ?_, fun he => h.ended ((congrArg _ hstream).symm.trans he)⟩
      have hfalse := h.error ((congrArg _ hstream).symm.trans he)
      exact absurd (ha.symm.trans hfalse) (by decide)
  · rw [tick_of_inactive ha]
    exact h

theorem turn_inv {l l' : Loop} {e : Event} (h : Inv l.socket ∧ l.rules.Sublist [.rule1, .rule2, .rule3, .rule4])
    (hs : turn l e = some l') : Inv l'.socket ∧ l'.rules.Sublist [.rule1, .rule2, .rule3, .rule4] := by
  unfold turn at hs
  split at hs
  · cases hs
  · rename_i res rules s hw
    obtain ⟨h1, h2⟩ := waitNextEvent_invariant (fun r _ => inv_cancel r) (fun r _ _ _ => inv_callback r) h.1 hw
    split_ifs at hs with hx ha <;> cases hs
    · exact ⟨h1, h2.trans h.2⟩
    · exact ⟨inv_tick h1 e.ms, h2.trans h.2⟩
    · exact ⟨h1, h2.trans h.2⟩

/-! ### When rule 2 throws -/

/-- Rule 2 throws iff there are bytes, and the stream does not take them. -/
theorem writeOutbound_error : writeOutbound input s = .error .acceptedLess ↔
    ¬ s.tcp.sender.stream.Open ∧ 0 < s.tcp.remainingOutboundCapacity ∧ input.data ≠ [] := by
  have hw : (s.tcp.write (s.readThreadData input s.tcp.remainingOutboundCapacity).1).1 =
      min s.tcp.sender.stream.room (s.readThreadData input s.tcp.remainingOutboundCapacity).1.length :=
    ByteStream.write_fst _ _
  have hlen : (s.readThreadData input s.tcp.remainingOutboundCapacity).1.length =
      min (min (1024 * 1024) s.tcp.remainingOutboundCapacity) input.data.length := List.length_take
  have hthrow : writeOutbound input s = .error .acceptedLess ↔
      (s.tcp.write (s.readThreadData input s.tcp.remainingOutboundCapacity).1).1 ≠
        (s.readThreadData input s.tcp.remainingOutboundCapacity).1.length := by
    unfold writeOutbound
    dsimp only
    split_ifs with h1
    · exact iff_of_true rfl h1
    · exact iff_of_false (fun hc => by cases hc) h1
  rw [hthrow, hw, hlen, ← List.length_pos_iff]
  by_cases ho : s.tcp.sender.stream.Open
  · have hroom : s.tcp.sender.stream.room = s.tcp.remainingOutboundCapacity := ByteStream.room_of_open ho
    rw [hroom]
    refine iff_of_false (fun hc => hc ?_) fun hc => hc.1 ho
    omega
  · rw [ByteStream.room_of_not_open ho, and_iff_right ho]
    omega

/-- No other rule throws this. -/
theorem callback_ne_acceptedLess {r : RuleName} (hr : r ≠ .rule2) (s : SpongeSocket) :
    (rule r).callback input s ≠ .error .acceptedLess := by
  intro hc
  cases r with
  | rule1 =>
    simp only [rule, receiveSegment] at hc
    split at hc
    · cases hc
    · split at hc <;> cases hc
  | rule2 => exact hr rfl
  | rule3 => cases hc
  | rule4 => cases hc

/-- The stream of a socket that is interested in outbound bytes is open. -/
theorem Inv.open (h : Inv s) (hi : (rule .rule2).interest s = true) : s.tcp.sender.stream.Open := by
  simp only [rule, Bool.and_eq_true, Bool.not_eq_true'] at hi
  refine ⟨?_, ?_⟩
  · by_contra hc
    have ha := active_of_inactive (h.error (Bool.not_eq_false _ ▸ hc))
    exact Bool.false_ne_true (ha.symm.trans hi.1.1)
  · by_contra hc
    exact Bool.false_ne_true (hi.1.2.symm.trans (h.ended (Bool.not_eq_false _ ▸ hc)))

/-- Rule 1 received a reset. -/
def GotReset (input : Input) : Prop := ∃ seg, input.segment = some seg ∧ seg.header.rst = true

theorem isActive_of_interest (hi : (rule .rule2).interest s = true) : s.tcp.isActive = true := by
  simp only [rule, Bool.and_eq_true] at hi
  by_contra hc
  exact Bool.false_ne_true ((active_of_inactive (Bool.not_eq_true _ ▸ hc)).symm.trans hi.1.1)

/-- After rule 1 the stream is open still, unless the segment is a reset. -/
theorem open_after_rule1 (h : Inv s) (hi : (rule .rule2).interest s = true) {served : Bool}
    (hc : (rule .rule1).callback input s = .ok (s', served)) (hno : ¬ GotReset input) : s'.tcp.sender.stream.Open := by
  have ho := h.open hi
  obtain ⟨tcp, rfl, rfl | ⟨seg, hseg, hs⟩⟩ := receiveSegment_cases hc
  · exact ho
  · have hrst : seg.header.rst = false := Bool.not_eq_true _ ▸ fun hc => hno ⟨seg, hseg, hc⟩
    have hsame := segmentReceived_same (isActive_of_interest hi) hrst hs
    exact ⟨hsame.error.trans ho.1, hsame.ended.trans ho.2⟩

/-- A reset leaves the stream in error, with the room it had. -/
theorem rule1_reset (hi : (rule .rule2).interest s = true) (hr : GotReset input) : ∃ s',
    (rule .rule1).callback input s = .ok (s', true) ∧ ¬ s'.tcp.sender.stream.Open ∧
      s'.tcp.remainingOutboundCapacity = s.tcp.remainingOutboundCapacity := by
  obtain ⟨seg, hseg, hrst⟩ := hr
  refine ⟨{ s with
    datagramEof := s.datagramEof || input.datagramEof
    tcp := setRstState { s.tcp with timeSinceLastSegmentReceived := 0 } false }, ?_, ?_, rfl⟩
  · simp only [rule, receiveSegment, hseg, segmentReceived_rst (isActive_of_interest hi) hrst]
  · rintro ⟨he, -⟩
    cases he

/-- The rules left: some of the first two, then some of the others. -/
theorem rules_shape {rules : List RuleName} (h : rules.Sublist [.rule1, .rule2, .rule3, .rule4]) :
    ∃ tail, (∀ r ∈ tail, r = .rule3 ∨ r = .rule4) ∧
      (rules = tail ∨ rules = .rule1 :: tail ∨ rules = .rule2 :: tail ∨ rules = .rule1 :: .rule2 :: tail) := by
  have htail : ∀ {tail : List RuleName}, tail.Sublist [.rule3, .rule4] → ∀ r ∈ tail, r = .rule3 ∨ r = .rule4 :=
    fun hs r hr => by simpa using hs.subset hr
  rcases List.sublist_cons_iff.mp h with h1 | ⟨l1, rfl, h1⟩ <;>
    rcases List.sublist_cons_iff.mp h1 with h2 | ⟨l2, rfl, h2⟩
  · exact ⟨_, htail h2, Or.inl rfl⟩
  · exact ⟨_, htail h2, Or.inr (Or.inr (Or.inl rfl))⟩
  · exact ⟨_, htail h2, Or.inr (Or.inl rfl)⟩
  · exact ⟨_, htail h2, Or.inr (Or.inr (Or.inr rfl))⟩

theorem ends_iff (r : RuleName) (s : SpongeSocket) : Ends rule r s ↔
    r = .rule1 ∧ s.datagramEof = true ∨ r = .rule2 ∧ s.threadDataEof = true := by
  cases r <;> simp [Ends, rule]

section Pass

variable {revents : RuleName → Revents} {rs : List (RuleName × Bool)}

/-- With rule 2 first, the pass throws iff rule 2 is ready and throws. -/
theorem serve_rule2 (hrs : ∀ p ∈ rs, p.1 ≠ .rule2) (asked : Bool) (s : SpongeSocket) :
    serve rule revents input ((.rule2, asked) :: rs) s = .error (.callback .acceptedLess) ↔
      (revents .rule2).error = false ∧ asked = true ∧ (revents .rule2).ready = true ∧
        writeOutbound input s = .error .acceptedLess := by
  have hno : ∀ s, serve rule revents input rs s ≠ .error (.callback .acceptedLess) := fun s =>
    serve_ne_error fun p hp => callback_ne_acceptedLess (hrs p hp)
  rw [serve_error_cons]
  refine and_congr_right fun _ => ?_
  split_ifs with h1
  · refine iff_of_false (hno _) fun hc => ?_
    simp [hc.1, hc.2.1] at h1
  · constructor
    · rintro (hc | ⟨s', -, hc⟩)
      · exact hc
      · exact absurd hc (hno _)
    · exact fun hc => Or.inl hc

/-- With rule 1 before it, the pass throws iff both are ready, rule 1 receives
a reset and rule 2 reads bytes. -/
theorem serve_rule1 (h : Inv s) (hrs : ∀ p ∈ rs, p.1 ≠ .rule2) :
    serve rule revents input
        ((.rule1, (rule .rule1).interest s) :: (.rule2, (rule .rule2).interest s) :: rs) s =
        .error (.callback .acceptedLess) ↔
      ((revents .rule1).error = false ∧ (revents .rule1).ready = true) ∧
        ((revents .rule2).error = false ∧ (revents .rule2).ready = true) ∧
        (rule .rule2).interest s = true ∧ GotReset input ∧ input.data ≠ [] := by
  have hopen : (rule .rule2).interest s = true → writeOutbound input s ≠ .error .acceptedLess := fun hi hc =>
    (writeOutbound_error.mp hc).1 (h.open hi)
  rw [serve_error_cons]
  constructor
  · rintro ⟨he1, hc⟩
    split_ifs at hc with hhup
    · obtain ⟨-, hi, -, hthrow⟩ := (serve_rule2 hrs _ _).mp hc
      exact absurd hthrow (hopen hi)
    · rcases hc with ⟨-, -, hc⟩ | ⟨s', hv, hc⟩
      · exact absurd hc (callback_ne_acceptedLess (by decide) s)
      · obtain ⟨he2, hi, hr2, hthrow⟩ := (serve_rule2 hrs _ _).mp hc
        unfold visit at hv
        split_ifs at hv with hready
        · simp only [Bool.and_eq_true] at hready
          obtain ⟨served, hcall⟩ := fire_ok hv
          obtain ⟨hclosed, -, hdata⟩ := writeOutbound_error.mp hthrow
          refine ⟨⟨he1, hready.2⟩, ⟨he2, hr2⟩, hi, ?_, hdata⟩
          by_contra hno
          exact hclosed (open_after_rule1 h hi hcall hno)
        · obtain rfl := Except.ok.inj hv
          exact absurd hthrow (hopen hi)
  · rintro ⟨⟨he1, hr1⟩, ⟨he2, hr2⟩, hi, hreset, hdata⟩
    obtain ⟨s', hcall, hclosed, hcap⟩ := rule1_reset hi hreset
    have hasked : (rule .rule1).interest s = true := by
      simp only [rule, Bool.and_eq_true] at hi
      exact hi.1.1
    have hpos : 0 < s.tcp.remainingOutboundCapacity := by
      simp only [rule, Bool.and_eq_true, decide_eq_true_eq] at hi
      exact hi.2
    refine ⟨he1, ?_⟩
    rw [if_neg (by simp [hasked, hr1])]
    refine Or.inr ⟨s', ?_, (serve_rule2 hrs _ _).mpr ⟨he2, hi, hr2, ?_⟩⟩
    · unfold visit fire
      rw [hasked, hr1, Bool.and_self, if_pos rfl, hcall]
      rfl
    · exact writeOutbound_error.mpr ⟨hclosed, hcap.symm ▸ hpos, hdata⟩

/-- The rules after rule 2 are all polled. -/
theorem prepare_tail {tail : List RuleName} (h : ∀ r ∈ tail, r = .rule3 ∨ r = .rule4) (s : SpongeSocket) :
    prepare rule tail s = (tail.map fun r => (r, (rule r).interest s), s) := by
  refine prepare_all fun r hr => ?_
  rw [ends_iff]
  rcases h r hr with rfl | rfl <;> simp

/-- Without rule 2 nothing throws this, and without rule 1 before it rule 2
does not. -/
theorem serve_prepare_ne {rules : List RuleName} (h : Inv s) (hrules : (∀ r ∈ rules, r ≠ .rule2) ∨
    ∃ tail, (∀ r ∈ tail, r = .rule3 ∨ r = .rule4) ∧ rules = .rule2 :: tail) :
    serve rule revents input (prepare rule rules s).1 (prepare rule rules s).2 ≠
      .error (.callback .acceptedLess) := by
  have hno : ∀ {rules : List RuleName} {s : SpongeSocket}, (∀ r ∈ rules, r ≠ .rule2) →
      serve rule revents input (prepare rule rules s).1 (prepare rule rules s).2 ≠
        .error (.callback .acceptedLess) := by
    intro rules s hr
    refine serve_ne_error fun p hp => callback_ne_acceptedLess (hr p.1 ?_)
    exact (prepare_sublist rules s).subset (List.mem_map_of_mem hp)
  rcases hrules with hr | ⟨tail, htail, rfl⟩
  · exact hno hr
  · have hr : ∀ r ∈ tail, r ≠ .rule2 := by
      intro r hr
      rcases htail r hr with rfl | rfl <;> decide
    by_cases hends : Ends rule .rule2 s
    · rw [prepare_of_ends hends]
      exact hno hr
    · rw [prepare_of_not_ends hends, prepare_tail htail]
      intro hc
      have hpolled : ∀ p ∈ tail.map fun r => (r, (rule r).interest s), p.1 ≠ .rule2 := by
        intro p hp
        obtain ⟨r, hmem, rfl⟩ := List.mem_map.mp hp
        exact hr r hmem
      obtain ⟨-, hi, -, hthrow⟩ := (serve_rule2 hpolled _ _).mp hc
      exact (writeOutbound_error.mp hthrow).1 (h.open hi)

end Pass

theorem start_inv (how : Open) (cfg : TCPConfig) (isn : WrappingInt32) : Inv (start how cfg isn).socket ∧
    (start how cfg isn).rules.Sublist [.rule1, .rule2, .rule3, .rule4] := by
  refine ⟨?_, List.Sublist.refl _⟩
  cases how with
  | connect =>
    have hf := TCPSender.fillWindow_frame (init cfg isn).sender
    exact ⟨fun hc => absurd (hf.error.symm.trans hc) Bool.false_ne_true,
      fun hc => absurd (hf.inputEnded.symm.trans hc) Bool.false_ne_true⟩
  | listenAndAccept => exact ⟨fun hc => absurd hc Bool.false_ne_true, fun hc => absurd hc Bool.false_ne_true⟩

/-- Rules 1 and 2 are both polled and ready, the segment rule 1 reads is a
reset, and there are bytes for rule 2 to read. -/
def Spoiled (l : Loop) (poll : Poll RuleName) (input : Input) : Prop :=
  (∀ r ∈ [RuleName.rule1, .rule2], r ∈ l.rules ∧ ¬ Ends rule r l.socket) ∧ (rule .rule2).interest l.socket = true ∧
    (∃ revents, poll = .events revents ∧
      ∀ r ∈ [RuleName.rule1, .rule2], (revents r).error = false ∧ (revents r).ready = true) ∧
    GotReset input ∧ input.data ≠ []

/-- **Bytes of the owner**: in a pass from any state the loop can reach, rule 2
throws because `write` accepted less than advertised iff the pass is spoiled. -/
theorem accepted_less_iff {how : Open} {cfg : TCPConfig} {isn : WrappingInt32} {l : Loop}
    (hl : Runs.Reach turn (start how cfg isn) l) (poll : Poll RuleName) (input : Input) :
    waitNextEvent rule poll input l.rules l.socket = .error (.callback .acceptedLess) ↔ Spoiled l poll input := by
  obtain ⟨es, hes⟩ := hl
  obtain ⟨h, hsub⟩ := Runs.run_invariant
    (I := fun l : Loop => Inv l.socket ∧ l.rules.Sublist [.rule1, .rule2, .rule3, .rule4])
    (fun _ _ _ h hs => turn_inv h hs) (start_inv how cfg isn) hes
  obtain ⟨tail, htail, hshape⟩ := rules_shape hsub
  have hmem : ∀ r ∈ tail, r ≠ .rule1 ∧ r ≠ .rule2 := by
    intro r hr
    rcases htail r hr with rfl | rfl <;> decide
  rw [waitNextEvent_error]
  by_cases hboth : l.rules = .rule1 :: .rule2 :: tail ∧ ¬ Ends rule .rule1 l.socket ∧ ¬ Ends rule .rule2 l.socket
  · obtain ⟨hrules, hends1, hends2⟩ := hboth
    have hpolled : ∀ p ∈ tail.map fun r => (r, (rule r).interest l.socket), p.1 ≠ .rule2 := by
      intro p hp
      obtain ⟨r, hr, rfl⟩ := List.mem_map.mp hp
      exact (hmem r hr).2
    unfold Spoiled
    rw [hrules, prepare_of_not_ends hends1, prepare_of_not_ends hends2, prepare_tail htail]
    constructor
    · rintro ⟨-, revents, hpoll, hc⟩
      obtain ⟨h1, h2, h3, h4, h5⟩ := (serve_rule1 h hpolled).mp hc
      exact ⟨by simp [hends1, hends2], h3, ⟨revents, hpoll, by simp [h1, h2]⟩, h4, h5⟩
    · rintro ⟨-, h3, ⟨revents, hpoll, hr⟩, h4, h5⟩
      refine ⟨⟨(.rule2, _), by simp, h3⟩, revents, hpoll, (serve_rule1 h hpolled).mpr ⟨?_, ?_, h3, h4, h5⟩⟩
      · exact hr _ (by simp)
      · exact hr _ (by simp)
  · refine iff_of_false ?_ ?_
    · rintro ⟨-, revents, -, hc⟩
      rcases hshape with hrules | hrules | hrules | hrules <;> rw [hrules] at hc
      · exact serve_prepare_ne h (Or.inl fun r hr => (hmem r hr).2) hc
      · refine serve_prepare_ne h (Or.inl fun r hr => ?_) hc
        rcases List.mem_cons.mp hr with rfl | hr
        · decide
        · exact (hmem r hr).2
      · exact serve_prepare_ne h (Or.inr ⟨tail, htail, rfl⟩) hc
      · by_cases hends1 : Ends rule .rule1 l.socket
        · rw [prepare_of_ends hends1] at hc
          exact serve_prepare_ne h (Or.inr ⟨tail, htail, rfl⟩) hc
        · have hends2 : Ends rule .rule2 l.socket := by
            by_contra hends2
            exact hboth ⟨hrules, hends1, hends2⟩
          rw [prepare_of_not_ends hends1, prepare_of_ends hends2, prepare_tail htail] at hc
          refine serve_ne_error (fun p hp => callback_ne_acceptedLess ?_) hc
          rcases List.mem_cons.mp hp with rfl | hp
          · exact RuleName.noConfusion
          · obtain ⟨r, hr, rfl⟩ := List.mem_map.mp hp
            exact (hmem r hr).2
    · rintro ⟨hr, -⟩
      obtain ⟨hin1, hends1⟩ := hr .rule1 (by simp)
      obtain ⟨hin2, hends2⟩ := hr .rule2 (by simp)
      refine hboth ⟨?_, hends1, hends2⟩
      have hno1 : RuleName.rule1 ∉ tail := fun hc => (hmem _ hc).1 rfl
      have hno2 : RuleName.rule2 ∉ tail := fun hc => (hmem _ hc).2 rfl
      rcases hshape with hrules | hrules | hrules | hrules
      · exact absurd (hrules ▸ hin1) hno1
      · simp [hrules, hno2] at hin2
      · simp [hrules, hno1] at hin1
      · exact hrules

/-! ### A reset and data in one pass -/

/-- Everything is ready, and the bytes of the owner meet a segment of the peer. -/
def readyEvent (segment : TCPSegment) : Event where
  poll := .events fun _ => { ready := true }
  input := { segment, data := [97], taken := 65536 }
  ms := 0

/-- The peer accepts the SYN. -/
def acceptSegment : TCPSegment :=
  { header := { syn := true, ack := true, ackno := ⟨1⟩, win := 1000 } }

/-- The connection is open after one turn. -/
theorem established : (Runs.run turn (start .connect {} ⟨0⟩) [readyEvent acceptSegment]).isSome = true := by
  decide +kernel

/-- A reset and a byte of the owner in one pass: rule 2 throws. -/
theorem reset_throws : ∃ l, Runs.Reach turn (start .connect {} ⟨0⟩) l ∧
    waitNextEvent rule (readyEvent { header := { rst := true } }).poll (readyEvent { header := { rst := true } }).input
      l.rules l.socket = .error (.callback .acceptedLess) :=
  ⟨_, ⟨_, (Option.some_get established).symm⟩, by decide +kernel⟩

/-- An acknowledgment instead of the reset does not spoil the pass. -/
theorem accepted_less_iff_ack : ∃ l, Runs.Reach turn (start .connect {} ⟨0⟩) l ∧
    (waitNextEvent rule (readyEvent acceptSegment).poll (readyEvent acceptSegment).input l.rules l.socket =
      .error (.callback .acceptedLess) ↔ Spoiled l (readyEvent acceptSegment).poll (readyEvent acceptSegment).input) :=
  ⟨_, ⟨_, (Option.some_get established).symm⟩,
    accepted_less_iff ⟨[readyEvent acceptSegment], (Option.some_get established).symm⟩ _ _⟩

end SpongeSocket
end Sponge

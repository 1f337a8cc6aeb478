/-
# A socket and its adapter

`TCPSpongeSocket<AdaptT>` as a whole: the socket's rules with the adapter they
read segments from and write segments to. Rule 1 hands on what the adapter
makes of a datagram, rule 4 has it write what the connection queued, and the
adapter is told the time when the connection is. What the owner wrote and was
given, and what went through the adapter, is kept for the proofs.

Key definitions: `TCPSpongeSocket`, `TCPSpongeSocket.rule`,
`TCPSpongeSocket.turn`.
Key theorems: `TCPSpongeSocket.callback_cases`, `TCPSpongeSocket.turn_positions`,
`TCPSpongeSocket.turn_reads`.
-/
import Sponge.Adapter
import Sponge.SpongeSocket

namespace Sponge

structure TCPSpongeSocket (σ ω : Type) where
  socket : SpongeSocket
  datagramAdapter : σ
  /-- what was read from the owner, and what was written to it -/
  taken : Bytes
  given : Bytes
  /-- the segments the adapter was handed, and what it wrote -/
  sent : List TCPSegment
  written : List ω

namespace TCPSpongeSocket

open EventLoop SpongeSocket

variable {σ ι ω : Type}

/-- The exceptions of the callbacks: those of the socket, or the adapter's. -/
inductive Error where
  | socket (e : SpongeSocket.Error)
  | adapter (e : Exception)
  deriving DecidableEq

/-- What the callbacks of a pass find outside. -/
structure Input (ι : Type) where
  datagram : Option ι := none
  datagramEof : Bool := false
  data : Bytes := []
  taken : ℕ := 0

/-- What the socket's own callbacks find then. -/
def Input.outside (input : Input ι) (segment : Option TCPSegment) : SpongeSocket.Input :=
  { segment, datagramEof := input.datagramEof, data := input.data, taken := input.taken }

/-- `_datagram_adapter.read`, if there is anything to read. -/
def readDatagram (ad : AdaptT σ ι ω) (a : σ) : Option ι → Result (Option TCPSegment × σ × List ω)
  | none => .ok (none, a, [])
  | some x => ad.read a x

def receiveSegment (ad : AdaptT σ ι ω) (input : Input ι) (t : TCPSpongeSocket σ ω) :
    Except Error (TCPSpongeSocket σ ω × Bool) :=
  match readDatagram ad t.datagramAdapter input.datagram with
  | .error e => .error (.adapter e)
  | .ok (segment, datagramAdapter, out) =>
    match t.socket.receiveSegment (input.outside segment) with
    | .error e => .error (.socket e)
    | .ok (socket, served) => .ok ({ t with socket, datagramAdapter, written := t.written ++ out }, served)

/-- What rule 2 reads. -/
def outboundData (input : Input ι) (t : TCPSpongeSocket σ ω) : Bytes :=
  (t.socket.readThreadData (input.outside none) t.socket.tcp.remainingOutboundCapacity).1

def writeOutbound (input : Input ι) (t : TCPSpongeSocket σ ω) : Except Error (TCPSpongeSocket σ ω × Bool) :=
  match t.socket.writeOutbound (input.outside none) with
  | .error e => .error (.socket e)
  | .ok (socket, served) => .ok ({ t with socket, taken := t.taken ++ t.outboundData input }, served)

/-- What rule 3 writes. -/
def inboundData (input : Input ι) (t : TCPSpongeSocket σ ω) : Bytes :=
  (t.socket.tcp.inboundStream.peekOutput (min 65536 t.socket.tcp.inboundStream.buffer.length)).take input.taken

def readInbound (input : Input ι) (t : TCPSpongeSocket σ ω) : TCPSpongeSocket σ ω :=
  { t with socket := t.socket.readInbound (input.outside none), given := t.given ++ t.inboundData input }

/-- The loop of rule 4. -/
def writeSegments (ad : AdaptT σ ι ω) : List TCPSegment → σ → Result (σ × List ω)
  | [], a => .ok (a, [])
  | seg :: segs, a =>
    match ad.write a seg with
    | .error e => .error e
    | .ok (a, out) => (writeSegments ad segs a).map fun (a, outs) => (a, out ++ outs)

def sendSegments (ad : AdaptT σ ι ω) (t : TCPSpongeSocket σ ω) : Except Error (TCPSpongeSocket σ ω × Bool) :=
  match writeSegments ad t.socket.tcp.segmentsOut t.datagramAdapter with
  | .error e => .error (.adapter e)
  | .ok (datagramAdapter, out) =>
    .ok ({ t with
      socket := { t.socket with tcp := { t.socket.tcp with segmentsOut := [] } }
      datagramAdapter
      sent := t.sent ++ t.socket.tcp.segmentsOut
      written := t.written ++ out }, !out.isEmpty)

/-- The rules of the socket, with the adapter behind the first and the last. -/
def rule (ad : AdaptT σ ι ω) (r : RuleName) : Rule (TCPSpongeSocket σ ω) (Input ι) Error where
  direction := (SpongeSocket.rule r).direction
  eof t := (SpongeSocket.rule r).eof t.socket
  closed t := (SpongeSocket.rule r).closed t.socket
  callback := match r with
    | .rule1 => receiveSegment ad
    | .rule2 => writeOutbound
    | .rule3 => fun input t => .ok (t.readInbound input, true)
    | .rule4 => fun _ t => t.sendSegments ad
  interest t := (SpongeSocket.rule r).interest t.socket
  cancel t := { t with socket := (SpongeSocket.rule r).cancel t.socket }

/-! ### The loop -/

/-- The socket and the rules not cancelled. -/
structure Loop (σ ω : Type) where
  host : TCPSpongeSocket σ ω
  rules : List RuleName

/-- What one turn of the loop meets: the poll, the input, the time passed, and
how the adapter visits its map. -/
structure Event (ι : Type) where
  poll : Poll RuleName
  input : Input ι
  ms : ℕ := 0
  order : List UInt32 := []

/-- `connect` or `listen_and_accept`, over an adapter as it is configured then. -/
def start (how : Open) (cfg : TCPConfig) (isn : WrappingInt32) (a : σ) (written : List ω) : Loop σ ω where
  host :=
    { socket := (SpongeSocket.start how cfg isn).socket
      datagramAdapter := a
      taken := []
      given := []
      sent := []
      written := written }
  rules := (SpongeSocket.start how cfg isn).rules

/-- The connection and the adapter are told the time. -/
def tick (ad : AdaptT σ ι ω) (t : TCPSpongeSocket σ ω) (ms : ℕ) (order : List UInt32) :
    Option (TCPSpongeSocket σ ω) :=
  (ad.tick t.datagramAdapter ms order).map fun (datagramAdapter, out) =>
    { t with
      socket := { t.socket with tcp := t.socket.tcp.tick ms }
      datagramAdapter
      written := t.written ++ out }

/-- `_tcp_loop`: a pass, then a tick. -/
def turn (ad : AdaptT σ ι ω) (l : Loop σ ω) (e : Event ι) : Option (Loop σ ω) :=
  match waitNextEvent (rule ad) e.poll e.input l.rules l.host with
  | .error _ => none
  | .ok (res, rules, t) =>
    if res = .exit then some ⟨t, rules⟩
    else if t.socket.tcp.active then (t.tick ad e.ms e.order).map fun t => ⟨t, rules⟩
    else some ⟨t, rules⟩

/-! ### What a callback does -/

variable {ad : AdaptT σ ι ω} {t t' : TCPSpongeSocket σ ω} {input : Input ι}

/-- The callbacks, as the socket's and the adapter's. -/
theorem callback_cases {r : RuleName} {served : Bool} (h : (rule ad r).callback input t = .ok (t', served)) :
    (r = .rule1 ∧ ∃ segment a out socket, readDatagram ad t.datagramAdapter input.datagram = .ok (segment, a, out) ∧
        t.socket.receiveSegment (input.outside segment) = .ok (socket, served) ∧
        t' = { t with socket, datagramAdapter := a, written := t.written ++ out }) ∨
      (r = .rule2 ∧ ∃ socket, t.socket.writeOutbound (input.outside none) = .ok (socket, served) ∧
        t' = { t with socket, taken := t.taken ++ t.outboundData input }) ∨
      (r = .rule3 ∧ t' = t.readInbound input) ∨
      (r = .rule4 ∧ ∃ a out, writeSegments ad t.socket.tcp.segmentsOut t.datagramAdapter = .ok (a, out) ∧
        t' = { t with
          socket := { t.socket with tcp := { t.socket.tcp with segmentsOut := [] } }
          datagramAdapter := a
          sent := t.sent ++ t.socket.tcp.segmentsOut
          written := t.written ++ out }) := by
  cases r with
  | rule1 =>
    left
    simp only [rule, receiveSegment] at h
    split at h
    · cases h
    · rename_i segment a out hread
      split at h
      · cases h
      · rename_i socket served' hrcv
        cases h
        exact ⟨rfl, segment, a, out, socket, hread, hrcv, rfl⟩
  | rule2 =>
    right; left
    simp only [rule, writeOutbound] at h
    split at h
    · cases h
    · rename_i socket served' hw
      cases h
      exact ⟨rfl, socket, hw, rfl⟩
  | rule3 =>
    right; right; left
    cases h
    exact ⟨rfl, rfl⟩
  | rule4 =>
    right; right; right
    simp only [rule, sendSegments] at h
    split at h
    · cases h
    · rename_i a out hw
      cases h
      exact ⟨rfl, a, out, hw, rfl⟩

/-- What the cancellations, the callbacks and the time keep, a turn keeps. -/
theorem turn_invariant {I : TCPSpongeSocket σ ω → Prop} {l l' : Loop σ ω} {e : Event ι}
    (hcancel : ∀ r t, I t → I ((rule ad r).cancel t))
    (hcallback : ∀ r t t' served, I t → (rule ad r).callback e.input t = .ok (t', served) → I t')
    (htick : ∀ t t', I t → t.tick ad e.ms e.order = some t' → I t') (hI : I l.host) (hs : turn ad l e = some l') :
    I l'.host := by
  unfold turn at hs
  split at hs
  · cases hs
  · rename_i res rules t hw
    have ht := (waitNextEvent_invariant hcancel hcallback hI hw).1
    split_ifs at hs
    · obtain rfl := Option.some.inj hs
      exact ht
    · obtain ⟨t', htick', rfl⟩ := Option.map_eq_some_iff.mp hs
      exact htick t t' ht htick'
    · obtain rfl := Option.some.inj hs
      exact ht

/-- The rules in the order they were added. -/
def Ordered (rules : List RuleName) : Prop := rules.Sublist [.rule1, .rule2, .rule3, .rule4]

/-- **What a turn goes through**: the rules are prepared (`P`), then served one
after the other in their order, with `I` about those still to be served, and in
the end (`Q`) the time passes. -/
theorem turn_positions {P Q : TCPSpongeSocket σ ω → Prop} {I : List RuleName → TCPSpongeSocket σ ω → Prop}
    {l l' : Loop σ ω} {e : Event ι} (hcancel : ∀ r t, Ends (rule ad) r t → P t → P ((rule ad r).cancel t))
    (hserve : ∀ rs t, P t → I rs t) (hskip : ∀ r rest t, Ordered (r :: rest) → I (r :: rest) t → I rest t)
    (hhup : ∀ revents r rest t, e.poll = .events revents → (revents r).hup = true → (revents r).ready = false →
      Ordered (r :: rest) → I (r :: rest) t → I rest ((rule ad r).cancel t))
    (hcallback : ∀ revents r rest t t' served, e.poll = .events revents → (revents r).ready = true →
      Ordered (r :: rest) → I (r :: rest) t → (rule ad r).callback e.input t = .ok (t', served) → I rest t')
    (hidle : ∀ t, P t → Q t) (hdone : ∀ t, I [] t → Q t)
    (htick : ∀ t t', Q t → t.tick ad e.ms e.order = some t' → Q t')
    (hP : P l.host) (hl : Ordered l.rules) (hs : turn ad l e = some l') : Q l'.host ∧ Ordered l'.rules := by
  have hprep : Ordered ((prepare (rule ad) l.rules l.host).1.map Prod.fst) ∧
      P (prepare (rule ad) l.rules l.host).2 := by
    have h := prepare_positions (J := fun kept rest t => Ordered (kept.map Prod.fst ++ rest) ∧ P t)
      (fun kept r rest t he h => ⟨((List.sublist_cons_self r rest).append_left _).trans h.1, hcancel r t he h.2⟩)
      (fun kept r rest t _ h => ⟨by simpa [Ordered] using h.1, h.2⟩)
      (show Ordered (List.map Prod.fst ([] : List (RuleName × Bool)) ++ l.rules) ∧ P l.host from ⟨hl, hP⟩)
    simpa using h
  have hpass : ∀ {res rules t}, waitNextEvent (rule ad) e.poll e.input l.rules l.host = .ok (res, rules, t) →
      Q t ∧ Ordered rules := by
    intro res rules t hw
    rcases waitNextEvent_cases hw with ⟨rfl, rfl, -⟩ | ⟨-, revents, hpoll, hserved⟩
    · exact ⟨hidle _ hprep.2, hprep.1⟩
    · have h := serve_positions (J := fun kept rest t => Ordered (kept ++ rest) ∧ I rest t)
        (fun kept r rest t h1 h2 h => ⟨((List.sublist_cons_self r rest).append_left _).trans h.1,
          hhup revents r rest t hpoll h1 h2 ((List.sublist_append_right _ _).trans h.1) h.2⟩)
        (fun kept r rest t h => ⟨by simpa [Ordered] using h.1,
          hskip r rest t ((List.sublist_append_right _ _).trans h.1) h.2⟩)
        (fun kept r rest t t' served h1 h hc => ⟨by simpa [Ordered] using h.1,
          hcallback revents r rest t t' served hpoll h1 ((List.sublist_append_right _ _).trans h.1) h.2 hc⟩)
        (show Ordered ([] ++ _) ∧ I _ _ from ⟨hprep.1, hserve _ _ hprep.2⟩) hserved
      exact ⟨hdone _ h.2, by simpa [Ordered] using h.1⟩
  unfold turn at hs
  split at hs
  · cases hs
  · rename_i res rules t hw
    obtain ⟨hQ, hrules⟩ := hpass hw
    split_ifs at hs
    · obtain rfl := Option.some.inj hs
      exact ⟨hQ, hrules⟩
    · obtain ⟨t', ht, rfl⟩ := Option.map_eq_some_iff.mp hs
      exact ⟨htick t t' hQ ht, hrules⟩
    · obtain rfl := Option.some.inj hs
      exact ⟨hQ, hrules⟩

/-- Rule 1 is the first. -/
theorem Ordered.rule1_not_mem {r : RuleName} {rest : List RuleName} (h : Ordered (r :: rest)) : .rule1 ∉ rest := by
  have hrest : rest.Sublist [.rule2, .rule3, .rule4] := by
    rcases List.sublist_cons_iff.mp h with h | ⟨tail, he, h⟩
    · exact (List.sublist_cons_self r rest).trans h
    · rwa [(List.cons.inj he).2]
  intro hmem
  exact absurd (hrest.subset hmem) (by decide)

/-- So the adapter is read as the pass found it: what a turn keeps may be shown
with the adapter that rule 1 meets at hand. -/
theorem turn_reads {I : TCPSpongeSocket σ ω → Prop} {l l' : Loop σ ω} {e : Event ι}
    (hcancel : ∀ r t, I t → I ((rule ad r).cancel t))
    (hcallback : ∀ r t t' served, I t → (r = .rule1 → t.datagramAdapter = l.host.datagramAdapter) →
      (rule ad r).callback e.input t = .ok (t', served) → I t')
    (htick : ∀ t t', I t → t.tick ad e.ms e.order = some t' → I t')
    (hI : I l.host) (hl : Ordered l.rules) (hs : turn ad l e = some l') : I l'.host ∧ Ordered l'.rules :=
  turn_positions (P := fun t => t.datagramAdapter = l.host.datagramAdapter ∧ I t)
    (I := fun rest t => (RuleName.rule1 ∈ rest → t.datagramAdapter = l.host.datagramAdapter) ∧ I t)
    (fun r t _ h => ⟨h.1, hcancel r t h.2⟩) (fun _ _ h => ⟨fun _ => h.1, h.2⟩)
    (fun _ _ _ ho h => ⟨fun hc => absurd hc ho.rule1_not_mem, h.2⟩)
    (fun _ r _ t _ _ _ ho h => ⟨fun hc => absurd hc ho.rule1_not_mem, hcancel r t h.2⟩)
    (fun _ r _ t t' served _ _ ho h hc => ⟨fun hm => absurd hm ho.rule1_not_mem,
      hcallback r t t' served h.2 (fun hr => h.1 (hr ▸ List.mem_cons_self)) hc⟩)
    (fun _ h => h.2) (fun _ h => h.2) htick ⟨rfl, hI⟩ hl hs

end TCPSpongeSocket
end Sponge

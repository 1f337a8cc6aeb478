/-
# Whose bytes go between whose

The server at the grain of its `send` calls. A handler answers a request for
the time or the name without the mutex, so other threads may run between the
header and the payload of its answer; lists and forwarded messages are sent
under the mutex, in one step. What is sent on a socket stays a sequence of whole
packets, and the beginning of one more, as long as nobody else sends on a socket
between the two calls of an answer on it, and a message that is forwarded fits
the array of its thread. Then the length in every header is right, too.

Key definitions: `Sends`, `Sends.step`, `Server.reply`, `Cut`, `Sends.Clear`.
Key theorems: `Server.step_sent`, `Server.sentPacket_fits`, `Sends.run_server`,
`Sends.run_cut`.
-/
import Sponge.Chat.Buffers
import Sponge.Chat.Framing

namespace Chat

/-- What `send_packet` sends of a packet: as much of the payload as a 16-bit
length counts. -/
def Packet.counted (p : Packet) : Packet := ⟨p.type, p.payload.take (p.payload.length % 65536)⟩

/-- The calls of `send` for a packet. -/
def Packet.calls (p : Packet) (sock : ℕ) : List (ℕ × List UInt8) :=
  if 0 < p.payload.length then [(sock, p.header), (sock, p.payload)] else [(sock, p.header)]

namespace Server

/-! ### What a step of the server sends -/

/-- The client a message goes to. -/
def recipient (s : Server) (data : List UInt8) : Option Client :=
  if data.length < 6 then none
  else if data.length ≠ 6 + BigEndian.ofBytes ((data.drop 4).take 2) then none
  else s.entries.find? fun c => c.id % 2 ^ 32 == BigEndian.ofBytes (data.take 4)

/-- The socket and the packet that a request is answered with, or that is
forwarded, as `send_packet` is called with them. -/
def reply (s : Server) (sock myId index : ℕ) (type : UInt8) (data timeStr hostname : List UInt8) :
    Option (ℕ × Packet) :=
  if type = 1 then some (sock, ⟨10, timeStr⟩)
  else if type = 2 then some (sock, ⟨11, hostname⟩)
  else if type = 3 then some (sock, ⟨12, s.listPayload⟩)
  else if type = 4 then
    (s.recipient data).map fun c => (c.sock, ⟨13, s.forwardPayload myId index (data.drop 6)⟩)
  else none

/-- The socket and the packet of a step. -/
def packetOf (s : Server) : Op → Option (ℕ × Packet)
  | .request k type data timeStr hostname =>
    match s.handlers[k]? with
    | some ⟨_, index, .serving sock myId⟩ => s.reply sock myId index type data timeStr hostname
    | _ => none
  | _ => none

/-- What is sent of it. -/
def sentPacket (s : Server) (op : Op) : Option (ℕ × Packet) := (s.packetOf op).map fun p => (p.1, p.2.counted)

/-- The answers of the system to a request: the 24 characters of `ctime`, and a
name that is shorter than the array for it. -/
def Answered : Op → Prop
  | .request _ _ _ timeStr hostname => timeStr.length = 24 ∧ hostname.length < 256
  | _ => True

/-- A message that is forwarded fits the array it is put together in. -/
def Roomy (s : Server) : Op → Prop
  | .request k type data _ _ => ∀ h ∈ s.handlers[k]?, s.Fits h.index type data
  | _ => True

instance (s : Server) : DecidablePred (Roomy s)
  | .request _ _ _ _ _ => inferInstanceAs (Decidable (∀ _ ∈ _, _))
  | .accept _ _ _ | .start _ | .disconnect _ | .close _ => isTrue trivial

theorem sendPacket_sent (s : Server) (sock : ℕ) (type : UInt8) (payload : List UInt8) :
    (s.sendPacket sock type payload).sent = s.sent ++ (Packet.counted ⟨type, payload⟩).calls sock := by
  have hlen : (payload.take (payload.length % 65536)).length = payload.length % 65536 :=
    List.length_take_of_le (Nat.mod_le _ _)
  unfold sendPacket Packet.calls Packet.counted Packet.header
  dsimp only
  rw [hlen]
  split_ifs
  · rw [List.append_assoc]
    rfl
  · rfl

theorem request_sent (s : Server) (sock myId index : ℕ) (type : UInt8) (data timeStr hostname : List UInt8) :
    (s.request sock myId index type data timeStr hostname).sent =
      s.sent ++ (s.reply sock myId index type data timeStr hostname).elim [] fun p => p.2.counted.calls p.1 := by
  unfold request reply
  split_ifs
  · rw [Option.elim_some]
    exact sendPacket_sent ..
  · rw [Option.elim_some]
    exact sendPacket_sent ..
  · rw [Option.elim_some]
    exact sendPacket_sent ..
  · unfold message recipient
    dsimp only
    split_ifs
    · exact (List.append_nil _).symm
    · exact (List.append_nil _).symm
    · split
      · rename_i h
        rw [h, Option.map_some, Option.elim_some]
        exact sendPacket_sent ..
      · rename_i h
        rw [h]
        exact (List.append_nil _).symm
  · exact (List.append_nil _).symm

/-- **A step sends the calls of its packet.** -/
theorem step_sent {s s' : Server} {op : Op} (h : step s op = some s') :
    s'.sent = s.sent ++ (s.sentPacket op).elim [] fun p => p.2.calls p.1 := by
  have hsent : ((s.sentPacket op).elim [] fun p => p.2.calls p.1) =
      (s.packetOf op).elim [] fun p => p.2.counted.calls p.1 := by
    unfold sentPacket
    cases s.packetOf op <;> rfl
  rw [hsent]
  cases op with
  | accept sock ip port =>
    obtain rfl := Option.some.inj h
    show (s.accept sock ip port).sent = s.sent ++ []
    rw [List.append_nil, accept]
    split_ifs <;> rfl
  | request k type data timeStr hostname =>
    simp only [step] at h
    split at h
    · rename_i hk
      obtain rfl := Option.some.inj h
      simp only [packetOf, hk]
      exact request_sent ..
    · cases h
  | start k | disconnect k | close k =>
    simp only [step] at h
    split at h
    · obtain rfl := Option.some.inj h
      exact (List.append_nil _).symm
    · cases h

/-- Who gets a message is there. -/
theorem forwards_of_recipient {s : Server} {data : List UInt8} {c : Client} (h : s.recipient data = some c) :
    s.Forwards data := by
  unfold recipient at h
  split_ifs at h with hlen hfield
  exact ⟨not_lt.mp hlen, not_not.mp hfield, Option.isSome_iff_exists.mpr ⟨c, h⟩⟩

/-- **The length of what is sent fits its header**, if a message that is
forwarded fits the array. -/
theorem sentPacket_fits {s : Server} (hwf : WF s) (hshort : Short s) {op : Op} (ha : Answered op) (hroom : Roomy s op)
    {p : ℕ × Packet} (hp : s.sentPacket op = some p) : p.2.Fits := by
  obtain ⟨⟨sock, q⟩, hq, rfl⟩ := Option.map_eq_some_iff.mp hp
  suffices hlen : q.payload.length ≤ 65532 from (List.length_take_le' ..).trans hlen
  cases op with
  | request k type data timeStr hostname =>
    obtain ⟨htime, hname⟩ := ha
    simp only [packetOf] at hq
    split at hq
    · rename_i conn index sock' myId hk
      unfold reply at hq
      split_ifs at hq with h1 h2 h3 h4
      · cases hq
        show timeStr.length ≤ 65532
        omega
      · cases hq
        show hostname.length ≤ 65532
        omega
      · cases hq
        have hlist := listPayload_length_le hwf.num_le fun c hc => hshort c (List.mem_of_mem_take hc)
        exact hlist.trans (by decide)
      · obtain ⟨c, hc, hq⟩ := Option.map_eq_some_iff.mp hq
        cases hq
        have hfits := hroom _ hk h4 (forwards_of_recipient hc)
        rw [forwardPayload_length, List.length_drop]
        exact hfits.trans (by decide)
    · cases hq
  | _ => cases hq

/-- Threads are only added. -/
theorem step_handlers {s s' : Server} {op : Op} (h : step s op = some s') :
    s.handlers.length ≤ s'.handlers.length := by
  rcases step_cases h with ⟨sock, ip, port, -, hroom, rfl⟩ | ⟨hq, -⟩ | ⟨k, hd, sock, -, -, -, rfl⟩
  · unfold accept
    rw [if_pos hroom, List.length_append]
    exact Nat.le_add_right ..
  · have hconns := congrArg List.length hq.conns
    simp only [conns, List.length_map] at hconns
    exact hconns.ge
  · exact (List.length_modify ..).ge

end Server

/-! ### The server, call by call -/

/-- The bytes `b` are the packets `ps`, of the last of which there may be only a
beginning. -/
def Cut (ps : List Packet) (b : List UInt8) : Prop :=
  b = ps.flatMap Packet.encode ∨
    ∃ qs p rest, ps = qs ++ [p] ∧ rest <+: p.encode ∧ b = qs.flatMap Packet.encode ++ rest

/-- The server; the call of `send` that each thread has still to make; what was
sent on each socket since it was accepted; and, as a history beside the state,
the packets begun on it. -/
structure Sends where
  server : Server
  pending : ℕ → Option (ℕ × List UInt8)
  stream : ℕ → List UInt8
  begun : ℕ → List Packet

namespace Sends

open Server (Op)

def init : Sends where
  server := Server.init
  pending := fun _ => none
  stream := fun _ => []
  begun := fun _ => []

/-- A call of `send`. -/
def send (w : Sends) (call : ℕ × List UInt8) : Sends :=
  { w with stream := Function.update w.stream call.1 (w.stream call.1 ++ call.2) }

/-- A packet is begun. -/
def begin (w : Sends) (p : ℕ × Packet) : Sends :=
  { w with begun := Function.update w.begun p.1 (w.begun p.1 ++ [p.2]) }

/-- A socket that is accepted has sent nothing. -/
def fresh (w : Sends) (sock : ℕ) : Sends :=
  { w with stream := Function.update w.stream sock [], begun := Function.update w.begun sock [] }

/-- A step begins: a socket is accepted, or a packet is begun, or neither. -/
def enter (w : Sends) : Op → Sends
  | .accept sock _ _ => w.fresh sock
  | op => (w.server.sentPacket op).elim w w.begin

/-- The thread that makes a step of the server, if it is not the main thread. -/
def thread : Op → Option ℕ
  | .accept _ _ _ => none
  | .start k | .request k _ _ _ _ | .disconnect k | .close k => some k

/-- A request whose answer is sent without the mutex: the time and the name. -/
def unlocked : Op → Bool
  | .request _ type _ _ _ => type == 1 || type == 2
  | _ => false

/-- A step of the server, with its first call of `send` only if it is made
without the mutex, or the call that a thread has still to make. -/
inductive Event where
  | op (op : Op)
  | payload (k : ℕ)

def step (w : Sends) : Event → Option Sends
  | .op op =>
    if ((thread op).bind w.pending).isSome then none
    else
      (Server.step w.server op).map fun s =>
        let calls := s.sent.drop w.server.sent.length
        if unlocked op then
          { (calls.take 1).foldl send (w.enter op) with
            server := s
            pending := (thread op).elim w.pending fun k => Function.update w.pending k (calls.drop 1).head? }
        else { calls.foldl send (w.enter op) with server := s }
  | .payload k =>
    (w.pending k).map fun call => { w.send call with pending := Function.update w.pending k none }

/-- The step of the server in an event. -/
def opOf : Event → List Op
  | .op op => [op]
  | .payload _ => []

/-- The socket that a step sends on or has accepted. -/
def touches (s : Server) : Op → Option ℕ
  | .accept sock _ _ => some sock
  | op => (s.sentPacket op).map Prod.fst

/-- No thread is between its two calls on the socket that the step sends on, or
that it has accepted, and a message that is forwarded fits its array. -/
def Clear (w : Sends) : Event → Prop
  | .op op => (∀ sock ∈ touches w.server op, ∀ k < w.server.handlers.length, ∀ call ∈ w.pending k, call.1 ≠ sock) ∧
      w.server.Roomy op
  | .payload _ => True

instance (w : Sends) : DecidablePred (Clear w)
  | .op _ => inferInstanceAs (Decidable (_ ∧ _))
  | .payload _ => isTrue trivial

variable {w w' : Sends}

/-- Two calls on one socket, one after the other. -/
theorem send_send (w : Sends) (sock : ℕ) (a b : List UInt8) :
    (w.send (sock, a)).send (sock, b) = w.send (sock, a ++ b) := by
  simp [send]

theorem foldl_send_calls (w : Sends) (p : Packet) (sock : ℕ) :
    (p.calls sock).foldl send w = w.send (sock, p.encode) := by
  unfold Packet.calls Packet.encode
  split_ifs with h
  · exact send_send w sock p.header p.payload
  · rw [List.eq_nil_of_length_eq_zero (Nat.eq_zero_of_not_pos h), List.append_nil]
    rfl

/-- A step of the server without the mutex is a request with an answer. -/
theorem sentPacket_unlocked {s s' : Server} {op : Op} (h : Server.step s op = some s') (hu : unlocked op = true) :
    ∃ k p, thread op = some k ∧ k < s.handlers.length ∧ s.sentPacket op = some p := by
  cases op with
  | request k type data timeStr hostname =>
    have htype : type = 1 ∨ type = 2 := by simpa [unlocked] using hu
    simp only [Server.step] at h
    split at h
    · rename_i hk
      have hlt := (List.getElem?_eq_some_iff.mp hk).1
      simp only [Server.sentPacket, Server.packetOf, hk, Server.reply]
      rcases htype with rfl | rfl
      · exact ⟨k, _, rfl, hlt, rfl⟩
      · exact ⟨k, _, rfl, hlt, rfl⟩
    · cases h
  | _ => exact absurd hu Bool.false_ne_true

theorem enter_of_packet {op : Op} {p : ℕ × Packet} (h : w.server.sentPacket op = some p) :
    w.enter op = w.begin p := by
  cases op with
  | accept => cases h
  | _ => simp only [enter, h, Option.elim_some]

/-- **What an event does**: the second call of an answer, a fresh socket, no
call at all, a whole packet, or the first call of an answer. -/
theorem step_cases {e : Event} (h : step w e = some w') :
    (∃ k call, e = .payload k ∧ w.pending k = some call ∧
      w' = { w.send call with pending := Function.update w.pending k none }) ∨
    (∃ s sock ip port, e = .op (.accept sock ip port) ∧ w' = { w.fresh sock with server := s }) ∨
    (∃ s, w' = { w with server := s }) ∨
    (∃ s op p, e = .op op ∧ w.server.sentPacket op = some p ∧
      w' = { (w.begin p).send (p.1, p.2.encode) with server := s }) ∨
    (∃ s op p k, e = .op op ∧ w.server.sentPacket op = some p ∧ k < w.server.handlers.length ∧ w.pending k = none ∧
      w' = { (w.begin p).send (p.1, p.2.header) with
        server := s
        pending := Function.update w.pending k (some (p.1, p.2.payload)) }) := by
  cases e with
  | payload k =>
    obtain ⟨call, hk, rfl⟩ := Option.map_eq_some_iff.mp h
    exact Or.inl ⟨k, call, rfl, hk, rfl⟩
  | op op =>
    simp only [step] at h
    split_ifs at h with hfree hu
    all_goals obtain ⟨s, hs, rfl⟩ := Option.map_eq_some_iff.mp h
    all_goals
      have hcalls : s.sent.drop w.server.sent.length = (w.server.sentPacket op).elim [] fun p => p.2.calls p.1 := by
        rw [Server.step_sent hs, List.drop_left]
    · obtain ⟨k, p, hk, hlt, hp⟩ := sentPacket_unlocked hs hu
      have hidle : w.pending k = none := by
        rw [hk] at hfree
        simpa using hfree
      have hstep : w.enter op = w.begin p := enter_of_packet hp
      rw [hp, Option.elim_some] at hcalls
      rw [hk, hstep]
      by_cases hpay : 0 < p.2.payload.length
      · have hlist : s.sent.drop w.server.sent.length = [(p.1, p.2.header), (p.1, p.2.payload)] :=
          hcalls.trans (if_pos hpay)
        refine Or.inr (Or.inr (Or.inr (Or.inr ⟨s, op, p, k, rfl, hp, hlt, hidle, ?_⟩)))
        rw [hlist]
        rfl
      · have hlist : s.sent.drop w.server.sent.length = [(p.1, p.2.header)] := hcalls.trans (if_neg hpay)
        have hencode : p.2.encode = p.2.header := by
          rw [Packet.encode, List.eq_nil_of_length_eq_zero (Nat.eq_zero_of_not_pos hpay), List.append_nil]
        have hpending : Function.update w.pending k none = w.pending := by
          rw [← hidle, Function.update_eq_self]
        refine Or.inr (Or.inr (Or.inr (Or.inl ⟨s, op, p, rfl, hp, ?_⟩)))
        rw [hlist, hencode]
        show { (w.begin p).send (p.1, p.2.header) with server := s, pending := Function.update w.pending k none } = _
        rw [hpending]
        rfl
    · cases hp : w.server.sentPacket op with
      | some p =>
        refine Or.inr (Or.inr (Or.inr (Or.inl ⟨s, op, p, rfl, hp, ?_⟩)))
        rw [hcalls, hp, Option.elim_some, foldl_send_calls, enter_of_packet hp]
      | none =>
        rw [hcalls, hp, Option.elim_none, List.foldl_nil]
        cases op with
        | accept sock ip port => exact Or.inr (Or.inl ⟨s, sock, ip, port, rfl, rfl⟩)
        | _ =>
          refine Or.inr (Or.inr (Or.inl ⟨s, ?_⟩))
          simp only [enter, hp, Option.elim_none]

/-- **The server beneath runs as before**: its steps are those of the events
that are steps. -/
theorem step_server {e : Event} (h : step w e = some w') :
    Runs.run Server.step w.server (opOf e) = some w'.server := by
  cases e with
  | payload k =>
    obtain ⟨call, hk, rfl⟩ := Option.map_eq_some_iff.mp h
    rfl
  | op op =>
    have hserver : ∀ (l : List (ℕ × List UInt8)) (v : Sends), (l.foldl send v).server = v.server := fun l => by
      induction l with
      | nil => exact fun v => rfl
      | cons call l ih => exact fun v => ih (v.send call)
    simp only [step] at h
    split_ifs at h with hfree hu
    all_goals
      obtain ⟨s, hs, rfl⟩ := Option.map_eq_some_iff.mp h
      exact Runs.run_cons.mpr ⟨s, hs, rfl⟩

theorem run_server {es : List Event} (h : Runs.run step w es = some w') :
    Runs.run Server.step w.server (es.flatMap opOf) = some w'.server := by
  induction es generalizing w with
  | nil =>
    obtain rfl := Option.some.inj h
    rfl
  | cons e es ih =>
    obtain ⟨v, h1, h2⟩ := Runs.run_cons.mp h
    rw [List.flatMap_cons]
    exact Runs.run_append_eq_some.mpr ⟨v.server, step_server h1, ih h2⟩

/-! ### What is kept -/

theorem touches_of_packet {s : Server} {op : Op} {p : ℕ × Packet} (h : s.sentPacket op = some p) :
    touches s op = some p.1 := by
  cases op with
  | accept => cases h
  | _ => simp only [touches, h, Option.map_some]

/-- One thread at most is between its two calls on a socket; there the last
packet begun stands with its header only, and elsewhere all packets are whole. -/
structure Inv (w : Sends) : Prop where
  sole : ∀ k k' sock b b', w.pending k = some (sock, b) → w.pending k' = some (sock, b') → k = k'
  between : ∀ k sock b, w.pending k = some (sock, b) → ∃ qs p, w.begun sock = qs ++ [p] ∧ p.payload = b ∧
    w.stream sock = qs.flatMap Packet.encode ++ p.header
  whole : ∀ sock, (∀ k b, w.pending k ≠ some (sock, b)) → w.stream sock = (w.begun sock).flatMap Packet.encode

theorem Inv.cut (h : Inv w) (sock : ℕ) : Cut (w.begun sock) (w.stream sock) := by
  by_cases hfree : ∀ k b, w.pending k ≠ some (sock, b)
  · exact Or.inl (h.whole sock hfree)
  · push Not at hfree
    obtain ⟨k, b, hk⟩ := hfree
    obtain ⟨qs, p, h1, -, h2⟩ := h.between k sock b hk
    exact Or.inr ⟨qs, p, p.header, h1, List.prefix_append _ _, h2⟩

theorem init_inv : Inv init where
  sole := fun k k' sock b b' h => by cases h
  between := fun k sock b h => by cases h
  whole := fun sock _ => rfl

/-- The payload follows its header. -/
theorem Inv.payload (h : Inv w) {k : ℕ} {call : ℕ × List UInt8} (hk : w.pending k = some call) :
    Inv { w.send call with pending := Function.update w.pending k none } := by
  obtain ⟨sock, b⟩ := call
  obtain ⟨qs, p, hbegun, rfl, hstream⟩ := h.between k sock b hk
  have hother : ∀ k' sock' b', Function.update w.pending k none k' = some (sock', b') →
      w.pending k' = some (sock', b') ∧ sock' ≠ sock := by
    intro k' sock' b' hk'
    have hne : k' ≠ k := by
      rintro rfl
      simp at hk'
    rw [Function.update_of_ne hne] at hk'
    refine ⟨hk', ?_⟩
    rintro rfl
    exact hne (h.sole k' k _ _ _ hk' hk)
  refine ⟨?_, ?_, ?_⟩
  · intro k₁ k₂ sock' b₁ b₂ h1 h2
    exact h.sole k₁ k₂ sock' b₁ b₂ (hother k₁ sock' b₁ h1).1 (hother k₂ sock' b₂ h2).1
  · intro k' sock' b' hk'
    obtain ⟨hold, hne⟩ := hother k' sock' b' hk'
    obtain ⟨qs', p', h1, h2, h3⟩ := h.between k' sock' b' hold
    exact ⟨qs', p', h1, h2, (Function.update_of_ne hne _ _).trans h3⟩
  · intro sock' hfree
    by_cases hs : sock' = sock
    · subst hs
      have hdone : w.stream sock' ++ p.payload = (w.begun sock').flatMap Packet.encode := by
        calc w.stream sock' ++ p.payload = qs.flatMap Packet.encode ++ (p.header ++ p.payload) := by
              rw [hstream, List.append_assoc]
          _ = (qs ++ [p]).flatMap Packet.encode := by
              rw [List.flatMap_append, List.flatMap_singleton, Packet.encode]
          _ = (w.begun sock').flatMap Packet.encode := by rw [hbegun]
      exact (Function.update_self ..).trans hdone
    · refine (Function.update_of_ne hs _ _).trans (h.whole sock' fun k' b' hk' => ?_)
      have hne : k' ≠ k := by
        rintro rfl
        rw [hk] at hk'
        exact hs (congrArg Prod.fst (Option.some.inj hk')).symm
      exact hfree k' b' ((Function.update_of_ne hne _ _).trans hk')

/-- What was begun and sent on one socket is new, and nobody was between two
calls on it. -/
theorem Inv.update (h : Inv w) {sock : ℕ} (hclear : ∀ k b, w.pending k ≠ some (sock, b)) (ps : List Packet)
    {bytes : List UInt8} (hwhole : bytes = ps.flatMap Packet.encode) (s : Server) :
    Inv
      { server := s
        pending := w.pending
        stream := Function.update w.stream sock bytes
        begun := Function.update w.begun sock ps } := by
  refine ⟨h.sole, ?_, ?_⟩
  · intro k sock' b hk
    have hne : sock' ≠ sock := by
      rintro rfl
      exact hclear k b hk
    obtain ⟨qs, p, h1, h2, h3⟩ := h.between k sock' b hk
    exact ⟨qs, p, (Function.update_of_ne hne _ _).trans h1, h2, (Function.update_of_ne hne _ _).trans h3⟩
  · intro sock' hfree
    by_cases hs : sock' = sock
    · subst hs
      simp only [Function.update_self, hwhole]
    · simp only [Function.update_of_ne hs]
      exact h.whole sock' hfree

/-- The header of an answer, on a socket that was free. -/
theorem Inv.header (h : Inv w) {p : ℕ × Packet} (hclear : ∀ k b, w.pending k ≠ some (p.1, b)) (s : Server) {k : ℕ}
    (hidle : w.pending k = none) : Inv { (w.begin p).send (p.1, p.2.header) with
      server := s, pending := Function.update w.pending k (some (p.1, p.2.payload)) } := by
  obtain ⟨sock, p⟩ := p
  have hother : ∀ k' sock' b', Function.update w.pending k (some (sock, p.payload)) k' = some (sock', b') →
      k' = k ∧ sock' = sock ∧ b' = p.payload ∨ k' ≠ k ∧ w.pending k' = some (sock', b') ∧ sock' ≠ sock := by
    intro k' sock' b' hk'
    by_cases hne : k' = k
    · subst hne
      rw [Function.update_self] at hk'
      obtain ⟨h1, h2⟩ := Prod.mk.inj (Option.some.inj hk')
      exact Or.inl ⟨rfl, h1.symm, h2.symm⟩
    · rw [Function.update_of_ne hne] at hk'
      refine Or.inr ⟨hne, hk', ?_⟩
      rintro rfl
      exact hclear k' b' hk'
  refine ⟨?_, ?_, ?_⟩
  · intro k₁ k₂ sock' b₁ b₂ h1 h2
    rcases hother k₁ sock' b₁ h1 with ⟨rfl, hs, -⟩ | ⟨-, h1', hs⟩
    · rcases hother k₂ sock' b₂ h2 with ⟨rfl, -, -⟩ | ⟨-, -, hs'⟩
      · rfl
      · exact absurd hs hs'
    · rcases hother k₂ sock' b₂ h2 with ⟨-, hs', -⟩ | ⟨-, h2', -⟩
      · exact absurd hs' hs
      · exact h.sole k₁ k₂ sock' b₁ b₂ h1' h2'
  · intro k' sock' b' hk'
    rcases hother k' sock' b' hk' with ⟨-, rfl, rfl⟩ | ⟨-, hold, hs⟩
    · refine ⟨w.begun sock', p, Function.update_self .., rfl, (Function.update_self ..).trans ?_⟩
      show w.stream sock' ++ p.header = _
      rw [h.whole sock' hclear]
    · obtain ⟨qs, q, h1, h2, h3⟩ := h.between k' sock' b' hold
      exact ⟨qs, q, (Function.update_of_ne hs _ _).trans h1, h2, (Function.update_of_ne hs _ _).trans h3⟩
  · intro sock' hfree
    have hs : sock' ≠ sock := by
      rintro rfl
      exact hfree k p.payload (Function.update_self ..)
    refine (Function.update_of_ne hs _ _).trans ((h.whole sock' fun k' b' hk' => ?_).trans
      (congrArg _ (Function.update_of_ne hs _ _).symm))
    by_cases hne : k' = k
    · rw [hne, hidle] at hk'
      cases hk'
    · exact hfree k' b' ((Function.update_of_ne hne _ _).trans hk')

/-- The threads between two calls are threads of the server. -/
def Threads (w : Sends) : Prop := ∀ k call, w.pending k = some call → k < w.server.handlers.length

theorem step_handlers {e : Event} (hs : step w e = some w') :
    w.server.handlers.length ≤ w'.server.handlers.length := by
  have hrun := step_server hs
  cases e with
  | payload k => exact (congrArg (fun s => s.handlers.length) (Option.some.inj hrun)).le
  | op op =>
    obtain ⟨s, h1, h2⟩ := Runs.run_cons.mp hrun
    obtain rfl := Option.some.inj h2
    exact Server.step_handlers h1

theorem step_threads {e : Event} (h : Threads w) (hs : step w e = some w') : Threads w' := by
  intro k call hk
  apply Nat.lt_of_lt_of_le _ (step_handlers hs)
  rcases step_cases hs with ⟨k', call', -, -, rfl⟩ | ⟨s, sock, ip, port, -, rfl⟩ | ⟨s, rfl⟩ | ⟨s, op, p, -, -, rfl⟩ |
    ⟨s, op, p, k', -, -, hlt, -, rfl⟩
  · have hne : k ≠ k' := by
      rintro rfl
      simp at hk
    exact h k call ((Function.update_of_ne hne _ _).symm.trans hk)
  · exact h k call hk
  · exact h k call hk
  · exact h k call hk
  · by_cases hne : k = k'
    · exact hne ▸ hlt
    · exact h k call ((Function.update_of_ne hne _ _).symm.trans hk)

/-- No thread is in the way of a step that is clear. -/
theorem Threads.free (h : Threads w) {op : Op} (hc : Clear w (.op op)) {sock : ℕ}
    (hs : touches w.server op = some sock) (k : ℕ) (b : List UInt8) : w.pending k ≠ some (sock, b) :=
  fun hk => hc.1 sock hs k (h k _ hk) _ hk rfl

/-- **An event keeps the invariant if its socket is free.** -/
theorem step_inv {e : Event} (h : Inv w) (ht : Threads w) (hc : Clear w e) (hs : step w e = some w') : Inv w' := by
  rcases step_cases hs with ⟨k, call, rfl, hk, rfl⟩ | ⟨s, sock, ip, port, rfl, rfl⟩ | ⟨s, rfl⟩ |
    ⟨s, op, p, rfl, hp, rfl⟩ | ⟨s, op, p, k, rfl, hp, -, hidle, rfl⟩
  · exact h.payload hk
  · exact h.update (ht.free hc rfl) [] rfl s
  · exact ⟨h.sole, h.between, h.whole⟩
  · have hclear := ht.free hc (touches_of_packet hp)
    refine h.update hclear (w.begun p.1 ++ [p.2]) ?_ s
    show w.stream p.1 ++ p.2.encode = _
    rw [h.whole p.1 hclear, List.flatMap_append, List.flatMap_singleton]
  · exact h.header (ht.free hc (touches_of_packet hp)) s hidle

/-- The packets begun fit their headers. -/
def Fitting (w : Sends) : Prop := ∀ sock, ∀ p ∈ w.begun sock, p.Fits

theorem Fitting.update (h : Fitting w) (sock : ℕ) {ps : List Packet} (hps : ∀ p ∈ ps, p.Fits) :
    ∀ sock', ∀ p ∈ Function.update w.begun sock ps sock', p.Fits :=
  (Function.forall_update_iff w.begun (p := fun _ ps => ∀ p ∈ ps, p.Fits)).mpr ⟨hps, fun sock' _ => h sock'⟩

theorem Fitting.begin (h : Fitting w) {p : ℕ × Packet} (hp : p.2.Fits) : Fitting (w.begin p) :=
  h.update p.1 (List.forall_mem_append.mpr ⟨h p.1, List.forall_mem_singleton.mpr hp⟩)

theorem step_fitting {e : Event} (h : Fitting w)
    (hfits : ∀ op, e = .op op → ∀ p, w.server.sentPacket op = some p → p.2.Fits) (hs : step w e = some w') :
    Fitting w' := by
  rcases step_cases hs with ⟨k, call, -, -, rfl⟩ | ⟨s, sock, ip, port, -, rfl⟩ | ⟨s, rfl⟩ | ⟨s, op, p, he, hp, rfl⟩ |
    ⟨s, op, p, k, he, hp, -, -, rfl⟩
  · exact h
  · exact h.update sock fun p hp => absurd hp List.not_mem_nil
  · exact h
  · exact h.begin (hfits op he p hp)
  · exact h.begin (hfits op he p hp)

/-- What the system says in a step. -/
def Says (op : Op) : Prop := Server.Addressed op ∧ Server.Answered op

/-- What every clear event keeps. -/
structure Kept (w : Sends) : Prop where
  inv : Inv w
  threads : Threads w
  wf : Server.WF w.server
  short : Server.Short w.server
  fitting : Fitting w

theorem init_kept : Kept init where
  inv := init_inv
  threads := fun k call h => by cases h
  wf := Server.init_wf
  short := Server.init_short
  fitting := fun sock p hp => by cases hp

theorem step_kept {e : Event} (h : Kept w) (hsaid : ∀ op ∈ opOf e, Says op) (hc : Clear w e)
    (hs : step w e = some w') : Kept w' := by
  have hserver : Server.WF w'.server ∧ Server.Short w'.server := by
    have hrun := step_server hs
    cases e with
    | payload k => exact Option.some.inj hrun ▸ ⟨h.wf, h.short⟩
    | op op =>
      obtain ⟨s, h1, h2⟩ := Runs.run_cons.mp hrun
      obtain rfl := Option.some.inj h2
      exact ⟨Server.step_wf h.wf h1, Server.step_short (hsaid op (List.mem_singleton_self op)).1 h.short h1⟩
  refine ⟨step_inv h.inv h.threads hc hs, step_threads h.threads hs, hserver.1, hserver.2,
    step_fitting h.fitting ?_ hs⟩
  rintro op rfl p hp
  exact Server.sentPacket_fits h.wf h.short (hsaid op (List.mem_singleton_self op)).2 hc.2 hp

/-- **Packets are not interleaved**: in every run in which no step meets a
thread between its two calls and every message forwarded fits its array, what
was sent on a socket is the packets begun on it, in order and whole but for the
last; and the header of each of them says how long it is. -/
theorem run_cut {es : List Event} (hsaid : ∀ op ∈ es.flatMap opOf, Says op) (hc : Runs.Along step Clear init es)
    (hr : Runs.run step init es = some w) (sock : ℕ) :
    (∀ p ∈ w.begun sock, p.Fits) ∧ Cut (w.begun sock) (w.stream sock) := by
  have hall : Runs.Along step (fun _ e => ∀ op ∈ opOf e, Says op) init es :=
    Runs.along_of_forall fun e he op hop => hsaid op (List.mem_flatMap.mpr ⟨e, he, hop⟩)
  have hkept := Runs.run_along (fun _ _ _ h hok hs => step_kept h hok.1 hok.2 hs) init_kept
    (Runs.along_and.mpr ⟨hall, hc⟩) hr
  exact ⟨hkept.fitting sock, hkept.inv.cut sock⟩

/-! ### A message in the middle of an answer -/

/-- The length that the first header of a stream announces. -/
def totalLen (b : List UInt8) : ℕ := BigEndian.ofBytes ((b.drop 1).take 2)

end Sends

/-- A stream of fitting packets begins with the length of the first of them. -/
theorem Cut.totalLen {ps : List Packet} {b : List UInt8} (h : Cut ps b) (hps : ∀ p ∈ ps, p.Fits) (h3 : 3 ≤ b.length) :
    3 ≤ Sends.totalLen b ∧ (Sends.totalLen b < b.length → Cut ps.tail (b.drop (Sends.totalLen b))) := by
  have hlen : ∀ (p : Packet) (rest : List UInt8), p.Fits → Sends.totalLen (p.header ++ rest) = p.encode.length := by
    intro p rest hp
    have hfit : p.payload.length ≤ 65532 := hp
    show BigEndian.ofBytes ((BigEndian.toBytes 2 (3 + p.payload.length) ++ rest).take 2) = _
    rw [List.take_left' (BigEndian.toBytes_length ..), BigEndian.ofBytes_toBytes, Packet.encode, List.length_append,
      Packet.header_length]
    omega
  have hencode : ∀ (p : Packet) (rest : List UInt8), p.Fits →
      3 ≤ Sends.totalLen (p.encode ++ rest) ∧ (p.encode ++ rest).drop (Sends.totalLen (p.encode ++ rest)) = rest := by
    intro p rest hp
    have h1 := hlen p (p.payload ++ rest) hp
    rw [← List.append_assoc] at h1
    rw [show p.header ++ p.payload = p.encode from rfl] at h1
    rw [h1, List.drop_left]
    exact ⟨by simp [Packet.encode], rfl⟩
  rcases h with rfl | ⟨qs, p, rest, rfl, hrest, rfl⟩
  · cases ps with
    | nil => simp at h3
    | cons p ps =>
      rw [List.flatMap_cons]
      obtain ⟨h1, h2⟩ := hencode p (ps.flatMap Packet.encode) (hps p List.mem_cons_self)
      exact ⟨h1, fun _ => Or.inl h2⟩
  · cases qs with
    | nil =>
      obtain ⟨more, hmore⟩ := hrest
      rw [List.flatMap_nil, List.nil_append] at h3 ⊢
      have hfit := hps p (by simp)
      -- the header is there, and it says that the packet is not shorter
      have hhead : rest = p.header ++ rest.drop 3 := by
        have htake : rest.take 3 = p.header := by
          have h1 : (rest ++ more).take 3 = p.header := by
            rw [hmore]
            exact List.take_left' p.header_length
          rwa [List.take_append_of_le_length h3] at h1
        rw [← htake, List.take_append_drop]
      have htotal : Sends.totalLen rest = p.encode.length := by
        rw [hhead]
        exact hlen p _ hfit
      have hle : rest.length ≤ p.encode.length := by
        rw [← hmore, List.length_append]
        exact Nat.le_add_right ..
      rw [htotal]
      exact ⟨by simp [Packet.encode], fun hlt => absurd hlt (Nat.not_lt.mpr hle)⟩
    | cons q qs =>
      rw [List.flatMap_cons, List.append_assoc]
      obtain ⟨h1, h2⟩ := hencode q (qs.flatMap Packet.encode ++ rest) (hps q (by simp))
      exact ⟨h1, fun _ => Or.inr ⟨qs, p, rest, rfl, hrest, h2⟩⟩

namespace Sends

/-- The time, with the 24 characters of `ctime`. -/
def timeStr : List UInt8 :=
  [84, 104, 117, 32, 74, 97, 110, 32, 32, 49, 32, 48, 48, 58, 48, 48, 58, 48, 48, 32, 49, 57, 55, 48]

/-- Two join. -/
def joined : List Event :=
  [.op (.accept 4 (inetNtoa 1 1 1 1) 1000), .op (.start 0), .op (.accept 5 (inetNtoa 1 1 1 2) 1001), .op (.start 1)]

/-- The first asks for the time, and between the two calls of the answer a
message of the second, seven zeros, is forwarded to it. -/
def timeRun : List Event :=
  joined ++ [.op (.request 0 1 [] timeStr []),
    .op (.request 1 4 [0, 0, 0, 1, 0, 7, 0, 0, 0, 0, 0, 0, 0] timeStr []), .payload 0]

theorem timeRun_some : (Runs.run step init timeRun).isSome = true := by decide +kernel

/-- What is sent to the first client is no sequence of packets at all. -/
theorem timeRun_not_cut : ∃ w, Runs.run step init timeRun = some w ∧
    ¬ ∃ ps, (∀ p ∈ ps, Packet.Fits p) ∧ Cut ps (w.stream 4) := by
  refine ⟨(Runs.run step init timeRun).get timeRun_some, (Option.some_get _).symm, ?_⟩
  rintro ⟨ps, hps, hcut⟩
  have hlong : 30 ≤ (((Runs.run step init timeRun).get timeRun_some).stream 4).length := by decide +kernel
  have hfirst : totalLen (((Runs.run step init timeRun).get timeRun_some).stream 4) = 27 := by decide +kernel
  have hsecond : totalLen ((((Runs.run step init timeRun).get timeRun_some).stream 4).drop 27) = 0 := by
    decide +kernel
  have hrest := (hcut.totalLen hps (by omega)).2 (by omega)
  rw [hfirst] at hrest
  have hbad := (hrest.totalLen (fun p hp => hps p (List.mem_of_mem_tail hp)) (by rw [List.length_drop]; omega)).1
  omega

/-- The message comes after the answer; then the first asks for the name, and
its thread has made the first call. -/
def talkRun : List Event :=
  joined ++ [.op (.request 0 1 [] timeStr []), .payload 0,
    .op (.request 1 4 [0, 0, 0, 1, 0, 2, 104, 105] timeStr []), .op (.request 0 2 [] timeStr [108])]

theorem talkRun_isSome : (Runs.run step init talkRun).isSome = true := by decide +kernel

theorem run_cut_talk : ∃ w, Runs.run step init talkRun = some w ∧ (w.begun 4).map Packet.type = [10, 13, 11] ∧
    (∀ p ∈ w.begun 4, p.Fits) ∧ Cut (w.begun 4) (w.stream 4) := by
  have hr := (Option.some_get talkRun_isSome).symm
  have hclear : Runs.Along step Clear init talkRun := by decide +kernel
  have hsaid : ∀ op ∈ talkRun.flatMap opOf, Says op := by
    simp only [talkRun, joined, opOf, List.cons_append, List.nil_append, List.flatMap_cons, List.flatMap_nil,
      List.forall_mem_cons]
    refine ⟨⟨⟨1, 1, 1, 1, rfl⟩, trivial⟩, ⟨trivial, trivial⟩, ⟨⟨1, 1, 1, 2, rfl⟩, trivial⟩, ⟨trivial, trivial⟩,
      ⟨trivial, rfl, by decide⟩, ⟨trivial, rfl, by decide⟩, ⟨trivial, rfl, by decide⟩, fun _ h => by cases h⟩
  refine ⟨(Runs.run step init talkRun).get talkRun_isSome, hr, ?_, run_cut hsaid hclear hr 4⟩
  decide +kernel

end Sends
end Chat

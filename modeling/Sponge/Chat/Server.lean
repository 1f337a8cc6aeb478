/-
# The chat server

`lab2/server/server.cpp`: the main thread accepts connections into
`client_list`, and one thread for each connection, `handle_client`, serves its
requests and in the end removes an entry. What happens under `list_mutex` is
one step. A removal shifts the entries behind the position that the thread was
given when its connection was accepted. So the list holds the connections that
are still there exactly as long as every removal finds the thread's own entry
at that position: `members_iff`.

Key definitions: `Server`, `Server.step`, `Server.remove`, `Server.Members`,
`Server.OwnEntry`.
Key theorems: `Server.shift_take`, `Server.step_wf`, `Server.remove_members`,
`Server.members_iff`.
-/
import Sponge.Lib.BigEndian
import Sponge.Lib.Runs

namespace Chat

def maxClients : ℕ := 100

/-- An entry of `client_list`; a global array starts as zeros. -/
structure Client where
  id : ℕ := 0
  ip : List UInt8 := []
  port : UInt16 := 0
  sock : ℕ := 0
  deriving DecidableEq

instance : Inhabited Client := ⟨{}⟩

/-- Where a handler thread is. -/
inductive Phase where
  | created
  | serving (sock myId : ℕ)
  | removed (sock : ℕ)
  | finished
  deriving DecidableEq

/-- A thread and its argument; `conn` is the connection it was made for. -/
structure Handler where
  conn : Client
  index : ℕ
  phase : Phase
  deriving DecidableEq

/-- The handler has not removed its client. -/
def Handler.present (h : Handler) : Bool :=
  match h.phase with
  | .created | .serving _ _ => true
  | .removed _ | .finished => false

/-- The handler waits for a request, or for the end of the connection. -/
def Handler.waiting (h : Handler) : Bool :=
  match h.phase with
  | .serving _ _ => true
  | .created | .removed _ | .finished => false

/-- `sent` is the calls of `send`, a socket and the bytes. -/
structure Server where
  clientList : List Client
  numClients : ℕ
  nextId : ℕ
  handlers : List Handler
  sent : List (ℕ × List UInt8)
  deriving DecidableEq

namespace Server

open BigEndian

def init : Server where
  clientList := List.replicate maxClients {}
  numClients := 0
  nextId := 1
  handlers := []
  sent := []

/-- `send_packet`: type and length, then the payload, of which a 16-bit number
of bytes is sent. -/
def sendPacket (s : Server) (sock : ℕ) (type : UInt8) (payload : List UInt8) : Server :=
  let payloadLen := payload.length % 65536
  let sent := s.sent ++ [(sock, type :: toBytes 2 (3 + payloadLen))]
  { s with sent := if 0 < payloadLen then sent ++ [(sock, payload.take payloadLen)] else sent }

/-- The current entries of the list. -/
def entries (s : Server) : List Client := s.clientList.take s.numClients

/-- An entry as it is written in a list reply. -/
def encodeClient (c : Client) : List UInt8 :=
  toBytes 4 c.id ++ toBytes 2 c.port.toNat ++ toBytes 2 c.ip.length ++ c.ip

def listPayload (s : Server) : List UInt8 :=
  toBytes 4 s.numClients ++ s.entries.flatMap encodeClient

/-- The message as it is forwarded, with the number of the sender and what the
list has at the sender's position. -/
def forwardPayload (s : Server) (myId index : ℕ) (msg : List UInt8) : List UInt8 :=
  let c := s.clientList.getD index default
  toBytes 4 myId ++ toBytes 2 c.port.toNat ++ toBytes 2 c.ip.length ++ c.ip ++ toBytes 2 msg.length ++ msg

/-- A message request: the target, the length and that many bytes. -/
def message (s : Server) (myId index : ℕ) (data : List UInt8) : Server :=
  if data.length < 6 then s
  else
    let targetId := ofBytes (data.take 4)
    let msgLen := ofBytes ((data.drop 4).take 2)
    if data.length ≠ 6 + msgLen then s
    else
      match s.entries.find? fun c => c.id % 2 ^ 32 == targetId with
      | some target => s.sendPacket target.sock 13 (s.forwardPayload myId index (data.drop 6))
      | none => s

/-- One request. The time and the name of the host are what the system says. -/
def request (s : Server) (sock myId index : ℕ) (type : UInt8) (data timeStr hostname : List UInt8) : Server :=
  if type = 1 then s.sendPacket sock 10 timeStr
  else if type = 2 then s.sendPacket sock 11 hostname
  else if type = 3 then s.sendPacket sock 12 s.listPayload
  else if type = 4 then s.message myId index data
  else s

/-- The main loop has accepted a connection: an entry and a thread if there is
room. -/
def accept (s : Server) (sock : ℕ) (ip : List UInt8) (port : UInt16) : Server :=
  if s.numClients < maxClients then
    let c : Client := { id := s.nextId, ip, port, sock }
    { s with
      clientList := s.clientList.set s.numClients c
      numClients := s.numClients + 1
      nextId := s.nextId + 1
      handlers := s.handlers ++ [{ conn := c, index := s.numClients, phase := .created }] }
  else s

/-- The loop of the removal: from `index` on every entry takes the one behind it. -/
def shift (l : List Client) (index num : ℕ) : List Client :=
  (List.range' index (num - 1 - index)).foldl (fun l i => l.set i (l.getD (i + 1) default)) l

/-- The end of `handle_client`, under the mutex. -/
def remove (s : Server) (index : ℕ) : Server :=
  { s with clientList := shift s.clientList index s.numClients, numClients := s.numClients - 1 }

def setPhase (s : Server) (k : ℕ) (phase : Phase) : Server :=
  { s with handlers := s.handlers.modify k fun h => { h with phase } }

/-! ### Runs of the server -/

/-- The main thread accepts, or the thread `k` moves. -/
inductive Op where
  | accept (sock : ℕ) (ip : List UInt8) (port : UInt16)
  | start (k : ℕ)
  | request (k : ℕ) (type : UInt8) (data timeStr hostname : List UInt8)
  | disconnect (k : ℕ)
  | close (k : ℕ)
  deriving DecidableEq

/-- `none` is a move that the thread cannot make where it is. -/
def step (s : Server) : Op → Option Server
  | .accept sock ip port => some (s.accept sock ip port)
  | .start k =>
    match s.handlers[k]? with
    | some ⟨_, index, .created⟩ =>
      let c := s.clientList.getD index default
      some (s.setPhase k (.serving c.sock c.id))
    | _ => none
  | .request k type data timeStr hostname =>
    match s.handlers[k]? with
    | some ⟨_, index, .serving sock myId⟩ => some (s.request sock myId index type data timeStr hostname)
    | _ => none
  | .disconnect k =>
    match s.handlers[k]? with
    | some ⟨_, index, .serving sock _⟩ => some ((s.remove index).setPhase k (.removed sock))
    | _ => none
  | .close k =>
    match s.handlers[k]? with
    | some ⟨_, _, .removed _⟩ => some (s.setPhase k .finished)
    | _ => none

/-- The connections whose handlers have not removed them. -/
def present (s : Server) : List Client := (s.handlers.filter Handler.present).map Handler.conn

/-- The list has one entry for every connection that is present, and no other. -/
def Members (s : Server) : Prop := s.entries.Perm s.present

instance (s : Server) : Decidable (Members s) := inferInstanceAs (Decidable (s.entries.Perm s.present))

/-- A removal finds the thread's own entry at the position it removes. -/
def OwnEntry (s : Server) : Op → Prop
  | .disconnect k => ∀ h ∈ s.handlers[k]?, h.waiting = true →
      s.entries[min h.index (s.numClients - 1)]? = some h.conn
  | _ => True

/-! ### The removal -/

/-- The loop moves `n` entries one place down. -/
theorem foldl_shift_getElem? (l : List Client) (a n : ℕ) (h : a + n < l.length) (j : ℕ) :
    ((List.range' a n).foldl (fun l i => l.set i (l.getD (i + 1) default)) l)[j]? =
      if a ≤ j ∧ j < a + n then l[j + 1]? else l[j]? := by
  induction n generalizing j with
  | zero =>
    rw [if_neg (by omega)]
    rfl
  | succ n ih =>
    have ih := ih (by omega)
    rw [List.range'_1_concat, List.foldl_append, List.foldl_cons, List.foldl_nil]
    set l' := (List.range' a n).foldl (fun l i => l.set i (l.getD (i + 1) default)) l
    have hnext : l'[a + n + 1]? = l[a + n + 1]? := by rw [ih, if_neg (by omega)]
    have hlt : a + n < l'.length := by
      by_contra hc
      have h1 := ih (a + n)
      rw [if_neg (by omega), List.getElem?_eq_none (not_lt.mp hc), List.getElem?_eq_getElem (by omega)] at h1
      cases h1
    rw [List.getElem?_set, List.getD_eq_getElem?_getD, hnext]
    by_cases hj : a + n = j
    · subst hj
      have hin : l[a + n + 1]? = some l[a + n + 1] := List.getElem?_eq_getElem h
      rw [if_pos rfl, if_pos hlt, if_pos (by omega), hin, Option.getD_some]
    · rw [if_neg hj, ih]
      by_cases hc : a ≤ j ∧ j < a + n
      · rw [if_pos hc, if_pos (by omega)]
      · rw [if_neg hc, if_neg (by omega)]

theorem shift_length (l : List Client) (index num : ℕ) : (shift l index num).length = l.length := by
  unfold shift
  induction List.range' index (num - 1 - index) generalizing l with
  | nil => rfl
  | cons i is ih => rw [List.foldl_cons, ih, List.length_set]

/-- What is left of the list: all but the entry at the position, or all but
the last if the position is past the end. -/
theorem shift_take {l : List Client} {num : ℕ} (h0 : 0 < num) (hl : num ≤ l.length) (index : ℕ) :
    (shift l index num).take (num - 1) = (l.take num).eraseIdx (min index (num - 1)) := by
  apply List.ext_getElem?
  intro j
  rw [List.getElem?_take, List.getElem?_eraseIdx, List.getElem?_take, List.getElem?_take]
  by_cases hi : index < num - 1
  · unfold shift
    rw [foldl_shift_getElem? l index _ (by omega)]
    split_ifs <;> first | rfl | omega
  · have hs : shift l index num = l := by
      unfold shift
      rw [Nat.sub_eq_zero_of_le (not_lt.mp hi)]
      rfl
    rw [hs]
    split_ifs <;> first | rfl | omega

/-! ### What every step keeps -/

/-- All connections that were accepted. -/
def conns (s : Server) : List Client := s.handlers.map Handler.conn

structure WF (s : Server) : Prop where
  length : s.clientList.length = maxClients
  num_le : s.numClients ≤ maxClients
  num : s.numClients = s.present.length
  id_lt : ∀ c ∈ s.conns, c.id < s.nextId
  nodup : (s.conns.map Client.id).Nodup

variable {s s' : Server}

theorem init_wf : WF init := by
  refine ⟨List.length_replicate, Nat.zero_le _, rfl, ?_, List.nodup_nil⟩
  intro c hc
  cases hc

theorem init_members : Members init := List.Perm.refl _

/-- Setting the phase of a thread exchanges it for another at its place. -/
theorem setPhase_handlers {k : ℕ} {h : Handler} (phase : Phase) (hk : s.handlers[k]? = some h) :
    ∃ before after, s.handlers = before ++ h :: after ∧
      (s.setPhase k phase).handlers = before ++ { h with phase } :: after := by
  obtain ⟨hlt, rfl⟩ := List.getElem?_eq_some_iff.mp hk
  refine ⟨s.handlers.take k, s.handlers.drop (k + 1), ?_, List.modify_eq_take_cons_drop hlt⟩
  rw [← List.drop_eq_getElem_cons hlt, List.take_append_drop]

theorem setPhase_conns {k : ℕ} {h : Handler} (phase : Phase) (hk : s.handlers[k]? = some h) :
    (s.setPhase k phase).conns = s.conns := by
  obtain ⟨before, after, h1, h2⟩ := setPhase_handlers phase hk
  simp only [conns, h1, h2, List.map_append, List.map_cons]

/-- A thread that moves on without removing its client stays present. -/
theorem setPhase_present {k : ℕ} {h : Handler} {phase : Phase} (hk : s.handlers[k]? = some h)
    (hp : Handler.present { h with phase } = h.present) : (s.setPhase k phase).present = s.present := by
  obtain ⟨before, after, h1, h2⟩ := setPhase_handlers phase hk
  simp only [present, h1, h2, List.filter_append, List.filter_cons, List.map_append, hp]
  split_ifs <;> rfl

/-- A thread that removes its client is not present any more, the others are. -/
theorem setPhase_removed {k : ℕ} {h : Handler} (phase : Phase) (hk : s.handlers[k]? = some h)
    (hp : h.present = true) (hp' : Handler.present { h with phase } = false) :
    s.present.Perm (h.conn :: (s.setPhase k phase).present) := by
  obtain ⟨before, after, h1, h2⟩ := setPhase_handlers phase hk
  simp only [present, h1, h2, List.filter_append, List.filter_cons, List.map_append, hp, hp', ↓reduceIte,
    List.map_cons, Bool.false_eq_true]
  exact List.perm_middle

/-- No two connections that are present are the same. -/
theorem WF.present_nodup (h : WF s) : s.present.Nodup := by
  have hsub : s.present.Sublist s.conns := List.filter_sublist.map _
  exact List.Nodup.of_map Client.id ((hsub.map Client.id).nodup h.nodup)

/-- A step that leaves the list and the presence of the threads alone. -/
structure Quiet (s s' : Server) : Prop where
  list : s'.clientList = s.clientList
  num : s'.numClients = s.numClients
  next : s'.nextId = s.nextId
  conns : s'.conns = s.conns
  present : s'.present = s.present

theorem sendPacket_quiet (s : Server) (sock : ℕ) (type : UInt8) (payload : List UInt8) :
    Quiet s (s.sendPacket sock type payload) := ⟨rfl, rfl, rfl, rfl, rfl⟩

theorem request_quiet (s : Server) (sock myId index : ℕ) (type : UInt8) (data timeStr hostname : List UInt8) :
    Quiet s (s.request sock myId index type data timeStr hostname) := by
  have hrefl : Quiet s s := ⟨rfl, rfl, rfl, rfl, rfl⟩
  unfold request message
  dsimp only
  split_ifs
  · exact sendPacket_quiet s _ _ _
  · exact sendPacket_quiet s _ _ _
  · exact sendPacket_quiet s _ _ _
  · exact hrefl
  · exact hrefl
  · split
    · exact sendPacket_quiet s _ _ _
    · exact hrefl
  · exact hrefl

theorem setPhase_quiet {k : ℕ} {h : Handler} {phase : Phase} (hk : s.handlers[k]? = some h)
    (hp : Handler.present { h with phase } = h.present) : Quiet s (s.setPhase k phase) :=
  ⟨rfl, rfl, rfl, setPhase_conns phase hk, setPhase_present hk hp⟩

/-- A step accepts a connection, is quiet, or is a removal. -/
theorem step_cases {op : Op} (h : step s op = some s') :
    (∃ sock ip port, op = .accept sock ip port ∧ s.numClients < maxClients ∧ s' = s.accept sock ip port) ∨
    (Quiet s s' ∧ ∀ k, op ≠ .disconnect k) ∨
    ∃ k hd sock, op = .disconnect k ∧ s.handlers[k]? = some hd ∧ hd.waiting = true ∧
      s' = (s.remove hd.index).setPhase k (.removed sock) := by
  cases op with
  | accept sock ip port =>
    obtain rfl := Option.some.inj h
    by_cases hroom : s.numClients < maxClients
    · exact Or.inl ⟨sock, ip, port, rfl, hroom, rfl⟩
    · refine Or.inr (Or.inl ⟨?_, fun k hc => by cases hc⟩)
      unfold accept
      rw [if_neg hroom]
      exact ⟨rfl, rfl, rfl, rfl, rfl⟩
  | start k =>
    refine Or.inr (Or.inl ⟨?_, fun k hc => by cases hc⟩)
    simp only [step] at h
    split at h
    · rename_i hk
      obtain rfl := Option.some.inj h
      exact setPhase_quiet hk rfl
    · cases h
  | request k type data timeStr hostname =>
    refine Or.inr (Or.inl ⟨?_, fun k hc => by cases hc⟩)
    simp only [step] at h
    split at h
    · obtain rfl := Option.some.inj h
      exact request_quiet s _ _ _ _ _ _ _
    · cases h
  | disconnect k =>
    simp only [step] at h
    split at h
    · rename_i conn index sock myId hk
      exact Or.inr (Or.inr ⟨k, _, sock, rfl, hk, rfl, (Option.some.inj h).symm⟩)
    · cases h
  | close k =>
    refine Or.inr (Or.inl ⟨?_, fun k hc => by cases hc⟩)
    simp only [step] at h
    split at h
    · rename_i hk
      obtain rfl := Option.some.inj h
      exact setPhase_quiet hk rfl
    · cases h

theorem Quiet.wf (h : WF s) (hq : Quiet s s') : WF s' where
  length := hq.list ▸ h.length
  num_le := hq.num ▸ h.num_le
  num := by rw [hq.num, hq.present, h.num]
  id_lt := by
    rw [hq.conns, hq.next]
    exact h.id_lt
  nodup := hq.conns ▸ h.nodup

theorem Quiet.members (hq : Quiet s s') : Members s' ↔ Members s := by
  unfold Members entries
  rw [hq.list, hq.num, hq.present]

/-- An accepted connection is a new entry and a new thread. -/
theorem accept_eq (h : WF s) (sock : ℕ) (ip : List UInt8) (port : UInt16) (hroom : s.numClients < maxClients) :
    let c : Client := { id := s.nextId, ip, port, sock }
    (s.accept sock ip port).entries = s.entries ++ [c] ∧ (s.accept sock ip port).present = s.present ++ [c] ∧
      (s.accept sock ip port).conns = s.conns ++ [c] ∧ (s.accept sock ip port).nextId = s.nextId + 1 := by
  have hlt : s.numClients < s.clientList.length := h.length.symm ▸ hroom
  unfold accept
  rw [if_pos hroom]
  refine ⟨?_, ?_, ?_, rfl⟩
  · show (s.clientList.set _ _).take _ = s.clientList.take _ ++ _
    rw [List.take_add_one, List.take_set_of_le le_rfl, List.getElem?_set_self hlt]
    rfl
  · show ((s.handlers ++ [_]).filter Handler.present).map Handler.conn = _
    rw [List.filter_append, List.map_append]
    rfl
  · show (s.handlers ++ [_]).map Handler.conn = _
    rw [List.map_append]
    rfl

theorem accept_wf (h : WF s) {sock : ℕ} {ip : List UInt8} {port : UInt16} (hroom : s.numClients < maxClients) :
    WF (s.accept sock ip port) := by
  obtain ⟨-, hp, hc, hn⟩ := accept_eq h sock ip port hroom
  have hlist : (s.accept sock ip port).clientList.length = s.clientList.length ∧
      (s.accept sock ip port).numClients = s.numClients + 1 := by
    unfold accept
    rw [if_pos hroom]
    exact ⟨List.length_set, rfl⟩
  refine ⟨hlist.1.trans h.length, hlist.2 ▸ hroom, ?_, ?_, ?_⟩
  · rw [hlist.2, hp, List.length_append, ← h.num, List.length_singleton]
  · intro c hm
    rw [hc] at hm
    rw [hn]
    rcases List.mem_append.mp hm with hm | hm
    · exact Nat.lt_succ_of_lt (h.id_lt c hm)
    · obtain rfl := List.mem_singleton.mp hm
      exact Nat.lt_succ_self _
  · rw [hc, List.map_append]
    apply List.Nodup.append h.nodup (List.nodup_singleton _)
    intro i h1 h2
    obtain ⟨c, hm, rfl⟩ := List.mem_map.mp h1
    have h3 := h.id_lt c hm
    have h4 : c.id = s.nextId := List.mem_singleton.mp h2
    omega

theorem present_of_waiting {h : Handler} (hw : h.waiting = true) : h.present = true := by
  cases h with
  | mk conn index phase =>
    cases phase with
    | serving => rfl
    | created | removed | finished => exact absurd hw Bool.false_ne_true

theorem remove_wf (h : WF s) {k : ℕ} {hd : Handler} (hk : s.handlers[k]? = some hd) (hw : hd.waiting = true)
    (sock : ℕ) : WF ((s.remove hd.index).setPhase k (.removed sock)) := by
  have hlen := (setPhase_removed (.removed sock) hk (present_of_waiting hw) rfl).length_eq
  have hnum := h.num
  have hle := h.num_le
  have hconns : ((s.remove hd.index).setPhase k (.removed sock)).conns = s.conns :=
    setPhase_conns (.removed sock) hk
  refine ⟨(shift_length _ _ _).trans h.length, (Nat.sub_le _ _).trans hle, ?_, ?_, ?_⟩
  · rw [List.length_cons] at hlen
    show s.numClients - 1 = (s.setPhase k (.removed sock)).present.length
    omega
  · rw [hconns]
    exact h.id_lt
  · rw [hconns]
    exact h.nodup

theorem step_wf {op : Op} (h : WF s) (hs : step s op = some s') : WF s' := by
  rcases step_cases hs with ⟨_, _, _, -, hroom, rfl⟩ | ⟨hq, -⟩ | ⟨k, hd, sock, -, hk, hp, rfl⟩
  · exact accept_wf h hroom
  · exact hq.wf h
  · exact remove_wf h hk hp sock

/-- **A removal keeps the list right iff it finds the thread's own entry.** -/
theorem remove_members (h : WF s) (hm : Members s) {k : ℕ} {hd : Handler} (hk : s.handlers[k]? = some hd)
    (hw : hd.waiting = true) (sock : ℕ) : Members ((s.remove hd.index).setPhase k (.removed sock)) ↔
      s.entries[min hd.index (s.numClients - 1)]? = some hd.conn := by
  have hperm := setPhase_removed (.removed sock) hk (present_of_waiting hw) rfl
  have hnum := h.num
  have hlen := hperm.length_eq
  rw [List.length_cons] at hlen
  have hents : ((s.remove hd.index).setPhase k (.removed sock)).entries =
      s.entries.eraseIdx (min hd.index (s.numClients - 1)) :=
    shift_take (by omega) (h.length ▸ h.num_le) _
  have hpres : ((s.remove hd.index).setPhase k (.removed sock)).present =
      (s.setPhase k (.removed sock)).present := rfl
  have hel : s.entries.length = s.numClients := by
    rw [hm.length_eq, hnum]
  obtain ⟨c, hc⟩ : ∃ c, s.entries[min hd.index (s.numClients - 1)]? = some c := by
    rw [List.getElem?_eq_getElem (by omega)]
    exact ⟨_, rfl⟩
  have hcons := List.getElem_cons_eraseIdx_perm (List.getElem?_eq_some_iff.mp hc).1
  rw [(List.getElem?_eq_some_iff.mp hc).2] at hcons
  -- the removed entry and the rest are the thread's own entry and the rest
  have hall : (c :: s.entries.eraseIdx (min hd.index (s.numClients - 1))).Perm
      (hd.conn :: (s.setPhase k (.removed sock)).present) := calc
    (c :: s.entries.eraseIdx (min hd.index (s.numClients - 1))).Perm s.entries := hcons
    List.Perm _ s.present := hm
    List.Perm _ _ := hperm
  unfold Members
  rw [hents, hpres, hc, Option.some.injEq]
  constructor
  · intro hrest
    have h1 := (hperm.nodup_iff.mp h.present_nodup)
    have hmem : c ∈ hd.conn :: (s.setPhase k (.removed sock)).present := hall.subset List.mem_cons_self
    rcases List.mem_cons.mp hmem with h2 | h2
    · exact h2
    · have h3 := (hall.nodup_iff.mpr h1)
      exact absurd (hrest.mem_iff.mpr h2) (List.nodup_cons.mp h3).1
  · intro hown
    rw [hown] at hall
    exact hall.cons_inv

theorem step_members {op : Op} (h : WF s) (hm : Members s) (hs : step s op = some s') :
    Members s' ↔ OwnEntry s op := by
  rcases step_cases hs with ⟨sock, ip, port, rfl, hroom, rfl⟩ | ⟨hq, hop⟩ | ⟨k, hd, sock, rfl, hk, hp, rfl⟩
  · obtain ⟨h1, h2, -⟩ := accept_eq h sock ip port hroom
    unfold Members
    rw [h1, h2]
    exact ⟨fun _ => trivial, fun _ => hm.append_right _⟩
  · refine hq.members.trans ⟨fun _ => ?_, fun _ => hm⟩
    cases op with
    | disconnect k => exact absurd rfl (hop k)
    | _ => trivial
  · rw [remove_members h hm hk hp]
    simp [OwnEntry, hk, hp]

/-- A removal that cannot happen is no removal of another's entry. -/
theorem ownEntry_of_none {op : Op} (h : step s op = none) : OwnEntry s op := by
  cases op with
  | disconnect k =>
    intro hd hk hw
    obtain ⟨conn, index, phase⟩ := hd
    cases phase with
    | serving sock myId =>
      simp only [step, Option.mem_def.mp hk] at h
      cases h
    | created | removed | finished => exact absurd hw Bool.false_ne_true
  | _ => trivial

open Runs

/-- **Every state of a run has the right members iff every removal on the way
finds the thread's own entry at its position.** -/
theorem members_iff (ops : List Op) :
    (∀ pre s, pre <+: ops → run step init pre = some s → Members s) ↔ Along step OwnEntry init ops := by
  have hiff : ∀ s op, WF s ∧ Members s → ((∀ s', step s op = some s' → Members s') ↔ OwnEntry s op) := by
    rintro s op ⟨h, hm⟩
    cases hs : step s op with
    | none => exact ⟨fun _ => ownEntry_of_none hs, fun _ s' hc => by cases hc⟩
    | some s' =>
      constructor
      · intro hall
        exact (step_members h hm hs).mp (hall s' rfl)
      · intro hown s'' hs''
        exact (step_members h hm (hs.trans hs'')).mpr hown
  have hstep : ∀ s op s', WF s ∧ Members s → (∀ s', step s op = some s' → Members s') → step s op = some s' →
      WF s' ∧ Members s' := fun s op s' h hok hs => ⟨step_wf h.1 hs, hok s' hs⟩
  rw [forall_prefix_iff_along, along_congr hiff hstep ⟨init_wf, init_members⟩]
  exact and_iff_right init_members

/-- Two join, the first leaves, a third joins, the second leaves. -/
def thirdRun : List Op :=
  [.accept 4 [] 1, .start 0, .accept 5 [] 2, .start 1, .disconnect 0, .accept 6 [] 3, .start 2, .disconnect 1]

theorem thirdRun_some : (run step init thirdRun).isSome = true := by decide +kernel

/-- Then the third is removed, and the second stays. -/
theorem members_thirdRun : ∃ s, run step init thirdRun = some s ∧ ¬ Members s ∧
    s.present = [{ id := 3, port := 3, sock := 6 }] ∧ s.entries = [{ id := 2, port := 2, sock := 5 }] := by
  refine ⟨(run step init thirdRun).get thirdRun_some, (Option.some_get _).symm, ?_, ?_, ?_⟩
  all_goals decide +kernel

end Server
end Chat

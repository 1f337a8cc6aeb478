/-
# Whose name a handler acts in

A handler reads its socket and its id from the list when it starts, and the port
and the address of every message it forwards when it forwards it, each time at
the position its connection got when it was accepted, which removals and later
connections may have given to somebody else. It acts as its own client exactly
if what it reads there is its own entry's.

Key definitions: `Server.Own`, `Server.Faithful`, `Server.OwnPosition`.
Key theorems: `Server.request_faithful_iff`, `Server.acts_iff`.
-/
import Sponge.Chat.Sends

namespace Chat
namespace Server

open BigEndian Runs

/-- The socket and the id that the handler uses are its connection's. -/
def Handler.Own (h : Handler) : Prop :=
  match h.phase with
  | .serving sock myId => sock = h.conn.sock ∧ myId = h.conn.id
  | .removed sock => sock = h.conn.sock
  | .created | .finished => True

/-- Every handler uses its own connection's socket and id. -/
def Own (s : Server) : Prop := ∀ h ∈ s.handlers, Handler.Own h

/-- A message with the id, the port and the address of the client `c`. -/
def forwarded (c : Client) (msg : List UInt8) : List UInt8 :=
  toBytes 4 c.id ++ toBytes 2 c.port.toNat ++ toBytes 2 c.ip.length ++ c.ip ++ toBytes 2 msg.length ++ msg

/-- A message that is forwarded carries the data of the connection of the
handler that forwards it. -/
def Faithful (s : Server) : Op → Prop
  | .request k type data timeStr hostname => ∀ h ∈ s.handlers[k]?,
      ∀ p ∈ s.packetOf (.request k type data timeStr hostname), p.2.type = 13 →
        p.2.payload = forwarded h.conn (data.drop 6)
  | _ => True

instance (s : Server) : DecidablePred (Faithful s)
  | .request _ _ _ _ _ => inferInstanceAs (Decidable (∀ _ ∈ _, _))
  | .accept _ _ _ | .start _ | .disconnect _ | .close _ => isTrue trivial

/-- Where a handler reads the list, at its start or to forward a message, it
finds what its own entry had. -/
def OwnPosition (s : Server) : Op → Prop
  | .start k => ∀ h ∈ s.handlers[k]?, h.phase = .created →
      (s.clientList.getD h.index default).sock = h.conn.sock ∧ (s.clientList.getD h.index default).id = h.conn.id
  | .request k type data _ _ => ∀ h ∈ s.handlers[k]?, h.waiting = true → type = 4 → s.recipient data ≠ none →
      (s.clientList.getD h.index default).port = h.conn.port ∧ (s.clientList.getD h.index default).ip = h.conn.ip
  | _ => True

/-! ### Forwarding -/

/-- Messages of the same text are equal iff they name the same client. -/
theorem forwarded_inj {c c' : Client} (hid : c.id = c'.id) (msg : List UInt8) :
    forwarded c msg = forwarded c' msg ↔ c.port = c'.port ∧ c.ip = c'.ip := by
  constructor
  · intro h
    have hlen := congrArg List.length h
    simp only [forwarded, List.length_append, toBytes_length] at hlen
    have hip : c.ip.length = c'.ip.length := by omega
    simp only [forwarded, List.append_assoc, hid, hip] at h
    have h1 := List.append_cancel_left h
    obtain ⟨hport, h2⟩ := List.append_inj h1 (by simp)
    obtain ⟨h3, -⟩ := List.append_inj (List.append_cancel_left h2) hip
    refine ⟨?_, h3⟩
    have h4 := congrArg ofBytes hport
    have hlt := c.port.toNat_lt
    have hlt' := c'.port.toNat_lt
    rw [ofBytes_toBytes, ofBytes_toBytes] at h4
    exact UInt16.toNat_inj.mp (by omega)
  · rintro ⟨hport, hip⟩
    rw [forwarded, forwarded, hid, hport, hip]

theorem forwardPayload_eq (s : Server) (myId index : ℕ) (msg : List UInt8) :
    s.forwardPayload myId index msg = forwarded { s.clientList.getD index default with id := myId } msg := rfl

/-- **A handler that has its own id forwards as its own client iff the entry at
its position has the port and the address of its connection.** -/
theorem request_faithful_iff {s : Server} (ho : Own s) (k : ℕ) (type : UInt8) (data timeStr hostname : List UInt8) :
    Faithful s (.request k type data timeStr hostname) ↔ OwnPosition s (.request k type data timeStr hostname) := by
  cases hk : s.handlers[k]? with
  | none => simp [Faithful, OwnPosition, hk]
  | some h =>
    obtain ⟨conn, index, phase⟩ := h
    have hown : Handler.Own ⟨conn, index, phase⟩ := ho _ (List.mem_of_getElem? hk)
    cases phase with
    | serving sock myId =>
      obtain ⟨-, rfl⟩ : sock = conn.sock ∧ myId = conn.id := hown
      by_cases htype : type = 4
      · subst htype
        cases hr : s.recipient data with
        | none => simp [Faithful, OwnPosition, packetOf, hk, reply, hr]
        | some c =>
          have hid : ({ s.clientList.getD index default with id := conn.id } : Client).id = conn.id := rfl
          have hinj := forwarded_inj hid (data.drop 6)
          rw [← forwardPayload_eq] at hinj
          simp only [Faithful, OwnPosition, packetOf, hk, reply, hr, Option.mem_def, Option.some.injEq, forall_eq']
          simpa [Handler.waiting] using hinj
      · simp only [Faithful, OwnPosition, packetOf, hk, reply, htype, if_false]
        split_ifs <;> simp
    | created | removed | finished => simp [Faithful, OwnPosition, packetOf, hk, Handler.waiting]

/-! ### Runs -/

variable {s s' : Server}

theorem init_own : Own init := fun h hm => by cases hm

/-- A thread that moves on is the only one that changes. -/
theorem setPhase_own {k : ℕ} {h : Handler} {phase : Phase} (ho : Own s) (hk : s.handlers[k]? = some h) :
    Own (s.setPhase k phase) ↔ Handler.Own { h with phase } := by
  obtain ⟨before, after, h1, h2⟩ := setPhase_handlers phase hk
  constructor
  · intro hall
    exact hall _ (by rw [h2]; simp)
  · intro hown h' hm
    rw [h2] at hm
    rcases List.mem_append.mp hm with hm | hm
    · exact ho h' (by rw [h1]; exact List.mem_append_left _ hm)
    · rcases List.mem_cons.mp hm with rfl | hm
      · exact hown
      · exact ho h' (by rw [h1]; exact List.mem_append_right _ (List.mem_cons_of_mem _ hm))

theorem request_handlers (s : Server) (sock myId index : ℕ) (type : UInt8) (data timeStr hostname : List UInt8) :
    (s.request sock myId index type data timeStr hostname).handlers = s.handlers := by
  unfold request message
  dsimp only
  split_ifs <;> first | rfl | (split <;> rfl)

/-- **A step keeps every handler to its own connection iff a thread that starts
finds its own entry's socket and id.** -/
theorem step_own_iff {op : Op} (ho : Own s) :
    (∀ s', step s op = some s' → Own s') ↔ ∀ k, op = .start k → OwnPosition s (.start k) := by
  cases op with
  | accept sock ip port =>
    refine iff_of_true (fun s' hs => ?_) fun k hk => by cases hk
    obtain rfl := Option.some.inj hs
    unfold accept
    split_ifs
    · intro h hm
      rcases List.mem_append.mp hm with hm | hm
      · exact ho h hm
      · obtain rfl := List.mem_singleton.mp hm
        trivial
    · exact ho
  | start k =>
    have hstart : (∀ k', Op.start k = .start k' → OwnPosition s (.start k')) ↔ OwnPosition s (.start k) :=
      ⟨fun h => h k rfl, fun h k' hk => by cases hk; exact h⟩
    rw [hstart]
    cases hk : s.handlers[k]? with
    | none => simp [step, OwnPosition, hk]
    | some h =>
      obtain ⟨conn, index, phase⟩ := h
      cases phase with
      | created =>
        simp only [step, OwnPosition, hk, Option.some.injEq, Option.mem_def, forall_eq', true_imp_iff]
        rw [setPhase_own ho hk]
        exact Iff.rfl
      | serving | removed | finished => simp [step, OwnPosition, hk]
  | request k type data timeStr hostname =>
    refine iff_of_true (fun s' hs => ?_) fun k hk => by cases hk
    simp only [step] at hs
    split at hs
    · obtain rfl := Option.some.inj hs
      intro h hm
      rw [request_handlers] at hm
      exact ho h hm
    · cases hs
  | disconnect k =>
    refine iff_of_true (fun s' hs => ?_) fun k hk => by cases hk
    simp only [step] at hs
    split at hs
    · rename_i conn index sock myId hk
      obtain rfl := Option.some.inj hs
      have hown : Handler.Own ⟨conn, index, .serving sock myId⟩ := ho _ (List.mem_of_getElem? hk)
      exact (setPhase_own (s := s.remove index) ho hk).mpr hown.1
    · cases hs
  | close k =>
    refine iff_of_true (fun s' hs => ?_) fun k hk => by cases hk
    simp only [step] at hs
    split at hs
    · rename_i hk
      obtain rfl := Option.some.inj hs
      exact (setPhase_own ho hk).mpr trivial
    · cases hs

/-- **A run acts as it should iff every read of the list on the way finds what
the thread's own entry had**: the sockets and ids in use are those of the
connections, and so are the id, the port and the address in every message
forwarded. -/
theorem acts_iff (ops : List Op) :
    ((∀ pre s, pre <+: ops → run step init pre = some s → Own s) ∧ Along step Faithful init ops) ↔
      Along step OwnPosition init ops := by
  have hiff : ∀ s op, Own s →
      ((∀ s', step s op = some s' → Own s') ∧ Faithful s op ↔ OwnPosition s op) := by
    intro s op ho
    rw [step_own_iff ho]
    cases op with
    | start k => exact ⟨fun h => h.1 k rfl, fun h => ⟨fun k' hk => (by cases hk; exact h), trivial⟩⟩
    | request k type data timeStr hostname =>
      rw [request_faithful_iff ho]
      exact and_iff_right fun k' hk => by cases hk
    | accept | disconnect | close => exact ⟨fun _ => trivial, fun _ => ⟨fun k' hk => (by cases hk), trivial⟩⟩
  rw [forall_prefix_iff_along, and_assoc, ← along_and, and_iff_right init_own]
  exact along_congr hiff (fun s op s' _ hok hs => hok.1 s' hs) init_own

/-- Two join, the first leaves, a third joins, and the second sends it a message. -/
def lateRun : List Op :=
  [.accept 4 [49] 1000, .start 0, .accept 5 [50] 1001, .start 1, .disconnect 0, .accept 6 [51] 1002,
    .request 1 4 [0, 0, 0, 3, 0, 1, 104] [] []]

/-- It goes out with the port and the address of the third. -/
theorem lateRun_not_faithful :
    ¬ ((∀ pre s, pre <+: lateRun → run step init pre = some s → Own s) ∧ Along step Faithful init lateRun) :=
  fun h => absurd h.2 (by decide +kernel)

end Server
end Chat

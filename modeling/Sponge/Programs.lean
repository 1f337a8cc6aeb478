/-
# From one terminal to the other

`tcp_udp.cc`: a thread copies between the terminal and a socket (`StreamCopy`),
another runs TCP behind it (`TCPSpongeSocket`), and a socket pair joins the two.
Whatever is typed at one end and however the threads, the network and the polls
at both ends interleave, what is shown at the other end is a beginning of it.
If nothing stops the loops from outside it is all of it, once that output is
closed, unless the connection was reset.

Each thread runs by itself here, and the pair is what it promises at any moment:
`Joined` of the bytes, `Ended` of the ends. These are shut down by the loops at
the end of a stream and, when a loop is over, by `wait_until_closed` and by
`_tcp_main`. The loop of a socket is over by itself only after its owner was told
(`Sockets.shut_of_left`).

Key definitions: `Program`, `Program.Joined`, `Program.Ended`, `Program.Copied`.
Key theorems: `TCPSpongeSocket.pass_live`, `Sockets.shut_of_left`,
`Program.shows`, `Program.copied`, `Program.udp_stdin_to_stdout`.
-/
import Sponge.EndToEnd
import Sponge.StreamCopy

namespace Sponge

/-! ### The end of the outbound stream -/

namespace TCPSpongeSocket

open EventLoop SpongeSocket

variable {σ ι ω : Type} {ad : AdaptT σ ι ω} {input : Input ι} {t t' : TCPSpongeSocket σ ω} {l l' : Loop σ ω}
  {e : Event ι}

/-- The outbound stream was ended where the owner ended it. -/
def Seen (t : TCPSpongeSocket σ ω) : Prop := t.socket.outboundShutdown = true → t.socket.threadDataEof = true

/-- The poll is not interrupted, the network's descriptor is not at its end,
and none is found hung up with nothing to read or write. -/
structure Quiet (e : Event ι) : Prop where
  poll : e.poll ≠ .interrupted
  datagrams : e.input.datagramEof = false
  hup : ∀ revents, e.poll = .events revents → ∀ r, (revents r).hup = true → (revents r).ready = true

theorem callback_seen {r : RuleName} {served : Bool} (h : Seen t)
    (hc : (rule ad r).callback input t = .ok (t', served)) : Seen t' := by
  rcases callback_cases hc with ⟨-, segment, a, out, socket, -, hs, rfl⟩ | ⟨-, socket, hw, rfl⟩ | ⟨-, rfl⟩ |
    ⟨-, a, out, -, rfl⟩
  · obtain ⟨tcp, rfl, -⟩ := receiveSegment_cases hs
    exact h
  · rcases (writeOutbound_cases hw).2 with ⟨hend, rfl⟩ | rfl
    · exact fun _ => hend
    · intro hc
      have hold : t.socket.threadDataEof = true := h hc
      simp [wrote, readThreadData, hold]
  · exact h
  · exact h

/-- Only rule 2 ends the outbound stream. -/
theorem cancel_seen {r : RuleName} (hr : r = .rule2 → t.socket.threadDataEof = true) (h : Seen t) :
    Seen ((rule ad r).cancel t) := by
  cases r with
  | rule2 => exact fun _ => hr rfl
  | _ => exact h

theorem turn_seen (he : Quiet e) (h : Seen l.host ∧ Ordered l.rules) (hs : turn ad l e = some l') :
    Seen l'.host ∧ Ordered l'.rules := by
  have hends : ∀ r (t : TCPSpongeSocket σ ω), Ends (rule ad) r t → r = .rule2 → t.socket.threadDataEof = true := by
    rintro r t (⟨-, heof⟩ | hclosed) rfl
    · exact heof
    · cases hclosed
  exact turn_positions (P := Seen) (Q := Seen) (I := fun _ t => Seen t)
    (fun r t hr h => cancel_seen (hends r t hr) h) (fun _ _ h => h) (fun _ _ _ _ h => h)
    (fun revents r _ t hpoll hhup hready _ _ =>
      absurd ((he.hup revents hpoll r hhup).symm.trans hready) (by decide))
    (fun _ r _ t t' served _ _ _ h hc => callback_seen h hc) (fun _ h => h) (fun _ h => h)
    (fun t t' h ht => by
      obtain ⟨⟨a, out⟩, -, rfl⟩ := Option.map_eq_some_iff.mp ht
      exact h) h.1 h.2 hs

/-! ### The end of the loop -/

/-- The pass ends the loop: the thread then shuts the owner's end down. -/
def Leaves (ad : AdaptT σ ι ω) (l : Loop σ ω) (e : Event ι) : Prop :=
  ∃ rules t, waitNextEvent (rule ad) e.poll e.input l.rules l.host = .ok (.exit, rules, t)

/-- Nothing more comes on the inbound stream. -/
def Over (c : TCPConnection) : Prop := c.inboundStream.error = true ∨ c.inboundStream.inputEnded = true

/-- A connection is stopped only when its inbound stream is over. -/
def Told (c : TCPConnection) : Prop := c.isActive = false → Over c

section Told

variable {c c' : TCPConnection}

theorem over_of_active (ha : c.isActive = true) (h : c.active = false) : Over c := by
  have hclosed := ((TCPConnection.active_eq_false_iff ha).mp h).1
  simp only [TCPConnection.streamsClosed, Bool.and_eq_true] at hclosed
  exact Or.inr hclosed.1.1.1

theorem Told.over (h : Told c) (ha : c.active = false) : Over c := by
  rcases Bool.eq_false_or_eq_true c.isActive with hact | hact
  · exact over_of_active hact ha
  · exact h hact

theorem told_segment {seg : TCPSegment} (h : Told c) (hs : c.segmentReceived seg = some c') : Told c' := by
  rcases TCPConnection.segment_cases hs with ⟨-, rfl⟩ | ⟨-, -, rfl⟩ | ⟨ha, hrst, -⟩
  · exact h
  · exact fun _ => Or.inl rfl
  · have hact := (SpongeSocket.segmentReceived_same ha hrst hs).isActive
    exact fun hc => absurd (hact.symm.trans hc) (by decide)

theorem told_tick (h : Told c) (ms : ℕ) : Told (c.tick ms) := by
  rcases Bool.eq_false_or_eq_true c.isActive with ha | ha
  · rcases TCPConnection.tick_cases ha ms with ⟨-, ht⟩ | ⟨-, ht⟩ <;> rw [ht]
    · exact fun _ => Or.inl rfl
    · exact fun hc => over_of_active (c := c.ticked ms) ha hc
  · rw [TCPConnection.tick_of_inactive ha]
    exact h

end Told

/-- What quiet passes keep: nothing is cancelled but rule 2. -/
structure Live (l : Loop σ ω) : Prop where
  told : Told l.host.socket.tcp
  datagrams : l.host.socket.datagramEof = false
  rules : ∀ r, r ≠ .rule2 → r ∈ l.rules

/-- The same within a pass, with the rules gone through and those to come. -/
structure Alive (kept rest : List RuleName) (t : TCPSpongeSocket σ ω) : Prop where
  told : Told t.socket.tcp
  datagrams : t.socket.datagramEof = false
  rules : ∀ r, r ≠ .rule2 → r ∈ kept ++ rest

theorem callback_alive {kept rest : List RuleName} {r : RuleName} {served : Bool} (he : input.datagramEof = false)
    (h : Alive kept (r :: rest) t) (hc : (rule ad r).callback input t = .ok (t', served)) :
    Alive (kept ++ [r]) rest t' := by
  have hrules : ∀ r', r' ≠ .rule2 → r' ∈ kept ++ [r] ++ rest := by simpa using h.rules
  rcases callback_cases hc with ⟨-, segment, a, out, socket, -, hs, rfl⟩ | ⟨-, socket, hw, rfl⟩ | ⟨-, rfl⟩ |
    ⟨-, a, out, -, rfl⟩
  · have heof : (t.socket.datagramEof || (input.outside segment).datagramEof) = false := by
      rw [h.datagrams]
      exact he
    obtain ⟨tcp, rfl, rfl | ⟨seg, -, hrcv⟩⟩ := receiveSegment_cases hs
    · exact ⟨h.told, heof, hrules⟩
    · exact ⟨told_segment h.told hrcv, heof, hrules⟩
  · rcases (writeOutbound_cases hw).2 with ⟨-, rfl⟩ | rfl
    · exact ⟨h.told, h.datagrams, hrules⟩
    · exact ⟨h.told, h.datagrams, hrules⟩
  · refine ⟨fun hact => ?_, h.datagrams, hrules⟩
    exact (h.told hact).imp (ByteStream.popOutput_error _ _).trans (ByteStream.popOutput_inputEnded _ _).trans
  · exact ⟨h.told, h.datagrams, hrules⟩

theorem cancel_alive {kept rest : List RuleName} (h : Alive kept (.rule2 :: rest) t) :
    Alive kept rest ((rule ad .rule2).cancel t) := by
  refine ⟨h.told, h.datagrams, fun r hr => ?_⟩
  rcases List.mem_append.mp (h.rules r hr) with hmem | hmem
  · exact List.mem_append_left _ hmem
  · exact List.mem_append_right _ ((List.mem_cons.mp hmem).resolve_left hr)

/-- Only rule 2 is cancelled before the poll. -/
theorem rule2_of_ends {r : RuleName} (hd : t.socket.datagramEof = false) (he : Ends (rule ad) r t) : r = .rule2 := by
  rcases he with ⟨hin, heof⟩ | hclosed
  · cases r with
    | rule1 => exact absurd (hd.symm.trans heof) Bool.false_ne_true
    | rule2 => rfl
    | rule3 | rule4 => cases hin
  · cases r <;> cases hclosed

/-- While the rules are asked for their interest: rule 1 has none only if the
inbound stream is over, and what rule 3 answers stays true. -/
structure Asked (ad : AdaptT σ ι ω) (kept : List (RuleName × Bool)) (rest : List RuleName) (t : TCPSpongeSocket σ ω) :
    Prop where
  alive : Alive (kept.map Prod.fst) rest t
  first : (.rule1, false) ∈ kept → Over t.socket.tcp
  third : (.rule3, false) ∈ kept → (rule ad .rule3).interest t = false

theorem asked_cancel {kept : List (RuleName × Bool)} {r : RuleName} {rest : List RuleName} (he : Ends (rule ad) r t)
    (h : Asked ad kept (r :: rest) t) : Asked ad kept rest ((rule ad r).cancel t) := by
  obtain rfl := rule2_of_ends h.alive.datagrams he
  exact ⟨cancel_alive h.alive, h.first, h.third⟩

theorem asked_keep {kept : List (RuleName × Bool)} {r : RuleName} {rest : List RuleName}
    (h : Asked ad kept (r :: rest) t) : Asked ad (kept ++ [(r, (rule ad r).interest t)]) rest t := by
  have hlast : ∀ {r' : RuleName}, (r', false) ∈ kept ++ [(r, (rule ad r).interest t)] →
      (r', false) ∈ kept ∨ (rule ad r').interest t = false := by
    intro r' hmem
    refine (List.mem_append.mp hmem).imp_right fun hmem => ?_
    obtain ⟨rfl, hfalse⟩ := Prod.mk.inj (List.mem_singleton.mp hmem)
    exact hfalse.symm
  refine ⟨⟨h.alive.told, h.alive.datagrams, fun r' hr => ?_⟩, fun hmem => ?_, fun hmem => ?_⟩
  · simpa using h.alive.rules r' hr
  · exact (hlast hmem).elim h.first h.alive.told.over
  · exact (hlast hmem).elim h.third id

/-- If the stream is over and rule 3 has nothing to do, the owner was told. -/
theorem shut_of_idle (hover : Over t.socket.tcp) (hidle : (rule ad .rule3).interest t = false) :
    t.socket.inboundShutdown = true := by
  simp only [rule, SpongeSocket.rule, Bool.or_eq_false_iff, Bool.and_eq_false_iff, Bool.not_eq_false',
    List.isEmpty_iff] at hidle
  obtain ⟨hempty, (⟨heof, herr⟩ | hshut)⟩ := hidle
  · rcases hover with hc | hc
    · exact absurd (herr.symm.trans hc) Bool.false_ne_true
    · simp [ByteStream.eof, hempty, hc] at heof
  · exact hshut

/-- **A quiet pass** keeps the rules, and ends the loop only when the owner was
told that the inbound stream is over. -/
theorem pass_live {res : EventLoop.Result} {rules : List RuleName} (he : Quiet e) (h : Live l)
    (hw : waitNextEvent (rule ad) e.poll e.input l.rules l.host = .ok (res, rules, t)) :
    Live ⟨t, rules⟩ ∧ (res = .exit → t.socket.inboundShutdown = true) := by
  have hstart : Asked ad [] l.rules l.host :=
    ⟨⟨h.told, h.datagrams, h.rules⟩, fun hc => absurd hc List.not_mem_nil, fun hc => absurd hc List.not_mem_nil⟩
  have hasked := prepare_positions (J := Asked ad) (fun _ _ _ _ he h => asked_cancel he h)
    (fun _ _ _ _ _ h => asked_keep h) hstart
  rw [List.nil_append] at hasked
  rcases waitNextEvent_cases hw with ⟨rfl, rfl, hexit⟩ | ⟨rfl, revents, hpoll, hserve⟩
  · have hall : ∀ r, r ≠ .rule2 → r ∈ (prepare (rule ad) l.rules l.host).1.map Prod.fst := by
      simpa using hasked.alive.rules
    refine ⟨⟨hasked.alive.told, hasked.alive.datagrams, hall⟩, fun hres => ?_⟩
    have hidle := (hexit hres).resolve_left he.poll
    have hno : ∀ r, r ≠ .rule2 → (r, false) ∈ (prepare (rule ad) l.rules l.host).1 := by
      intro r hr
      obtain ⟨⟨_, asked⟩, hmem, rfl⟩ := List.mem_map.mp (hall r hr)
      obtain rfl : asked = false := hidle _ hmem
      exact hmem
    exact shut_of_idle (hasked.first (hno .rule1 (by decide))) (hasked.third (hno .rule3 (by decide)))
  · have hend := serve_positions (J := Alive)
      (fun _ r _ _ hhup hready _ => absurd ((he.hup revents hpoll r hhup).symm.trans hready) (by decide))
      (fun kept r rest t h => ⟨h.told, h.datagrams, by simpa using h.rules⟩)
      (fun _ _ _ _ _ _ _ h hc => callback_alive he.datagrams h hc)
      (show Alive [] ((prepare (rule ad) l.rules l.host).1.map Prod.fst) _ from
        ⟨hasked.alive.told, hasked.alive.datagrams, by simpa using hasked.alive.rules⟩) hserve
    exact ⟨⟨hend.told, hend.datagrams, by simpa using hend.rules⟩, fun hc => by cases hc⟩

theorem turn_live (he : Quiet e) (h : Live l) (hs : turn ad l e = some l') : Live l' := by
  unfold turn at hs
  split at hs
  · cases hs
  · rename_i res rules t hw
    have hpass := (pass_live he h hw).1
    split_ifs at hs
    · obtain rfl := Option.some.inj hs
      exact hpass
    · obtain ⟨t', htick, rfl⟩ := Option.map_eq_some_iff.mp hs
      obtain ⟨⟨a, out⟩, -, rfl⟩ := Option.map_eq_some_iff.mp htick
      exact ⟨told_tick hpass.told e.ms, hpass.datagrams, hpass.rules⟩
    · obtain rfl := Option.some.inj hs
      exact hpass

/-- A quiet pass that ends the loop has told the owner. -/
theorem turn_shut_of_leaves (he : Quiet e) (h : Live l) (hl : Leaves ad l e) (hs : turn ad l e = some l') :
    l'.host.socket.inboundShutdown = true := by
  obtain ⟨rules, t, hw⟩ := hl
  have hshut := (pass_live he h hw).2 rfl
  have hturn : turn ad l e = some ⟨t, rules⟩ := by
    unfold turn
    rw [hw]
    rfl
  obtain rfl := Option.some.inj (hturn.symm.trans hs)
  exact hshut

/-- The owner stays told. -/
theorem turn_stays_shut (h : l.host.socket.inboundShutdown = true) (hs : turn ad l e = some l') :
    l'.host.socket.inboundShutdown = true := by
  refine turn_invariant (I := fun t => t.socket.inboundShutdown = true) ?_ ?_ ?_ h hs
  · intro r t h
    cases r <;> exact h
  · intro r t t' served h hc
    rcases callback_cases hc with ⟨-, segment, a, out, socket, -, hs, rfl⟩ | ⟨-, socket, hw, rfl⟩ | ⟨-, rfl⟩ |
      ⟨-, a, out, -, rfl⟩
    · obtain ⟨tcp, rfl, -⟩ := receiveSegment_cases hs
      exact h
    · rcases (writeOutbound_cases hw).2 with ⟨-, rfl⟩ | rfl
      · exact h
      · exact h
    · simp [readInbound, SpongeSocket.readInbound, h]
    · exact h
  · intro t t' h ht
    obtain ⟨⟨a, out⟩, -, rfl⟩ := Option.map_eq_some_iff.mp ht
    exact h

end TCPSpongeSocket

namespace Sockets

open TCPSpongeSocket

variable {σ ι ω : Type} [DecidableEq ι] {ad : AdaptT σ ι ω} {carry toB toA : ω → Option ι} {n n' : Sockets σ ω}
  {es : List (Network.Party × Event ι)}

/-- The loop of a party. -/
def loop (n : Sockets σ ω) : Network.Party → Loop σ ω
  | .A => n.a
  | .B => n.b

theorem act_loops {e : Event ι} (hs : n.act ad carry e = some n') : turn ad n.a e = some n'.a ∧ n'.b = n.b := by
  unfold act at hs
  split_ifs at hs
  obtain ⟨l, hl, rfl⟩ := Option.map_eq_some_iff.mp hs
  exact ⟨hl, rfl⟩

/-- A step is a turn of one loop. -/
theorem step_loop {p q : Network.Party} {e : Event ι} (hs : step ad toB toA n (p, e) = some n') :
    (q = p → turn ad (n.loop q) e = some (n'.loop q)) ∧ (q ≠ p → n'.loop q = n.loop q) := by
  cases p with
  | A =>
    obtain ⟨h1, h2⟩ := act_loops hs
    cases q with
    | A => exact ⟨fun _ => h1, fun hne => absurd rfl hne⟩
    | B => exact ⟨fun hc => (by cases hc), fun _ => h2⟩
  | B =>
    obtain ⟨n₁, hn, rfl⟩ := Option.map_eq_some_iff.mp hs
    obtain ⟨h1, h2⟩ := act_loops hn
    cases q with
    | A => exact ⟨fun hc => (by cases hc), fun _ => h2⟩
    | B => exact ⟨fun _ => h1, fun hne => absurd rfl hne⟩

/-- What the turns of a loop keep, a run keeps. -/
theorem run_loop {I : Loop σ ω → Prop} {ok : Event ι → Prop}
    (hturn : ∀ {l l' : Loop σ ω} {e : Event ι}, ok e → I l → turn ad l e = some l' → I l') {q : Network.Party}
    (hok : ∀ e ∈ es, ok e.2) (h : I (n.loop q)) (hr : Runs.run (step ad toB toA) n es = some n') : I (n'.loop q) := by
  have hall : Runs.Along (step ad toB toA) (fun _ e => ok e.2) n es := Runs.along_of_forall hok
  refine Runs.run_along (I := fun n => I (n.loop q)) (fun n e n' h hok hs => ?_) h hall hr
  by_cases hq : q = e.1
  · exact hturn hok h ((step_loop hs).1 hq)
  · exact (step_loop hs).2 hq ▸ h

/-- On the way a pass of this party ended its loop. -/
def Left (ad : AdaptT σ ι ω) (toB toA : ω → Option ι) (n : Sockets σ ω) (es : List (Network.Party × Event ι))
    (q : Network.Party) : Prop :=
  ∃ before e after n₁, es = before ++ (q, e) :: after ∧ Runs.run (step ad toB toA) n before = some n₁ ∧
    Leaves ad (n₁.loop q) e

/-- **A loop that nothing stops from outside is left only when its owner was
told that the inbound stream is over.** -/
theorem shut_of_left (hquiet : ∀ e ∈ es, Quiet e.2) {q : Network.Party} (h : Live (n.loop q))
    (hr : Runs.run (step ad toB toA) n es = some n') (hleft : Left ad toB toA n es q) :
    (n'.loop q).host.socket.inboundShutdown = true := by
  obtain ⟨before, e, after, n₁, rfl, h1, hl⟩ := hleft
  obtain ⟨n₁', h1', h2⟩ := Runs.run_append_eq_some.mp hr
  obtain rfl := Option.some.inj (h1.symm.trans h1')
  obtain ⟨n₂, hs, h3⟩ := Runs.run_cons.mp h2
  have hlive : Live (n₁.loop q) := run_loop turn_live (fun f hf => hquiet f (List.mem_append_left _ hf)) h h1
  have he : Quiet e := hquiet (q, e) (List.mem_append_right _ List.mem_cons_self)
  have hshut : (n₂.loop q).host.socket.inboundShutdown = true :=
    turn_shut_of_leaves he hlive hl ((step_loop hs).1 rfl)
  have hstays : ∀ {l l' : Loop σ ω} {e : Event ι}, True → l.host.socket.inboundShutdown = true →
      turn ad l e = some l' → l'.host.socket.inboundShutdown = true := fun _ h hs => turn_stays_shut h hs
  exact run_loop hstays (fun _ _ => trivial) hshut h3

/-! ### Both loops -/

theorem start_live (x y : Opening σ ω) (q : Network.Party) : Live ((start x y).loop q) := by
  have hlive : ∀ z : Opening σ ω, Live (TCPSpongeSocket.start z.how z.cfg z.isn z.adapter z.written) := by
    intro z
    refine ⟨?_, rfl, fun r _ => ?_⟩
    · rcases z with ⟨how, cfg, isn, a, w⟩
      cases how with
      | connect => exact fun hc => absurd hc.symm Bool.false_ne_true
      | listenAndAccept => exact fun hc => absurd hc.symm Bool.false_ne_true
    · show r ∈ [RuleName.rule1, .rule2, .rule3, .rule4]
      cases r <;> decide
  cases q with
  | A => exact hlive x
  | B => exact hlive y

theorem run_seen {x y : Opening σ ω} (hquiet : ∀ e ∈ es, Quiet e.2)
    (hr : Runs.run (step ad toB toA) (start x y) es = some n) : Seen n.a.host ∧ Seen n.b.host := by
  have hstart : ∀ q, Seen ((start x y).loop q).host ∧ TCPSpongeSocket.Ordered ((start x y).loop q).rules := by
    intro q
    cases q with
    | A => exact ⟨fun hc => absurd hc Bool.false_ne_true, List.Sublist.refl _⟩
    | B => exact ⟨fun hc => absurd hc Bool.false_ne_true, List.Sublist.refl _⟩
  have hseen := fun q => (run_loop turn_seen hquiet (hstart q) hr).1
  exact ⟨hseen .A, hseen .B⟩

end Sockets

/-! ### The programs -/

/-- The two threads of a program. -/
structure Program (σ ω : Type) where
  copy : StreamCopy.Loop
  tcp : TCPSpongeSocket σ ω

namespace Program

open EventLoop Runs TCPSpongeSocket

variable {σ ι ω : Type}

/-- What the socket pair between them promises at any moment: what was read at
one end is the beginning of what was written at the other. -/
structure Joined (p : Program σ ω) : Prop where
  outbound : p.tcp.taken <+: p.copy.copy.socket.put
  inbound : p.copy.copy.socket.got <+: p.tcp.given

/-- And what it promises of the ends: each is read only after all that was
written, and once it was shut down. The owner's end for writing is shut down by
the copy loop, or by `wait_until_closed` when that has returned; for reading by
the loop of the socket, or by `_tcp_main` when it was left (`left`). -/
structure Ended (p : Program σ ω) (left : Prop) : Prop where
  outbound : p.tcp.socket.threadDataEof = true → p.tcp.taken = p.copy.copy.socket.put ∧
    (p.copy.copy.outboundShutdown = true ∨ p.copy.returned = true)
  inbound : p.copy.copy.socket.eof = true → p.copy.copy.socket.got = p.tcp.given ∧
    (p.tcp.socket.inboundShutdown = true ∨ left)

/-- What `q` shows was typed at `p`. -/
def Shows (p q : Program σ ω) : Prop := q.copy.copy.output.put <+: p.copy.copy.input.got

/-- Once `q` has closed its output without an error, it showed all of it. -/
def Copied (p q : Program σ ω) : Prop :=
  q.copy.copy.inboundShutdown = true → q.tcp.socket.tcp.inboundStream.error = false →
    p.copy.copy.input.eof = true ∧ q.copy.copy.output.put = p.copy.copy.input.got

variable {p q : Program σ ω} {sound sound' left left' : Prop}

theorem shows (hp : StreamCopy.Copies sound p.copy) (hq : StreamCopy.Copies sound' q.copy) (hx : p.Joined)
    (hy : q.Joined) (hd : Sockets.Delivers p.tcp q.tcp) : Shows p q :=
  calc q.copy.copy.output.put
    _ <+: q.copy.copy.socket.got := (List.prefix_append _ _).trans hq.inbound.inv.isPrefix
    _ <+: q.tcp.given := hy.inbound
    _ <+: p.tcp.taken := hd.1
    _ <+: p.copy.copy.socket.put := hx.outbound
    _ <+: p.copy.copy.input.got := (List.prefix_append _ _).trans hp.outbound.inv.isPrefix

theorem copied (hp : StreamCopy.Copies True p.copy) (hq : StreamCopy.Copies True q.copy) (hx : p.Ended left)
    (hy : q.Ended left') (hd : Sockets.Delivers p.tcp q.tcp) (hseen : Seen p.tcp)
    (hleft : left' → q.tcp.socket.inboundShutdown = true) : Copied p q := by
  intro hshut herr
  -- backwards from the output: each end was passed on from the one before
  obtain ⟨hput, heof⟩ := hq.inbound.inv.shut_all trivial hshut
  obtain ⟨hgot, hpassed⟩ := hy.inbound heof
  obtain ⟨hended, hgiven⟩ := hd.2 (hpassed.elim id hleft) herr
  obtain ⟨htaken, hdone⟩ := hx.outbound (hseen hended)
  have hdone : p.copy.copy.outboundShutdown = true := hdone.elim id fun hret => (hp.shut_of_returned trivial hret).1
  obtain ⟨hsent, htyped⟩ := hp.outbound.inv.shut_all trivial hdone
  refine ⟨htyped, ?_⟩
  calc q.copy.copy.output.put
    _ = q.copy.copy.socket.got := hput
    _ = q.tcp.given := hgot
    _ = p.tcp.taken := hgiven
    _ = p.copy.copy.socket.put := htaken
    _ = p.copy.copy.input.got := hsent

/-- Both directions of two programs. -/
theorem stdin_to_stdout [DecidableEq ι] {J : List TCPSegment → σ → List ω → Prop} {ad : AdaptT σ ι ω}
    {toB toA : ω → Option ι} (hB : ad.Faithful toB J) (hA : ad.Faithful toA J) {u v : Sockets.Opening σ ω}
    (hu : J [] u.adapter u.written) (hv : J [] v.adapter v.written) {es : List (Network.Party × Event ι)}
    {n : Sockets σ ω} (hr : run (Sockets.step ad toB toA) (Sockets.start u v) es = some n)
    (hb : Sockets.Bounded n) {eventsA eventsB : List StreamCopy.Event} {l l' : StreamCopy.Loop}
    (hl : run StreamCopy.turn StreamCopy.start eventsA = some l)
    (hl' : run StreamCopy.turn StreamCopy.start eventsB = some l') (hx : Joined ⟨l, n.a.host⟩)
    (hy : Joined ⟨l', n.b.host⟩) :
    (Shows ⟨l, n.a.host⟩ ⟨l', n.b.host⟩ ∧ Shows ⟨l', n.b.host⟩ ⟨l, n.a.host⟩) ∧
    ((∀ e ∈ es, Quiet e.2) → (∀ e ∈ eventsA, StreamCopy.Sound e) → (∀ e ∈ eventsB, StreamCopy.Sound e) →
      Ended ⟨l, n.a.host⟩ (Sockets.Left ad toB toA (Sockets.start u v) es .A) →
      Ended ⟨l', n.b.host⟩ (Sockets.Left ad toB toA (Sockets.start u v) es .B) →
      Copied ⟨l, n.a.host⟩ ⟨l', n.b.host⟩ ∧ Copied ⟨l', n.b.host⟩ ⟨l, n.a.host⟩) := by
  have hd := (Sockets.run_kept hB hA hu hv hr hb).delivers
  have hcopies : ∀ {events l}, run StreamCopy.turn StreamCopy.start events = some l → StreamCopy.Copies False l :=
    fun hr => run_invariant (fun _ _ _ h hs => StreamCopy.turn_copies False.elim h hs)
      (StreamCopy.start_copies False) hr
  refine ⟨⟨shows (hcopies hl) (hcopies hl') hx hy hd.1, shows (hcopies hl') (hcopies hl) hy hx hd.2⟩, ?_⟩
  intro hquiet hsound hsound' hx' hy'
  have hseen := Sockets.run_seen hquiet hr
  have hshut := fun q => Sockets.shut_of_left (q := q) hquiet (Sockets.start_live u v q) hr
  have hl := StreamCopy.run_sound hsound hl
  have hl' := StreamCopy.run_sound hsound' hl'
  exact ⟨copied hl hl' hx' hy' hd.1 hseen.1 (hshut .B), copied hl' hl hy' hx' hd.2 hseen.2 (hshut .A)⟩

/-! ### Over UDP -/

/-- **`tcp_udp`**: what is typed at one end is what is shown at the other. -/
theorem udp_stdin_to_stdout {addrA addrB : Address} {howA howB : SpongeSocket.Open} {cfgA cfgB : TCPConfig}
    {isnA isnB : WrappingInt32} {a b : LossyFdAdapter TCPOverUDPSocketAdapter}
    {es : List (Network.Party × Event ReceivedDatagram)}
    {n : Sockets (LossyFdAdapter TCPOverUDPSocketAdapter) (Address × Bytes)}
    (hr : run (Sockets.step udpAdapter.lossy (udpCarry addrA addrB) (udpCarry addrB addrA))
      (Sockets.start (Sockets.opening howA cfgA isnA a) (Sockets.opening howB cfgB isnB b)) es = some n)
    (hb : Sockets.Bounded n) {eventsA eventsB : List StreamCopy.Event} {l l' : StreamCopy.Loop}
    (hl : run StreamCopy.turn StreamCopy.start eventsA = some l)
    (hl' : run StreamCopy.turn StreamCopy.start eventsB = some l') (hx : Joined ⟨l, n.a.host⟩)
    (hy : Joined ⟨l', n.b.host⟩) :
    (Shows ⟨l, n.a.host⟩ ⟨l', n.b.host⟩ ∧ Shows ⟨l', n.b.host⟩ ⟨l, n.a.host⟩) ∧
    ((∀ e ∈ es, Quiet e.2) → (∀ e ∈ eventsA, StreamCopy.Sound e) → (∀ e ∈ eventsB, StreamCopy.Sound e) →
      let left := Sockets.Left udpAdapter.lossy (udpCarry addrA addrB) (udpCarry addrB addrA)
        (Sockets.start (Sockets.opening howA cfgA isnA a) (Sockets.opening howB cfgB isnB b)) es
      Ended ⟨l, n.a.host⟩ (left .A) → Ended ⟨l', n.b.host⟩ (left .B) →
        Copied ⟨l, n.a.host⟩ ⟨l', n.b.host⟩ ∧ Copied ⟨l', n.b.host⟩ ⟨l, n.a.host⟩) := by
  have hnone : ∀ a : LossyFdAdapter TCPOverUDPSocketAdapter, UdpCarries [] a.adapter [] :=
    fun _ _ h => absurd h List.not_mem_nil
  exact stdin_to_stdout (udp_faithful addrA addrB).lossy (udp_faithful addrB addrA).lossy (hnone a) (hnone b) hr hb
    hl hl' hx hy

/-- Two bytes are typed, and that is all. -/
def typed : List StreamCopy.Event :=
  let poll : Poll StreamCopy.RuleName := .events fun r => { ready := decide (r = .rule1 ∨ r = .rule2) }
  [⟨poll, { readInput := .ok [97, 98] }⟩, ⟨poll, { writeSocket := .ok 2 }⟩]

/-- They are shown, and the output is closed. -/
def shown : List StreamCopy.Event :=
  let poll : Poll StreamCopy.RuleName := .events fun r => { ready := decide (r = .rule3 ∨ r = .rule4) }
  [⟨poll, { readSocket := .ok [97, 98] }⟩, ⟨poll, { writeOutput := .ok 2 }⟩]

theorem typed_isSome : (run StreamCopy.turn StreamCopy.start typed).isSome = true := by decide +kernel

theorem shown_isSome : (run StreamCopy.turn StreamCopy.start shown).isSome = true := by decide +kernel

theorem typed_sound : ∀ e ∈ typed, StreamCopy.Sound e := by
  simp [typed, StreamCopy.sound_of_ready]

theorem shown_sound : ∀ e ∈ shown, StreamCopy.Sound e := by
  simp [shown, StreamCopy.sound_of_ready]

/-- In a script nothing hangs up. -/
theorem script_quiet [DecidableEq ι] {ad : AdaptT σ ι ω} {toB toA : ω → Option ι} :
    ∀ (moves : List Sockets.Move) (n : Sockets σ ω), ∀ e ∈ Sockets.script ad toB toA n moves, Quiet e.2
  | [], _ => fun _ h => absurd h List.not_mem_nil
  | m :: moves, n => by
    have hmove : ∀ (carry : ω → Option ι) (written : List ω), Quiet (m.event carry written) := by
      intro carry written
      refine ⟨nofun, rfl, fun revents hp r hhup => ?_⟩
      obtain rfl := Poll.events.inj hp
      exact absurd hhup Bool.false_ne_true
    intro e he
    rcases List.mem_cons.mp he with rfl | he
    · rcases m with ⟨party, _, _, _, _⟩
      cases party <;> exact hmove _ _
    · generalize Sockets.step ad toB toA n _ = next at he
      cases next with
      | none => exact absurd he List.not_mem_nil
      | some n' => exact script_quiet moves n' e he

theorem udp_stdin_to_stdout_typed : ∃ l l' n,
    run StreamCopy.turn StreamCopy.start typed = some l ∧ run StreamCopy.turn StreamCopy.start shown = some l' ∧
    run (Sockets.step udpAdapter.lossy (udpCarry Sockets.hostA Sockets.hostB)
      (udpCarry Sockets.hostB Sockets.hostA)) Sockets.udpStart Sockets.udpRun = some n ∧
    l'.copy.output.put = [97, 98] ∧ l'.copy.inboundShutdown = true ∧
    (Shows ⟨l, n.a.host⟩ ⟨l', n.b.host⟩ ∧ Shows ⟨l', n.b.host⟩ ⟨l, n.a.host⟩) ∧
    Copied ⟨l, n.a.host⟩ ⟨l', n.b.host⟩ ∧ Copied ⟨l', n.b.host⟩ ⟨l, n.a.host⟩ := by
  have hl := (Option.some_get typed_isSome).symm
  have hl' := (Option.some_get shown_isSome).symm
  have hr := (Option.some_get Sockets.udpRun_isSome).symm
  have h := udp_stdin_to_stdout hr ⟨by decide +kernel, by decide +kernel⟩ hl hl'
    ⟨by decide +kernel, by decide +kernel⟩ ⟨by decide +kernel, by decide +kernel⟩
  have hcopied := h.2 (script_quiet _ _) typed_sound shown_sound
    ⟨fun _ => ⟨by decide +kernel, by decide +kernel⟩, fun hc => absurd hc (by decide +kernel)⟩
    ⟨fun hc => absurd hc (by decide +kernel), fun _ => ⟨by decide +kernel, Or.inl (by decide +kernel)⟩⟩
  exact ⟨_, _, _, hl, hl', hr, by decide +kernel, by decide +kernel, h.1, hcopied⟩

end Program
end Sponge

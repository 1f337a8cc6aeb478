/-
# The router

`router.hh` and `router.cc`: interfaces that queue the datagrams they receive,
and routes by longest prefix. A datagram that the parser accepted although its
version or header length is wrong makes the call throw that would put it into
a frame: `route`, if its next hop is known, or else the `recv_frame` that
brings the next hop's ARP message. Nothing else throws.

Key definitions: `Router.bestRoute`, `Router.routeOne`, `Router.route`,
`Router.exec`, `Router.SentAtOnce`, `Router.Forwardable`.
Key theorems: `Router.routeOne_spec`, `Router.routeFrom_spec`,
`Router.exec_ok_iff`, `Router.no_throw_iff`.
-/
import Sponge.NetworkInterface

namespace Sponge

/-- An interface with a queue of the datagrams it received. -/
structure AsyncNetworkInterface where
  interface : NetworkInterface
  datagramsOut : List IPv4Datagram
  deriving DecidableEq

def AsyncNetworkInterface.recvFrame (a : AsyncNetworkInterface) (frame : EthernetFrame) :
    Result Unit × AsyncNetworkInterface :=
  match a.interface.recvFrame frame with
  | (.error e, interface) => (.error e, { a with interface })
  | (.ok (some dgram), interface) => (.ok (), { interface, datagramsOut := a.datagramsOut ++ [dgram] })
  | (.ok none, interface) => (.ok (), { a with interface })

structure Route where
  routePrefix : UInt32
  prefixLength : UInt8
  nextHop : Option UInt32
  interfaceNum : ℕ
  deriving DecidableEq

/-- The mask, computed in 64 bits. -/
def Route.mask (r : Route) : UInt32 := ((0xFFFFFFFF : UInt64) <<< (32 - r.prefixLength).toUInt64).toUInt32

/-- The route is for this destination. -/
def Route.covers (r : Route) (dest : UInt32) : Bool := dest &&& r.mask == r.routePrefix &&& r.mask

structure Router where
  routes : List Route
  interfaces : List AsyncNetworkInterface
  deriving DecidableEq

namespace Router

/-- The routes and the interfaces, as they are before the first frame. -/
def init (routes : List Route) (addresses : List (EthernetAddress × UInt32)) : Router where
  routes := routes
  interfaces := addresses.map fun a => ⟨NetworkInterface.init a.1 a.2, []⟩

/-- The loop that looks for the longest prefix; of equal ones the first stays. -/
def bestRoute (routes : List Route) (dest : UInt32) : Option Route :=
  routes.foldl (fun best r =>
    if r.covers dest then
      match best with
      | none => some r
      | some b => if b.prefixLength < r.prefixLength then some r else some b
    else best) none

/-- `route_one_datagram`: what it throws, the datagram it was given, as it is
afterwards, and the router. -/
def routeOne (r : Router) (dgram : IPv4Datagram) : Result Unit × IPv4Datagram × Router :=
  match bestRoute r.routes dgram.header.dst with
  | none => (.ok (), dgram, r)
  | some best =>
    if dgram.header.ttl = 0 then (.ok (), dgram, r)
    else
      let dgram := { dgram with header := { dgram.header with ttl := dgram.header.ttl - 1 } }
      if dgram.header.ttl = 0 then (.ok (), dgram, r)
      else
        match r.interfaces[best.interfaceNum]? with
        | none => (.error (.outOfRange "vector::at"), dgram, r)
        | some a =>
          let sent := a.interface.sendDatagram dgram (best.nextHop.getD dgram.header.dst)
          (sent.1, dgram, { r with interfaces := r.interfaces.set best.interfaceNum { a with interface := sent.2 } })

def queue (r : Router) (k : ℕ) : List IPv4Datagram :=
  ((r.interfaces[k]?).map AsyncNetworkInterface.datagramsOut).getD []

def setQueue (r : Router) (k : ℕ) (datagramsOut : List IPv4Datagram) : Router :=
  { r with interfaces := r.interfaces.modify k fun a => { a with datagramsOut } }

/-- The loop over the queue of interface `k`; a datagram is popped once it is routed. -/
def routeQueue (k : ℕ) (r : Router) : List IPv4Datagram → Result Unit × Router
  | [] => (.ok (), r)
  | dgram :: dgrams =>
    match r.routeOne dgram with
    | (.error e, dgram, r) => (.error e, r.setQueue k (dgram :: dgrams))
    | (.ok _, _, r) => routeQueue k (r.setQueue k dgrams) dgrams

/-- The loop over the interfaces. -/
def routeFrom (r : Router) : List ℕ → Result Unit × Router
  | [] => (.ok (), r)
  | k :: ks =>
    match routeQueue k r (r.queue k) with
    | (.error e, r) => (.error e, r)
    | (.ok _, r) => r.routeFrom ks

def route (r : Router) : Result Unit × Router := r.routeFrom (List.range r.interfaces.length)

/-! ### Runs of a router -/

/-- A frame, its payload in one buffer, and time, for interface `i`. -/
inductive Op where
  | recv (i : ℕ) (header : EthernetHeader) (payload : Bytes)
  | tick (i : ℕ) (ms : ℕ) (order : List UInt32)
  | route
  deriving DecidableEq

/-- What a call throws, and the router after; `none` is a call that cannot be. -/
def exec (r : Router) : Op → Option (Result Unit × Router)
  | .recv i header payload => r.interfaces[i]?.map fun a =>
      let a' := a.recvFrame { header, payload := [payload] }
      (a'.1, { r with interfaces := r.interfaces.set i a'.2 })
  | .tick i ms order => r.interfaces[i]?.bind fun a =>
      if order.Perm a.interface.pendingDatagrams.keys then
        let ni := a.interface.tick ms order
        some (ni.1, { r with interfaces := r.interfaces.set i { a with interface := ni.2 } })
      else none
  | .route => some r.route

def step (r : Router) (op : Op) : Option Router := (r.exec op).map Prod.snd

/-- Routing the datagram puts it into a frame: it has a route, its TTL lasts,
and the next hop's address is known. -/
def SentAtOnce (r : Router) (dgram : IPv4Datagram) : Prop :=
  ∃ best a, bestRoute r.routes dgram.header.dst = some best ∧ 2 ≤ dgram.header.ttl ∧
    r.interfaces[best.interfaceNum]? = some a ∧
    (a.interface.live (best.nextHop.getD dgram.header.dst)).isSome = true

/-- Every datagram the interface holds has the size its header says. -/
structure Held (a : AsyncNetworkInterface) : Prop where
  queue : ∀ dgram ∈ a.datagramsOut, dgram.Sized
  pending : ∀ x, ∀ dgram ∈ a.interface.pending x, dgram.Sized

structure WF (r : Router) : Prop where
  held : ∀ a ∈ r.interfaces, Held a
  routes : ∀ route ∈ r.routes, route.interfaceNum < r.interfaces.length

def tables (r : Router) : List (Table UInt32 ARPEntry) := r.interfaces.map fun a => a.interface.arpTable

/-- Routing changes neither the routes nor the tables. -/
structure Same (r r' : Router) : Prop where
  routes : r'.routes = r.routes
  tables : r'.tables = r.tables

variable {r r' r'' : Router}

theorem Same.refl (r : Router) : Same r r := ⟨rfl, rfl⟩

theorem Same.trans (h : Same r r') (h' : Same r' r'') : Same r r'' :=
  ⟨h'.routes.trans h.routes, h'.tables.trans h.tables⟩

/-- Whether a datagram is sent at once depends on the routes and tables. -/
theorem Same.sentAtOnce (h : Same r r') (dgram : IPv4Datagram) : r'.SentAtOnce dgram ↔ r.SentAtOnce dgram := by
  have key : ∀ r : Router, r.SentAtOnce dgram ↔ ∃ best t, bestRoute r.routes dgram.header.dst = some best ∧
      2 ≤ dgram.header.ttl ∧ r.tables[best.interfaceNum]? = some t ∧
      ((t.lookup (best.nextHop.getD dgram.header.dst)).filter fun e => 0 < e.ttl).isSome = true := by
    intro r
    constructor
    · rintro ⟨best, a, h1, h2, h3, h4⟩
      exact ⟨best, _, h1, h2, by rw [Router.tables, List.getElem?_map, h3]; rfl, h4⟩
    · rintro ⟨best, t, h1, h2, h3, h4⟩
      rw [Router.tables, List.getElem?_map] at h3
      obtain ⟨a, h5, rfl⟩ := Option.map_eq_some_iff.mp h3
      exact ⟨best, a, h1, h2, h5, h4⟩
  rw [key r, key r', h.routes, h.tables]

theorem bestRoute_mem {routes : List Route} {dest : UInt32} {best : Route} (h : bestRoute routes dest = some best) :
    best ∈ routes := by
  have key : ∀ (rs : List Route) (o : Option Route), (∀ b ∈ o, b ∈ routes) → (∀ b ∈ rs, b ∈ routes) →
      ∀ b ∈ rs.foldl (fun best r =>
        if r.covers dest then
          match best with
          | none => some r
          | some b => if b.prefixLength < r.prefixLength then some r else some b
        else best) o, b ∈ routes := by
    intro rs
    induction rs with
    | nil => exact fun o ho _ => ho
    | cons r rs ih =>
      intro o ho hrs
      rw [List.foldl_cons]
      refine ih _ ?_ fun b hb => hrs b (List.mem_cons_of_mem _ hb)
      have hr := hrs r List.mem_cons_self
      cases o with
      | none => split_ifs <;> simp [hr]
      | some b₀ =>
        have hb := ho b₀ rfl
        dsimp only
        split_ifs <;> simp [hr, hb]
  exact key routes none (by simp) (fun _ hb => hb) best h

/-- Replacing an entry by one that agrees with it. -/
theorem set_map_eq {α β : Type} {g : α → β} {l : List α} {n : ℕ} {a a' : α} (h : l[n]? = some a) (hg : g a' = g a) :
    (l.set n a').map g = l.map g := by
  apply List.ext_getElem?
  intro i
  rw [List.getElem?_map, List.getElem?_map]
  by_cases hi : n = i
  · subst hi
    rw [List.getElem?_set_self (List.getElem?_eq_some_iff.mp h).1, h]
    exact congrArg some hg
  · rw [List.getElem?_set_ne hi]

theorem queue_eq_map (r : Router) (k : ℕ) :
    r.queue k = ((r.interfaces.map AsyncNetworkInterface.datagramsOut)[k]?).getD [] := by
  rw [queue, List.getElem?_map]

/-- An interface is replaced by one that holds datagrams of the right size too. -/
theorem WF.set (h : WF r) {n : ℕ} {a : AsyncNetworkInterface} (ha : Held a) :
    WF { r with interfaces := r.interfaces.set n a } where
  held := by
    intro b hb
    rcases List.mem_or_eq_of_mem_set hb with hb | rfl
    · exact h.held b hb
    · exact ha
  routes := by
    show ∀ route ∈ r.routes, route.interfaceNum < (r.interfaces.set n a).length
    rw [List.length_set]
    exact h.routes

theorem setQueue_spec (h : WF r) {k : ℕ} {dgrams : List IPv4Datagram} (hd : ∀ dgram ∈ dgrams, dgram.Sized) :
    Same r (r.setQueue k dgrams) ∧ WF (r.setQueue k dgrams) ∧
      ∀ k', k' ≠ k → (r.setQueue k dgrams).queue k' = r.queue k' := by
  unfold setQueue
  rw [List.modify_eq_set_getElem?]
  cases hk : r.interfaces[k]? with
  | none => exact ⟨Same.refl r, h, fun _ _ => rfl⟩
  | some a =>
    refine ⟨⟨rfl, set_map_eq hk rfl⟩, h.set ⟨hd, (h.held a (List.mem_of_getElem? hk)).pending⟩, fun k' hne => ?_⟩
    show ((r.interfaces.set k _)[k']?.map _).getD [] = _
    rw [List.getElem?_set_ne (Ne.symm hne)]
    rfl

/-! ### Routing -/

theorem ttl_iff (ttl : UInt8) : 2 ≤ ttl ↔ ttl ≠ 0 ∧ ttl - 1 ≠ 0 := by
  have hlt := ttl.toNat_lt
  simp only [ne_eq, ← UInt8.toNat_inj, UInt8.le_iff_toNat_le, UInt8.toNat_sub]
  simp
  omega

/-- Counting the TTL down changes nothing that the serializer looks at. -/
theorem serializable_ttl {dgram : IPv4Datagram} (hd : dgram.Sized) (ttl : UInt8) :
    IPv4Datagram.serializable { dgram with header := { dgram.header with ttl } } = true ↔ dgram.header.Plausible := by
  rw [IPv4Datagram.serializable, decide_eq_true_iff]
  exact and_iff_right hd

/-- Routing one datagram throws iff it is sent at once and its header cannot be
serialized. -/
theorem routeOne_spec (h : WF r) {dgram : IPv4Datagram} (hd : dgram.Sized) :
    Same r (r.routeOne dgram).2.2 ∧ WF (r.routeOne dgram).2.2 ∧ (r.routeOne dgram).2.1.Sized ∧
      (∀ k, (r.routeOne dgram).2.2.queue k = r.queue k) ∧
      ((r.routeOne dgram).1 = .ok () ↔ (r.SentAtOnce dgram → dgram.header.Plausible)) := by
  have idle : ∀ {d : IPv4Datagram}, d.Sized → ¬ r.SentAtOnce dgram → r.routeOne dgram = (.ok (), d, r) →
      Same r (r.routeOne dgram).2.2 ∧ WF (r.routeOne dgram).2.2 ∧ (r.routeOne dgram).2.1.Sized ∧
        (∀ k, (r.routeOne dgram).2.2.queue k = r.queue k) ∧
        ((r.routeOne dgram).1 = .ok () ↔ (r.SentAtOnce dgram → dgram.header.Plausible)) := by
    intro d hds hn heq
    rw [heq]
    exact ⟨Same.refl r, h, hds, fun _ => rfl, fun _ hc => absurd hc hn, fun _ => rfl⟩
  have hbest : ∀ best, bestRoute r.routes dgram.header.dst = some best →
      ∃ a, r.interfaces[best.interfaceNum]? = some a := by
    intro best hb
    exact ⟨_, List.getElem?_eq_getElem (h.routes best (bestRoute_mem hb))⟩
  cases hb : bestRoute r.routes dgram.header.dst with
  | none =>
    refine idle hd (fun ⟨best, a, h1, _⟩ => ?_) (by simp only [routeOne, hb])
    rw [hb] at h1
    cases h1
  | some best =>
    by_cases httl : 2 ≤ dgram.header.ttl
    · obtain ⟨h0, h1⟩ := (ttl_iff _).mp httl
      obtain ⟨a, ha⟩ := hbest best hb
      set dgram' : IPv4Datagram := { dgram with header := { dgram.header with ttl := dgram.header.ttl - 1 } }
      set nextHop := best.nextHop.getD dgram.header.dst
      have heq : r.routeOne dgram = ((a.interface.sendDatagram dgram' nextHop).1, dgram',
          ⟨r.routes, r.interfaces.set best.interfaceNum
            ⟨(a.interface.sendDatagram dgram' nextHop).2, a.datagramsOut⟩⟩) := by
        unfold routeOne
        simp only [hb, h0, h1, ha, ↓reduceIte]
        rfl
      obtain ⟨hok, harp, hpend⟩ := NetworkInterface.sendDatagram_spec a.interface dgram' nextHop
      have hheld := h.held a (List.mem_of_getElem? ha)
      rw [heq]
      refine ⟨⟨rfl, set_map_eq ha harp⟩, h.set ⟨hheld.queue, fun x d hm => ?_⟩, hd, fun k => ?_, ?_⟩
      · rcases hpend x d hm with hm | rfl
        · exact hheld.pending x d hm
        · exact hd
      · rw [queue_eq_map, queue_eq_map]
        exact congrArg (fun l : List (List IPv4Datagram) => (l[k]?).getD []) (set_map_eq ha rfl)
      · rw [hok, serializable_ttl hd]
        refine imp_congr_left ⟨fun hl => ⟨best, a, hb, httl, ha, hl⟩, ?_⟩
        rintro ⟨best', a', h2, -, h3, h4⟩
        obtain rfl := Option.some.inj (hb.symm.trans h2)
        obtain rfl := Option.some.inj (ha.symm.trans h3)
        exact h4
    · have hn : ¬ r.SentAtOnce dgram := fun ⟨_, _, _, h2, _⟩ => httl h2
      by_cases h0 : dgram.header.ttl = 0
      · exact idle hd hn (by simp only [routeOne, hb, h0, ↓reduceIte])
      · have h1 : dgram.header.ttl - 1 = 0 := by
          by_contra hc
          exact httl ((ttl_iff _).mpr ⟨h0, hc⟩)
        refine idle (d := { dgram with header := { dgram.header with ttl := dgram.header.ttl - 1 } }) hd hn ?_
        unfold routeOne
        simp only [hb, h0, h1, ↓reduceIte]

/-- The loop over a queue throws iff one of its datagrams does. -/
theorem routeQueue_spec (k : ℕ) {dgrams : List IPv4Datagram} (h : WF r) (hd : ∀ dgram ∈ dgrams, dgram.Sized) :
    Same r (routeQueue k r dgrams).2 ∧ WF (routeQueue k r dgrams).2 ∧
      (∀ k', k' ≠ k → (routeQueue k r dgrams).2.queue k' = r.queue k') ∧
      ((routeQueue k r dgrams).1 = .ok () ↔ ∀ dgram ∈ dgrams, r.SentAtOnce dgram → dgram.header.Plausible) := by
  induction dgrams generalizing r with
  | nil => exact ⟨Same.refl r, h, fun _ _ => rfl, fun _ dgram hm => absurd hm List.not_mem_nil, fun _ => rfl⟩
  | cons dgram dgrams ih =>
    obtain ⟨h1, h2, h3, h4, h5⟩ := routeOne_spec h (hd dgram List.mem_cons_self)
    have hrest : ∀ d ∈ dgrams, d.Sized := fun d hm => hd d (List.mem_cons_of_mem _ hm)
    cases ho : r.routeOne dgram with
    | mk res rest =>
      obtain ⟨dgram', r₁⟩ := rest
      rw [ho] at h1 h2 h3 h4 h5
      cases res with
      | error e =>
        have hfront : ∀ d ∈ dgram' :: dgrams, d.Sized := by
          intro d hm
          rcases List.mem_cons.mp hm with rfl | hm
          · exact h3
          · exact hrest d hm
        obtain ⟨g1, g2, g3⟩ := setQueue_spec (k := k) h2 hfront
        have heq : routeQueue k r (dgram :: dgrams) = (.error e, r₁.setQueue k (dgram' :: dgrams)) := by
          rw [routeQueue, ho]
        rw [heq]
        refine ⟨h1.trans g1, g2, fun k' hk => (g3 k' hk).trans (h4 k'), fun hc => ?_, fun hc => ?_⟩
        · cases hc
        · cases h5.mpr (hc dgram List.mem_cons_self)
      | ok u =>
        obtain ⟨g1, g2, g3⟩ := setQueue_spec (k := k) h2 hrest
        have heq : routeQueue k r (dgram :: dgrams) = routeQueue k (r₁.setQueue k dgrams) dgrams := by
          rw [routeQueue, ho]
        obtain ⟨i1, i2, i3, i4⟩ := ih g2 hrest
        have hsame := h1.trans g1
        rw [heq]
        refine ⟨hsame.trans i1, i2, fun k' hk => (i3 k' hk).trans ((g3 k' hk).trans (h4 k')), i4.trans ?_⟩
        simp only [hsame.sentAtOnce, List.forall_mem_cons]
        exact (and_iff_right (h5.mp rfl)).symm

/-- The loop over the interfaces throws iff one of the queued datagrams does. -/
theorem routeFrom_spec {ks : List ℕ} (hn : ks.Nodup) (h : WF r) :
    Same r (r.routeFrom ks).2 ∧ WF (r.routeFrom ks).2 ∧
      ((r.routeFrom ks).1 = .ok () ↔
        ∀ k ∈ ks, ∀ dgram ∈ r.queue k, r.SentAtOnce dgram → dgram.header.Plausible) := by
  induction ks generalizing r with
  | nil => exact ⟨Same.refl r, h, fun _ k hm => absurd hm List.not_mem_nil, fun _ => rfl⟩
  | cons k ks ih =>
    obtain ⟨hk, hn⟩ := List.nodup_cons.mp hn
    have hd : ∀ dgram ∈ r.queue k, dgram.Sized := by
      intro dgram hm
      unfold queue at hm
      cases ha : r.interfaces[k]? with
      | none =>
        rw [ha] at hm
        cases hm
      | some a =>
        rw [ha] at hm
        exact (h.held a (List.mem_of_getElem? ha)).queue dgram hm
    obtain ⟨h1, h2, h3, h4⟩ := routeQueue_spec k h hd
    cases ho : routeQueue k r (r.queue k) with
    | mk res r₁ =>
      rw [ho] at h1 h2 h3 h4
      cases res with
      | error e =>
        have heq : r.routeFrom (k :: ks) = (.error e, r₁) := by rw [routeFrom, ho]
        rw [heq]
        refine ⟨h1, h2, fun hc => ?_, fun hc => ?_⟩
        · cases hc
        · cases h4.mpr (hc k List.mem_cons_self)
      | ok u =>
        have heq : r.routeFrom (k :: ks) = r₁.routeFrom ks := by rw [routeFrom, ho]
        obtain ⟨i1, i2, i3⟩ := ih hn h2
        have hq : ∀ k' ∈ ks, r₁.queue k' = r.queue k' := fun k' hm => h3 k' fun hc => hk (hc ▸ hm)
        rw [heq]
        refine ⟨h1.trans i1, i2, i3.trans ?_⟩
        simp only [h1.sentAtOnce, List.forall_mem_cons]
        rw [and_iff_right (h4.mp rfl)]
        exact forall₂_congr fun k' hm => by rw [hq k' hm]

/-! ### The calls -/

theorem init_wf {routes : List Route} {addresses : List (EthernetAddress × UInt32)}
    (h : ∀ route ∈ routes, route.interfaceNum < addresses.length) : WF (init routes addresses) where
  held := by
    intro a ha
    obtain ⟨b, -, rfl⟩ := List.mem_map.mp ha
    exact ⟨fun d hd => absurd hd List.not_mem_nil, fun x d hd => absurd hd List.not_mem_nil⟩
  routes := by
    show ∀ route ∈ routes, route.interfaceNum < (addresses.map _).length
    rw [List.length_map]
    exact h

/-- What a frame does to an interface: what the interface holds stays of the
right size, and it throws iff an ARP message releases a datagram whose header
cannot be serialized. -/
theorem recvFrame_spec {a : AsyncNetworkInterface} (h : Held a) (header : EthernetHeader) (payload : Bytes) :
    Held (a.recvFrame { header, payload := [payload] }).2 ∧
      ((a.recvFrame { header, payload := [payload] }).1 = .ok () ↔
        ∀ msg ∈ a.interface.arpMessage { header, payload := [payload] },
          ∀ dgram ∈ a.interface.pending msg.senderIpAddress, dgram.header.Plausible) := by
  set frame : EthernetFrame := { header, payload := [payload] }
  have hpend : ∀ x, ∀ d ∈ (a.interface.recvFrame frame).2.pending x, d.Sized := by
    intro x d hd
    rcases NetworkInterface.recvFrame_cases a.interface frame with ⟨msg, -, heq⟩ | ⟨-, heq⟩
    · rw [heq] at hd
      rw [(NetworkInterface.recvARP_spec a.interface msg).pending] at hd
      split_ifs at hd
      · cases hd
      · exact h.pending x d hd
    · rw [heq] at hd
      exact h.pending x d hd
  have hok : (∀ e, (a.interface.recvFrame frame).1 ≠ .error e) ↔ ∀ msg ∈ a.interface.arpMessage frame,
      ∀ dgram ∈ a.interface.pending msg.senderIpAddress, dgram.header.Plausible := by
    have hser : ∀ msg : ARPMessage, (a.interface.recvARP msg).1 = .ok () ↔
        ∀ dgram ∈ a.interface.pending msg.senderIpAddress, dgram.header.Plausible := by
      intro msg
      rw [(NetworkInterface.recvARP_spec a.interface msg).result]
      refine forall₂_congr fun dgram hd => ?_
      rw [IPv4Datagram.serializable, decide_eq_true_iff]
      exact and_iff_right (h.pending _ dgram hd)
    constructor
    · intro hne msg hm
      rw [← hser]
      rcases NetworkInterface.recvFrame_cases a.interface frame with ⟨msg', hm', heq⟩ | ⟨hm', -⟩
      · obtain rfl := Option.some.inj ((Option.mem_def.mp hm).symm.trans hm')
        rw [heq] at hne
        cases hr : (a.interface.recvARP msg).1 with
        | error e =>
          rw [hr] at hne
          exact absurd rfl (hne e)
        | ok u => rfl
      · rw [hm'] at hm
        cases hm
    · intro hall e he
      obtain ⟨msg, hm, hr⟩ := NetworkInterface.recvFrame_error (show frame.payload.toBuffer = .ok payload from rfl) he
      rw [(hser msg).mpr (hall msg hm)] at hr
      cases hr
  unfold AsyncNetworkInterface.recvFrame
  cases hf : a.interface.recvFrame frame with
  | mk res ni =>
    rw [hf] at hpend hok
    cases res with
    | error e =>
      refine ⟨⟨h.queue, hpend⟩, fun hc => ?_, fun hc => ?_⟩
      · cases hc
      · exact absurd rfl (hok.mpr hc e)
    | ok o =>
      have hall := hok.mp fun e hc => by cases hc
      cases o with
      | none => exact ⟨⟨h.queue, hpend⟩, fun _ => hall, fun _ => rfl⟩
      | some dgram =>
        have hd : dgram.Sized := NetworkInterface.recvFrame_sized (congrArg Prod.fst hf)
        refine ⟨⟨fun d hm => ?_, hpend⟩, fun _ => hall, fun _ => rfl⟩
        rcases List.mem_append.mp hm with hm | hm
        · exact h.queue d hm
        · obtain rfl := List.mem_singleton.mp hm
          exact hd

theorem step_wf {op : Op} (h : WF r) (hs : step r op = some r') : WF r' := by
  obtain ⟨res, hres, rfl⟩ := Option.map_eq_some_iff.mp hs
  cases op with
  | recv i header payload =>
    obtain ⟨a, ha, rfl⟩ := Option.map_eq_some_iff.mp hres
    exact h.set (recvFrame_spec (h.held a (List.mem_of_getElem? ha)) header payload).1
  | tick i ms order =>
    obtain ⟨a, ha, hres⟩ := Option.bind_eq_some_iff.mp hres
    have hheld := h.held a (List.mem_of_getElem? ha)
    split_ifs at hres
    obtain rfl := Option.some.inj hres
    refine h.set ⟨hheld.queue, fun x d hd => ?_⟩
    rw [(NetworkInterface.tick_spec a.interface ms order).2.2.2] at hd
    exact hheld.pending x d hd
  | route =>
    obtain rfl := Option.some.inj hres
    exact (routeFrom_spec List.nodup_range h).2.1

/-- One interface, with a route for every destination. -/
def routerRoutes : List Route := [⟨0, 0, none, 0⟩]

def routerAddresses : List (EthernetAddress × UInt32) := [(Vector.replicate 6 1, 5)]

/-- A host at 9 asks for the router's address, then sends itself a datagram of
version 6. -/
def versionRun : List Op :=
  let request : ARPMessage :=
    { opcode := ARPMessage.opcodeRequest, senderEthernetAddress := Vector.replicate 6 2, senderIpAddress := 9 }
  [.recv 0 { dst := ethernetBroadcast, type := EthernetHeader.typeARP } request.unparse,
    .recv 0 { dst := Vector.replicate 6 1, type := EthernetHeader.typeIPv4 }
      [0x65, 0, 0, 20, 0, 0, 0, 0, 64, 6, 0, 0, 0, 0, 0, 1, 0, 0, 0, 9]]

theorem versionRun_some : (Runs.run step (init routerRoutes routerAddresses) versionRun).isSome = true := by
  decide +kernel

end Router
end Sponge

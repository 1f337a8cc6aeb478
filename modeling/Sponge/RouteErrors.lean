/-
# When routing throws

`route_one_datagram` counts the TTL down in the queue's front element, and
`route` pops the element only once the call of `send_datagram` has returned. So
a datagram whose call throws stays in front of its queue with a smaller TTL,
and each further `route()` counts it down again, until the TTL is used up and
the datagram is dropped. By then all that was behind it has been forwarded.

Key definitions: `Router.reroute`, `Router.Untouched`, `Router.Drains`.
Key theorems: `Router.drains`, `Router.throw_safe_iff`.
-/
import Sponge.Forwarding

namespace Sponge
namespace Router

/-- The router after `n` calls of `route()`, whatever they throw. -/
def reroute (n : ℕ) (r : Router) : Router := (fun r => r.route.2)^[n] r

instance (routes : List Route) (nets : List NetworkInterface) (dgram : IPv4Datagram) :
    Decidable (Jams routes nets dgram) :=
  inferInstanceAs (Decidable (∃ h ∈ handOff routes dgram, ∀ ni ∈ nets[h.interfaceNum]?,
    (ni.live h.nextHop).isSome = true ∧ dgram.serializable = false))

/-- A throw leaves every datagram consumed, or in its queue as it was. -/
def Untouched (r : Router) : Prop := ∀ e, r.route.1 = .error e → ∀ k, r.route.2.queue k <:+ r.queue k

/-- Enough calls of `route()` leave the queues empty, and have made the calls of
all queued datagrams that do not jam, each once and in order, and no others. -/
def Drains (r : Router) : Prop :=
  ∃ n, (reroute (n + 1) r).queued = [] ∧ (reroute (n + 1) r).nets =
    ((r.queued.filter fun d => ¬ Jams r.routes r.nets d).map (handOff r.routes)).reduceOption.foldl deliver r.nets

variable {r : Router} {routes : List Route} {nets : List NetworkInterface} {dgram : IPv4Datagram}

theorem reroute_succ (n : ℕ) (r : Router) : reroute (n + 1) r = reroute n r.route.2 := rfl

/-- The datagrams that jam make no call that has an effect. -/
theorem foldl_forward_filter {nets' : List NetworkInterface}
    (ht : nets'.map NetworkInterface.arpTable = nets.map NetworkInterface.arpTable) (dgrams : List IPv4Datagram) :
    dgrams.foldl (forward routes) nets' =
      (dgrams.filter fun d => ¬ Jams routes nets d).foldl (forward routes) nets' := by
  induction dgrams generalizing nets' with
  | nil => rfl
  | cons d dgrams ih =>
    have hnext := ih ((forward_tables routes nets' d).trans ht)
    by_cases hj : Jams routes nets d
    · rw [List.filter_cons_of_neg (by simpa using hj), List.foldl_cons, hnext,
        forward_of_jams ((jams_congr ht).mpr hj)]
    · rw [List.filter_cons_of_pos (by simpa using hj), List.foldl_cons, List.foldl_cons, hnext]

/-! ### The measure -/

/-- The hops the queued datagrams have left, one more for each. -/
def hops (dgrams : List IPv4Datagram) : ℕ := (dgrams.map fun d => d.header.ttl.toNat + 1).sum

theorem hops_append (a b : List IPv4Datagram) : hops (a ++ b) = hops a + hops b := by
  simp [hops]

theorem hops_cons (d : IPv4Datagram) (b : List IPv4Datagram) : hops (d :: b) = d.header.ttl.toNat + 1 + hops b := by
  simp [hops]

/-- A datagram that jams has hops left, and loses one. -/
theorem spent_lt_of_jams (h : Jams routes nets dgram) : dgram.spent.header.ttl.toNat < dgram.header.ttl.toNat := by
  obtain ⟨h, hh, -⟩ := h
  obtain ⟨best, -, hbest⟩ := Option.bind_eq_some_iff.mp hh
  split_ifs at hbest with httl
  have h1 : 2 ≤ dgram.header.ttl.toNat := httl
  have h2 : (1 : UInt8) ≤ dgram.header.ttl := UInt8.le_iff_toNat_le.mpr (show 1 ≤ _ by omega)
  show (dgram.header.ttl - 1).toNat < _
  rw [UInt8.toNat_sub_of_le _ _ h2]
  show dgram.header.ttl.toNat - 1 < _
  omega

/-- One call of `route()`: the queues are empty, or they lose hops; either way
what is to be called for them altogether stays. -/
theorem route_progress (r : Router) : r.route.2.routes = r.routes ∧
    r.route.2.queued.foldl (forward r.routes) r.route.2.nets = r.queued.foldl (forward r.routes) r.nets ∧
    (r.route.2.queued = [] ∨ hops r.route.2.queued < hops r.queued) := by
  have h := route_serves r
  generalize r.route = x at h
  cases h with
  | all free after =>
    have hqueued : ∀ {r' : Router}, r'.queues = [] ++ r.queues.map (fun _ => []) ++ [] → r'.queued = [] := by
      intro r' hq
      rw [queued, hq]
      simp
    rw [hqueued after.queues]
    exact ⟨after.routes, after.nets, Or.inl rfl⟩
  | @jam r' e before front d behind later split free jams after =>
    have hqueued : r'.queued = d.spent :: (behind ++ later.flatten) := by
      rw [queued, after.queues]
      simp
    have hbefore : r.queued = before.flatten ++ front ++ d :: (behind ++ later.flatten) := by
      rw [queued, split]
      simp
    refine ⟨after.routes, ?_, Or.inr ?_⟩
    · have hj : Jams r.routes r'.nets d := by
        rw [after.nets, jams_congr (foldl_forward_tables _ _)]
        exact jams
      calc r'.queued.foldl (forward r.routes) r'.nets
          = (behind ++ later.flatten).foldl (forward r.routes) r'.nets := by
            rw [hqueued, List.foldl_cons, forward_spent hj]
        _ = (d :: (behind ++ later.flatten)).foldl (forward r.routes) r'.nets := by
            rw [List.foldl_cons, forward_of_jams hj]
        _ = r.queued.foldl (forward r.routes) r.nets := by
            rw [hbefore, List.foldl_append, ← after.nets]
    · have hlt := spent_lt_of_jams jams
      rw [hqueued, hbefore, hops_cons, hops_append _ (d :: _), hops_cons]
      omega

/-- The queues empty, since they lose hops until they do. -/
theorem exists_drained (r : Router) : ∃ n, (reroute (n + 1) r).queued = [] ∧
    (reroute (n + 1) r).nets = r.queued.foldl (forward r.routes) r.nets := by
  induction hm : hops r.queued using Nat.strong_induction_on generalizing r with
  | _ m ih =>
    subst hm
    obtain ⟨h1, h2, hnil | hlt⟩ := route_progress r
    · refine ⟨0, hnil, ?_⟩
      rw [hnil] at h2
      exact h2
    · obtain ⟨n, hn1, hn2⟩ := ih _ hlt r.route.2 rfl
      refine ⟨n + 1, hn1, ?_⟩
      rw [reroute_succ, hn2, h1, h2]

/-- **A datagram that jams blocks the others for a while only.** -/
theorem drains (r : Router) : Drains r := by
  obtain ⟨n, h1, h2⟩ := exists_drained r
  refine ⟨n, h1, ?_⟩
  rw [h2, foldl_forward_filter rfl, foldl_forward]

/-- **A throw is safe iff there is none**: no queued datagram jams. -/
theorem throw_safe_iff (r : Router) :
    (Untouched r ∧ Drains r) ↔ ∀ dgram ∈ r.queued, ¬ Jams r.routes r.nets dgram := by
  have h := route_serves r
  have hqueue : ∀ (r' : Router) (k : ℕ), r'.queue k = (r'.queues[k]?).getD [] := queue_eq_map
  constructor
  · rintro ⟨hsafe, -⟩ dgram hd hj
    unfold Untouched at hsafe
    generalize r.route = x at h hsafe
    cases h with
    | all free after => exact free dgram hd hj
    | @jam r' e before front d behind later split free jams after =>
      have hsuffix := hsafe e rfl before.length
      rw [hqueue, hqueue, after.queues, split] at hsuffix
      simp at hsuffix
      have hsame : d.spent :: behind <:+ front ++ d :: behind := hsuffix
      have heq := List.suffix_of_suffix_length_le hsame (List.suffix_append front (d :: behind)) (by simp)
      have hd := (List.cons.inj (heq.eq_of_length (by simp))).1
      have hlt := spent_lt_of_jams jams
      rw [hd] at hlt
      exact absurd hlt (lt_irrefl _)
  · intro hfree
    refine ⟨fun e he => ?_, drains r⟩
    generalize r.route = x at h he
    cases h with
    | all free after => cases he
    | jam before front d behind later split free jams after =>
      refine absurd jams (hfree d ?_)
      rw [queued, split]
      simp

/-- The datagram of version 6 stays queued with one hop less. -/
theorem version_left : ∃ r, Runs.run step (init routerRoutes routerAddresses) versionRun = some r ∧
    (r.queue 0).map (fun d => d.header.ttl) = [64] ∧ (r.route.2.queue 0).map (fun d => d.header.ttl) = [63] ∧
    r.route.1 = .error (.runtimeError "wrong IP version") ∧ ¬ Untouched r := by
  have hrun := (Option.some_get versionRun_some).symm
  generalize hr : (Runs.run step (init routerRoutes routerAddresses) versionRun).get versionRun_some = r at hrun
  have h1 : (r.queue 0).map (fun d => d.header.ttl) = [64] := by
    rw [← hr]
    decide +kernel
  have h2 : (r.route.2.queue 0).map (fun d => d.header.ttl) = [63] := by
    rw [← hr]
    decide +kernel
  have h3 : r.route.1 = .error (.runtimeError "wrong IP version") := by
    rw [← hr]
    decide +kernel
  refine ⟨r, hrun, h1, h2, h3, fun hsafe => ?_⟩
  have hsuffix := (hsafe _ h3 0).map fun d => d.header.ttl
  rw [h1, h2] at hsuffix
  exact absurd hsuffix (by decide)

end Router
end Sponge

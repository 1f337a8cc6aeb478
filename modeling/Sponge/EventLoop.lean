/-
# The event loop

`EventLoop::wait_next_event` of `eventloop.cc`. A pass asks every rule for its
interest first, then polls, then runs the callbacks of the rules found ready
one after another: a later callback sees what an earlier one did, but its
interest is not asked again. A rule is cancelled when its descriptor is at its
end or hangs up. The rules are named by `ρ` and act on a state `σ`; what a
callback reads from outside is its input `ι`.

Key definitions: `EventLoop.Rule`, `EventLoop.prepare`, `EventLoop.serve`,
`EventLoop.waitNextEvent`.
Key theorems: `EventLoop.waitNextEvent_invariant`,
`EventLoop.waitNextEvent_error`, `EventLoop.serve_error_cons`,
`EventLoop.prepare_positions`, `EventLoop.serve_positions`.
-/
import Mathlib.Data.List.Basic
import Mathlib.Tactic

namespace Sponge
namespace EventLoop

inductive Direction where
  | In | Out
  deriving DecidableEq

inductive Result where
  | success | timeout | exit
  deriving DecidableEq

/-- The exceptions of a pass: an error on a descriptor, a callback that does
nothing though its rule stays interested, and those of the callbacks. -/
inductive Failure (ε : Type*) where
  | poll
  | busyWait
  | callback (e : ε)
  deriving DecidableEq

structure Rule (σ ι ε : Type*) where
  direction : Direction
  eof : σ → Bool
  closed : σ → Bool
  /-- the state after, and whether the descriptor was read or written -/
  callback : ι → σ → Except ε (σ × Bool)
  interest : σ → Bool
  cancel : σ → σ

/-- What `poll` reports about a descriptor: the event asked for, a hangup, an error. -/
structure Revents where
  ready : Bool := false
  hup : Bool := false
  error : Bool := false

/-- What `poll` returns; a failure other than an interruption is caught and
leaves every descriptor without a report. -/
inductive Poll (ρ : Type*) where
  | timeout
  | interrupted
  | events (revents : ρ → Revents)

variable {ρ σ ι ε : Type*} (rule : ρ → Rule σ ι ε)

/-- Each rule is cancelled or asked for its interest. -/
def prepare : List ρ → σ → List (ρ × Bool) × σ
  | [], s => ([], s)
  | r :: rs, s =>
    if (rule r).direction = .In ∧ (rule r).eof s = true ∨ (rule r).closed s = true then
      prepare rs ((rule r).cancel s)
    else
      let (polled, s') := prepare rs s
      ((r, (rule r).interest s) :: polled, s')

/-- The callback of a ready rule, and the check for a busy wait. -/
def fire (input : ι) (r : ρ) (s : σ) : Except (Failure ε) σ :=
  match (rule r).callback input s with
  | .error e => .error (.callback e)
  | .ok (s', served) => if served = false ∧ (rule r).interest s' = true then .error .busyWait else .ok s'

/-- A rule that is ready is run. -/
def visit (input : ι) (r : ρ) (ready : Bool) (s : σ) : Except (Failure ε) σ :=
  if ready then fire rule input r s else .ok s

/-- Each polled rule is cancelled, or visited. -/
def serve (revents : ρ → Revents) (input : ι) : List (ρ × Bool) → σ → Except (Failure ε) (List ρ × σ)
  | [], s => .ok ([], s)
  | (r, asked) :: rs, s =>
    if (revents r).error then .error .poll
    else
      let ready := asked && (revents r).ready
      if (revents r).hup && asked && !ready then serve revents input rs ((rule r).cancel s)
      else
        match visit rule input r ready s with
        | .error e => .error e
        | .ok s' => (serve revents input rs s').map fun (rest, s'') => (r :: rest, s'')

/-- `wait_next_event`: the result, the rules left and the state after. -/
def waitNextEvent (poll : Poll ρ) (input : ι) (rules : List ρ) (s : σ) :
    Except (Failure ε) (Result × List ρ × σ) :=
  let (polled, s) := prepare rule rules s
  if polled.all (!·.2) then .ok (.exit, polled.map (·.1), s)
  else
    match poll with
    | .timeout => .ok (.timeout, polled.map (·.1), s)
    | .interrupted => .ok (.exit, polled.map (·.1), s)
    | .events revents => (serve rule revents input polled s).map fun (rules, s) => (.success, rules, s)

/-! ### Invariants of a pass -/

variable {rule} {I : σ → Prop} {revents : ρ → Revents} {input : ι}

theorem prepare_invariant (hcancel : ∀ r s, I s → I ((rule r).cancel s)) :
    ∀ {rs : List ρ} {s : σ}, I s → I (prepare rule rs s).2
  | [], _, h => h
  | r :: rs, s, h => by
    unfold prepare
    split_ifs
    · exact prepare_invariant hcancel (hcancel r s h)
    · have hrest : I (prepare rule rs s).2 := prepare_invariant hcancel h
      exact hrest

theorem prepare_sublist : ∀ (rs : List ρ) (s : σ), ((prepare rule rs s).1.map (·.1)).Sublist rs
  | [], _ => List.Sublist.refl _
  | r :: rs, s => by
    unfold prepare
    split_ifs
    · exact (prepare_sublist rs _).cons r
    · exact (prepare_sublist rs s).cons_cons r

theorem fire_ok {r : ρ} {s s' : σ} (h : fire rule input r s = .ok s') :
    ∃ served, (rule r).callback input s = .ok (s', served) := by
  unfold fire at h
  split at h
  · cases h
  · rename_i s₁ served hc
    split_ifs at h
    obtain rfl := Except.ok.inj h
    exact ⟨served, hc⟩

/-- The rules of a pass: each is passed over, cancelled or run. -/
theorem serve_cons {r : ρ} {asked : Bool} {rs : List (ρ × Bool)} {s : σ} {out : List ρ × σ}
    (h : serve rule revents input ((r, asked) :: rs) s = .ok out) :
    ∃ s' out', serve rule revents input rs s' = .ok out' ∧ out.2 = out'.2 ∧
      (s' = (rule r).cancel s ∧ out.1 = out'.1 ∨
        (s' = s ∨ fire rule input r s = .ok s') ∧ out.1 = r :: out'.1) := by
  unfold serve at h
  dsimp only at h
  split_ifs at h with h1 h2
  · exact ⟨_, out, h, rfl, Or.inl ⟨rfl, rfl⟩⟩
  · split at h
    · cases h
    · rename_i s' hs'
      cases hr : serve rule revents input rs s' with
      | error e => rw [hr] at h; cases h
      | ok out' =>
        rw [hr] at h
        obtain rfl := Except.ok.inj h
        refine ⟨s', out', hr, rfl, Or.inr ⟨?_, rfl⟩⟩
        unfold visit at hs'
        split_ifs at hs'
        · exact Or.inr hs'
        · exact Or.inl (Except.ok.inj hs').symm

theorem serve_invariant (hcancel : ∀ r s, I s → I ((rule r).cancel s))
    (hcallback : ∀ r s s' served, I s → (rule r).callback input s = .ok (s', served) → I s') :
    ∀ {rs : List (ρ × Bool)} {s : σ} {out : List ρ × σ}, I s → serve rule revents input rs s = .ok out → I out.2
  | [], _, _, h, hs => by
    obtain rfl := Except.ok.inj hs
    exact h
  | (r, asked) :: rs, s, out, h, hs => by
    obtain ⟨s', out', h1, h2, h3⟩ := serve_cons hs
    rw [h2]
    refine serve_invariant hcancel hcallback ?_ h1
    rcases h3 with ⟨rfl, -⟩ | ⟨rfl | hf, -⟩
    · exact hcancel r s h
    · exact h
    · obtain ⟨served, hc⟩ := fire_ok hf
      exact hcallback r s s' served h hc

theorem serve_sublist : ∀ {rs : List (ρ × Bool)} {s : σ} {out : List ρ × σ},
    serve rule revents input rs s = .ok out → out.1.Sublist (rs.map (·.1))
  | [], _, _, hs => by
    obtain rfl := Except.ok.inj hs
    exact List.Sublist.refl _
  | (r, asked) :: rs, s, out, hs => by
    obtain ⟨s', out', h1, -, h3⟩ := serve_cons hs
    rcases h3 with ⟨-, h4⟩ | ⟨-, h4⟩ <;> rw [h4]
    · exact (serve_sublist h1).cons r
    · exact (serve_sublist h1).cons_cons r

/-- What the cancellations and the callbacks keep, a pass keeps; rules are
only removed. -/
theorem waitNextEvent_invariant (hcancel : ∀ r s, I s → I ((rule r).cancel s))
    (hcallback : ∀ r s s' served, I s → (rule r).callback input s = .ok (s', served) → I s')
    {poll : Poll ρ} {rs rs' : List ρ} {s s' : σ} {res : Result} (h : I s)
    (hw : waitNextEvent rule poll input rs s = .ok (res, rs', s')) : I s' ∧ rs'.Sublist rs := by
  have hI : I (prepare rule rs s).2 := prepare_invariant hcancel h
  have hsub : ((prepare rule rs s).1.map (·.1)).Sublist rs := prepare_sublist rs s
  unfold waitNextEvent at hw
  dsimp only at hw
  split_ifs at hw
  · cases hw
    exact ⟨hI, hsub⟩
  · cases poll with
    | timeout => cases hw; exact ⟨hI, hsub⟩
    | interrupted => cases hw; exact ⟨hI, hsub⟩
    | events revents =>
      dsimp only at hw
      cases hs : serve rule revents input (prepare rule rs s).1 (prepare rule rs s).2 with
      | error e => rw [hs] at hw; cases hw
      | ok out =>
        rw [hs] at hw
        cases hw
        exact ⟨serve_invariant hcancel hcallback hI hs, (serve_sublist hs).trans hsub⟩

/-- The exceptions of a rule that is run: its callback's, or the busy wait. -/
theorem fire_error_iff {e : ε} {r : ρ} {s : σ} :
    fire rule input r s = .error (.callback e) ↔ (rule r).callback input s = .error e := by
  unfold fire
  split
  · rename_i e' h
    rw [h]
    exact ⟨fun he => congrArg _ (Failure.callback.inj (Except.error.inj he)), fun he => by cases he; rfl⟩
  · rename_i s' served h
    rw [h]
    refine iff_of_false (fun he => ?_) fun he => by cases he
    split_ifs at he
    cases he

/-- Where an exception of a callback comes from: this rule's, or a later one's. -/
theorem serve_error_cons {e : ε} {r : ρ} {asked : Bool} {rs : List (ρ × Bool)} {s : σ} :
    serve rule revents input ((r, asked) :: rs) s = .error (.callback e) ↔
      (revents r).error = false ∧
        if ((revents r).hup && asked && !(asked && (revents r).ready)) = true then
          serve rule revents input rs ((rule r).cancel s) = .error (.callback e)
        else
          asked = true ∧ (revents r).ready = true ∧ (rule r).callback input s = .error e ∨
            ∃ s', visit rule input r (asked && (revents r).ready) s = .ok s' ∧
              serve rule revents input rs s' = .error (.callback e) := by
  conv_lhs => unfold serve
  dsimp only
  rcases Bool.eq_false_or_eq_true (revents r).error with h1 | h1
  · rw [if_pos h1, h1]
    exact iff_of_false (fun hc => by cases hc) fun hc => Bool.false_ne_true hc.1.symm
  · rw [if_neg (by rw [h1]; decide), and_iff_right h1]
    split_ifs with h2
    · exact Iff.rfl
    cases hv : visit rule input r (asked && (revents r).ready) s with
    | error e' =>
      unfold visit at hv
      split_ifs at hv with hready
      simp only [Bool.and_eq_true] at hready
      simp only [reduceCtorEq, false_and, exists_false, or_false, hready.1, hready.2, true_and]
      rw [← fire_error_iff, hv]
      exact ⟨fun h => congrArg _ (Except.error.inj h), fun h => congrArg _ (Except.error.inj h)⟩
    | ok s' =>
      have hno : ¬ (asked = true ∧ (revents r).ready = true ∧ (rule r).callback input s = .error e) := by
        rintro ⟨h3, h4, h5⟩
        unfold visit at hv
        rw [h3, h4, Bool.and_self, if_pos rfl, fire_error_iff.mpr h5] at hv
        cases hv
      have hrest : ((serve rule revents input rs s').map fun (rest, s'') => (r :: rest, s'')) = .error (.callback e) ↔
          serve rule revents input rs s' = .error (.callback e) := by
        cases serve rule revents input rs s' with
        | error e' => exact Iff.rfl
        | ok out => exact iff_of_false (fun hc => by cases hc) fun hc => by cases hc
      rw [or_iff_right hno]
      refine hrest.trans ⟨fun h => ⟨s', rfl, h⟩, ?_⟩
      rintro ⟨s'', h3, h4⟩
      obtain rfl := Except.ok.inj h3
      exact h4

/-- An exception no callback of these rules throws is not thrown. -/
theorem serve_ne_error {e : ε} : ∀ {rs : List (ρ × Bool)} {s : σ},
    (∀ p ∈ rs, ∀ s, (rule p.1).callback input s ≠ .error e) →
      serve rule revents input rs s ≠ .error (.callback e)
  | [], _, _, hs => by cases hs
  | (r, asked) :: rs, s, hno, hs => by
    have hrest : ∀ s, serve rule revents input rs s ≠ .error (.callback e) := fun s =>
      serve_ne_error fun p hp => hno p (List.mem_cons_of_mem _ hp)
    obtain ⟨-, h⟩ := serve_error_cons.mp hs
    split_ifs at h
    · exact hrest _ h
    · rcases h with ⟨-, -, h⟩ | ⟨s', -, h⟩
      · exact hno _ List.mem_cons_self s h
      · exact hrest _ h

theorem waitNextEvent_error {e : ε} {poll : Poll ρ} {rs : List ρ} {s : σ} :
    waitNextEvent rule poll input rs s = .error (.callback e) ↔
      (∃ p ∈ (prepare rule rs s).1, p.2 = true) ∧ ∃ revents, poll = .events revents ∧
        serve rule revents input (prepare rule rs s).1 (prepare rule rs s).2 = .error (.callback e) := by
  unfold waitNextEvent
  dsimp only
  split_ifs with h1
  · refine iff_of_false (fun hc => by cases hc) ?_
    rintro ⟨⟨p, hp, hasked⟩, -⟩
    have := List.all_eq_true.mp h1 p hp
    rw [hasked] at this
    exact Bool.false_ne_true this
  · have hasked : ∃ p ∈ (prepare rule rs s).1, p.2 = true := by
      simpa only [List.all_eq_true, not_forall, Bool.not_eq_true', Bool.not_eq_false, exists_prop] using h1
    rw [and_iff_right hasked]
    cases poll with
    | timeout => exact iff_of_false (fun hc => by cases hc) fun ⟨_, hc, _⟩ => by cases hc
    | interrupted => exact iff_of_false (fun hc => by cases hc) fun ⟨_, hc, _⟩ => by cases hc
    | events revents =>
      dsimp only
      constructor
      · intro h
        refine ⟨revents, rfl, ?_⟩
        cases hs : serve rule revents input (prepare rule rs s).1 (prepare rule rs s).2 with
        | error e' =>
          rw [hs] at h
          exact congrArg _ (Except.error.inj h)
        | ok out => rw [hs] at h; cases h
      · rintro ⟨revents', he, h⟩
        cases he
        rw [h]
        rfl

/-! ### The preparation -/

/-- The rule is cancelled before the poll. -/
def Ends (rule : ρ → Rule σ ι ε) (r : ρ) (s : σ) : Prop :=
  (rule r).direction = .In ∧ (rule r).eof s = true ∨ (rule r).closed s = true

theorem prepare_of_ends {r : ρ} {rs : List ρ} {s : σ} (h : Ends rule r s) :
    prepare rule (r :: rs) s = prepare rule rs ((rule r).cancel s) := if_pos h

theorem prepare_of_not_ends {r : ρ} {rs : List ρ} {s : σ} (h : ¬ Ends rule r s) :
    prepare rule (r :: rs) s = ((r, (rule r).interest s) :: (prepare rule rs s).1, (prepare rule rs s).2) := if_neg h

/-- Rules that do not end are all polled or passed over. -/
theorem prepare_all {s : σ} : ∀ {rs : List ρ}, (∀ r ∈ rs, ¬ Ends rule r s) →
    prepare rule rs s = (rs.map fun r => (r, (rule r).interest s), s)
  | [], _ => rfl
  | r :: rs, h => by
    rw [prepare_of_not_ends (h r List.mem_cons_self), prepare_all fun r' hr => h r' (List.mem_cons_of_mem _ hr)]
    rfl

/-! ### Invariants that know the rules

The rules of a pass are those already gone through and kept, and those still to
come. -/

/-- While the rules are prepared; the rules kept are noted with their interest. -/
theorem prepare_positions {J : List (ρ × Bool) → List ρ → σ → Prop}
    (hcancel : ∀ kept r rest s, Ends rule r s → J kept (r :: rest) s → J kept rest ((rule r).cancel s))
    (hkeep : ∀ kept r rest s, ¬ Ends rule r s → J kept (r :: rest) s →
      J (kept ++ [(r, (rule r).interest s)]) rest s) :
    ∀ {rs : List ρ} {kept : List (ρ × Bool)} {s : σ}, J kept rs s →
      J (kept ++ (prepare rule rs s).1) [] (prepare rule rs s).2
  | [], kept, s, h => by simpa [prepare] using h
  | r :: rs, kept, s, h => by
    by_cases he : Ends rule r s
    · rw [prepare_of_ends he]
      exact prepare_positions hcancel hkeep (hcancel kept r rs s he h)
    · have hrest := prepare_positions hcancel hkeep (hkeep kept r rs s he h)
      rw [prepare_of_not_ends he]
      rwa [List.append_assoc] at hrest

/-- While they are served. -/
theorem serve_positions {J : List ρ → List ρ → σ → Prop}
    (hcancel : ∀ kept r rest s, (revents r).hup = true → (revents r).ready = false → J kept (r :: rest) s →
      J kept rest ((rule r).cancel s))
    (hskip : ∀ kept r rest s, J kept (r :: rest) s → J (kept ++ [r]) rest s)
    (hcallback : ∀ kept r rest s s' served, (revents r).ready = true → J kept (r :: rest) s →
      (rule r).callback input s = .ok (s', served) → J (kept ++ [r]) rest s') :
    ∀ {rs : List (ρ × Bool)} {kept : List ρ} {s : σ} {out : List ρ × σ}, J kept (rs.map (·.1)) s →
      serve rule revents input rs s = .ok out → J (kept ++ out.1) [] out.2
  | [], kept, s, out, h, hs => by
    obtain rfl := Except.ok.inj hs
    simpa using h
  | (r, asked) :: rs, kept, s, out, h, hs => by
    unfold serve at hs
    dsimp only at hs
    split_ifs at hs with h1 h2
    · simp only [Bool.and_eq_true, Bool.not_eq_true'] at h2
      have hready : (revents r).ready = false := by simpa [h2.1.2] using h2.2
      exact serve_positions hcancel hskip hcallback (hcancel kept r _ s h2.1.1 hready h) hs
    · split at hs
      · cases hs
      · rename_i s' hv
        have hnext : J (kept ++ [r]) (rs.map (·.1)) s' := by
          unfold visit at hv
          split_ifs at hv with hready
          · obtain ⟨served, hc⟩ := fire_ok hv
            exact hcallback kept r _ s s' served (Bool.and_eq_true_iff.mp hready).2 h hc
          · obtain rfl := Except.ok.inj hv
            exact hskip kept r _ s h
        cases hr : serve rule revents input rs s' with
        | error e => rw [hr] at hs; cases hs
        | ok out' =>
          rw [hr] at hs
          obtain rfl := Except.ok.inj hs
          have hrest := serve_positions hcancel hskip hcallback hnext hr
          rwa [List.append_assoc] at hrest

/-- A pass ends after the preparation, or serves the rules. -/
theorem waitNextEvent_cases {poll : Poll ρ} {rs rs' : List ρ} {s s' : σ} {res : Result}
    (hw : waitNextEvent rule poll input rs s = .ok (res, rs', s')) :
    (rs' = (prepare rule rs s).1.map (·.1) ∧ s' = (prepare rule rs s).2 ∧
      (res = .exit → poll = .interrupted ∨ ∀ p ∈ (prepare rule rs s).1, p.2 = false)) ∨
    (res = .success ∧ ∃ revents, poll = .events revents ∧
      serve rule revents input (prepare rule rs s).1 (prepare rule rs s).2 = .ok (rs', s')) := by
  unfold waitNextEvent at hw
  dsimp only at hw
  split_ifs at hw with h
  · cases hw
    exact Or.inl ⟨rfl, rfl, fun _ => Or.inr fun p hp => by simpa using List.all_eq_true.mp h p hp⟩
  · cases poll with
    | timeout => cases hw; exact Or.inl ⟨rfl, rfl, fun hc => by cases hc⟩
    | interrupted => cases hw; exact Or.inl ⟨rfl, rfl, fun _ => Or.inl rfl⟩
    | events revents =>
      dsimp only at hw
      cases hs : serve rule revents input (prepare rule rs s).1 (prepare rule rs s).2 with
      | error e => rw [hs] at hw; cases hw
      | ok out =>
        rw [hs] at hw
        cases hw
        exact Or.inr ⟨rfl, revents, rfl, hs⟩

end EventLoop
end Sponge

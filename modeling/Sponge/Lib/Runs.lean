/-
# Runs of a machine that may stop

A machine is a step function `step : σ → ε → Option σ`: an event takes a
state to the next one, or stops the machine (`none`). `run` feeds it a list
of events. The rules below carry an invariant along a run: `run_invariant`
for a machine that may stop, `run_total` for one that never does while its
events are admissible, `run_bounded` for an invariant whose step needs a
bound that only the last state of the run is known to meet, `run_along` and
`run_total_along` for one whose step needs a condition on the state (`Along`);
`along_congr` exchanges such conditions, and `forall_prefix_iff_along` puts a
property of all states of a run as one. `run_outputs` relates a run to what its
events put out, `run_outputs_along` under such a condition, `outputs_balance`
when nothing is lost, `outputs_ledger` when something may be, and
`outputs_bounded` bounds that by a measure.
`run_simulation` compares the runs of two machines that match step by step.

Key definitions: `Runs.run`, `Runs.Reach`, `Runs.Along`, `Runs.outputs`.
Key theorems: `Runs.run_append`, `Runs.run_map`, `Runs.run_invariant`, `Runs.run_total`,
`Runs.run_bounded`, `Runs.run_along`, `Runs.run_total_along`, `Runs.along_congr`,
`Runs.forall_prefix_iff_along`, `Runs.run_outputs`, `Runs.run_outputs_along`,
`Runs.run_simulation`, `Runs.outputs_balance`, `Runs.outputs_ledger`,
`Runs.outputs_bounded`.
-/
import Mathlib.Data.List.Basic
import Mathlib.Tactic

namespace Runs

variable {σ ε : Type*} (step : σ → ε → Option σ)

/-- The state after the events, `none` if one of them stops the machine. -/
def run (s : σ) : List ε → Option σ
  | [] => some s
  | e :: es => (step s e).bind fun s' => run s' es

/-- The states of the runs from `s₀`. -/
def Reach (s₀ s : σ) : Prop := ∃ es, run step s₀ es = some s

variable {step}

@[simp] theorem run_nil (s : σ) : run step s [] = some s := rfl

theorem run_cons {s s' : σ} {e : ε} {es : List ε} :
    run step s (e :: es) = some s' ↔ ∃ s₁, step s e = some s₁ ∧ run step s₁ es = some s' := by
  simp [run, Option.bind_eq_some_iff]

theorem run_append (s : σ) (es fs : List ε) :
    run step s (es ++ fs) = (run step s es).bind fun s' => run step s' fs := by
  induction es generalizing s with
  | nil => rfl
  | cons e es ih =>
    simp only [List.cons_append, run, Option.bind_assoc]
    exact congrArg _ (funext fun s' => ih s')

theorem run_append_eq_some {s s' : σ} {es fs : List ε} :
    run step s (es ++ fs) = some s' ↔ ∃ s₁, run step s es = some s₁ ∧ run step s₁ fs = some s' := by
  rw [run_append, Option.bind_eq_some_iff]

/-- A machine that keeps more than another runs as it does. -/
theorem run_map {τ : Type*} {step' : τ → ε → Option τ} {f : τ → σ}
    (h : ∀ t e, (step' t e).map f = step (f t) e) (t : τ) (es : List ε) :
    (run step' t es).map f = run step (f t) es := by
  induction es generalizing t with
  | nil => rfl
  | cons e es ih =>
    simp only [run, ← h]
    cases step' t e with
    | none => rfl
    | some t' => exact ih t'

theorem Reach.refl (s : σ) : Reach step s s := ⟨[], rfl⟩

theorem Reach.tail {s₀ s s' : σ} {e : ε} (h : Reach step s₀ s) (hs : step s e = some s') :
    Reach step s₀ s' := by
  obtain ⟨es, hes⟩ := h
  exact ⟨es ++ [e], run_append_eq_some.mpr ⟨s, hes, run_cons.mpr ⟨s', hs, rfl⟩⟩⟩

/-- What the first state has and every step keeps, the last state has. -/
theorem run_invariant {I : σ → Prop} (hstep : ∀ s e s', I s → step s e = some s' → I s') :
    ∀ {es : List ε} {s s' : σ}, I s → run step s es = some s' → I s'
  | [], _, _, h, hr => by cases hr; exact h
  | _ :: _, _, _, h, hr => by
    obtain ⟨s₁, h1, h2⟩ := run_cons.mp hr
    exact run_invariant hstep (hstep _ _ _ h h1) h2

/-- A bound the last state meets and that steps only use up (`back`) holds
all along the run. -/
theorem run_back {B : σ → Prop} (back : ∀ s e s', step s e = some s' → B s' → B s) :
    ∀ {es : List ε} {s s' : σ}, run step s es = some s' → B s' → B s
  | [], _, _, hr, hB => by cases hr; exact hB
  | _ :: _, _, _, hr, hB => by
    obtain ⟨s₁, h1, h2⟩ := run_cons.mp hr
    exact back _ _ _ h1 (run_back back h2 hB)

/-- An invariant whose step needs the bound. -/
theorem run_bounded {I B : σ → Prop} {ok : ε → Prop}
    (back : ∀ s e s', step s e = some s' → B s' → B s)
    (hstep : ∀ s e s', ok e → B s' → I s → step s e = some s' → I s') :
    ∀ {es : List ε} {s s' : σ}, (∀ e ∈ es, ok e) → I s → run step s es = some s' → B s' → I s'
  | [], _, _, _, h, hr, _ => by cases hr; exact h
  | e :: _, _, _, hok, h, hr, hB => by
    obtain ⟨s₁, h1, h2⟩ := run_cons.mp hr
    have hI := hstep _ _ _ (hok e List.mem_cons_self) (run_back back h2 hB) h h1
    exact run_bounded back hstep (fun f hf => hok f (List.mem_cons_of_mem _ hf)) hI h2 hB

/-! ### Conditions that depend on where an event happens -/

/-- Every event of the run meets the condition in the state it happens in. -/
def Along (step : σ → ε → Option σ) (ok : σ → ε → Prop) : σ → List ε → Prop
  | _, [] => True
  | s, e :: es => ok s e ∧ ∀ s', step s e = some s' → Along step ok s' es

theorem along_append {ok : σ → ε → Prop} : ∀ {es fs : List ε} {s : σ}, Along step ok s (es ++ fs) ↔
    Along step ok s es ∧ ∀ s', run step s es = some s' → Along step ok s' fs
  | [], _, s => by simp [Along]
  | e :: es, fs, s => by
    simp only [List.cons_append, Along, along_append, and_assoc, run_cons]
    refine and_congr_right fun _ => ⟨fun h => ⟨fun s' hs => (h s' hs).1, ?_⟩, fun h s' hs => ⟨h.1 s' hs, ?_⟩⟩
    · rintro s' ⟨s₁, h1, h2⟩
      exact (h s₁ h1).2 s' h2
    · exact fun s'' hr => h.2 s'' ⟨s', hs, hr⟩

/-- Two conditions along a run are one. -/
theorem along_and {ok ok' : σ → ε → Prop} : ∀ {es : List ε} {s : σ},
    Along step (fun s e => ok s e ∧ ok' s e) s es ↔ Along step ok s es ∧ Along step ok' s es
  | [], _ => by simp [Along]
  | e :: es, s => by
    simp only [Along, along_and]
    constructor
    · rintro ⟨⟨h1, h2⟩, h3⟩
      exact ⟨⟨h1, fun s' hs => (h3 s' hs).1⟩, h2, fun s' hs => (h3 s' hs).2⟩
    · rintro ⟨⟨h1, h2⟩, h3, h4⟩
      exact ⟨⟨h1, h3⟩, fun s' hs => ⟨h2 s' hs, h4 s' hs⟩⟩

/-- A weaker condition. -/
theorem along_mono {ok ok' : σ → ε → Prop} (h : ∀ s e, ok s e → ok' s e) : ∀ {es : List ε} {s : σ},
    Along step ok s es → Along step ok' s es
  | [], _, _ => trivial
  | _ :: _, s, ha => ⟨h s _ ha.1, fun s' hs => along_mono h (ha.2 s' hs)⟩

/-- A condition on the events alone. -/
theorem along_of_forall {p : ε → Prop} : ∀ {es : List ε} {s : σ}, (∀ e ∈ es, p e) →
    Along step (fun _ e => p e) s es
  | [], _, _ => trivial
  | e :: _, _, h =>
    ⟨h e List.mem_cons_self, fun _ _ => along_of_forall fun f hf => h f (List.mem_cons_of_mem _ hf)⟩

/-- On a computed run the condition can be computed. -/
instance decidableAlong {ok : σ → ε → Prop} [∀ s e, Decidable (ok s e)] :
    ∀ (s : σ) (es : List ε), Decidable (Along step ok s es)
  | _, [] => isTrue trivial
  | s, e :: es =>
    match h : step s e with
    | none => decidable_of_iff (ok s e) ⟨fun hok => ⟨hok, fun s' hs => by rw [h] at hs; cases hs⟩, And.left⟩
    | some s' =>
      have : Decidable (Along step ok s' es) := decidableAlong s' es
      decidable_of_iff (ok s e ∧ Along step ok s' es)
        ⟨fun hok => ⟨hok.1, fun s'' hs => by rw [h] at hs; cases hs; exact hok.2⟩, fun hok => ⟨hok.1, hok.2 s' h⟩⟩

/-- An invariant whose step needs the condition. -/
theorem run_along {ok : σ → ε → Prop} {I : σ → Prop}
    (hstep : ∀ s e s', I s → ok s e → step s e = some s' → I s') :
    ∀ {es : List ε} {s s' : σ}, I s → Along step ok s es → run step s es = some s' → I s'
  | [], _, _, h, _, hr => by cases hr; exact h
  | _ :: _, _, _, h, ha, hr => by
    obtain ⟨s₁, h1, h2⟩ := run_cons.mp hr
    exact run_along hstep (hstep _ _ _ h ha.1 h1) (ha.2 s₁ h1) h2

/-- A machine that an event never stops where the condition holds runs through. -/
theorem run_total_along {ok : σ → ε → Prop} {I : σ → Prop}
    (hstep : ∀ s e, I s → ok s e → ∃ s', step s e = some s' ∧ I s') :
    ∀ {es : List ε} {s : σ}, I s → Along step ok s es → ∃ s', run step s es = some s' ∧ I s'
  | [], s, h, _ => ⟨s, rfl, h⟩
  | e :: es, s, h, ha => by
    obtain ⟨s₁, h1, h2⟩ := hstep s e h ha.1
    obtain ⟨s', h3, h4⟩ := run_total_along hstep h2 (ha.2 s₁ h1)
    exact ⟨s', run_cons.mpr ⟨s₁, h1, h3⟩, h4⟩

/-- A machine that an admissible event never stops runs through. -/
theorem run_total {I : σ → Prop} {ok : ε → Prop} (hstep : ∀ s e, I s → ok e → ∃ s', step s e = some s' ∧ I s')
    {es : List ε} {s : σ} (h : I s) (hok : ∀ e ∈ es, ok e) : ∃ s', run step s es = some s' ∧ I s' :=
  run_total_along hstep h (along_of_forall hok)

/-- Two conditions that agree where the invariant holds, which one of them
carries on, agree along a run. -/
theorem along_congr {ok ok' : σ → ε → Prop} {I : σ → Prop}
    (hiff : ∀ s e, I s → (ok s e ↔ ok' s e)) (hstep : ∀ s e s', I s → ok s e → step s e = some s' → I s') :
    ∀ {es : List ε} {s : σ}, I s → (Along step ok s es ↔ Along step ok' s es)
  | [], _, _ => Iff.rfl
  | e :: _, s, h => by
    constructor
    · intro ha
      exact ⟨(hiff s e h).mp ha.1, fun s' hs =>
        (along_congr hiff hstep (hstep s e s' h ha.1 hs)).mp (ha.2 s' hs)⟩
    · intro ha
      have hok := (hiff s e h).mpr ha.1
      exact ⟨hok, fun s' hs => (along_congr hiff hstep (hstep s e s' h hok hs)).mpr (ha.2 s' hs)⟩

/-- Along a run that goes through, a condition on the events alone is one on
all of them. -/
theorem along_events {p : ε → Prop} : ∀ {es : List ε} {s s' : σ}, run step s es = some s' →
    (Along step (fun s e => ∀ s', step s e = some s' → p e) s es ↔ ∀ e ∈ es, p e)
  | [], _, _, _ => by simp [Along]
  | e :: es, s, s', hr => by
    obtain ⟨s₁, h1, h2⟩ := run_cons.mp hr
    rw [List.forall_mem_cons, ← along_events h2]
    constructor
    · exact fun h => ⟨h.1 s₁ h1, h.2 s₁ h1⟩
    · rintro ⟨h, ht⟩
      refine ⟨fun _ _ => h, fun s₂ hs => ?_⟩
      obtain rfl := Option.some.inj (h1.symm.trans hs)
      exact ht

/-- A property of all states on the way, as a condition along the run. -/
theorem forall_prefix_iff_along {P : σ → Prop} : ∀ {es : List ε} {s : σ},
    (∀ es₁ s₁, es₁ <+: es → run step s es₁ = some s₁ → P s₁) ↔
      P s ∧ Along step (fun s e => ∀ s', step s e = some s' → P s') s es
  | [], s => by
    constructor
    · intro h
      exact ⟨h [] s (List.prefix_refl _) rfl, trivial⟩
    · rintro ⟨h, -⟩ es₁ s₁ hp hr
      obtain rfl := List.prefix_nil.mp hp
      obtain rfl := Option.some.inj hr
      exact h
  | e :: es, s => by
    constructor
    · intro h
      have h1 : ∀ s', step s e = some s' → P s' ∧ Along step (fun s e => ∀ s', step s e = some s' → P s') s' es := by
        intro s' hs
        refine forall_prefix_iff_along.mp fun es₁ s₁ hp hr => ?_
        exact h (e :: es₁) s₁ ((List.prefix_cons_inj e).mpr hp) (run_cons.mpr ⟨s', hs, hr⟩)
      exact ⟨h [] s (List.nil_prefix) rfl, fun s' hs => (h1 s' hs).1, fun s' hs => (h1 s' hs).2⟩
    · rintro ⟨h, h1, h2⟩ es₁ s₁ hp hr
      rcases List.prefix_cons_iff.mp hp with rfl | ⟨es₂, rfl, hp'⟩
      · obtain rfl := Option.some.inj hr
        exact h
      · obtain ⟨s', hs, hr⟩ := run_cons.mp hr
        exact forall_prefix_iff_along.mpr ⟨h1 s' hs, h2 s' hs⟩ es₂ s₁ hp' hr

/-! ### What a run puts out -/

variable {ο : Type*}

/-- The outputs of the events, one after another. -/
def outputs (step : σ → ε → Option σ) (out : σ → ε → List ο) (s : σ) : List ε → List ο
  | [] => []
  | e :: es => out s e ++ (step s e).elim [] fun s' => outputs step out s' es

theorem outputs_cons {out : σ → ε → List ο} {s s' : σ} {e : ε} (h : step s e = some s') (es : List ε) :
    outputs step out s (e :: es) = out s e ++ outputs step out s' es := by
  rw [outputs, h, Option.elim_some]

/-- A relation between the two ends of a run and its outputs, from its steps.
The steps may need an invariant, and a condition on where they happen. -/
theorem run_outputs_along {out : σ → ε → List ο} {I : σ → Prop} {ok : σ → ε → Prop}
    {R : σ → σ → List ε → List ο → Prop} (hstep : ∀ s e s', ok s e → I s → step s e = some s' → I s')
    (hnil : ∀ s, I s → R s s [] [])
    (hcons : ∀ s e s' s'' es l, ok s e → I s → step s e = some s' → R s' s'' es l →
      R s s'' (e :: es) (out s e ++ l)) :
    ∀ {es : List ε} {s s' : σ}, Along step ok s es → I s → run step s es = some s' →
      I s' ∧ R s s' es (outputs step out s es)
  | [], s, _, _, h, hr => by
    obtain rfl := Option.some.inj hr
    exact ⟨h, hnil s h⟩
  | e :: es, s, s', hok, h, hr => by
    obtain ⟨s₁, h1, h2⟩ := run_cons.mp hr
    have hI := hstep s e s₁ hok.1 h h1
    obtain ⟨h3, h4⟩ := run_outputs_along hstep hnil hcons (hok.2 s₁ h1) hI h2
    rw [outputs_cons h1]
    exact ⟨h3, hcons s e s₁ s' es _ hok.1 h h1 h4⟩

/-- The condition may be on the events alone. -/
theorem run_outputs {out : σ → ε → List ο} {I : σ → Prop} {Q : ε → Prop} {R : σ → σ → List ε → List ο → Prop}
    (hstep : ∀ s e s', Q e → I s → step s e = some s' → I s') (hnil : ∀ s, I s → R s s [] [])
    (hcons : ∀ s e s' s'' es l, Q e → I s → step s e = some s' → R s' s'' es l → R s s'' (e :: es) (out s e ++ l))
    {es : List ε} {s s' : σ} (hok : ∀ e ∈ es, Q e) (h : I s) (hr : run step s es = some s') :
    I s' ∧ R s s' es (outputs step out s es) :=
  run_outputs_along hstep hnil hcons (along_of_forall hok) h hr

/-- What the steps conserve, a run does: what was stored and what comes in is
put out or still stored, in order. `φ` picks what is counted of the outputs. -/
theorem outputs_balance {β : Type*} {out : σ → ε → List ο} {I : σ → Prop} {ok : σ → ε → Prop} {φ : List ο → List β}
    {stored : σ → List β} {incoming : ε → List β} (hnil : φ [] = []) (happend : ∀ l l', φ (l ++ l') = φ l ++ φ l')
    (hstep : ∀ s e s', ok s e → I s → step s e = some s' →
      I s' ∧ φ (out s e) ++ stored s' = stored s ++ incoming e)
    {es : List ε} {s s' : σ} (hok : Along step ok s es) (h : I s) (hr : run step s es = some s') :
    φ (outputs step out s es) ++ stored s' = stored s ++ es.flatMap incoming := by
  refine (run_outputs_along (I := I) (R := fun s s' es l => φ l ++ stored s' = stored s ++ es.flatMap incoming)
    (fun s e s' hk h hs => (hstep s e s' hk h hs).1) ?_ ?_ hok h hr).2
  · intro s _
    rw [hnil, List.nil_append, List.flatMap_nil, List.append_nil]
  · intro s e s₁ s' es l hk h hs hrest
    calc φ (out s e ++ l) ++ stored s' = φ (out s e) ++ (φ l ++ stored s') := by
          rw [happend, List.append_assoc]
      _ = φ (out s e) ++ stored s₁ ++ es.flatMap incoming := by rw [hrest, List.append_assoc]
      _ = stored s ++ (e :: es).flatMap incoming := by
          rw [(hstep s e s₁ hk h hs).2, List.flatMap_cons, List.append_assoc]

/-- What the steps pay for, a run does: what is put out and what is stored in
the end was stored before or came in. `φ` says what the outputs cost. -/
theorem outputs_ledger (out : σ → ε → List ο) {I : σ → Prop} {ok : ε → Prop} (φ : List ο → ℕ) (stored : σ → ℕ)
    (incoming : ε → ℕ) (hnil : φ [] = 0) (happend : ∀ l l', φ (l ++ l') = φ l + φ l')
    (hstep : ∀ s e s', ok e → I s → step s e = some s' →
      I s' ∧ φ (out s e) + stored s' ≤ stored s + incoming e)
    {es : List ε} {s s' : σ} (hok : ∀ e ∈ es, ok e) (h : I s) (hr : run step s es = some s') :
    I s' ∧ φ (outputs step out s es) + stored s' ≤ stored s + (es.map incoming).sum := by
  refine run_outputs (R := fun s s' es l => φ l + stored s' ≤ stored s + (es.map incoming).sum)
    (fun s e s' hk h hs => (hstep s e s' hk h hs).1) ?_ ?_ hok h hr
  · intro s _
    simp [hnil]
  · intro s e s₁ s' es l hk h hs hrest
    have hone := (hstep s e s₁ hk h hs).2
    calc φ (out s e ++ l) + stored s' = φ (out s e) + (φ l + stored s') := by rw [happend, add_assoc]
      _ ≤ φ (out s e) + (stored s₁ + (es.map incoming).sum) := by gcongr
      _ = φ (out s e) + stored s₁ + (es.map incoming).sum := by rw [add_assoc]
      _ ≤ stored s + incoming e + (es.map incoming).sum := by gcongr
      _ = stored s + ((e :: es).map incoming).sum := by rw [List.map_cons, List.sum_cons, add_assoc]

/-- If each state has finitely many events that do anything, and these lower a
measure, then what the runs put out is bounded. -/
theorem outputs_bounded {α : Type*} [Preorder α] [WellFoundedLT α] {out : σ → ε → List ο} {ok : σ → ε → Prop}
    (μ : σ → α) (hstep : ∀ s, ∃ events : List ε, ∀ e, ok s e → step s e = some s ∧ out s e = [] ∨
      e ∈ events ∧ ∀ s', step s e = some s' → μ s' < μ s) (s : σ) :
    ∃ N, ∀ es, Along step ok s es → (outputs step out s es).length ≤ N := by
  induction s using (InvImage.wf μ wellFounded_lt).induction with
  | _ s ih =>
    choose! N hN using ih
    obtain ⟨events, hevents⟩ := hstep s
    refine ⟨(events.map fun e => (out s e).length + (step s e).elim 0 N).sum, fun es => ?_⟩
    induction es with
    | nil => exact fun _ => Nat.zero_le _
    | cons e es hes =>
      rintro ⟨hok, hrest⟩
      rcases hevents e hok with ⟨h1, h2⟩ | ⟨hmem, hlt⟩
      · rw [outputs_cons h1, h2, List.nil_append]
        exact hes (hrest s h1)
      · apply le_trans _ (List.le_sum_of_mem (List.mem_map_of_mem hmem))
        cases hs : step s e with
        | none => simp [outputs, hs]
        | some s' =>
          rw [outputs_cons hs, List.length_append, Option.elim_some]
          exact Nat.add_le_add_left (hN s' (hlt s' hs) es (hrest s' hs)) _

end Runs

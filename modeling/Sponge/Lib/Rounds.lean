/-
# Reaching a goal

One state of a machine leads to another by events of a chosen kind
(`Runs.Leads`). If from every state that is no goal they lead to one where a
measure is lower, they lead to a goal from every state: no state is stuck.

Key definitions: `Runs.Leads`.
Key theorems: `Runs.Leads.trans`, `Runs.Leads.map`, `Runs.leads_of_rounds`.
-/
import Sponge.Lib.Runs

namespace Runs

variable {σ ε : Type*} {step : σ → ε → Option σ} {ok : ε → Prop} {s s' s'' : σ}

/-- Events that are all `ok` lead from `s` to `s'`. -/
def Leads (step : σ → ε → Option σ) (ok : ε → Prop) (s s' : σ) : Prop :=
  ∃ es, (∀ e ∈ es, ok e) ∧ run step s es = some s'

theorem Leads.refl (s : σ) : Leads step ok s s := ⟨[], fun _ h => absurd h List.not_mem_nil, rfl⟩

theorem Leads.of_step {e : ε} (he : ok e) (hs : step s e = some s') : Leads step ok s s' := by
  refine ⟨[e], fun f hf => ?_, run_cons.mpr ⟨s', hs, rfl⟩⟩
  rw [List.mem_singleton.mp hf]
  exact he

theorem Leads.trans (h : Leads step ok s s') (h' : Leads step ok s' s'') : Leads step ok s s'' := by
  obtain ⟨es, h1, h2⟩ := h
  obtain ⟨fs, h3, h4⟩ := h'
  exact ⟨es ++ fs, List.forall_mem_append.mpr ⟨h1, h3⟩, run_append_eq_some.mpr ⟨s', h2, h4⟩⟩

/-- What the chosen events keep. -/
theorem Leads.invariant {I : σ → Prop} (hstep : ∀ s e s', I s → ok e → step s e = some s' → I s')
    (h : Leads step ok s s') (hs : I s) : I s' := by
  obtain ⟨es, hes, hr⟩ := h
  have hall : Along step (fun _ e => ok e) s es := along_of_forall hes
  exact run_along hstep hs hall hr

/-- A machine seen through `f` and `g` goes where the other goes. -/
theorem Leads.map {τ δ : Type*} {step' : τ → δ → Option τ} {ok' : δ → Prop} {f : σ → τ} {g : ε → δ}
    (hok : ∀ e, ok e → ok' (g e)) (hstep : ∀ s e, step' (f s) (g e) = (step s e).map f)
    (h : Leads step ok s s') : Leads step' ok' (f s) (f s') := by
  obtain ⟨es, hes, hr⟩ := h
  induction es generalizing s with
  | nil =>
    obtain rfl := Option.some.inj hr
    exact Leads.refl _
  | cons e es ih =>
    obtain ⟨s₁, h1, h2⟩ := run_cons.mp hr
    have hhead : Leads step' ok' (f s) (f s₁) :=
      Leads.of_step (hok e (hes e List.mem_cons_self)) (by rw [hstep, h1, Option.map_some])
    exact hhead.trans (ih (fun x hx => hes x (List.mem_cons_of_mem _ hx)) h2)

/-- **Rounds**: where every state is a goal or leads to a lower one, a goal is
reached. -/
theorem leads_of_rounds {I goal : σ → Prop} (μ : σ → ℕ)
    (hround : ∀ s, I s → goal s ∨ ∃ s', Leads step ok s s' ∧ I s' ∧ μ s' < μ s) :
    ∀ {s : σ}, I s → ∃ s', Leads step ok s s' ∧ I s' ∧ goal s' := by
  intro s
  induction hn : μ s using Nat.strong_induction_on generalizing s with
  | _ n ih =>
    intro h
    rcases hround s h with hg | ⟨s₁, hl, h1, hlt⟩
    · exact ⟨s, Leads.refl s, h, hg⟩
    · obtain ⟨s', hl', h', hg⟩ := ih (μ s₁) (hn ▸ hlt) rfl h1
      exact ⟨s', hl.trans hl', h', hg⟩

end Runs

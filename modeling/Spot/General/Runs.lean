import Mathlib.Data.List.Basic
import Mathlib.Tactic.Common

/-!
# Runs of a partial step function

A system is a step function `step : σ → α → Option σ` on states and events; `none` means that the
event cannot happen in the state.  This file gives its finite runs (`run`), the states they reach
(`Reachable`) and the ways in which invariants are used:

* `Reachable.invariant`: what every step preserves holds in every reachable state;
* `Reachable.simulated` and `run_simulated`: what holds of the reachable states of a system carries
  over to one whose steps are runs of it, and so do its visible events;
* `Guarded.invariant` and `throughout_iff_guarded`: what every step meeting a guard preserves holds
  along every run whose steps all meet it, and only along those when any other step breaks it.
-/

namespace Spot

section Runs

variable {σ α : Type*}

/-- The state after a list of events. -/
def run (step : σ → α → Option σ) : σ → List α → Option σ
  | s, [] => some s
  | s, a :: as => (step s a).bind (run step · as)

/-- A state that some run from `s₀` ends in. -/
def Reachable (step : σ → α → Option σ) (s₀ s : σ) : Prop := ∃ as, run step s₀ as = some s

/-- Every event of the run meets the guard `G` in the state it happens in. -/
def Guarded (step : σ → α → Option σ) (G : σ → α → Prop) : σ → List α → Prop
  | _, [] => True
  | s, a :: as => G s a ∧ ∀ s', step s a = some s' → Guarded step G s' as

/-- `I` holds in every state the run passes through, both ends included. -/
def Throughout (step : σ → α → Option σ) (I : σ → Prop) : σ → List α → Prop
  | s, [] => I s
  | s, a :: as => I s ∧ ∀ s', step s a = some s' → Throughout step I s' as

instance Guarded.decidable (step : σ → α → Option σ) (G : σ → α → Prop) [∀ s, DecidablePred (G s)] :
    ∀ s as, Decidable (Guarded step G s as)
  | _, [] => inferInstanceAs (Decidable True)
  | s, a :: as =>
    have := fun s' => Guarded.decidable step G s' as
    inferInstanceAs (Decidable (G s a ∧ ∀ s' ∈ step s a, Guarded step G s' as))

instance Throughout.decidable (step : σ → α → Option σ) (I : σ → Prop) [DecidablePred I] :
    ∀ s as, Decidable (Throughout step I s as)
  | s, [] => inferInstanceAs (Decidable (I s))
  | s, a :: as =>
    have := fun s' => Throughout.decidable step I s' as
    inferInstanceAs (Decidable (I s ∧ ∀ s' ∈ step s a, Throughout step I s' as))

variable {step : σ → α → Option σ} {s s' s'' s₀ : σ} {a : α} {as : List α}
  {G : σ → α → Prop} {I : σ → Prop}

@[simp] theorem run_nil : run step s [] = some s := rfl

@[simp] theorem run_cons : run step s (a :: as) = (step s a).bind (run step · as) := rfl

theorem run_cons_eq_some : run step s (a :: as) = some s'' ↔
    ∃ s', step s a = some s' ∧ run step s' as = some s'' := by
  rw [run_cons, Option.bind_eq_some_iff]

theorem Reachable.refl : Reachable step s s := ⟨[], rfl⟩

theorem run_append (as as' : List α) :
    run step s (as ++ as') = (run step s as).bind (run step · as') := by
  induction as generalizing s with
  | nil => rfl
  | cons a as ih =>
    rw [List.cons_append, run_cons, run_cons, Option.bind_assoc]
    exact congrArg ((step s a).bind ·) (funext fun s' => ih)

theorem Reachable.trans (h : Reachable step s s') (h' : Reachable step s' s'') :
    Reachable step s s'' := by
  obtain ⟨as, has⟩ := h
  obtain ⟨as', has'⟩ := h'
  exact ⟨as ++ as', by rw [run_append, has, Option.bind_some, has']⟩

theorem Reachable.single (h : step s a = some s') : Reachable step s s' :=
  ⟨[a], by rw [run_cons, h]; rfl⟩

/-! ### Invariants -/

theorem run_invariant (keep : ∀ s a s', I s → step s a = some s' → I s') (h₀ : I s)
    (hr : run step s as = some s') : I s' := by
  induction as generalizing s with
  | nil => exact Option.some.inj hr ▸ h₀
  | cons a as ih =>
    obtain ⟨s₁, h₁, hr⟩ := run_cons_eq_some.1 hr
    exact ih (keep s a s₁ h₀ h₁) hr

/-- What every step from a state with an invariant adds to a list, a run adds in order. -/
theorem run_collect {β : Type*} {g : σ → List β} {f : α → List β}
    (h : ∀ s a s', I s → step s a = some s' → I s' ∧ g s' = g s ++ f a) (h₀ : I s)
    (hr : run step s as = some s') : I s' ∧ g s' = g s ++ as.flatMap f := by
  induction as generalizing s with
  | nil =>
    obtain rfl := Option.some.inj hr
    rw [List.flatMap_nil, List.append_nil]
    exact ⟨h₀, rfl⟩
  | cons a as ih =>
    obtain ⟨s₁, h₁, hr⟩ := run_cons_eq_some.1 hr
    obtain ⟨hI, hg⟩ := h s a s₁ h₀ h₁
    obtain ⟨hI', hrest⟩ := ih hI hr
    exact ⟨hI', by rw [hrest, hg, List.flatMap_cons, List.append_assoc]⟩

/-- What every step preserves holds in every reachable state. -/
theorem Reachable.invariant (keep : ∀ s a s', I s → step s a = some s' → I s') (h₀ : I s₀)
    (h : Reachable step s₀ s) : I s := by
  obtain ⟨as, has⟩ := h
  exact run_invariant keep h₀ has

/-- If every step from a state that is related to one of another system is a run of the other to a
related state, all states that are reached are related to states that the other reaches. -/
theorem Reachable.simulated {τ β : Type*} {step' : τ → β → Option τ} {R : σ → τ → Prop} {t₀ : τ}
    (sim : ∀ s a s' t, R s t → step s a = some s' → ∃ t', Reachable step' t t' ∧ R s' t')
    (h₀ : R s₀ t₀) (h : Reachable step s₀ s) : ∃ t, Reachable step' t₀ t ∧ R s t := by
  refine h.invariant (I := fun s => ∃ t, Reachable step' t₀ t ∧ R s t) ?_ ⟨t₀, .refl, h₀⟩
  rintro s a s' ⟨t, ht, hR⟩ hstep
  obtain ⟨t', ht', hR'⟩ := sim s a s' t hR hstep
  exact ⟨t', ht.trans ht', hR'⟩

/-- If every step of one system is a run of another, with the same visible events, so is every
run. -/
theorem run_simulated {β γ : Type*} {step' : σ → β → Option σ} {f : α → List γ} {g : β → List γ}
    (sim : ∀ s a s', G s a → step s a = some s' →
      ∃ bs, run step' s bs = some s' ∧ bs.flatMap g = f a)
    (hg : Guarded step G s as) (hr : run step s as = some s') :
    ∃ bs, run step' s bs = some s' ∧ bs.flatMap g = as.flatMap f := by
  induction as generalizing s with
  | nil => exact ⟨[], hr, rfl⟩
  | cons a as ih =>
    obtain ⟨s₁, h₁, hr⟩ := run_cons_eq_some.1 hr
    obtain ⟨bs, hbs, hvisible⟩ := sim s a s₁ hg.1 h₁
    obtain ⟨cs, hcs, hrest⟩ := ih (hg.2 s₁ h₁) hr
    refine ⟨bs ++ cs, by rw [run_append, hbs, Option.bind_some, hcs], ?_⟩
    rw [List.flatMap_append, hvisible, hrest, List.flatMap_cons]

theorem Guarded.of_forall (h : ∀ a ∈ as, ∀ s, G s a) : Guarded step G s as := by
  induction as generalizing s with
  | nil => trivial
  | cons a as ih =>
    exact ⟨h a List.mem_cons_self s, fun _ _ => ih fun b hb => h b (List.mem_cons_of_mem _ hb)⟩

/-- What every guarded step preserves holds at the end of every guarded run. -/
theorem Guarded.invariant (keep : ∀ s a s', I s → G s a → step s a = some s' → I s') (h₀ : I s)
    (hg : Guarded step G s as) (hr : run step s as = some s') : I s' := by
  induction as generalizing s with
  | nil => exact Option.some.inj hr ▸ h₀
  | cons a as ih =>
    obtain ⟨s₁, h₁, hr⟩ := run_cons_eq_some.1 hr
    exact ih (keep s a s₁ h₀ hg.1 h₁) (hg.2 s₁ h₁) hr

theorem Throughout.start (h : Throughout step I s as) : I s := by
  cases as with
  | nil => exact h
  | cons a as => exact h.1

theorem Throughout.mono {J : σ → Prop} (h : Throughout step I s as) (hJ : ∀ s, I s → J s) :
    Throughout step J s as := by
  induction as generalizing s with
  | nil => exact hJ s h
  | cons a as ih => exact ⟨hJ s h.1, fun s₁ h₁ => ih (h.2 s₁ h₁)⟩

/-- What steps preserve between states that satisfy `I` holds at the end of a run within `I`. -/
theorem Throughout.invariant {J : σ → Prop}
    (keep : ∀ s a s', I s → I s' → J s → step s a = some s' → J s') (h₀ : J s)
    (h : Throughout step I s as) (hr : run step s as = some s') : J s' := by
  induction as generalizing s with
  | nil => exact Option.some.inj hr ▸ h₀
  | cons a as ih =>
    obtain ⟨s₁, h₁, hr⟩ := run_cons_eq_some.1 hr
    have ht := h.2 s₁ h₁
    exact ih (keep s a s₁ h.1 ht.start h₀ h₁) ht hr

/-- What every guarded step preserves holds throughout every guarded run. -/
theorem Guarded.throughout (keep : ∀ s a s', I s → G s a → step s a = some s' → I s') (h₀ : I s)
    (hg : Guarded step G s as) : Throughout step I s as := by
  induction as generalizing s with
  | nil => exact h₀
  | cons a as ih => exact ⟨h₀, fun s₁ h₁ => ih (keep s a s₁ h₀ hg.1 h₁) (hg.2 s₁ h₁)⟩

/-- A property that guarded steps preserve and all other possible steps break holds along a run
exactly when every possible step of the run is guarded. -/
theorem throughout_iff_guarded (keep : ∀ s a s', I s → G s a → step s a = some s' → I s')
    (broken : ∀ s a s', I s → step s a = some s' → I s' → G s a)
    (h₀ : I s) {s' : σ} (hr : run step s as = some s') :
    Throughout step I s as ↔ Guarded step G s as := by
  induction as generalizing s with
  | nil => exact ⟨fun _ => trivial, fun _ => h₀⟩
  | cons a as ih =>
    obtain ⟨s₁, h₁, hr⟩ := run_cons_eq_some.1 hr
    constructor
    · rintro ⟨-, h⟩
      have hI := (h s₁ h₁).start
      refine ⟨broken s a s₁ h₀ h₁ hI, fun s₂ h₂ => ?_⟩
      obtain rfl : s₁ = s₂ := Option.some.inj (h₁.symm.trans h₂)
      exact (ih hI hr).1 (h s₁ h₁)
    · rintro ⟨hg, h⟩
      refine ⟨h₀, fun s₂ h₂ => ?_⟩
      obtain rfl : s₁ = s₂ := Option.some.inj (h₁.symm.trans h₂)
      exact (ih (keep s a s₁ h₀ hg h₁) hr).2 (h s₁ h₁)

theorem Throughout.and {J : σ → Prop} (keep : ∀ s a s', J s → step s a = some s' → J s')
    (h₀ : J s) (h : Throughout step I s as) : Throughout step (fun s => J s ∧ I s) s as := by
  induction as generalizing s with
  | nil => exact ⟨h₀, h⟩
  | cons a as ih => exact ⟨⟨h₀, h.1⟩, fun s₁ h₁ => ih (keep s a s₁ h₀ h₁) (h.2 s₁ h₁)⟩

/-- The same for a property that guarded steps preserve, and other steps break, in the states that
satisfy an invariant of all steps. -/
theorem throughout_iff_guarded_within {J : σ → Prop}
    (always : ∀ s a s', J s → step s a = some s' → J s')
    (keep : ∀ s a s', J s → I s → G s a → step s a = some s' → I s')
    (broken : ∀ s a s', J s → I s → step s a = some s' → I s' → G s a)
    (hJ : J s) (h₀ : I s) {s' : σ} (hr : run step s as = some s') :
    Throughout step I s as ↔ Guarded step G s as := by
  have hboth : Throughout step (fun s => J s ∧ I s) s as ↔ Guarded step G s as :=
    throughout_iff_guarded
      (fun s a s' hs hG h => ⟨always s a s' hs.1 h, keep s a s' hs.1 hs.2 hG h⟩)
      (fun s a s' hs h hs' => broken s a s' hs.1 hs.2 h hs'.2) ⟨hJ, h₀⟩ hr
  exact ⟨fun h => hboth.1 (h.and always hJ), fun h => (hboth.2 h).mono fun _ => And.right⟩

end Runs

end Spot

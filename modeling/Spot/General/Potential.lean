import Spot.General.Census
import Spot.General.Runs

/-!
# What a run can spend

Events cost something and bring something in, depending on the state they happen in, and a state has
a potential.  If no step spends more than what it finds and what it brings in, no run does:
`run_potential`.  With nothing brought in, the potential bounds the number of events:
`run_countP_le`.
-/

namespace Spot

section Potential

variable {σ α : Type*}

/-- What the events of a run amount to, each as `c` says in the state it happens in. -/
def amount (step : σ → α → Option σ) (c : σ → α → ℕ) : σ → List α → ℕ
  | _, [] => 0
  | s, a :: as => c s a + ((step s a).elim 0 fun s' => amount step c s' as)

variable {step : σ → α → Option σ} {s s' : σ} {a : α} {as : List α} {I : σ → Prop} {μ : σ → ℕ}
  {c g : σ → α → ℕ}

theorem amount_cons (c : σ → α → ℕ) (h : step s a = some s') :
    amount step c s (a :: as) = c s a + amount step c s' as := by
  rw [amount, h]
  rfl

/-- If no step spends more than it finds and brings in, neither does a run. -/
theorem run_potential
    (keep : ∀ s a s', I s → step s a = some s' → I s' ∧ μ s' + c s a ≤ μ s + g s a)
    (h₀ : I s) (hr : run step s as = some s') :
    μ s' + amount step c s as ≤ μ s + amount step g s as := by
  induction as generalizing s with
  | nil =>
    obtain rfl := Option.some.inj hr
    exact Nat.le_refl _
  | cons a as ih =>
    obtain ⟨s₁, h₁, hr⟩ := run_cons_eq_some.1 hr
    obtain ⟨hI, hle⟩ := keep s a s₁ h₀ h₁
    have hrest := ih hI hr
    rw [amount_cons c h₁, amount_cons g h₁]
    omega

/-- Events of a kind that cost the same each. -/
theorem amount_kind (k : ℕ) (p : α → Bool) (hr : run step s as = some s') :
    amount step (fun _ a => k * share p a) s as = k * as.countP p := by
  induction as generalizing s with
  | nil => rfl
  | cons a as ih =>
    obtain ⟨s₁, h₁, hr⟩ := run_cons_eq_some.1 hr
    have hcons : (a :: as).countP p = as.countP p + share p a := List.countP_cons
    rw [amount_cons _ h₁, ih hr, hcons, Nat.mul_add, Nat.add_comm]

/-- Events that amount to the same in every state. -/
theorem amount_event (f : α → ℕ) (hr : run step s as = some s') :
    amount step (fun _ a => f a) s as = (as.map f).sum := by
  induction as generalizing s with
  | nil => rfl
  | cons a as ih =>
    obtain ⟨s₁, h₁, hr⟩ := run_cons_eq_some.1 hr
    rw [amount_cons _ h₁, ih hr, List.map_cons, List.sum_cons]

theorem amount_zero (hr : run step s as = some s') : amount step (fun _ _ => 0) s as = 0 := by
  have h := amount_kind 0 (fun _ : α => false) hr
  simpa only [Nat.zero_mul] using h

/-- Events of a kind that use up the potential are no more than it allows. -/
theorem run_countP_le {p : α → Bool}
    (keep : ∀ s a s', I s → step s a = some s' → I s' ∧ μ s' + share p a ≤ μ s)
    (h₀ : I s) (hr : run step s as = some s') : μ s' + as.countP p ≤ μ s := by
  have h := run_potential (c := fun _ a => 1 * share p a) (g := fun _ _ => 0)
    (fun s a s' hI hs => by simpa only [Nat.one_mul, Nat.add_zero] using keep s a s' hI hs) h₀ hr
  rwa [amount_kind 1 p hr, amount_zero hr, Nat.one_mul, Nat.add_zero] at h

end Potential

end Spot

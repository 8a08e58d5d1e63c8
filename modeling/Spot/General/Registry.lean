import Mathlib.Data.List.Basic
import Mathlib.Tactic.Common

/-!
# Registrations under names

Things are registered under names; a registration ends when another takes its name, when its name
is cleared, or when it is retired by its owner.  `Latest` says, of a history of such operations,
which registration of a name is in force; `latest_concat` is how one more operation changes that.
-/

namespace Spot

/-- An operation on a registry: a registration, the clearing of a name, or the end of the
registration of `h` under a name. -/
inductive RegistryOp (ν η : Type*)
  | put (n : ν) (h : η)
  | remove (n : ν)
  | retire (n : ν) (h : η)

section Registry

variable {ν η : Type*}

/-- The operation ends an earlier registration of `h` under `n`. -/
def RegistryOp.Ends (n : ν) (h : η) : RegistryOp ν η → Prop
  | put n' _ => n' = n
  | remove n' => n' = n
  | retire n' h' => n' = n ∧ h' = h

/-- After a history, `h` is in force under `n`: it was registered there, or was there at the start,
and no later operation ends it. -/
def Latest (start : ν → Option η) (ops : List (RegistryOp ν η)) (n : ν) (h : η) : Prop :=
  (∃ pre post, ops = pre ++ .put n h :: post ∧ ∀ op ∈ post, ¬ op.Ends n h) ∨
    start n = some h ∧ ∀ op ∈ ops, ¬ op.Ends n h

variable {start : ν → Option η} {ops : List (RegistryOp ν η)} {op : RegistryOp ν η} {n n' : ν}
  {h h' : η}

theorem latest_nil : Latest start [] n h ↔ start n = some h := by
  constructor
  · rintro (⟨pre, post, hops, -⟩ | ⟨hstart, -⟩)
    · simp at hops
    · exact hstart
  · exact fun hstart => .inr ⟨hstart, fun op hop => absurd hop List.not_mem_nil⟩

/-- One more operation puts a registration in force, or leaves one in force that it does not end. -/
theorem latest_concat :
    Latest start (ops ++ [op]) n h ↔
      op = .put n h ∨ Latest start ops n h ∧ ¬ op.Ends n h := by
  constructor
  · rintro (⟨pre, post, hops, hpost⟩ | ⟨hstart, hops⟩)
    · rcases List.eq_nil_or_concat' post with rfl | ⟨post, last, rfl⟩
      · exact .inl (List.singleton_inj.1 (List.append_inj_right' hops rfl))
      · rw [← List.cons_append, ← List.append_assoc] at hops
        obtain ⟨rfl, hlast⟩ := List.append_inj' hops rfl
        obtain rfl := List.singleton_inj.1 hlast
        refine .inr ⟨.inl ⟨pre, post, rfl, fun op' hop' => ?_⟩, ?_⟩
        · exact hpost op' (List.mem_append_left _ hop')
        · exact hpost op (List.mem_append_right _ List.mem_cons_self)
    · refine .inr ⟨.inr ⟨hstart, fun op' hop' => ?_⟩, ?_⟩
      · exact hops op' (List.mem_append_left _ hop')
      · exact hops op (List.mem_append_right _ List.mem_cons_self)
  · have extend : ∀ post : List (RegistryOp ν η), (∀ op' ∈ post, ¬ op'.Ends n h) →
        ¬ op.Ends n h → ∀ op' ∈ post ++ [op], ¬ op'.Ends n h := by
      intro post hpost hop op' hop'
      rcases List.mem_append.1 hop' with hop' | hop'
      · exact hpost op' hop'
      · exact List.mem_singleton.1 hop' ▸ hop
    rintro (rfl | ⟨⟨pre, post, rfl, hpost⟩ | ⟨hstart, hops⟩, hop⟩)
    · exact .inl ⟨ops, [], rfl, fun op' hop' => absurd hop' List.not_mem_nil⟩
    · exact .inl ⟨pre, post ++ [op], by rw [List.append_assoc, List.cons_append],
        extend post hpost hop⟩
    · exact .inr ⟨hstart, extend ops hops hop⟩

theorem latest_put :
    Latest start (ops ++ [.put n' h']) n h ↔
      n' = n ∧ h' = h ∨ n' ≠ n ∧ Latest start ops n h := by
  rw [latest_concat, RegistryOp.put.injEq, RegistryOp.Ends]
  simp [and_comm]

theorem latest_remove :
    Latest start (ops ++ [.remove n']) n h ↔ n' ≠ n ∧ Latest start ops n h := by
  rw [latest_concat, RegistryOp.Ends]
  simp [and_comm]

theorem latest_retire :
    Latest start (ops ++ [.retire n' h']) n h ↔ ¬ (n' = n ∧ h' = h) ∧ Latest start ops n h := by
  rw [latest_concat, RegistryOp.Ends]
  simp [and_comm]

end Registry

end Spot

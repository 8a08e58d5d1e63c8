import Mathlib.Data.List.Basic
import Mathlib.Data.List.Nodup
import Mathlib.Tactic.Common

/-!
# Shared work queues

Items are issued to a queue; workers take an item from its head, and either deliver it or put it
back in front.  `WorkQueue` records where every item is, `WorkQueue.Move` what can happen to it:

* `Move.conserved`: no move loses or doubles an item (`Conserved`);
* `Move.inOrder`: while at most one item is held, deliveries follow the order of issue (`InOrder`).
-/

namespace Spot

/-- The items of a queue served by workers, in the order of issue and where they are now. -/
structure WorkQueue (α : Type*) where
  issued : List α
  queue : List α
  held : List α
  delivered : List α

namespace WorkQueue

variable {α : Type*} {w w' : WorkQueue α}

/-- What can happen to a queue: nothing, or one item is issued, taken, delivered or put back. -/
inductive Move : WorkQueue α → WorkQueue α → Prop
  | stay (w : WorkQueue α) : Move w w
  | issue (w : WorkQueue α) (a : α) :
      Move w { w with issued := w.issued ++ [a], queue := w.queue ++ [a] }
  | take (i q d : List α) (a : α) (h₁ h₂ : List α) :
      Move ⟨i, a :: q, h₁ ++ h₂, d⟩ ⟨i, q, h₁ ++ a :: h₂, d⟩
  | deliver (i q d : List α) (a : α) (h₁ h₂ : List α) :
      Move ⟨i, q, h₁ ++ a :: h₂, d⟩ ⟨i, q, h₁ ++ h₂, d ++ [a]⟩
  | putBack (i q d : List α) (a : α) (h₁ h₂ : List α) :
      Move ⟨i, q, h₁ ++ a :: h₂, d⟩ ⟨i, a :: q, h₁ ++ h₂, d⟩

/-- Everything issued is delivered, held or queued, and nothing else is. -/
def Conserved (w : WorkQueue α) : Prop :=
  List.Perm (w.delivered ++ (w.held ++ w.queue)) w.issued

/-- What is delivered, then what is held, then what is queued: the order of issue. -/
def InOrder (w : WorkQueue α) : Prop := w.delivered ++ (w.held ++ w.queue) = w.issued

theorem Move.conserved (h : Move w w') (hw : w.Conserved) : w'.Conserved := by
  unfold Conserved at hw ⊢
  cases h with
  | stay => exact hw
  | issue _ a =>
    simp only [← List.append_assoc] at hw ⊢
    exact List.Perm.append_right [a] hw
  | take i q d a h₁ h₂ =>
    refine List.Perm.trans (List.Perm.append_left d ?_) hw
    simp only [List.append_assoc, List.cons_append]
    exact List.Perm.append_left h₁ List.perm_middle.symm
  | deliver i q d a h₁ h₂ =>
    refine List.Perm.trans ?_ hw
    simp only [List.append_assoc, List.cons_append, List.nil_append]
    exact List.Perm.append_left d List.perm_middle.symm
  | putBack i q d a h₁ h₂ =>
    refine List.Perm.trans (List.Perm.append_left d ?_) hw
    simp only [List.append_assoc, List.cons_append]
    exact List.Perm.append_left h₁ List.perm_middle

theorem append_eq_of_length_le_one {a : α} {h₁ h₂ : List α} (h : (h₁ ++ a :: h₂).length ≤ 1) :
    h₁ = [] ∧ h₂ = [] := by
  simp only [List.length_append, List.length_cons] at h
  exact ⟨List.length_eq_zero_iff.1 (by omega), List.length_eq_zero_iff.1 (by omega)⟩

/-- As long as at most one item is held, items are delivered in the order of issue. -/
theorem Move.inOrder (h : Move w w') (h₁ : w.held.length ≤ 1) (h₂ : w'.held.length ≤ 1)
    (hw : w.InOrder) : w'.InOrder := by
  unfold InOrder at hw ⊢
  cases h with
  | stay => exact hw
  | issue _ a =>
    simp only [← List.append_assoc] at hw ⊢
    rw [hw]
  | take i q d a l r =>
    obtain ⟨rfl, rfl⟩ := append_eq_of_length_le_one h₂
    exact hw
  | deliver i q d a l r =>
    obtain ⟨rfl, rfl⟩ := append_eq_of_length_le_one h₁
    simpa using hw
  | putBack i q d a l r =>
    obtain ⟨rfl, rfl⟩ := append_eq_of_length_le_one h₁
    exact hw

theorem InOrder.prefix_delivered (h : w.InOrder) : w.delivered <+: w.issued := ⟨_, h⟩

/-- Each issued item is in exactly one place. -/
theorem Conserved.count_eq [DecidableEq α] (h : w.Conserved) (hn : w.issued.Nodup) {a : α}
    (ha : a ∈ w.issued) :
    w.queue.count a + w.held.count a + w.delivered.count a = 1 := by
  have hc := List.Perm.count_eq h a
  rw [List.count_append, List.count_append, List.count_eq_one_of_mem hn ha] at hc
  omega

end WorkQueue

end Spot

import Mathlib.Data.List.Perm.Basic
import Mathlib.Data.List.Pairwise
import Mathlib.Data.List.Nodup
import Mathlib.Order.Defs.Unbundled
import Mathlib.Tactic.Common

/-!
# Maps as sorted lists

A map as the list of its entries, with ascending keys.  What a key is mapped to after an insertion
does not depend on the order (`lookup_insertSorted`), and two ascending lists that map every key
alike are the same list (`Ascending.ext`).
-/

namespace Spot

variable {κ υ : Type*} (lt : κ → κ → Prop)

/-- The keys ascend. -/
def Ascending (l : List (κ × υ)) : Prop := l.Pairwise fun e e' => lt e.1 e'.1

theorem lookup_pair_cons [DecidableEq κ] {k k' : κ} {v : υ} {l : List (κ × υ)} :
    List.lookup k ((k', v) :: l) = if k = k' then some v else l.lookup k := by
  rw [List.lookup_cons]
  split_ifs with h
  · rw [beq_iff_eq.2 h]
  · rw [beq_eq_false_iff_ne.2 h]

section Insert

variable [DecidableEq κ] [DecidableRel lt]

/-- Inserts an entry before the greater keys, in place of an entry of the same key. -/
def insertSorted (k : κ) (v : υ) : List (κ × υ) → List (κ × υ)
  | [] => [(k, v)]
  | (k', v') :: rest =>
    if lt k k' then (k, v) :: (k', v') :: rest
    else if k = k' then (k, v) :: rest
    else (k', v') :: insertSorted k v rest

variable {lt} {k k' : κ} {v : υ} {e : κ × υ} {l : List (κ × υ)}

theorem mem_of_mem_insertSorted (h : e ∈ insertSorted lt k v l) : e = (k, v) ∨ e ∈ l := by
  induction l with
  | nil => exact .inl (List.mem_singleton.1 h)
  | cons e' l ih =>
    rw [insertSorted] at h
    split_ifs at h with hlt heq
    · exact List.mem_cons.1 h
    · exact (List.mem_cons.1 h).imp_right (List.mem_cons_of_mem _)
    · rcases List.mem_cons.1 h with rfl | h
      · exact .inr List.mem_cons_self
      · exact (ih h).imp_right (List.mem_cons_of_mem _)

theorem lookup_insertSorted :
    (insertSorted lt k v l).lookup k' = if k' = k then some v else l.lookup k' := by
  induction l with
  | nil => exact lookup_pair_cons
  | cons e l ih =>
    obtain ⟨k₀, v₀⟩ := e
    rw [insertSorted]
    by_cases hlt : lt k k₀
    · rw [if_pos hlt, lookup_pair_cons]
    rw [if_neg hlt, lookup_pair_cons]
    by_cases heq : k = k₀
    · subst heq
      rw [if_pos rfl, lookup_pair_cons]
      by_cases hk : k' = k
      · rw [if_pos hk, if_pos hk]
      · rw [if_neg hk, if_neg hk, if_neg hk]
    · rw [if_neg heq, lookup_pair_cons, ih]
      by_cases hk : k' = k
      · rw [if_pos hk, if_pos hk, if_neg (hk ▸ heq)]
      · rw [if_neg hk, if_neg hk]

theorem ascending_insertSorted [IsStrictTotalOrder κ lt] (h : Ascending lt l) :
    Ascending lt (insertSorted lt k v l) := by
  induction l with
  | nil => exact List.pairwise_singleton _ _
  | cons e l ih =>
    obtain ⟨k', v'⟩ := e
    obtain ⟨hfirst, hrest⟩ := List.pairwise_cons.1 h
    rw [insertSorted]
    split_ifs with hlt heq
    · refine List.pairwise_cons.2 ⟨fun e he => ?_, h⟩
      rcases List.mem_cons.1 he with rfl | he
      · exact hlt
      · exact trans_of lt hlt (hfirst e he)
    · subst heq
      exact List.pairwise_cons.2 ⟨hfirst, hrest⟩
    · refine List.pairwise_cons.2 ⟨fun e he => ?_, ih hrest⟩
      rcases mem_of_mem_insertSorted he with rfl | he
      · exact ((trichotomous_of lt _ _).resolve_left hlt).resolve_left heq
      · exact hfirst e he

end Insert

section Lookup

variable {lt} {k : κ} {v : υ} {l l' : List (κ × υ)}

theorem Ascending.nodup [IsStrictTotalOrder κ lt] (h : Ascending lt l) :
    (l.map Prod.fst).Nodup := by
  refine List.pairwise_map.2 (h.imp fun {e e'} hlt heq => ?_)
  rw [heq] at hlt
  exact irrefl_of lt _ hlt

variable [DecidableEq κ]

theorem lookup_eq_some_iff_mem (hn : (l.map Prod.fst).Nodup) :
    l.lookup k = some v ↔ (k, v) ∈ l := by
  rw [List.lookup_eq_some_iff]
  constructor
  · rintro ⟨l₁, l₂, rfl, -⟩
    exact List.mem_append_right _ List.mem_cons_self
  · intro hmem
    obtain ⟨l₁, l₂, rfl⟩ := List.append_of_mem hmem
    refine ⟨l₁, l₂, rfl, fun e he => bne_iff_ne.2 fun hk => ?_⟩
    rw [List.map_append, List.map_cons, List.nodup_middle, List.nodup_cons] at hn
    exact hn.1 (List.mem_append_left _ (List.mem_map.2 ⟨e, he, hk.symm⟩))

/-- An ascending list is determined by what it maps the keys to. -/
theorem Ascending.ext [IsStrictTotalOrder κ lt] (h : Ascending lt l) (h' : Ascending lt l')
    (heq : ∀ k, l.lookup k = l'.lookup k) : l = l' := by
  have hmem : ∀ e, e ∈ l ↔ e ∈ l' := fun e => by
    rw [← lookup_eq_some_iff_mem h.nodup, heq, lookup_eq_some_iff_mem h'.nodup]
  have hperm : List.Perm l l' :=
    (List.perm_ext_iff_of_nodup h.nodup.of_map h'.nodup.of_map).2 hmem
  refine hperm.eq_of_pairwise (fun e e' _ _ hlt hgt => ?_) h h'
  exact absurd (trans_of lt hlt hgt) (irrefl_of lt _)

end Lookup

end Spot

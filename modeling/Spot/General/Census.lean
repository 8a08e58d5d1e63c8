import Mathlib.Algebra.GroupWithZero.Nat
import Mathlib.Data.List.Basic
import Mathlib.Data.List.Perm.Basic
import Mathlib.Data.List.Perm.Subperm
import Mathlib.Tactic.Common

/-!
# Counting the members of a list

Threads are kept in a list, of which one member changes at a time, and what is counted or collected
over all of them changes only by what that member contributes: `countP_set_add` for counts,
`sum_set_add` for sums, `exists_filterMap_set` for what is collected, `perm_places_set` for the
places of those that count.  Distinct places of members that count are as many as are counted at
most (`length_le_countP`).
-/

namespace Spot

section Census

variable {α β : Type*} {l : List α} {i : ℕ} {x : α}

/-- What a member contributes to a count. -/
def share (p : α → Bool) (x : α) : ℕ := if p x then 1 else 0

theorem share_le_one (p : α → Bool) (x : α) : share p x ≤ 1 := by
  unfold share
  split <;> decide

theorem countP_set_add (h : l[i]? = some x) (p : α → Bool) (y : α) :
    (l.set i y).countP p + share p x = l.countP p + share p y := by
  obtain ⟨hi, rfl⟩ := List.getElem?_eq_some_iff.1 h
  have hle : share p l[i] ≤ l.countP p := List.boole_getElem_le_countP hi
  rw [List.countP_set hi]
  unfold share at hle ⊢
  omega

theorem countP_set_of_eq (h : l[i]? = some x) {p : α → Bool} {y : α} (hp : p y = p x) :
    (l.set i y).countP p = l.countP p := by
  have hadd := countP_set_add h p y
  rw [share, share, hp] at hadd
  exact Nat.add_right_cancel hadd

theorem countP_concat (p : α → Bool) (y : α) :
    (l ++ [y]).countP p = l.countP p + share p y := by
  rw [List.countP_append, List.countP_singleton]
  rfl

theorem countP_eraseIdx_add (h : l[i]? = some x) (p : α → Bool) :
    (l.eraseIdx i).countP p + share p x = l.countP p := by
  obtain ⟨hi, rfl⟩ := List.getElem?_eq_some_iff.1 h
  rw [← (List.getElem_cons_eraseIdx_perm hi).countP_eq p, List.countP_cons]
  rfl

/-- Replacing a member changes a sum over the list by what the member contributes. -/
theorem sum_set_add {l : List α} {i : ℕ} {x : α} (h : l[i]? = some x) (f : α → ℕ) (y : α) :
    ((l.set i y).map f).sum + f x = (l.map f).sum + f y := by
  obtain ⟨hi, rfl⟩ := List.getElem?_eq_some_iff.1 h
  have hset : ((l.set i y).map f).sum =
      ((l.take i).map f).sum + (f y + ((l.drop (i + 1)).map f).sum) := by
    rw [List.set_eq_take_append_cons_drop, if_pos hi, List.map_append, List.sum_append,
      List.map_cons, List.sum_cons]
  have hl : (l.map f).sum = ((l.take i).map f).sum + (f l[i] + ((l.drop (i + 1)).map f).sum) := by
    rw [← List.sum_cons, ← List.map_cons, List.getElem_cons_drop, ← List.sum_append,
      ← List.map_append, List.take_append_drop]
  omega

theorem filterMap_cons_toList (f : α → Option β) (y : α) (t : List α) :
    (y :: t).filterMap f = (f y).toList ++ t.filterMap f := by
  rw [List.filterMap_cons]
  cases f y <;> rfl

/-- Replacing a member changes what is collected only where the member stands. -/
theorem exists_filterMap_set (h : l[i]? = some x) (f : α → Option β) :
    ∃ a b, l.filterMap f = a ++ ((f x).toList ++ b) ∧
      ∀ y, (l.set i y).filterMap f = a ++ ((f y).toList ++ b) := by
  obtain ⟨hi, rfl⟩ := List.getElem?_eq_some_iff.1 h
  refine ⟨(l.take i).filterMap f, (l.drop (i + 1)).filterMap f, ?_, fun y => ?_⟩
  · rw [← filterMap_cons_toList, ← List.filterMap_append, List.getElem_cons_drop,
      List.take_append_drop]
  · rw [List.set_eq_take_append_cons_drop, if_pos hi, List.filterMap_append, filterMap_cons_toList]

/-- What is collected changes by what the member contributes. -/
theorem perm_filterMap_set (h : l[i]? = some x) (f : α → Option β) (y : α) :
    List.Perm ((f x).toList ++ (l.set i y).filterMap f) ((f y).toList ++ l.filterMap f) := by
  obtain ⟨a, b, hl, hset⟩ := exists_filterMap_set h f
  rw [hset, hl]
  calc List.Perm ((f x).toList ++ (a ++ ((f y).toList ++ b)))
        (a ++ ((f x).toList ++ ((f y).toList ++ b))) := List.perm_append_comm_assoc ..
    List.Perm _ (a ++ ((f y).toList ++ ((f x).toList ++ b))) :=
        List.Perm.append_left a (List.perm_append_comm_assoc ..)
    List.Perm _ ((f y).toList ++ (a ++ ((f x).toList ++ b))) := List.perm_append_comm_assoc ..

theorem modify_eq_set (h : l[i]? = some x) (f : α → α) : l.modify i f = l.set i (f x) := by
  rw [List.modify_eq_set_getElem?, h]
  rfl

theorem map_set_of_eq (h : l[i]? = some x) {f : α → β} {y : α} (hf : f y = f x) :
    (l.set i y).map f = l.map f := by
  obtain ⟨hi, rfl⟩ := List.getElem?_eq_some_iff.1 h
  have hi' : i < (l.map f).length := by rwa [List.length_map]
  rw [List.map_set, hf, ← List.getElem_map f (h := hi'), List.set_getElem_self]

/-- If a member contributes at most `n` to a sum, and nothing where it is not counted, the sum is at
most `n` for each that is. -/
theorem sum_map_le {f : α → ℕ} {p : α → Bool} {n : ℕ} (h : ∀ x, f x ≤ n * share p x) :
    (l.map f).sum ≤ n * l.countP p := by
  induction l with
  | nil => exact Nat.zero_le _
  | cons x l ih =>
    have hx := h x
    have hcons : (x :: l).countP p = l.countP p + share p x := List.countP_cons
    rw [hcons, Nat.mul_add, List.map_cons, List.sum_cons]
    omega

/-- If the members of two lists that stand at the same place contribute at most `n` to two sums, and
nothing where the first is not counted, the sums are at most `n` for each that is. -/
theorem sum_add_sum_le {m : List β} {f : α → ℕ} {g : β → ℕ} {p : α → Bool} {n : ℕ}
    (hlen : l.length = m.length)
    (h : ∀ (i : ℕ) x y, l[i]? = some x → m[i]? = some y → f x + g y ≤ n * share p x) :
    (l.map f).sum + (m.map g).sum ≤ n * l.countP p := by
  induction l generalizing m with
  | nil =>
    obtain rfl := List.length_eq_zero_iff.1 hlen.symm
    exact Nat.zero_le _
  | cons x l ih =>
    cases m with
    | nil => cases hlen
    | cons y m =>
      have hx := h 0 x y rfl rfl
      have hrest := ih (Nat.succ.inj hlen) fun i => h (i + 1)
      have hcons : (x :: l).countP p = l.countP p + share p x := List.countP_cons
      rw [hcons, Nat.mul_add, List.map_cons, List.map_cons, List.sum_cons, List.sum_cons]
      omega

/-! ### Places -/

/-- The places of the members that count. -/
def places (p : α → Bool) (l : List α) : List ℕ :=
  (List.range l.length).filter fun i => l[i]?.any p

theorem mem_places {p : α → Bool} {i : ℕ} :
    i ∈ places p l ↔ ∃ x, l[i]? = some x ∧ p x = true := by
  rw [places, List.mem_filter, List.mem_range, Option.any_eq_true]
  refine ⟨fun h => h.2, fun ⟨x, hx, hp⟩ => ⟨(List.getElem?_eq_some_iff.1 hx).1, x, hx, hp⟩⟩

theorem nodup_places (p : α → Bool) (l : List α) : (places p l).Nodup :=
  List.nodup_range.filter _

theorem length_places (p : α → Bool) (l : List α) : (places p l).length = l.countP p := by
  rw [places, ← List.countP_eq_length_filter]
  have hmap : ((List.range l.length).map fun i => l[i]?) = l.map some := by
    apply List.ext_getElem?
    intro i
    by_cases hi : i < l.length
    · simp [hi]
    · simp [hi]
  have hcount := congrArg (List.countP (Option.any p)) hmap
  rw [List.countP_map, List.countP_map] at hcount
  exact hcount

theorem places_concat {p : α → Bool} {y : α} (hy : p y = false) :
    places p (l ++ [y]) = places p l := by
  have hlast : (l ++ [y])[l.length]? = some y := List.getElem?_concat_length
  rw [places, List.length_append, List.length_singleton, List.range_succ, List.filter_append,
    List.filter_singleton, hlast, Option.any_some, hy, Bool.cond_false, List.append_nil]
  refine List.filter_congr fun i hi => ?_
  rw [List.getElem?_append_left (List.mem_range.1 hi)]

/-- A member that is replaced counts where it stands or not; the other places stay. -/
theorem mem_places_set (h : l[i]? = some x) {p : α → Bool} {y : α} {j : ℕ} :
    j ∈ places p (l.set i y) ↔ j = i ∧ p y = true ∨ j ≠ i ∧ j ∈ places p l := by
  have hi := (List.getElem?_eq_some_iff.1 h).1
  rw [mem_places, mem_places]
  by_cases hij : j = i
  · subst hij
    simp [List.getElem?_set_self hi]
  · rw [List.getElem?_set_ne (Ne.symm hij)]
    simp [hij]

theorem places_set_of_eq (h : l[i]? = some x) {p : α → Bool} {y : α} (hp : p y = p x) :
    places p (l.set i y) = places p l := by
  rw [places, places, List.length_set]
  refine List.filter_congr fun j _ => ?_
  by_cases hij : i = j
  · subst hij
    rw [List.getElem?_set_self (List.getElem?_eq_some_iff.1 h).1, h, Option.any_some,
      Option.any_some, hp]
  · rw [List.getElem?_set_ne hij]

/-- A member that counts in place of one that did not adds its place. -/
theorem perm_places_set (h : l[i]? = some x) {p : α → Bool} {y : α} (hx : p x = false)
    (hy : p y = true) : List.Perm (places p (l.set i y)) (i :: places p l) := by
  have hnot : i ∉ places p l := by
    intro hi
    obtain ⟨z, hz, hp⟩ := mem_places.1 hi
    obtain rfl := Option.some.inj (h.symm.trans hz)
    rw [hx] at hp
    cases hp
  refine (List.perm_ext_iff_of_nodup (nodup_places p _)
    (List.nodup_cons.2 ⟨hnot, nodup_places p l⟩)).2 fun j => ?_
  rw [mem_places_set h, List.mem_cons]
  by_cases hij : j = i
  · simp [hij, hy]
  · simp [hij]

/-- A member that does not count in place of one that did takes its place away. -/
theorem perm_places_set_of_not (h : l[i]? = some x) {p : α → Bool} {y : α} (hx : p x = true)
    (hy : p y = false) : List.Perm (places p l) (i :: places p (l.set i y)) := by
  obtain ⟨hi, rfl⟩ := List.getElem?_eq_some_iff.1 h
  have hset : (l.set i y)[i]? = some y := List.getElem?_set_self hi
  have hperm := perm_places_set hset hy hx
  rwa [List.set_set, List.set_getElem_self] at hperm

/-- Distinct places of members that count are no more than what is counted. -/
theorem length_le_countP {is : List ℕ} (hn : is.Nodup) {p : α → Bool}
    (h : ∀ i ∈ is, ∃ x, l[i]? = some x ∧ p x = true) : is.length ≤ l.countP p := by
  rw [← length_places]
  exact (hn.subperm fun i hi => mem_places.2 (h i hi)).length_le

/-- If they are fewer, another member counts. -/
theorem exists_notMem_of_lt_countP {is : List ℕ} {p : α → Bool} (h : is.length < l.countP p) :
    ∃ i x, i ∉ is ∧ l[i]? = some x ∧ p x = true := by
  by_contra hno
  have hsub : places p l ⊆ is := by
    intro i hi
    obtain ⟨x, hx, hp⟩ := mem_places.1 hi
    by_contra hmem
    exact hno ⟨i, x, hmem, hx, hp⟩
  have hle := ((nodup_places p l).subperm hsub).length_le
  rw [length_places] at hle
  omega

end Census

end Spot

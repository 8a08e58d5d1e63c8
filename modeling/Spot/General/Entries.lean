import Mathlib.Data.List.Basic
import Mathlib.Data.List.Perm.Basic
import Mathlib.Tactic.Common

/-!
# Records read from entries

A record is read from a list of entries, each with a key and a value.  Where later entries
overwrite earlier ones, a field is what the last entry for it says, if there is one (`foldl_field`);
other readers look for the first.  Lists are `Alike` if they differ in the order of their entries
and in entries of keys that the reader does not know; then each field comes from the same entry
(`Alike.filterMap_eq`).
-/

namespace Spot

variable {ε κ υ α ρ : Type*}

/-- What the last entry says that says something. -/
def lastOf (f : ε → Option α) (l : List ε) : Option α := (l.filterMap f).getLast?

section LastOf

variable {f : ε → Option α} {l l' : List ε}

@[simp] theorem lastOf_nil : lastOf f [] = none := rfl

theorem lastOf_append : lastOf f (l ++ l') = (lastOf f l').or (lastOf f l) := by
  rw [lastOf, List.filterMap_append, List.getLast?_append]
  rfl

theorem lastOf_cons {e : ε} : lastOf f (e :: l) = (lastOf f l).or (f e) := by
  have hone : lastOf f [e] = f e := by
    unfold lastOf
    cases h : f e <;> simp [h]
  rw [← List.singleton_append, lastOf_append, hone]

theorem lastOf_map {β : Type*} (g : α → β) :
    lastOf (fun e => (f e).map g) l = (lastOf f l).map g := by
  rw [lastOf, lastOf, ← List.getLast?_map, List.map_filterMap]

/-- A field that every entry sets or leaves alone. -/
theorem foldl_field {g : ρ → α} {set : ρ → ε → ρ}
    (h : ∀ r e, g (set r e) = (f e).getD (g r)) (r : ρ) (l : List ε) :
    g (l.foldl set r) = (lastOf f l).getD (g r) := by
  induction l generalizing r with
  | nil => rfl
  | cons e l ih =>
    rw [List.foldl_cons, ih, h, lastOf_cons]
    cases lastOf f l <;> rfl

/-- Entries that say nothing may be left out. -/
theorem filterMap_filter_eq {p : ε → Bool} (h : ∀ e ∈ l, p e = false → f e = none) :
    (l.filter p).filterMap f = l.filterMap f := by
  induction l with
  | nil => rfl
  | cons e l ih =>
    have hrest := ih fun e he => h e (List.mem_cons_of_mem _ he)
    cases hp : p e with
    | true => rw [List.filter_cons_of_pos hp, List.filterMap_cons, List.filterMap_cons, hrest]
    | false =>
      rw [List.filter_cons_of_neg (by simp [hp]), hrest,
        List.filterMap_cons_none (h e List.mem_cons_self hp)]

/-- Where one entry at most says something, the order does not matter. -/
theorem filterMap_eq_of_perm (h : List.Perm l l') (hone : (l.filterMap f).length ≤ 1) :
    l.filterMap f = l'.filterMap f := by
  have hf := h.filterMap f
  cases hl : l.filterMap f with
  | nil =>
    rw [hl, List.nil_perm] at hf
    exact hf.symm
  | cons a rest =>
    rw [hl] at hone hf
    obtain rfl : rest = [] := List.length_eq_zero_iff.1 (by simpa using hone)
    exact List.singleton_perm.1 hf

end LastOf

/-- The lists have the same entries, of keys without repetition, apart from entries whose key is not
known. -/
def Alike (known : κ → Prop) (l l' : List (κ × υ)) : Prop :=
  ∃ p : κ × υ → Bool, (∀ e, p e = false → ¬ known e.1) ∧
    ((l.filter p).map Prod.fst).Nodup ∧ List.Perm (l.filter p) (l'.filter p)

section Alike

variable {known : κ → Prop} {k : κ} {f : κ × υ → Option α} {l l' : List (κ × υ)}

/-- Of entries with different keys, one at most speaks for a key. -/
theorem length_filterMap_le_one (hn : (l.map Prod.fst).Nodup)
    (hf : ∀ e, (f e).isSome = true → e.1 = k) : (l.filterMap f).length ≤ 1 := by
  induction l with
  | nil => exact Nat.zero_le _
  | cons e l ih =>
    rw [List.map_cons, List.nodup_cons] at hn
    cases he : f e with
    | none =>
      rw [List.filterMap_cons_none he]
      exact ih hn.2
    | some a =>
      -- the others have other keys
      have hkey := hf e (by rw [he]; rfl)
      have hnil : l.filterMap f = [] := by
        rw [List.filterMap_eq_nil_iff]
        intro e' he'
        by_contra hsome
        have hsame := hf e' (Option.isSome_iff_ne_none.2 hsome)
        exact hn.1 (hkey.trans hsame.symm ▸ List.mem_map_of_mem he')
      rw [List.filterMap_cons_some he, hnil]
      exact Nat.le_refl 1

/-- In lists that are alike the same entries speak for a key that is known. -/
theorem Alike.filterMap_eq (h : Alike known l l') (hk : known k)
    (hf : ∀ e, (f e).isSome = true → e.1 = k) : l.filterMap f = l'.filterMap f := by
  obtain ⟨p, hp, hn, hperm⟩ := h
  have hnone : ∀ e, p e = false → f e = none := by
    intro e he
    by_contra hsome
    exact hp e he (hf e (Option.isSome_iff_ne_none.2 hsome) ▸ hk)
  rw [← filterMap_filter_eq fun e _ => hnone e,
    ← filterMap_filter_eq (l := l') fun e _ => hnone e]
  exact filterMap_eq_of_perm hperm (length_filterMap_le_one hn hf)

theorem Alike.lastOf_eq (h : Alike known l l') (hk : known k)
    (hf : ∀ e, (f e).isSome = true → e.1 = k) : lastOf f l = lastOf f l' := by
  rw [lastOf, lastOf, h.filterMap_eq hk hf]

theorem Alike.findSome?_eq (h : Alike known l l') (hk : known k)
    (hf : ∀ e, (f e).isSome = true → e.1 = k) : l.findSome? f = l'.findSome? f := by
  rw [← List.head?_filterMap, ← List.head?_filterMap, h.filterMap_eq hk hf]

end Alike

end Spot

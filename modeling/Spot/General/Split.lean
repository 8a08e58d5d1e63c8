import Mathlib.Data.List.TakeWhile
import Mathlib.Order.Basic
import Mathlib.Tactic.Common

/-!
# Splitting lists

`split sep` is the list of the pieces between separators (one more than there are separators),
`before sep` the piece before the first separator and `after? sep` what follows it, `none` when
there is no separator.  `chunks n` cuts a list into consecutive pieces of length `n`, the last one
possibly shorter.
-/

namespace Spot

section Split

variable {α : Type*} [DecidableEq α] {sep : α} {l r : List α}

/-- The pieces of a list between the separators. -/
def split (sep : α) : List α → List (List α)
  | [] => [[]]
  | a :: l =>
    if a = sep then [] :: split sep l
    else match split sep l with
      | [] => [[a]]
      | p :: ps => (a :: p) :: ps

/-- The piece before the first separator, all of the list if there is none. -/
def before (sep : α) (l : List α) : List α := l.takeWhile (· ≠ sep)

/-- What follows the first separator. -/
def after? (sep : α) (l : List α) : Option (List α) :=
  match l.dropWhile (· ≠ sep) with
  | [] => none
  | _ :: r => some r

theorem split_of_notMem (h : sep ∉ l) : split sep l = [l] := by
  induction l with
  | nil => rfl
  | cons a l ih =>
    rw [List.mem_cons, not_or] at h
    rw [split, if_neg (Ne.symm h.1), ih h.2]

theorem split_append_cons (h : sep ∉ l) : split sep (l ++ sep :: r) = l :: split sep r := by
  induction l with
  | nil => simp [split]
  | cons a l ih =>
    rw [List.mem_cons, not_or] at h
    rw [List.cons_append, split, if_neg (Ne.symm h.1), ih h.2]

/-- Splitting commutes with maps that keep the separator apart. -/
theorem split_map {f : α → α} (hf : ∀ a, f a = sep ↔ a = sep) (l : List α) :
    split sep (l.map f) = (split sep l).map (List.map f) := by
  induction l with
  | nil => rfl
  | cons a l ih =>
    rw [List.map_cons, split, split, ih]
    by_cases ha : a = sep
    · rw [if_pos ha, if_pos ((hf a).2 ha)]
      rfl
    · rw [if_neg ha, if_neg (mt (hf a).1 ha)]
      cases split sep l <;> rfl

theorem split_ne_nil (sep : α) (l : List α) : split sep l ≠ [] := by
  cases l with
  | nil => simp [split]
  | cons a l =>
    rw [split]
    split_ifs
    · simp
    · cases split sep l <;> simp

/-- Splitting distributes over a separator. -/
theorem split_append (l r : List α) : split sep (l ++ sep :: r) = split sep l ++ split sep r := by
  induction l with
  | nil => simp [split]
  | cons a l ih =>
    rw [List.cons_append, split, split, ih]
    split_ifs
    · rfl
    · obtain ⟨p, ps, hp⟩ := List.exists_cons_of_ne_nil (split_ne_nil sep l)
      rw [hp]
      rfl

/-- The last piece is what follows the last separator. -/
theorem exists_split_eq_append (h : sep ∈ l) :
    ∃ p q, sep ∉ q ∧ l = p ++ sep :: q ∧ split sep l = split sep p ++ [q] := by
  obtain ⟨as, bs, hl, has⟩ := List.eq_append_cons_of_mem (List.mem_reverse.2 h)
  have hl : l = bs.reverse ++ sep :: as.reverse := by
    rw [← List.reverse_reverse l, hl, List.reverse_append, List.reverse_cons, List.append_assoc,
      List.singleton_append]
  have has : sep ∉ as.reverse := mt List.mem_reverse.1 has
  exact ⟨bs.reverse, as.reverse, has, hl, by rw [hl, split_append, split_of_notMem has]⟩

/-- Pieces without separators come back from what joins them. -/
theorem split_intercalate {ps : List (List α)} (h₀ : ps ≠ []) (h : ∀ p ∈ ps, sep ∉ p) :
    split sep ([sep].intercalate ps) = ps := by
  induction ps with
  | nil => exact absurd rfl h₀
  | cons p ps ih =>
    rw [List.forall_mem_cons] at h
    cases ps with
    | nil => rw [List.intercalate_singleton, split_of_notMem h.1]
    | cons q ps =>
      rw [List.intercalate_cons_cons, List.append_assoc, List.singleton_append,
        split_append_cons h.1, ih (List.cons_ne_nil q ps) h.2]

@[simp] theorem before_append_cons (h : sep ∉ l) : before sep (l ++ sep :: r) = l := by
  induction l with
  | nil => simp [before]
  | cons a l ih =>
    rw [List.mem_cons, not_or] at h
    simpa [before, Ne.symm h.1] using ih h.2

@[simp] theorem before_of_notMem (h : sep ∉ l) : before sep l = l := by
  rw [before, List.takeWhile_eq_self_iff]
  intro a ha
  simpa using fun e : a = sep => h (e ▸ ha)

@[simp] theorem after?_append_cons (h : sep ∉ l) : after? sep (l ++ sep :: r) = some r := by
  have hd : (l ++ sep :: r).dropWhile (· ≠ sep) = sep :: r := by
    rw [List.dropWhile_append_of_pos]
    · simp
    · intro a ha
      simpa using fun e : a = sep => h (e ▸ ha)
  rw [after?, hd]

end Split

/-! ## Chunks -/

section Chunks

variable {α : Type*} {n : ℕ}

/-- `chunks` with a bound on the number of pieces. -/
def chunksAux (n : ℕ) : ℕ → List α → List (List α)
  | 0, _ => []
  | _ + 1, [] => []
  | k + 1, a :: l => (a :: l).take n :: chunksAux n k ((a :: l).drop n)

/-- Consecutive pieces of length `n`, the last one possibly shorter. -/
def chunks (n : ℕ) (l : List α) : List (List α) := chunksAux n l.length l

/-- Every sufficient bound gives the same pieces. -/
theorem chunksAux_congr (hn : 0 < n) {k k' : ℕ} {l : List α} (hk : l.length ≤ k)
    (hk' : l.length ≤ k') : chunksAux n k l = chunksAux n k' l := by
  induction k generalizing k' l with
  | zero =>
    obtain rfl := List.length_eq_zero_iff.1 (Nat.le_zero.1 hk)
    cases k' <;> rfl
  | succ k ih =>
    cases l with
    | nil => cases k' <;> rfl
    | cons a l =>
      rw [List.length_cons] at hk hk'
      have hd : ((a :: l).drop n).length ≤ l.length := by
        rw [List.length_drop, List.length_cons]
        omega
      cases k' with
      | zero => omega
      | succ k' =>
        have htail : chunksAux n k ((a :: l).drop n) = chunksAux n k' ((a :: l).drop n) := by
          apply ih <;> omega
        rw [chunksAux, chunksAux, htail]

theorem chunksAux_eq (hn : 0 < n) {k : ℕ} {l : List α} (h : l.length ≤ k) :
    chunksAux n k l = chunks n l :=
  chunksAux_congr hn h le_rfl

@[simp] theorem chunks_nil : chunks n ([] : List α) = [] := rfl

theorem chunks_of_ne_nil (hn : 0 < n) {l : List α} (h : l ≠ []) :
    chunks n l = l.take n :: chunks n (l.drop n) := by
  obtain ⟨a, l, rfl⟩ := List.exists_cons_of_ne_nil h
  rw [chunks, List.length_cons, chunksAux, chunksAux_eq hn]
  rw [List.length_drop, List.length_cons]
  omega

theorem chunks_append (hn : 0 < n) {p : List α} (hp : p.length = n) (l : List α) :
    chunks n (p ++ l) = p :: chunks n l := by
  have hne : p ++ l ≠ [] := by
    intro h
    rw [List.append_eq_nil_iff] at h
    rw [h.1, List.length_nil] at hp
    omega
  rw [chunks_of_ne_nil hn hne, List.take_left' hp, List.drop_left' hp]

theorem chunks_of_length_le {l : List α} (h₀ : l ≠ []) (h : l.length ≤ n) :
    chunks n l = [l] := by
  have hn : 0 < n := lt_of_lt_of_le (List.length_pos_iff.2 h₀) h
  rw [chunks_of_ne_nil hn h₀, List.take_of_length_le h, List.drop_eq_nil_of_le h, chunks_nil]

/-- Cases for a property of a chunked list: empty, one last piece, or a full piece and more. -/
theorem chunks_induction (hn : 0 < n) {P : List α → Prop} (nil : P [])
    (last : ∀ l, l ≠ [] → l.length < n → P l)
    (cons : ∀ p l, p.length = n → P l → P (p ++ l)) (l : List α) : P l := by
  induction hl : l.length using Nat.strongRecOn generalizing l with
  | ind m ih =>
    by_cases h₀ : l = []
    · exact h₀ ▸ nil
    by_cases h : l.length < n
    · exact last l h₀ h
    rw [← List.take_append_drop n l]
    refine cons _ _ (List.length_take_of_le (not_lt.1 h)) (ih _ ?_ _ rfl)
    rw [List.length_drop]
    omega

end Chunks

end Spot

import Mathlib.Data.List.Induction
import Mathlib.Data.List.Nodup
import Mathlib.Tactic.Common

/-!
# Tables of rows with keys

A table is a list of rows of pairwise distinct keys.  `Edit.apply` puts a row in the place of the
first with its key, or at the end, or removes the rows of a key.  `mem_apply_iff` says what one edit
does to the rows, `mem_edited_iff` what a list of edits does: for each key the last one counts.
-/

namespace Spot

variable {α κ : Type*}

/-- An edit of a table: a row to put in the place of that of its key, or a key to remove. -/
inductive Edit (α κ : Type*)
  | put (a : α)
  | remove (k : κ)

/-- Puts a row in the place of the first with its key, or at the end. -/
def putRow [DecidableEq κ] (key : α → κ) (a : α) : List α → List α
  | [] => [a]
  | b :: l => if key b = key a then a :: l else b :: putRow key a l

namespace Edit

/-- The key an edit is about. -/
def at' (key : α → κ) : Edit α κ → κ
  | put a => key a
  | remove k => k

/-- The row of that key after the edit. -/
def row : Edit α κ → Option α
  | put a => some a
  | remove _ => none

/-- The row an edit leaves has the key of the edit. -/
theorem key_of_row {key : α → κ} {e : Edit α κ} {b : α} (h : e.row = some b) :
    key b = e.at' key := by
  cases e with
  | put a => rw [← Option.some.inj h, Edit.at']
  | remove k => cases h

/-- The table after an edit. -/
def apply [DecidableEq κ] (key : α → κ) (l : List α) : Edit α κ → List α
  | put a => putRow key a l
  | remove k => l.filter fun b => key b ≠ k

end Edit

/-- The last edit about a key. -/
def lastEdit [DecidableEq κ] (key : α → κ) (es : List (Edit α κ)) (k : κ) : Option (Edit α κ) :=
  (es.filter fun e => e.at' key = k).getLast?

section Keyed

variable [DecidableEq κ] {key : α → κ} {l : List α} {a b : α} {e : Edit α κ} {es : List (Edit α κ)}

theorem mem_putRow (hl : (l.map key).Nodup) :
    b ∈ putRow key a l ↔ b = a ∨ b ∈ l ∧ key b ≠ key a := by
  induction l with
  | nil => simp [putRow]
  | cons c l ih =>
    rw [List.map_cons, List.nodup_cons] at hl
    rw [putRow]
    by_cases hc : key c = key a
    · rw [if_pos hc, List.mem_cons, List.mem_cons]
      refine or_congr_right ⟨fun hb => ⟨.inr hb, fun hba => hl.1 ?_⟩, ?_⟩
      · rw [hc, ← hba]
        exact List.mem_map_of_mem hb
      · rintro ⟨rfl | hb, hba⟩
        · exact absurd hc hba
        · exact hb
    · rw [if_neg hc, List.mem_cons, ih hl.2, List.mem_cons]
      constructor
      · rintro (rfl | rfl | ⟨hb, hba⟩)
        · exact .inr ⟨.inl rfl, hc⟩
        · exact .inl rfl
        · exact .inr ⟨.inr hb, hba⟩
      · rintro (rfl | ⟨rfl | hb, hba⟩)
        · exact .inr (.inl rfl)
        · exact .inl rfl
        · exact .inr (.inr ⟨hb, hba⟩)

theorem nodup_putRow (hl : (l.map key).Nodup) : ((putRow key a l).map key).Nodup := by
  induction l with
  | nil => simp [putRow]
  | cons c l ih =>
    have hl' := hl
    rw [List.map_cons, List.nodup_cons] at hl'
    rw [putRow]
    by_cases hc : key c = key a
    · rw [if_pos hc, List.map_cons, ← hc]
      exact hl
    · rw [if_neg hc, List.map_cons, List.nodup_cons]
      refine ⟨fun hm => ?_, ih hl'.2⟩
      obtain ⟨b, hb, hbc⟩ := List.mem_map.1 hm
      rcases (mem_putRow hl'.2).1 hb with rfl | ⟨hb, -⟩
      · exact hc hbc.symm
      · exact hl'.1 (hbc ▸ List.mem_map_of_mem hb)

/-- An edit changes the row of its key and no other. -/
theorem mem_apply_iff (hl : (l.map key).Nodup) :
    b ∈ e.apply key l ↔ e.row = some b ∨ b ∈ l ∧ key b ≠ e.at' key := by
  cases e with
  | put a =>
    rw [Edit.apply, mem_putRow hl, Edit.row, Option.some.injEq, eq_comm]
    rfl
  | remove k => simp [Edit.apply, Edit.row, Edit.at']

/-- The keys stay distinct. -/
theorem nodup_apply (hl : (l.map key).Nodup) : ((e.apply key l).map key).Nodup := by
  cases e with
  | put a => exact nodup_putRow hl
  | remove k => exact hl.sublist (List.filter_sublist.map key)

theorem nodup_edited (hl : (l.map key).Nodup) :
    ((es.foldl (Edit.apply key) l).map key).Nodup := by
  induction es generalizing l with
  | nil => exact hl
  | cons e es ih => exact ih (nodup_apply hl)

theorem lastEdit_concat (k : κ) :
    lastEdit key (es ++ [e]) k = if e.at' key = k then some e else lastEdit key es k := by
  rw [lastEdit, List.filter_append]
  by_cases he : e.at' key = k
  · rw [if_pos he, List.filter_cons_of_pos (by simpa using he), List.filter_nil,
      List.getLast?_concat]
  · rw [if_neg he, List.filter_cons_of_neg (by simpa using he), List.filter_nil, List.append_nil,
      lastEdit]

/-- After a list of edits the row of a key is what the last edit about that key left, or the old
row if there is none. -/
theorem mem_edited_iff (hl : (l.map key).Nodup) :
    b ∈ es.foldl (Edit.apply key) l ↔
      (∃ e, lastEdit key es (key b) = some e ∧ e.row = some b) ∨
        lastEdit key es (key b) = none ∧ b ∈ l := by
  induction es using List.reverseRecOn with
  | nil => simp [lastEdit]
  | append_singleton es e ih =>
    rw [List.foldl_concat, mem_apply_iff (nodup_edited hl), lastEdit_concat]
    by_cases he : e.at' key = key b
    · simp [he]
    · have hrow : e.row ≠ some b := fun h => he (Edit.key_of_row h).symm
      rw [if_neg he, ← ih]
      simp [hrow, Ne.symm he]

/-- A second run of the same edits changes no row. -/
theorem mem_edited_twice (hl : (l.map key).Nodup) :
    b ∈ es.foldl (Edit.apply key) (es.foldl (Edit.apply key) l) ↔
      b ∈ es.foldl (Edit.apply key) l := by
  rw [mem_edited_iff (nodup_edited hl), mem_edited_iff hl]
  cases lastEdit key es (key b) with
  | none => simp
  | some e => simp

end Keyed

end Spot

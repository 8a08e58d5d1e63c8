import Mathlib.Data.Set.Insert

/-!
# A shared slot

Several providers come and go; one slot holds one of them for everybody to use.  A provider
installs itself over whatever the slot holds, and some events empty the slot and take providers
out of use at once.  `Move.held_iff` says when the slot still `Held` a provider in use.
-/

namespace Spot

/-- The slot and the providers in use. -/
structure SharedSlot (ι : Type*) where
  slot : Option ι
  usable : Set ι

namespace SharedSlot

variable {ι : Type*} {w w' : SharedSlot ι} {cleared : Option (Set ι)}

/-- While any provider is in use, the slot holds one. -/
def Held (w : SharedSlot ι) : Prop := w.usable.Nonempty → ∃ c ∈ w.usable, w.slot = some c

/-- What can happen to a slot; an event that empties it is labelled by the providers it takes out
of use. -/
inductive Move : Option (Set ι) → SharedSlot ι → SharedSlot ι → Prop
  | stay (w : SharedSlot ι) : Move none w w
  | install (w : SharedSlot ι) (c : ι) : Move none w ⟨some c, insert c w.usable⟩
  | clear (w : SharedSlot ι) (l : Set ι) : Move (some l) w ⟨none, w.usable \ l⟩

theorem not_held_none {u : Set ι} (hu : u.Nonempty) : ¬ Held ⟨none, u⟩ := by
  intro h
  obtain ⟨c, -, hc⟩ := h hu
  cases hc

/-- A slot that was held is held after an event exactly when the event did not empty it, or took
out of use every provider there was. -/
theorem Move.held_iff (h : Move cleared w w') (hw : w.Held) :
    w'.Held ↔ ∀ l, cleared = some l → w.usable ⊆ l := by
  cases h with
  | stay =>
    constructor
    · rintro - l ⟨⟩
    · exact fun _ => hw
  | install _ c =>
    constructor
    · rintro - l ⟨⟩
    · exact fun _ _ => ⟨c, Set.mem_insert _ _, rfl⟩
  | clear _ l =>
    constructor
    · rintro h l' ⟨⟩ c hc
      by_contra hl
      exact not_held_none (Set.nonempty_of_mem (Set.mem_sdiff_of_mem hc hl)) h
    · intro h hu
      obtain ⟨c, hc, hl⟩ := hu
      exact absurd (h l rfl hc) hl

end SharedSlot

end Spot

import Mathlib.Data.List.Basic
import Mathlib.Data.List.Nodup
import Mathlib.Tactic.Common

/-!
# Broadcasting to subscribers

A hub keeps the sending ends of its subscribers' channels.  `emit` sends an event on each of them
and keeps those whose receiving end is still there.  `Hub.Sound` holds after any operations; by
`Sound.received` a subscriber that has not disconnected has received the events that were emitted
since it subscribed, each once and in their order.
-/

namespace Spot

/-- The channel of a subscriber: the number of events emitted before it, what was sent on it, and
whether its receiving end has not been dropped. -/
structure Channel (ε : Type*) where
  since : ℕ
  received : List ε := []
  live : Bool := true

/-- A hub: the channels made so far, those whose sending ends are kept, and the events emitted. -/
structure Hub (ε : Type*) where
  channels : List (Channel ε) := []
  subs : List ℕ := []
  emitted : List ε := []

namespace Hub

variable {ε : Type*}

/-- Sends on a channel; nothing arrives where the receiving end is gone. -/
def send (ev : ε) (channels : List (Channel ε)) (tx : ℕ) : List (Channel ε) :=
  channels.modify tx fun c => if c.live then { c with received := c.received ++ [ev] } else c

/-- Whether a send on the channel is accepted. -/
def accepts (h : Hub ε) (tx : ℕ) : Bool := h.channels[tx]?.any Channel.live

/-- Subscribes to all future events. -/
def subscribe (h : Hub ε) : Hub ε :=
  { h with
    channels := h.channels ++ [{ since := h.emitted.length }]
    subs := h.subs ++ [h.channels.length] }

/-- Drops the receiving end of a channel. -/
def disconnect (h : Hub ε) (tx : ℕ) : Hub ε :=
  { h with channels := h.channels.modify tx fun c => { c with live := false } }

/-- Emits an event to all current subscribers. -/
def emit (h : Hub ε) (ev : ε) : Hub ε where
  channels := h.subs.foldl (send ev) h.channels
  subs := h.subs.filter h.accepts
  emitted := h.emitted ++ [ev]

/-- The sending ends are kept once each, those of all live channels among them; a live channel has
what was emitted since it was made. -/
structure Sound (h : Hub ε) : Prop where
  nodup : h.subs.Nodup
  lt_length : ∀ tx ∈ h.subs, tx < h.channels.length
  mem_subs : ∀ (tx : ℕ) (c : Channel ε), h.channels[tx]? = some c → c.live = true → tx ∈ h.subs
  since_le : ∀ c ∈ h.channels, c.since ≤ h.emitted.length
  received : ∀ c ∈ h.channels, c.live = true → c.received = h.emitted.drop c.since

section

variable {h : Hub ε} {tx : ℕ} {ev : ε}

theorem sound_empty : ({} : Hub ε).Sound where
  nodup := List.nodup_nil
  lt_length tx htx := absurd htx List.not_mem_nil
  mem_subs tx c hc := by cases hc
  since_le c hc := absurd hc List.not_mem_nil
  received c hc := absurd hc List.not_mem_nil

theorem Sound.subscribe (hs : h.Sound) : h.subscribe.Sound where
  nodup := by
    refine List.nodup_append.2 ⟨hs.nodup, List.nodup_singleton _, fun tx htx tx' htx' => ?_⟩
    rw [List.mem_singleton.1 htx']
    exact Nat.ne_of_lt (hs.lt_length tx htx)
  lt_length tx htx := by
    show tx < (h.channels ++ [_]).length
    rw [List.length_append, List.length_singleton]
    rcases List.mem_append.1 htx with htx | htx
    · exact Nat.lt_succ_of_lt (hs.lt_length tx htx)
    · rw [List.mem_singleton.1 htx]
      exact Nat.lt_succ_self _
  mem_subs tx c hc hlive := by
    have hc' : (h.channels ++ [{ since := h.emitted.length }])[tx]? = some c := hc
    rw [List.getElem?_append] at hc'
    split at hc'
    · exact List.mem_append_left _ (hs.mem_subs tx c hc' hlive)
    · rename_i hge
      have hone : tx - h.channels.length < 1 := (List.getElem?_eq_some_iff.1 hc').1
      have htx : tx = h.channels.length := by omega
      rw [htx]
      exact List.mem_append_right _ List.mem_cons_self
  since_le c hc := by
    rcases List.mem_append.1 hc with hc | hc
    · exact hs.since_le c hc
    · rw [List.mem_singleton.1 hc]
      exact Nat.le_refl _
  received c hc hlive := by
    rcases List.mem_append.1 hc with hc | hc
    · exact hs.received c hc hlive
    · rw [List.mem_singleton.1 hc]
      exact (List.drop_length (l := h.emitted)).symm

theorem Sound.disconnect (hs : h.Sound) : (h.disconnect tx).Sound := by
  -- a channel afterwards is one from before, possibly no longer live
  have hold : ∀ (i : ℕ) (c : Channel ε), (h.disconnect tx).channels[i]? = some c →
      ∃ c', h.channels[i]? = some c' ∧ c'.since = c.since ∧ c'.received = c.received ∧
        (c.live = true → c'.live = true) := by
    intro i c hc
    have hmodify : (h.channels.modify tx _)[i]? = some c := hc
    rw [List.getElem?_modify] at hmodify
    obtain ⟨c', hc', rfl⟩ := Option.map_eq_some_iff.1 hmodify
    refine ⟨c', hc', ?_⟩
    split
    · exact ⟨rfl, rfl, Bool.noConfusion⟩
    · exact ⟨rfl, rfl, id⟩
  refine ⟨hs.nodup, fun i hi => ?_, fun i c hc hlive => ?_, fun c hc => ?_, fun c hc hlive => ?_⟩
  · show i < (h.channels.modify tx _).length
    rw [List.length_modify]
    exact hs.lt_length i hi
  · obtain ⟨c', hc', -, -, hl⟩ := hold i c hc
    exact hs.mem_subs i c' hc' (hl hlive)
  · obtain ⟨i, hi⟩ := List.mem_iff_getElem?.1 hc
    obtain ⟨c', hc', hsince, -, -⟩ := hold i c hi
    rw [← hsince]
    exact hs.since_le c' (List.mem_of_getElem? hc')
  · obtain ⟨i, hi⟩ := List.mem_iff_getElem?.1 hc
    obtain ⟨c', hc', hsince, hreceived, hl⟩ := hold i c hi
    rw [← hreceived, ← hsince]
    exact hs.received c' (List.mem_of_getElem? hc') (hl hlive)

theorem length_foldl_send (subs : List ℕ) (channels : List (Channel ε)) :
    (subs.foldl (send ev) channels).length = channels.length := by
  induction subs generalizing channels with
  | nil => rfl
  | cons tx subs ih => rw [List.foldl_cons, ih, send, List.length_modify]

theorem getElem?_send (channels : List (Channel ε)) (i : ℕ) :
    (send ev channels tx)[i]? = channels[i]?.map fun c =>
      if tx = i ∧ c.live then { c with received := c.received ++ [ev] } else c := by
  rw [send, List.getElem?_modify]
  by_cases hi : tx = i
  · simp only [hi, true_and]
    rfl
  · simp only [hi, false_and]
    cases channels[i]? <;> rfl

/-- Sending on several channels reaches each of them once. -/
theorem getElem?_foldl_send {subs : List ℕ} (hn : subs.Nodup) (channels : List (Channel ε))
    (i : ℕ) :
    (subs.foldl (send ev) channels)[i]? = channels[i]?.map fun c =>
      if i ∈ subs ∧ c.live then { c with received := c.received ++ [ev] } else c := by
  induction subs generalizing channels with
  | nil => simp
  | cons tx subs ih =>
    obtain ⟨htx, hn⟩ := List.nodup_cons.1 hn
    rw [List.foldl_cons, ih hn, getElem?_send, Option.map_map]
    congr 1
    funext c
    by_cases hi : tx = i
    · subst hi
      cases hc : c.live <;> simp [hc, htx]
    · have hi' : i ≠ tx := fun h => hi h.symm
      simp [hi, hi']

theorem Sound.emit (hs : h.Sound) : (h.emit ev).Sound := by
  have hget : ∀ i : ℕ, (h.emit ev).channels[i]? = h.channels[i]?.map fun c =>
      if i ∈ h.subs ∧ c.live then { c with received := c.received ++ [ev] } else c :=
    fun i => getElem?_foldl_send hs.nodup h.channels i
  -- a channel afterwards, and what it was before
  have hold : ∀ (i : ℕ) (c : Channel ε), (h.emit ev).channels[i]? = some c →
      ∃ c', h.channels[i]? = some c' ∧ c.since = c'.since ∧ c.live = c'.live ∧
        (c.live = true → c.received = c'.received ++ [ev]) := by
    intro i c hc
    rw [hget] at hc
    obtain ⟨c', hc', rfl⟩ := Option.map_eq_some_iff.1 hc
    refine ⟨c', hc', ?_⟩
    split
    · exact ⟨rfl, rfl, fun _ => rfl⟩
    · rename_i hno
      exact ⟨rfl, rfl, fun hl => absurd ⟨hs.mem_subs i c' hc' hl, hl⟩ hno⟩
  refine ⟨hs.nodup.filter _, fun i hi => ?_, fun i c hc hlive => ?_, fun c hc => ?_,
    fun c hc hlive => ?_⟩
  · show i < (h.subs.foldl (send ev) h.channels).length
    rw [length_foldl_send]
    exact hs.lt_length i (List.mem_of_mem_filter hi)
  · obtain ⟨c', hc', -, hl, -⟩ := hold i c hc
    rw [hl] at hlive
    refine List.mem_filter.2 ⟨hs.mem_subs i c' hc' hlive, ?_⟩
    rw [accepts, hc']
    exact hlive
  · obtain ⟨i, hi⟩ := List.mem_iff_getElem?.1 hc
    obtain ⟨c', hc', hsince, -, -⟩ := hold i c hi
    have hle := hs.since_le c' (List.mem_of_getElem? hc')
    show c.since ≤ (h.emitted ++ [ev]).length
    rw [hsince, List.length_append]
    exact Nat.le_trans hle (Nat.le_add_right _ _)
  · obtain ⟨i, hi⟩ := List.mem_iff_getElem?.1 hc
    obtain ⟨c', hc', hsince, hl, hrec⟩ := hold i c hi
    have hmem := List.mem_of_getElem? hc'
    show c.received = (h.emitted ++ [ev]).drop c.since
    rw [hrec hlive, hsince, List.drop_append_of_le_length (hs.since_le c' hmem),
      hs.received c' hmem (hl ▸ hlive)]

end

end Hub

end Spot

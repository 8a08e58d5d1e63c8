import Mathlib.Data.List.Basic
import Mathlib.Tactic.Common

/-!
# Channels with many senders

A channel is made with a sender and a receiver.  Senders may be copied and let go, and once the last
is gone there is none again; the receiver takes what was sent in order, waits, or is told that the
channel is closed.  `Mpsc` records what was sent and what the receiver got, `Mpsc.Move` what can
happen.

`Move.sound` keeps what a user of a channel relies on (`Sound`): what was received and what is
queued is what was sent, in order, and a receiver that is told that the channel is closed has
received everything that was or ever will be sent, and is told so from then on.
-/

namespace Spot

/-- What a receiver gets. -/
inductive Recv (α : Type*)
  | item (a : α)
  | timeout
  | closed

/-- The item, if it is one. -/
def Recv.item? {α : Type*} : Recv α → Option α
  | .item a => some a
  | _ => none

/-- The items among what a receiver got. -/
def Recv.items {α : Type*} (rs : List (Recv α)) : List α := rs.filterMap Recv.item?

/-- A channel, with all that was sent on it and all that its receiver got. -/
structure Mpsc (α : Type*) where
  made : Bool := false
  /-- There is a sender. -/
  sender : Bool := false
  /-- The receiver has not been dropped. -/
  live : Bool := true
  queue : List α := []
  sent : List α := []
  results : List (Recv α) := []

namespace Mpsc

variable {α : Type*} {c c' : Mpsc α}

/-- What can happen to a channel: nothing, or it is made, senders are let go, the receiver is
dropped as well, somebody sends, or the receiver takes the first item, waits in vain while there is
a sender, or is told that there is none. -/
inductive Move : Mpsc α → Mpsc α → Prop
  | stay (c : Mpsc α) : Move c c
  | make (c : Mpsc α) (h : c.made = false) : Move c { c with made := true, sender := true }
  | release (c : Mpsc α) (sender : Bool) (h : sender = true → c.sender = true) :
      Move c { c with sender }
  | drop (c : Mpsc α) (sender : Bool) (h : sender = true → c.sender = true) :
      Move c { c with sender, live := false }
  | send (c : Mpsc α) (a : α) (h : c.sender = true) :
      Move c { c with
        queue := if c.live then c.queue ++ [a] else c.queue
        sent := c.sent ++ [a] }
  | item (c : Mpsc α) (a : α) (q : List α) (hl : c.live = true) (hq : c.queue = a :: q) :
      Move c { c with queue := q, results := c.results ++ [.item a] }
  | timeout (c : Mpsc α) (hl : c.live = true) (hq : c.queue = []) (h : c.sender = true) :
      Move c { c with results := c.results ++ [.timeout] }
  | closed (c : Mpsc α) (hm : c.made = true) (hl : c.live = true) (hq : c.queue = [])
      (h : c.sender = false) :
      Move c { c with results := c.results ++ [.closed] }

/-- Nobody sends before a channel is made; what was received and what is queued is what was sent, or
was before the receiver was dropped; and a receiver that was told that the channel is closed had
received all that was sent, and is told nothing else since. -/
structure Sound (c : Mpsc α) : Prop where
  unmade : c.made = false → c.sender = false
  order : Recv.items c.results ++ c.queue <+: c.sent
  all : c.live = true → Recv.items c.results ++ c.queue = c.sent
  closed : .closed ∈ c.results → c.made = true ∧ c.sender = false ∧ c.queue = []
  told : ∀ pre post, c.results = pre ++ .closed :: post →
    Recv.items pre = c.sent ∧ ∀ r ∈ post, r = .closed

theorem items_concat (rs : List (Recv α)) (r : Recv α) :
    Recv.items (rs ++ [r]) = Recv.items rs ++ r.item?.toList := by
  cases r <;> simp [Recv.items, Recv.item?]

/-- With a sender or an item in the queue, the receiver was not told that the channel is closed. -/
theorem Sound.notMem_closed (hc : c.Sound) (h : c.sender = true ∨ c.queue ≠ []) :
    .closed ∉ c.results := by
  intro hmem
  obtain ⟨-, hsender, hqueue⟩ := hc.closed hmem
  rcases h with h | h
  · cases hsender.symm.trans h
  · exact h hqueue

/-- Without a sender there is none again. -/
theorem Sound.release (hc : c.Sound) {sender : Bool} (h : sender = true → c.sender = true) :
    ({ c with sender } : Mpsc α).Sound := by
  have hless : c.sender = false → sender = false := fun hs =>
    eq_false_of_ne_true fun ht => by cases hs.symm.trans (h ht)
  refine ⟨fun hm => hless (hc.unmade hm), hc.order, hc.all, fun hmem => ?_, hc.told⟩
  obtain ⟨hm, hs, hq⟩ := hc.closed hmem
  exact ⟨hm, hless hs, hq⟩

/-- A receiver that was told that the channel is closed may only be told so again. -/
theorem Sound.told_concat (hc : c.Sound) {r : Recv α} (hr : r = .closed ∨ .closed ∉ c.results)
    (hnew : r = .closed → Recv.items c.results = c.sent) :
    ∀ pre post, c.results ++ [r] = pre ++ .closed :: post →
      Recv.items pre = c.sent ∧ ∀ r ∈ post, r = .closed := by
  intro pre post hsplit
  rcases List.eq_nil_or_concat' post with rfl | ⟨post, r', rfl⟩
  · obtain ⟨rfl, hlast⟩ := List.append_inj' hsplit rfl
    exact ⟨hnew (List.singleton_inj.1 hlast), fun _ h => absurd h List.not_mem_nil⟩
  · have hlast : c.results ++ [r] = (pre ++ .closed :: post) ++ [r'] := by
      rw [hsplit, List.append_assoc, List.cons_append]
    obtain ⟨hresults, hr'⟩ := List.append_inj' hlast rfl
    obtain rfl := List.singleton_inj.1 hr'
    have hmem : .closed ∈ c.results := by
      rw [hresults]
      exact List.mem_append_right _ List.mem_cons_self
    obtain ⟨hpre, hpost⟩ := hc.told pre post hresults
    refine ⟨hpre, fun y hy => ?_⟩
    rcases List.mem_append.1 hy with hy | hy
    · exact hpost y hy
    · exact List.mem_singleton.1 hy ▸ hr.resolve_right fun h => h hmem

theorem Move.sound (h : Move c c') (hc : c.Sound) : c'.Sound := by
  cases h with
  | stay => exact hc
  | make h =>
    refine ⟨fun h => (by cases h), hc.order, hc.all, fun hmem => ?_, hc.told⟩
    cases h.symm.trans (hc.closed hmem).1
  | release sender h => exact hc.release h
  | drop sender h =>
    have hrest := hc.release h
    exact ⟨hrest.unmade, hrest.order, fun hl => (by cases hl), hrest.closed, hrest.told⟩
  | send a h =>
    have hnot := hc.notMem_closed (.inl h)
    refine ⟨hc.unmade, ?_, fun hl => ?_, fun hmem => absurd hmem hnot, fun pre post hsplit => ?_⟩
    · show Recv.items c.results ++ (if c.live then c.queue ++ [a] else c.queue) <+: c.sent ++ [a]
      cases hl : c.live with
      | true =>
        have hall : Recv.items c.results ++ (c.queue ++ [a]) = c.sent ++ [a] := by
          rw [← List.append_assoc, hc.all hl]
        exact ⟨[], (List.append_nil _).trans hall⟩
      | false => exact hc.order.trans (List.prefix_append _ _)
    · show Recv.items c.results ++ (if c.live then c.queue ++ [a] else c.queue) = c.sent ++ [a]
      rw [if_pos hl, ← List.append_assoc, hc.all hl]
    · refine absurd ?_ hnot
      have hresults : c.results = pre ++ .closed :: post := hsplit
      rw [hresults]
      exact List.mem_append_right _ List.mem_cons_self
  | item a q hl hq =>
    have hnot := hc.notMem_closed (.inr (by rw [hq]; exact List.cons_ne_nil _ _))
    have hall : Recv.items (c.results ++ [.item a]) ++ q = c.sent := by
      rw [← hc.all hl, hq, items_concat, List.append_assoc]
      rfl
    refine ⟨hc.unmade, ⟨[], by rw [List.append_nil]; exact hall⟩, fun _ => hall, fun hmem => ?_,
      hc.told_concat (.inr hnot) fun h => by cases h⟩
    rcases List.mem_append.1 hmem with hmem | hmem
    · exact absurd hmem hnot
    · cases List.mem_singleton.1 hmem
  | timeout hl hq h =>
    have hnot := hc.notMem_closed (.inl h)
    have hitems : Recv.items (c.results ++ [.timeout]) = Recv.items c.results := by
      rw [items_concat]
      exact List.append_nil _
    refine ⟨hc.unmade, ?_, fun hl => ?_, fun hmem => ?_,
      hc.told_concat (.inr hnot) fun h => by cases h⟩
    · show Recv.items (c.results ++ [.timeout]) ++ c.queue <+: c.sent
      rw [hitems]
      exact hc.order
    · show Recv.items (c.results ++ [.timeout]) ++ c.queue = c.sent
      rw [hitems]
      exact hc.all hl
    · rcases List.mem_append.1 hmem with hmem | hmem
      · exact absurd hmem hnot
      · cases List.mem_singleton.1 hmem
  | closed hm hl hq h =>
    have hitems : Recv.items (c.results ++ [.closed]) = Recv.items c.results := by
      rw [items_concat]
      exact List.append_nil _
    have hall : Recv.items c.results = c.sent := by
      rw [← hc.all hl, hq, List.append_nil]
    have hall' : Recv.items (c.results ++ [.closed]) ++ c.queue = c.sent := by
      rw [hitems, hc.all hl]
    exact ⟨hc.unmade, ⟨[], by rw [List.append_nil]; exact hall'⟩, fun _ => hall',
      fun _ => ⟨hm, h, hq⟩, hc.told_concat (.inl rfl) fun _ => hall⟩

theorem sound_start : ({} : Mpsc α).Sound :=
  ⟨fun _ => rfl, List.prefix_rfl, fun _ => rfl, fun h => absurd h List.not_mem_nil,
    fun pre post h => by cases pre <;> cases h⟩

end Mpsc

end Spot

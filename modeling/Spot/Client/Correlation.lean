import Mathlib.Data.List.AList
import Spot.Client.Address
import Spot.General.Runs
import Spot.Proto.Message

/-!
# Queries and their replies

A query registers a channel under its id (`make_in_q`), waits for a message, and removes the entry
when it returns, however it does.  An incoming message takes the entry it names out of the map and
is then sent on the entry's channel; between the two another thread may run.  The steps of
`CorrState.step` are these single accesses to the map and to the channels, of any number of
queries and of any number of messages.

`Registry` says which entries the map has, `Deliveries` which messages reach which queries, and
`replies_correlated` draws the conclusions for every run in which ids are not drawn twice.
-/

namespace Spot

/-- An incoming message, told apart from its copies by the number of arrivals before it. -/
structure Arrived where
  n : ℕ
  msg : Message
  deriving DecidableEq

/-- How a query ends: without a message, when its time is over, the client is closed or its future
is dropped; or with what becomes of the message it received. -/
inductive Exit
  | timeout
  | closed
  | dropped
  | answered (r : Result Bytes)

/-- Where a query stands; from `leaving` on its outcome is decided, and it still has to drop its
guard. -/
inductive QueryPhase
  | waiting
  | deciding
  | leaving (e : Exit)
  | returned (e : Exit)

/-- A query that has registered itself. -/
structure QueryState where
  id : MessageId
  /-- Whether a message has taken its entry. -/
  taken : Bool := false
  chan : List Arrived := []
  /-- The message it has received. -/
  completedBy : Option Arrived := none
  phase : QueryPhase := .waiting

namespace QueryState

def returned (q : QueryState) : Bool :=
  match q.phase with
  | .returned _ => true
  | _ => false

/-- Neither reached by a message nor returned. -/
def isOpen (q : QueryState) : Bool := !q.taken && !q.returned

end QueryState

/-- The queries, the map of entries, and the messages that have taken an entry and are not sent on
its channel yet; `reached` lists the messages that took an entry, with the query it was of. -/
structure CorrState where
  queries : List QueryState := []
  inQ : AList (fun _ : Text => ℕ) := ∅
  inflight : List (ℕ × Arrived) := []
  arrivals : ℕ := 0
  reached : List (ℕ × Arrived) := []

/-- What can happen. -/
inductive CorrEvent
  | start (id : MessageId)
  | route (msg : Message)
  | send (j : ℕ)
  | receive (i : ℕ)
  | giveUp (i : ℕ) (e : Exit)
  | decide (i : ℕ) (r : Result Bytes)
  | leave (i : ℕ)

namespace CorrState

def modify (s : CorrState) (i : ℕ) (f : QueryState → QueryState) : CorrState :=
  { s with queries := s.queries.modify i f }

/-- A message takes the entry of query `i`. -/
def take (s : CorrState) (name : Text) (i : ℕ) (msg : Message) : CorrState :=
  let m : Arrived := ⟨s.arrivals, msg⟩
  { s with
    queries := s.queries.modify i fun q => { q with taken := true }
    inQ := s.inQ.erase name
    inflight := s.inflight ++ [(i, m)]
    arrivals := s.arrivals + 1
    reached := s.reached ++ [(i, m)] }

/-- One access to the map or to a channel. -/
def step (s : CorrState) : CorrEvent → Option CorrState
  | .start id =>
    some { s with
      queries := s.queries ++ [{ id }]
      inQ := s.inQ.insert (uuidString id) s.queries.length }
  | .route msg =>
    match routeName msg.recipient.chars with
    | none => some { s with arrivals := s.arrivals + 1 }
    | some name =>
      match s.inQ.lookup name with
      | some i => some (s.take name i msg)
      -- for a handler, or for nobody
      | none => some { s with arrivals := s.arrivals + 1 }
  | .send j =>
    match s.inflight[j]? with
    | none => none
    | some (i, m) =>
      -- a query that has returned has dropped its receiver
      some ({ s with inflight := s.inflight.eraseIdx j }.modify i fun q =>
        if q.returned then q else { q with chan := q.chan ++ [m] })
  | .receive i =>
    s.queries[i]?.bind fun q =>
      match q.phase, q.chan with
      | .waiting, m :: chan =>
        some (s.modify i fun _ => { q with chan, completedBy := some m, phase := .deciding })
      | _, _ => none
  | .giveUp i e =>
    s.queries[i]?.bind fun q =>
      match e, q.phase with
      | .answered _, _ => none
      | e, .waiting => some (s.modify i fun _ => { q with phase := .leaving e })
      | _, _ => none
  | .decide i r =>
    s.queries[i]?.bind fun q =>
      match q.phase with
      | .deciding => some (s.modify i fun _ => { q with phase := .leaving (.answered r) })
      | _ => none
  | .leave i =>
    s.queries[i]?.bind fun q =>
      match q.phase with
      -- the guard removes the entry, if it is still there
      | .leaving e =>
        some ({ s with inQ := s.inQ.erase (uuidString q.id) }.modify i fun _ =>
          { q with phase := .returned e })
      | _ => none

/-- A query draws an id that no earlier query has. -/
def FreshId (s : CorrState) : CorrEvent → Prop
  | .start id => ∀ q ∈ s.queries, q.id ≠ id
  | _ => True

/-! ## The entries of the map -/

/-- Ids are distinct, and the map has exactly the open queries, under their ids. -/
structure Registry (s : CorrState) : Prop where
  ids : ∀ (i j : ℕ) (q q' : QueryState), s.queries[i]? = some q → s.queries[j]? = some q' →
    q.id = q'.id → i = j
  lookup_eq_some : ∀ name i, s.inQ.lookup name = some i ↔
    ∃ q, s.queries[i]? = some q ∧ uuidString q.id = name ∧ q.isOpen = true

/-- Which messages took entries: each of a query with the id it names, no query twice and no
message twice; and only such messages are sent to and received by a query. -/
structure Deliveries (s : CorrState) : Prop where
  reached : ∀ i m, (i, m) ∈ s.reached → m.n < s.arrivals ∧
    ∃ q, s.queries[i]? = some q ∧ q.taken = true ∧
      routeName m.msg.recipient.chars = some (uuidString q.id)
  queries_nodup : (s.reached.map Prod.fst).Nodup
  arrivals_nodup : (s.reached.map (·.2.n)).Nodup
  inflight : ∀ p ∈ s.inflight, p ∈ s.reached
  chan : ∀ (i : ℕ) (q : QueryState) (m : Arrived), s.queries[i]? = some q → m ∈ q.chan →
    (i, m) ∈ s.reached
  completed : ∀ (i : ℕ) (q : QueryState) (m : Arrived), s.queries[i]? = some q →
    q.completedBy = some m → (i, m) ∈ s.reached

section Steps

variable {s s' : CorrState} {a : CorrEvent} {i : ℕ} {f : QueryState → QueryState}

theorem getElem?_modify_eq_some {j : ℕ} {q' : QueryState} :
    (s.queries.modify i f)[j]? = some q' ↔
      ∃ q, s.queries[j]? = some q ∧ q' = if i = j then f q else q := by
  rw [List.getElem?_modify]
  constructor
  · intro h
    obtain ⟨q, hq, rfl⟩ := Option.map_eq_some_iff.1 h
    exact ⟨q, hq, rfl⟩
  · rintro ⟨q, hq, rfl⟩
    rw [hq]
    rfl

/-! What the steps ask for and do. -/

theorem step_route {msg : Message} (hs : s.step (.route msg) = some s') :
    s' = { s with arrivals := s.arrivals + 1 } ∨
      ∃ name i, routeName msg.recipient.chars = some name ∧ s.inQ.lookup name = some i ∧
        s' = s.take name i msg := by
  simp only [CorrState.step] at hs
  split at hs
  · exact .inl (Option.some.inj hs).symm
  · rename_i name hname
    split at hs
    · rename_i i hi
      exact .inr ⟨name, i, hname, hi, (Option.some.inj hs).symm⟩
    · exact .inl (Option.some.inj hs).symm

theorem step_send {j : ℕ} (hs : s.step (.send j) = some s') :
    ∃ i m, s.inflight[j]? = some (i, m) ∧
      s' = { s with inflight := s.inflight.eraseIdx j }.modify i fun q =>
        if q.returned then q else { q with chan := q.chan ++ [m] } := by
  simp only [CorrState.step] at hs
  split at hs
  · cases hs
  · rename_i i m hj
    exact ⟨i, m, hj, (Option.some.inj hs).symm⟩

theorem step_receive (hs : s.step (.receive i) = some s') :
    ∃ q, s.queries[i]? = some q ∧ ∃ m chan, q.phase = .waiting ∧ q.chan = m :: chan ∧
      s' = s.modify i fun _ => { q with chan, completedBy := some m, phase := .deciding } := by
  obtain ⟨q, hq, h⟩ := Option.bind_eq_some_iff.1 hs
  refine ⟨q, hq, ?_⟩
  split at h
  · rename_i m chan hp hc
    exact ⟨m, chan, hp, hc, (Option.some.inj h).symm⟩
  · cases h

theorem step_giveUp {e : Exit} (hs : s.step (.giveUp i e) = some s') :
    ∃ q, s.queries[i]? = some q ∧ q.phase = .waiting ∧
      s' = s.modify i fun _ => { q with phase := .leaving e } := by
  obtain ⟨q, hq, h⟩ := Option.bind_eq_some_iff.1 hs
  refine ⟨q, hq, ?_⟩
  split at h
  · cases h
  · rename_i hp
    exact ⟨hp, (Option.some.inj h).symm⟩
  · cases h

theorem step_decide {r : Result Bytes} (hs : s.step (.decide i r) = some s') :
    ∃ q, s.queries[i]? = some q ∧ q.phase = .deciding ∧
      s' = s.modify i fun _ => { q with phase := .leaving (.answered r) } := by
  obtain ⟨q, hq, h⟩ := Option.bind_eq_some_iff.1 hs
  refine ⟨q, hq, ?_⟩
  split at h
  · rename_i hp
    exact ⟨hp, (Option.some.inj h).symm⟩
  · cases h

theorem step_leave (hs : s.step (.leave i) = some s') :
    ∃ q, s.queries[i]? = some q ∧ ∃ e, q.phase = .leaving e ∧
      s' = { s with inQ := s.inQ.erase (uuidString q.id) }.modify i fun _ =>
        { q with phase := .returned e } := by
  obtain ⟨q, hq, h⟩ := Option.bind_eq_some_iff.1 hs
  refine ⟨q, hq, ?_⟩
  split at h
  · rename_i e hp
    exact ⟨e, hp, (Option.some.inj h).symm⟩
  · cases h

/-- A change to one query that leaves its id and its being open alone. -/
theorem Registry.modify (h : s.Registry)
    (hf : ∀ q, s.queries[i]? = some q → (f q).id = q.id ∧ (f q).isOpen = q.isOpen) :
    (s.modify i f).Registry := by
  have same : ∀ j q, s.queries[j]? = some q → (if i = j then f q else q).id = q.id ∧
      (if i = j then f q else q).isOpen = q.isOpen := by
    intro j q hq
    by_cases hij : i = j
    · subst hij
      rw [if_pos rfl]
      exact hf q hq
    · rw [if_neg hij]
      exact ⟨rfl, rfl⟩
  constructor
  · intro j k q q' hj hk hid
    obtain ⟨p, hp, rfl⟩ := getElem?_modify_eq_some.1 hj
    obtain ⟨p', hp', rfl⟩ := getElem?_modify_eq_some.1 hk
    rw [(same j p hp).1, (same k p' hp').1] at hid
    exact h.ids j k p p' hp hp' hid
  · intro name j
    refine (h.lookup_eq_some name j).trans ⟨?_, ?_⟩
    · rintro ⟨q, hq, hname, hopen⟩
      refine ⟨_, getElem?_modify_eq_some.2 ⟨q, hq, rfl⟩, ?_, ?_⟩
      · rw [(same j q hq).1, hname]
      · rw [(same j q hq).2, hopen]
    · rintro ⟨q', hq', hname, hopen⟩
      obtain ⟨q, hq, rfl⟩ := getElem?_modify_eq_some.1 hq'
      rw [(same j q hq).1] at hname
      rw [(same j q hq).2] at hopen
      exact ⟨q, hq, hname, hopen⟩

theorem Registry.modify_of_eq {q q' : QueryState} (h : s.Registry) (hq : s.queries[i]? = some q)
    (hid : q'.id = q.id) (hopen : q'.isOpen = q.isOpen) : (s.modify i fun _ => q').Registry := by
  apply h.modify
  intro p hp
  obtain rfl := Option.some.inj (hq.symm.trans hp)
  exact ⟨hid, hopen⟩

/-- A change that closes query `i` and removes its entry. -/
theorem Registry.close {q₀ : QueryState} (h : s.Registry) (hq₀ : s.queries[i]? = some q₀)
    (hid : (f q₀).id = q₀.id) (hopen : (f q₀).isOpen = false) {t : CorrState}
    (hqueries : t.queries = s.queries.modify i f)
    (hinQ : t.inQ = s.inQ.erase (uuidString q₀.id)) : t.Registry := by
  have same : ∀ j q, s.queries[j]? = some q → (if i = j then f q else q).id = q.id := by
    intro j q hq
    by_cases hij : i = j
    · subst hij
      obtain rfl := Option.some.inj (hq₀.symm.trans hq)
      rw [if_pos rfl, hid]
    · rw [if_neg hij]
  constructor
  · intro j k q q' hj hk he
    rw [hqueries] at hj hk
    obtain ⟨p, hp, rfl⟩ := getElem?_modify_eq_some.1 hj
    obtain ⟨p', hp', rfl⟩ := getElem?_modify_eq_some.1 hk
    rw [same j p hp, same k p' hp'] at he
    exact h.ids j k p p' hp hp' he
  · intro name j
    rw [hqueries, hinQ]
    by_cases hname : name = uuidString q₀.id
    · subst hname
      rw [AList.lookup_erase]
      constructor
      · rintro ⟨⟩
      · rintro ⟨q', hq', hn, ho⟩
        obtain ⟨q, hq, rfl⟩ := getElem?_modify_eq_some.1 hq'
        rw [same j q hq] at hn
        obtain rfl := h.ids i j q₀ q hq₀ hq (uuidString_injective hn).symm
        obtain rfl := Option.some.inj (hq₀.symm.trans hq)
        rw [if_pos rfl, hopen] at ho
        cases ho
    · rw [AList.lookup_erase_ne hname, h.lookup_eq_some name j]
      have hne : ∀ q, s.queries[j]? = some q → uuidString q.id = name → i ≠ j := by
        rintro q hq rfl rfl
        obtain rfl := Option.some.inj (hq₀.symm.trans hq)
        exact hname rfl
      constructor
      · rintro ⟨q, hq, hn, ho⟩
        refine ⟨q, getElem?_modify_eq_some.2 ⟨q, hq, ?_⟩, hn, ho⟩
        rw [if_neg (hne q hq hn)]
      · rintro ⟨q', hq', hn, ho⟩
        obtain ⟨q, hq, rfl⟩ := getElem?_modify_eq_some.1 hq'
        have hn' := hn
        rw [same j q hq] at hn'
        rw [if_neg (hne q hq hn')] at ho
        exact ⟨q, hq, hn', ho⟩

theorem getElem?_snoc_eq_some {l : List QueryState} {x q : QueryState} :
    (l ++ [x])[i]? = some q ↔ l[i]? = some q ∨ i = l.length ∧ q = x := by
  rcases lt_trichotomy i l.length with h | h | h
  · rw [List.getElem?_append_left h]
    simp [Nat.ne_of_lt h]
  · subst h
    simp [eq_comm]
  · rw [List.getElem?_append_right h.le, List.getElem?_eq_none h.le, List.getElem?_eq_none]
    · simp [Nat.ne_of_gt h]
    · rw [List.length_singleton]
      omega

theorem Registry.start (h : s.Registry) {id : MessageId} (hg : ∀ q ∈ s.queries, q.id ≠ id)
    (hs : s.step (.start id) = some s') : s'.Registry := by
  obtain rfl := Option.some.inj hs
  have old : ∀ (j : ℕ) (q : QueryState), s.queries[j]? = some q → q.id ≠ id :=
    fun j q hq => hg q (List.mem_of_getElem? hq)
  constructor
  · intro j k q q' hj hk hid
    rcases getElem?_snoc_eq_some.1 hj with hj | ⟨rfl, rfl⟩ <;>
      rcases getElem?_snoc_eq_some.1 hk with hk | ⟨rfl, rfl⟩
    · exact h.ids j k q q' hj hk hid
    · exact absurd hid (old j q hj)
    · exact absurd hid.symm (old k q' hk)
    · rfl
  · intro name j
    by_cases hname : name = uuidString id
    · subst hname
      rw [AList.lookup_insert]
      constructor
      · intro hj
        obtain rfl := Option.some.inj hj
        exact ⟨{ id }, getElem?_snoc_eq_some.2 (.inr ⟨rfl, rfl⟩), rfl, rfl⟩
      · rintro ⟨q, hq, hn, -⟩
        rcases getElem?_snoc_eq_some.1 hq with hq | ⟨rfl, rfl⟩
        · exact absurd (uuidString_injective hn) (old j q hq)
        · rfl
    · rw [AList.lookup_insert_ne hname, h.lookup_eq_some name j]
      constructor
      · rintro ⟨q, hq, hrest⟩
        exact ⟨q, getElem?_snoc_eq_some.2 (.inl hq), hrest⟩
      · rintro ⟨q, hq, hn, ho⟩
        rcases getElem?_snoc_eq_some.1 hq with hq | ⟨rfl, rfl⟩
        · exact ⟨q, hq, hn, ho⟩
        · exact absurd hn.symm hname

theorem Registry.step (h : s.Registry) (hg : s.FreshId a) (hs : s.step a = some s') :
    s'.Registry := by
  cases a with
  | start id => exact h.start hg hs
  | route msg =>
    rcases step_route hs with rfl | ⟨name, i, -, hi, rfl⟩
    · exact ⟨h.ids, h.lookup_eq_some⟩
    · obtain ⟨q, hq, rfl, -⟩ := (h.lookup_eq_some name i).1 hi
      exact h.close (f := fun q => { q with taken := true }) hq rfl rfl rfl rfl
  | send j =>
    obtain ⟨i, m, -, rfl⟩ := step_send hs
    have h' : ({ s with inflight := s.inflight.eraseIdx j } : CorrState).Registry :=
      ⟨h.ids, h.lookup_eq_some⟩
    apply h'.modify
    intro q _
    by_cases hret : q.returned = true
    · rw [if_pos hret]
      exact ⟨rfl, rfl⟩
    · rw [if_neg hret]
      exact ⟨rfl, rfl⟩
  | receive i =>
    obtain ⟨q, hq, m, chan, hp, hc, rfl⟩ := step_receive hs
    exact h.modify_of_eq hq rfl (by simp [QueryState.isOpen, QueryState.returned, hp])
  | giveUp i e =>
    obtain ⟨q, hq, hp, rfl⟩ := step_giveUp hs
    exact h.modify_of_eq hq rfl (by simp [QueryState.isOpen, QueryState.returned, hp])
  | decide i r =>
    obtain ⟨q, hq, hp, rfl⟩ := step_decide hs
    exact h.modify_of_eq hq rfl (by simp [QueryState.isOpen, QueryState.returned, hp])
  | leave i =>
    obtain ⟨q, hq, e, -, rfl⟩ := step_leave hs
    apply h.close (f := fun _ => { q with phase := .returned e }) hq rfl _ rfl rfl
    simp [QueryState.isOpen, QueryState.returned]

/-! ## Which messages reach which queries -/

/-- A change to one query that only gives it messages that reached it. -/
theorem Deliveries.modify (h : s.Deliveries)
    (hf : ∀ q, s.queries[i]? = some q → (f q).id = q.id ∧ (q.taken = true → (f q).taken = true) ∧
      (∀ m ∈ (f q).chan, (i, m) ∈ s.reached) ∧
      ∀ m, (f q).completedBy = some m → (i, m) ∈ s.reached) : (s.modify i f).Deliveries := by
  refine ⟨fun j m hm => ?_, h.queries_nodup, h.arrivals_nodup, h.inflight, fun j q m hq hm => ?_,
    fun j q m hq hm => ?_⟩
  · obtain ⟨hn, q, hq, ht, hname⟩ := h.reached j m hm
    refine ⟨hn, _, getElem?_modify_eq_some.2 ⟨q, hq, rfl⟩, ?_⟩
    by_cases hij : i = j
    · subst hij
      obtain ⟨hid, htaken, -⟩ := hf q hq
      rw [if_pos rfl, hid]
      exact ⟨htaken ht, hname⟩
    · rw [if_neg hij]
      exact ⟨ht, hname⟩
  · obtain ⟨p, hp, rfl⟩ := getElem?_modify_eq_some.1 hq
    by_cases hij : i = j
    · subst hij
      rw [if_pos rfl] at hm
      exact (hf p hp).2.2.1 m hm
    · rw [if_neg hij] at hm
      exact h.chan j p m hp hm
  · obtain ⟨p, hp, rfl⟩ := getElem?_modify_eq_some.1 hq
    by_cases hij : i = j
    · subst hij
      rw [if_pos rfl] at hm
      exact (hf p hp).2.2.2 m hm
    · rw [if_neg hij] at hm
      exact h.completed j p m hp hm

theorem Deliveries.modify_of_eq {q q' : QueryState} (h : s.Deliveries)
    (hq : s.queries[i]? = some q) (hid : q'.id = q.id) (ht : q'.taken = q.taken)
    (hchan : ∀ m ∈ q'.chan, m ∈ q.chan)
    (hdone : ∀ m, q'.completedBy = some m → q.completedBy = some m ∨ m ∈ q.chan) :
    (s.modify i fun _ => q').Deliveries := by
  apply h.modify
  intro p hp
  obtain rfl := Option.some.inj (hq.symm.trans hp)
  refine ⟨hid, fun h' => ht.trans h', fun m hm => h.chan i _ m hq (hchan m hm), fun m hm => ?_⟩
  rcases hdone m hm with hm | hm
  · exact h.completed i _ m hq hm
  · exact h.chan i _ m hq hm

theorem Deliveries.start (h : s.Deliveries) {id : MessageId}
    (hs : s.step (.start id) = some s') : s'.Deliveries := by
  obtain rfl := Option.some.inj hs
  refine ⟨fun j m hm => ?_, h.queries_nodup, h.arrivals_nodup, h.inflight, fun j q m hq hm => ?_,
    fun j q m hq hm => ?_⟩
  · obtain ⟨hn, q, hq, hrest⟩ := h.reached j m hm
    exact ⟨hn, q, getElem?_snoc_eq_some.2 (.inl hq), hrest⟩
  · rcases getElem?_snoc_eq_some.1 hq with hq | ⟨-, rfl⟩
    · exact h.chan j q m hq hm
    · cases hm
  · rcases getElem?_snoc_eq_some.1 hq with hq | ⟨-, rfl⟩
    · exact h.completed j q m hq hm
    · cases hm

/-- A message takes the entry of an open query. -/
theorem Deliveries.take (h : s.Deliveries) {q : QueryState} {msg : Message}
    (hq : s.queries[i]? = some q) (hopen : q.isOpen = true)
    (hname : routeName msg.recipient.chars = some (uuidString q.id)) :
    (s.take (uuidString q.id) i msg).Deliveries := by
  have hnew : i ∉ s.reached.map Prod.fst := by
    intro hi
    obtain ⟨⟨j, m⟩, hm, rfl⟩ := List.mem_map.1 hi
    obtain ⟨-, p, hp, ht, -⟩ := h.reached j m hm
    obtain rfl := Option.some.inj (hq.symm.trans hp)
    rw [QueryState.isOpen, ht] at hopen
    cases hopen
  have hfresh : s.arrivals ∉ s.reached.map (·.2.n) := by
    intro hn
    obtain ⟨⟨j, m⟩, hm, he⟩ := List.mem_map.1 hn
    exact absurd he (Nat.ne_of_lt (h.reached j m hm).1)
  have h' : (s.modify i fun q => { q with taken := true }).Deliveries :=
    h.modify fun p hp =>
      ⟨rfl, fun _ => rfl, fun m hm => h.chan i p m hp hm, fun m hm => h.completed i p m hp hm⟩
  refine ⟨fun j m hm => ?_, ?_, ?_, fun p hp => ?_, fun j p m hp hm => ?_, fun j p m hp hm => ?_⟩
  · rcases List.mem_append.1 hm with hm | hm
    · obtain ⟨hn, hrest⟩ := h'.reached j m hm
      exact ⟨Nat.lt_succ_of_lt hn, hrest⟩
    · obtain ⟨rfl, rfl⟩ := Prod.mk.inj (List.mem_singleton.1 hm)
      exact ⟨Nat.lt_succ_self _, _, getElem?_modify_eq_some.2 ⟨q, hq, rfl⟩, by simp,
        by simpa using hname⟩
  · have hcat := h.queries_nodup.concat hnew
    rw [List.concat_eq_append] at hcat
    simpa [CorrState.take] using hcat
  · have hcat := h.arrivals_nodup.concat hfresh
    rw [List.concat_eq_append] at hcat
    simpa [CorrState.take] using hcat
  · rcases List.mem_append.1 hp with hp | hp
    · exact List.mem_append_left _ (h.inflight p hp)
    · exact List.mem_append_right _ hp
  · exact List.mem_append_left _ (h'.chan j p m hp hm)
  · exact List.mem_append_left _ (h'.completed j p m hp hm)

theorem Deliveries.step (h : s.Deliveries) (hr : s.Registry) (hs : s.step a = some s') :
    s'.Deliveries := by
  have arrive : ({ s with arrivals := s.arrivals + 1 } : CorrState).Deliveries :=
    ⟨fun j m hm => ⟨Nat.lt_succ_of_lt (h.reached j m hm).1, (h.reached j m hm).2⟩,
      h.queries_nodup, h.arrivals_nodup, h.inflight, h.chan, h.completed⟩
  cases a with
  | start id => exact h.start hs
  | route msg =>
    rcases step_route hs with rfl | ⟨name, i, hname, hi, rfl⟩
    · exact arrive
    · obtain ⟨q, hq, rfl, hopen⟩ := (hr.lookup_eq_some name i).1 hi
      exact h.take hq hopen hname
  | send j =>
    obtain ⟨i, m, hj, rfl⟩ := step_send hs
    have h' : ({ s with inflight := s.inflight.eraseIdx j } : CorrState).Deliveries :=
      ⟨h.reached, h.queries_nodup, h.arrivals_nodup,
        fun p hp => h.inflight p (List.mem_of_mem_eraseIdx hp), h.chan, h.completed⟩
    apply h'.modify
    intro q hq
    by_cases hret : q.returned = true
    · rw [if_pos hret]
      exact ⟨rfl, fun ht => ht, fun m hm => h.chan i q m hq hm,
        fun m hm => h.completed i q m hq hm⟩
    · rw [if_neg hret]
      refine ⟨rfl, fun ht => ht, fun m' hm' => ?_, fun m hm => h.completed i q m hq hm⟩
      rcases List.mem_append.1 hm' with hm' | hm'
      · exact h.chan i q m' hq hm'
      · exact List.mem_singleton.1 hm' ▸ h.inflight _ (List.mem_of_getElem? hj)
  | receive i =>
    obtain ⟨q, hq, m, chan, hp, hc, rfl⟩ := step_receive hs
    refine h.modify_of_eq hq rfl rfl ?_ ?_
    · exact fun m' hm' => hc ▸ List.mem_cons_of_mem m hm'
    · exact fun m' hm' => .inr (hc ▸ Option.some.inj hm' ▸ List.mem_cons_self)
  | giveUp i e =>
    obtain ⟨q, hq, hp, rfl⟩ := step_giveUp hs
    exact h.modify_of_eq hq rfl rfl (fun _ hm => hm) fun _ hm => .inl hm
  | decide i r =>
    obtain ⟨q, hq, hp, rfl⟩ := step_decide hs
    exact h.modify_of_eq hq rfl rfl (fun _ hm => hm) fun _ hm => .inl hm
  | leave i =>
    obtain ⟨q, hq, e, -, rfl⟩ := step_leave hs
    have h' : ({ s with inQ := s.inQ.erase (uuidString q.id) } : CorrState).Deliveries :=
      ⟨h.reached, h.queries_nodup, h.arrivals_nodup, h.inflight, h.chan, h.completed⟩
    exact h'.modify_of_eq hq rfl rfl (fun _ hm => hm) fun _ hm => .inl hm

end Steps

/-! ## Whole runs -/

section Runs

variable {s : CorrState} {as : List CorrEvent}

/-- A query that was reached or has returned has no entry. -/
theorem Registry.lookup_eq_none (h : s.Registry) {i : ℕ} {q : QueryState}
    (hq : s.queries[i]? = some q) (hclosed : q.isOpen = false) :
    s.inQ.lookup (uuidString q.id) = none := by
  rw [Option.eq_none_iff_forall_not_mem]
  intro j hj
  obtain ⟨p, hp, hname, hopen⟩ := (h.lookup_eq_some _ j).1 hj
  obtain rfl := h.ids j i p q hp hq (uuidString_injective hname)
  obtain rfl := Option.some.inj (hq.symm.trans hp)
  rw [hclosed] at hopen
  cases hopen

theorem registry_deliveries (hg : Guarded step FreshId {} as) (hr : run step {} as = some s) :
    s.Registry ∧ s.Deliveries := by
  refine Guarded.invariant (I := fun s => s.Registry ∧ s.Deliveries)
    (fun s a s' h hg hs => ⟨h.1.step hg hs, h.2.step h.1 hs⟩) ?_ hg hr
  refine ⟨⟨fun i j q q' hi => ?_, fun name i => ?_⟩,
    ⟨fun i m hm => ?_, List.nodup_nil, List.nodup_nil, fun p hp => ?_, fun i q m hi => ?_,
      fun i q m hi => ?_⟩⟩
  · cases hi
  · constructor
    · rintro ⟨⟩
    · rintro ⟨q, hq, -⟩
      cases hq
  · cases hm
  · cases hp
  · cases hi
  · cases hi

/-- A message that names a query which waits and has not been reached takes its entry, is sent on
its channel and received. -/
theorem received_of_waiting (hg : Guarded step FreshId {} as) (hr : run step {} as = some s)
    {i : ℕ} {q : QueryState} {msg : Message} (hq : s.queries[i]? = some q)
    (hname : routeName msg.recipient.chars = some (uuidString q.id)) (htaken : q.taken = false)
    (hwaits : q.phase = .waiting) :
    ∃ s' q', run step s [.route msg, .send s.inflight.length, .receive i] = some s' ∧
      s'.queries[i]? = some q' ∧ q'.completedBy = some ⟨s.arrivals, msg⟩ := by
  obtain ⟨hreg, hdel⟩ := registry_deliveries hg hr
  have hreturned : q.returned = false := by rw [QueryState.returned, hwaits]
  have hopen : q.isOpen = true := by rw [QueryState.isOpen, htaken, hreturned]; rfl
  have hchan : q.chan = [] := by
    refine List.eq_nil_iff_forall_not_mem.2 fun m hm => ?_
    obtain ⟨-, q', hq', ht, -⟩ := hdel.reached i m (hdel.chan i q m hq hm)
    obtain rfl := Option.some.inj (hq.symm.trans hq')
    rw [htaken] at ht
    cases ht
  have hlookup : s.inQ.lookup (uuidString q.id) = some i :=
    (hreg.lookup_eq_some _ i).2 ⟨q, hq, rfl, hopen⟩
  let m : Arrived := ⟨s.arrivals, msg⟩
  let s₁ : CorrState := s.take (uuidString q.id) i msg
  let q₁ : QueryState := { q with taken := true }
  have hroute : s.step (.route msg) = some s₁ := by
    simp only [step, hname, hlookup]
    rfl
  have hq₁ : s₁.queries[i]? = some q₁ :=
    getElem?_modify_eq_some.2 ⟨q, hq, (if_pos rfl).symm⟩
  have hinflight : s₁.inflight[s.inflight.length]? = some (i, m) := List.getElem?_concat_length
  let f : QueryState → QueryState := fun q =>
    if q.returned then q else { q with chan := q.chan ++ [m] }
  let s₂ : CorrState :=
    { s₁ with inflight := s₁.inflight.eraseIdx s.inflight.length }.modify i f
  have hsend : s₁.step (.send s.inflight.length) = some s₂ := by
    simp only [step, hinflight]
    rfl
  have hf : f q₁ = { q₁ with chan := [m] } := by
    have hreturned' : ¬ q₁.returned = true := by
      rw [show q₁.returned = q.returned from rfl, hreturned]
      exact Bool.false_ne_true
    show (if q₁.returned then q₁ else _) = _
    rw [if_neg hreturned', show q₁.chan = [] from hchan]
    rfl
  have hq₂ : s₂.queries[i]? = some (f q₁) :=
    getElem?_modify_eq_some.2 ⟨q₁, hq₁, (if_pos rfl).symm⟩
  rw [hf] at hq₂
  let q₃ : QueryState := { q₁ with chan := [], completedBy := some m, phase := .deciding }
  have hreceive : s₂.step (.receive i) = some (s₂.modify i fun _ => q₃) := by
    simp only [step, hq₂, Option.bind_some]
    rw [show q₁.phase = .waiting from hwaits]
  refine ⟨s₂.modify i fun _ => q₃, q₃, ?_, ?_, rfl⟩
  · simp only [run, hroute, hsend, hreceive, Option.bind_some]
  · exact getElem?_modify_eq_some.2 ⟨_, hq₂, (if_pos rfl).symm⟩

/-- In every state of a run that draws no id twice: a query is completed only by a message that
reached it and names it, and no message completes two; at most one message ever reaches a query; a
query that was reached or has returned has no entry, so that another message with its name reaches
none; and the entries are those of the queries that are open. -/
theorem replies_correlated (hg : Guarded step FreshId {} as) (hr : run step {} as = some s) :
    (∀ (i : ℕ) (q : QueryState) (m : Arrived), s.queries[i]? = some q → q.completedBy = some m →
      (i, m) ∈ s.reached ∧ routeName m.msg.recipient.chars = some (uuidString q.id)) ∧
    (∀ (i j : ℕ) (q q' : QueryState) (m m' : Arrived), s.queries[i]? = some q →
      s.queries[j]? = some q' → q.completedBy = some m → q'.completedBy = some m' → m.n = m'.n →
      i = j) ∧
    (∀ i m m', (i, m) ∈ s.reached → (i, m') ∈ s.reached → m = m') ∧
    (∀ (i : ℕ) (q : QueryState), s.queries[i]? = some q → q.taken = true ∨ q.returned = true →
      s.inQ.lookup (uuidString q.id) = none ∧
      ∀ msg s', routeName msg.recipient.chars = some (uuidString q.id) →
        s.step (.route msg) = some s' → s' = { s with arrivals := s.arrivals + 1 }) ∧
    (∀ name i, s.inQ.lookup name = some i ↔
      ∃ q, s.queries[i]? = some q ∧ uuidString q.id = name ∧ q.isOpen = true) := by
  obtain ⟨hreg, hdel⟩ := registry_deliveries hg hr
  refine ⟨fun i q m hq hm => ?_, fun i j q q' m m' hq hq' hm hm' hn => ?_,
    fun i m m' hm hm' => ?_, fun i q hq hclosed => ?_, hreg.lookup_eq_some⟩
  · have hreached := hdel.completed i q m hq hm
    obtain ⟨-, p, hp, -, hname⟩ := hdel.reached i m hreached
    obtain rfl := Option.some.inj (hq.symm.trans hp)
    exact ⟨hreached, hname⟩
  · have he := List.inj_on_of_nodup_map hdel.arrivals_nodup (hdel.completed i q m hq hm)
      (hdel.completed j q' m' hq' hm') hn
    exact congrArg Prod.fst he
  · exact congrArg Prod.snd (List.inj_on_of_nodup_map hdel.queries_nodup hm hm' rfl)
  · have hnone : s.inQ.lookup (uuidString q.id) = none := by
      apply hreg.lookup_eq_none hq
      rcases hclosed with h | h <;> simp [QueryState.isOpen, h]
    refine ⟨hnone, fun msg s' hname hs => ?_⟩
    simp only [step, hname, hnone] at hs
    exact (Option.some.inj hs).symm

instance (s : CorrState) : DecidablePred s.FreshId := fun a =>
  match a with
  | .start id => inferInstanceAs (Decidable (∀ q ∈ s.queries, q.id ≠ id))
  | .route _ | .send _ | .receive _ | .giveUp _ _ | .decide _ _ | .leave _ =>
    inferInstanceAs (Decidable True)

/-- The id of one byte repeated. -/
def repeatId (b : UInt8) : MessageId := List.Vector.replicate 16 b

def replyTo (b : UInt8) : Message :=
  { (default : Message) with recipient := replyAddress (repeatId b) }

/-- Two queries; the reply to the first arrives twice, and the second times out. -/
def twoQueries : List CorrEvent :=
  [.start (repeatId 1), .start (repeatId 2), .route (replyTo 1), .route (replyTo 1), .send 0,
    .receive 0, .giveUp 1 .timeout, .decide 0 (.ok []), .leave 1, .leave 0]

theorem replies_correlated_twoQueries :
    ∃ s, run step {} twoQueries = some s ∧ s.reached.map Prod.fst = [0] ∧
      ∀ name i, s.inQ.lookup name = some i ↔
        ∃ q, s.queries[i]? = some q ∧ uuidString q.id = name ∧ q.isOpen = true := by
  have hr : run step {} twoQueries = some _ := rfl
  exact ⟨_, hr, rfl, (replies_correlated (by decide) hr).2.2.2.2⟩

end Runs

end CorrState

end Spot

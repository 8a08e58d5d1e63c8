import Spot.Conn.WasmSink
import Spot.General.Census

/-!
# The outgoing queue of the browser client

`push_out` queues a message and flushes the queue, `set_sink` installs a sink and flushes it, and
any number of flushes run at a time, each awaiting a send; a send that fails puts its message back
and empties the slot.  `OutState.step` is this for sinks installed and dropped at any time.

* `flushOut_eq`: a flush that does not await a send has found no sink or no message;
* `outq_accounted`: no message is lost, doubled or sent twice, and messages are left in the queue
  only without a sink or while a flush is running.
-/

namespace Spot

section Out

variable (V : Uvarint) (C : Ciborium)

/-- The slot, the queue and the flushes, with what was pushed and what was sent. -/
structure OutState where
  sink : Option ℕ := none
  outq : List Ticketed := []
  /-- What each flush awaits the sending of, if it has not ended. -/
  flushes : List (Option (Sending V C)) := []
  pushed : List Ticketed := []
  sent : List (Sending V C) := []

end Out

variable {V : Uvarint} {C : Ciborium}

/-- What can happen: a message is pushed, a flush is started, the sink of connection `c` is
installed, the slot is emptied, or the send that the `i`-th flush awaits completes. -/
inductive OutEvent
  | pushOut (msg : Message)
  | flush
  | setSink (c : ℕ)
  | dropSink
  | sent (i : ℕ) (ok : Bool)

namespace OutState

/-- `flush_out`, up to the send it then awaits, if it does not end. -/
def flushOut (s : OutState V C) : OutState V C × Option (Sending V C) :=
  match s.sink with
  | none => (s, none)
  | some c =>
    ({ s with outq := (LoopState.takeNext (V := V) (C := C) c s.outq).1 },
      (LoopState.takeNext c s.outq).2)

/-- Starts a flush. -/
def startFlush (s : OutState V C) : OutState V C :=
  let r := s.flushOut
  { r.1 with flushes := r.1.flushes ++ [r.2] }

/-- The `i`-th flush after its send has succeeded. -/
def continueFlush (s : OutState V C) (i : ℕ) : OutState V C :=
  let r := s.flushOut
  { r.1 with flushes := r.1.flushes.set i r.2 }

/-- One step. -/
def step (s : OutState V C) : OutEvent → Option (OutState V C)
  | .pushOut msg =>
    let m : Ticketed := ⟨s.pushed.length, msg⟩
    some { s with outq := s.outq ++ [m], pushed := s.pushed ++ [m] }.startFlush
  | .flush => some s.startFlush
  | .setSink c => some { s with sink := some c }.startFlush
  | .dropSink => some { s with sink := none }
  | .sent i ok =>
    match s.flushes[i]? with
    | some (some f) =>
      if ok then some ({ s with sent := s.sent ++ [f] }.continueFlush i)
      else some { s with
        outq := f.packet.m :: s.outq, sink := none, flushes := s.flushes.set i none }
    | _ => none

/-- The message a flush holds. -/
def heldBy (f : Option (Sending V C)) : Option Ticketed := f.map (·.packet.m)

/-- What the flushes hold. -/
def held (s : OutState V C) : List Ticketed := s.flushes.filterMap heldBy

/-- What was sent. -/
def accepted (s : OutState V C) : List Ticketed := s.sent.map (·.packet.m)

/-- The state as a work queue. -/
def workQueue (s : OutState V C) : WorkQueue Ticketed := ⟨s.pushed, s.outq, s.held, s.accepted⟩

/-- With a sink and no flush running, the queue is empty. -/
def Drained (s : OutState V C) : Prop :=
  s.sink.isSome = true → (∀ f ∈ s.flushes, f = none) → s.outq = []

section Steps

variable {s s' : OutState V C} {a : OutEvent} {i c : ℕ}

/-- No message is dropped for want of an encoding. -/
theorem takeNext_cons (m : Ticketed) (q : List Ticketed) :
    ∃ f : Sending V C, f.on = c ∧ f.packet.m = m ∧
      LoopState.takeNext c (m :: q) = (q, some f) :=
  ⟨⟨c, m, _, Packet.encode_message V C m.msg⟩, rfl, rfl, rfl⟩

/-- A flush ends at once without a sink or without a message, and takes the first message
otherwise. -/
theorem flushOut_eq (s : OutState V C) :
    (s.sink = none ∨ s.outq = []) ∧ s.flushOut = (s, none) ∨
      ∃ f q, s.outq = f.packet.m :: q ∧ s.sink = some f.on ∧
        s.flushOut = ({ s with outq := q }, some f) := by
  obtain ⟨sink, outq, flushes, pushed, sent⟩ := s
  cases sink with
  | none => exact .inl ⟨.inl rfl, rfl⟩
  | some c =>
    cases outq with
    | nil => exact .inl ⟨.inr rfl, rfl⟩
    | cons m q =>
      obtain ⟨f, rfl, rfl, hf⟩ := takeNext_cons (V := V) (C := C) (c := c) m q
      refine .inr ⟨f, q, rfl, rfl, ?_⟩
      simp only [flushOut, hf]

/-- The start of a flush is a move of the work queue, and leaves a queue that is drained. -/
theorem startFlush_spec (s : OutState V C) :
    WorkQueue.Move s.workQueue s.startFlush.workQueue ∧ s.startFlush.Drained := by
  rcases flushOut_eq s with ⟨hend, hs⟩ | ⟨f, q, hq, hsink, hs⟩
  · have hstart : s.startFlush = { s with flushes := s.flushes ++ [none] } := by
      rw [startFlush, hs]
    rw [hstart]
    constructor
    · have hsame : OutState.workQueue { s with flushes := s.flushes ++ [none] } = s.workQueue := by
        rw [workQueue, held, List.filterMap_append]
        simp [heldBy, workQueue, held, accepted]
      rw [hsame]
      exact .stay _
    · rintro hsome -
      rcases hend with hend | hend
      · rw [hend] at hsome
        cases hsome
      · exact hend
  · have hstart : s.startFlush = { s with outq := q, flushes := s.flushes ++ [some f] } := by
      rw [startFlush, hs]
    rw [hstart]
    constructor
    · have hheld : (s.flushes ++ [some f]).filterMap heldBy = s.held ++ f.packet.m :: [] := by
        rw [List.filterMap_append]
        rfl
      have hqueue : s.workQueue = ⟨s.pushed, f.packet.m :: q, s.held ++ [], s.accepted⟩ := by
        rw [workQueue, hq, List.append_nil]
      rw [hqueue]
      show WorkQueue.Move _ ⟨s.pushed, q, (s.flushes ++ [some f]).filterMap heldBy, s.accepted⟩
      rw [hheld]
      exact .take _ _ _ _ s.held []
    · rintro - hnone
      cases hnone (some f) (List.mem_append_right _ List.mem_cons_self)

/-- What becomes of the messages when the send that the `i`-th flush awaits succeeds: its message is
delivered, and it may take the next. -/
theorem continueFlush_spec {f : Sending V C} (hi : s.flushes[i]? = some (some f)) :
    (∃ w, WorkQueue.Move s.workQueue w ∧
      WorkQueue.Move w ({ s with sent := s.sent ++ [f] }.continueFlush i).workQueue) ∧
      ({ s with sent := s.sent ++ [f] }.continueFlush i).Drained := by
  obtain ⟨l, r, hl, hset⟩ := exists_filterMap_set hi heldBy
  have hwork : s.workQueue = ⟨s.pushed, s.outq, l ++ f.packet.m :: r, s.accepted⟩ := by
    rw [workQueue, held, hl]
    rfl
  rw [hwork]
  refine ⟨⟨_, .deliver _ _ _ _ l r, ?_⟩, ?_⟩
  all_goals
    rcases flushOut_eq { s with sent := s.sent ++ [f] } with ⟨hend, hs⟩ | ⟨g, q, hq, hsink, hs⟩
  · have hcont : { s with sent := s.sent ++ [f] }.continueFlush i =
        { s with sent := s.sent ++ [f], flushes := s.flushes.set i none } := by
      rw [continueFlush, hs]
    rw [hcont]
    show WorkQueue.Move _ ⟨s.pushed, s.outq, (s.flushes.set i none).filterMap heldBy,
      (s.sent ++ [f]).map (·.packet.m)⟩
    rw [hset, List.map_append]
    exact .stay _
  · have hcont : { s with sent := s.sent ++ [f] }.continueFlush i =
        { s with outq := q, sent := s.sent ++ [f], flushes := s.flushes.set i (some g) } := by
      rw [continueFlush, hs]
    have hq' : s.outq = g.packet.m :: q := hq
    rw [hcont, hq']
    show WorkQueue.Move _ ⟨s.pushed, q, (s.flushes.set i (some g)).filterMap heldBy,
      (s.sent ++ [f]).map (·.packet.m)⟩
    rw [hset, List.map_append]
    exact .take _ _ _ _ l r
  · rintro hsome -
    rw [continueFlush, hs] at hsome ⊢
    rcases hend with hend | hend
    · rw [hend] at hsome
      cases hsome
    · exact hend
  · rintro - hnone
    rw [continueFlush, hs] at hnone
    have hlt := (List.getElem?_eq_some_iff.1 hi).1
    cases hnone (some g) (List.mem_iff_getElem?.2 ⟨i, List.getElem?_set_self hlt⟩)

/-- Every message is accounted for. -/
structure Accounted (s : OutState V C) : Prop where
  conserved : s.workQueue.Conserved
  numbered : s.pushed.map Ticketed.ticket = List.range s.pushed.length
  drained : s.Drained

theorem startFlush_pushed : s.startFlush.pushed = s.pushed := by
  rcases flushOut_eq s with ⟨-, hs⟩ | ⟨f, q, -, -, hs⟩ <;> rw [startFlush, hs]

theorem continueFlush_pushed : (s.continueFlush i).pushed = s.pushed := by
  rcases flushOut_eq s with ⟨-, hs⟩ | ⟨f, q, -, -, hs⟩ <;> rw [continueFlush, hs]

/-- The start of a flush keeps the account of messages that are. -/
theorem accounted_startFlush (hc : s.workQueue.Conserved)
    (hn : s.pushed.map Ticketed.ticket = List.range s.pushed.length) : s.startFlush.Accounted := by
  obtain ⟨hmove, hdrained⟩ := startFlush_spec s
  refine ⟨hmove.conserved hc, ?_, hdrained⟩
  rw [startFlush_pushed]
  exact hn

theorem Accounted.step (hs : s.Accounted) (h : s.step a = some s') : s'.Accounted := by
  cases a with
  | pushOut msg =>
    obtain rfl := Option.some.inj h
    refine accounted_startFlush ((WorkQueue.Move.issue s.workQueue _).conserved hs.conserved) ?_
    show (s.pushed ++ [_]).map Ticketed.ticket = List.range (s.pushed ++ [_]).length
    rw [List.map_append, hs.numbered, List.length_append, List.length_singleton, List.range_succ]
    rfl
  | flush =>
    obtain rfl := Option.some.inj h
    exact accounted_startFlush hs.conserved hs.numbered
  | setSink c =>
    obtain rfl := Option.some.inj h
    exact accounted_startFlush (s := { s with sink := some c }) hs.conserved hs.numbered
  | dropSink =>
    obtain rfl := Option.some.inj h
    exact ⟨hs.conserved, hs.numbered, fun hsome => by cases hsome⟩
  | sent i ok =>
    simp only [OutState.step] at h
    split at h
    · rename_i f hi
      split at h
      · obtain rfl := Option.some.inj h
        obtain ⟨⟨w, h₁, h₂⟩, hdrained⟩ := continueFlush_spec hi
        refine ⟨h₂.conserved (h₁.conserved hs.conserved), ?_, hdrained⟩
        rw [continueFlush_pushed]
        exact hs.numbered
      · obtain rfl := Option.some.inj h
        refine ⟨?_, hs.numbered, fun hsome => by cases hsome⟩
        obtain ⟨l, r, hl, hset⟩ := exists_filterMap_set hi heldBy
        have hback : WorkQueue.Move s.workQueue
            ⟨s.pushed, f.packet.m :: s.outq, l ++ r, s.accepted⟩ := by
          have hwork : s.workQueue = ⟨s.pushed, s.outq, l ++ f.packet.m :: r, s.accepted⟩ := by
            rw [workQueue, held, hl]
            rfl
          rw [hwork]
          exact .putBack _ _ _ _ l r
        have hconserved := hback.conserved hs.conserved
        rw [workQueue, held, hset]
        exact hconserved
    · cases h

theorem accounted_start : Accounted ({} : OutState V C) :=
  ⟨List.Perm.refl _, rfl, fun _ _ => rfl⟩

/-- Each message pushed is in one place. -/
theorem Accounted.count_eq (hs : s.Accounted) {m : Ticketed} (hm : m ∈ s.pushed) :
    s.outq.count m + s.held.count m + s.accepted.count m = 1 := by
  have hnodup : s.pushed.Nodup := by
    apply List.Nodup.of_map Ticketed.ticket
    rw [hs.numbered]
    exact List.nodup_range
  exact hs.conserved.count_eq hnodup hm

theorem Accounted.mem_pushed (hs : s.Accounted) {m : Ticketed}
    (hm : m ∈ s.outq ∨ m ∈ s.held ∨ m ∈ s.accepted) : m ∈ s.pushed := by
  apply List.Perm.subset hs.conserved
  simp only [workQueue, List.mem_append]
  tauto

end Steps

/-- At every moment each message ever pushed is once in the queue, with one flush between its pop
and the result of its send, or accepted by one send that succeeded, and nothing else is; and when no
flush is running and there is a sink, the queue is empty. -/
theorem outq_accounted {as : List OutEvent} {s : OutState V C}
    (hr : run step ({} : OutState V C) as = some s) :
    (∀ m ∈ s.pushed, s.outq.count m + s.held.count m + s.accepted.count m = 1) ∧
      (∀ m, m ∈ s.outq ∨ m ∈ s.held ∨ m ∈ s.accepted → m ∈ s.pushed) ∧
      (s.sink.isSome = true → (∀ f ∈ s.flushes, f = none) → s.outq = []) := by
  have hs : s.Accounted := run_invariant (fun _ _ _ h hstep => Accounted.step h hstep)
    accounted_start hr
  exact ⟨fun m hm => hs.count_eq hm, fun m hm => hs.mem_pushed hm, hs.drained⟩

/-- Two flushes are running when the send of the first fails, and the next sink takes what is
left. -/
def twoFlushes : List OutEvent :=
  [.pushOut default, .setSink 0, .pushOut default, .pushOut default, .sent 1 false, .sent 2 true,
    .setSink 1]

theorem outq_accounted_twoFlushes :
    ∃ s, run step ({} : OutState leb128 sampleCiborium) twoFlushes = some s ∧
      s.accepted = (s.pushed.drop 1).take 1 ∧
      ∀ m ∈ s.pushed, s.outq.count m + s.held.count m + s.accepted.count m = 1 := by
  have hr : run step ({} : OutState leb128 sampleCiborium) twoFlushes = some _ := rfl
  exact ⟨_, hr, by decide, (outq_accounted hr).1⟩

end OutState

end Spot

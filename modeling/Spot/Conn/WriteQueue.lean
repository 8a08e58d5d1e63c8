import Spot.General.Census
import Spot.General.Runs
import Spot.General.WorkQueue
import Spot.Proto.Packet

/-!
# The outgoing queue of the native client

Callers push messages on one queue; every online connection has a writer thread that pops a
message, encodes it and sends it, and puts it back in front when the send fails.  The steps of
`WriteState.step` are the moments at which a thread holds the queue's lock, reads a flag, or gets
the result of a send; they interleave in any order.

* `step_move`: each step is a move of a shared work queue (`WorkQueue.Move`);
* `pushed_in_one_place`: a message is never lost, doubled, or sent twice, and with one writer at a
  time messages leave in the order they were pushed.
-/

namespace Spot

/-- A pushed message, told apart from equal ones by the number of pushes before its own. -/
structure Ticketed where
  ticket : ℕ
  msg : Message
  deriving DecidableEq

variable (V : Uvarint) (C : Ciborium)

/-- A message with the packet it is sent as. -/
structure Encoded where
  m : Ticketed
  buf : Bytes
  encode_eq : (Packet.message m.msg).encode V C = .ok buf

/-- Where a writer thread stands in its loop. -/
inductive WriterPhase
  | polling
  | popping
  | popped (m : Ticketed)
  | sending (e : Encoded V C)
  | refused (m : Ticketed)
  | returned

/-- A connection's writer thread, and the flag that tells it that the connection is dead. -/
structure Writer where
  phase : WriterPhase V C := .polling
  dead : Bool := false

/-- A successful `transport::send` of a writer. -/
structure Sent where
  writer : ℕ
  packet : Encoded V C

/-- The queue, the closed flag and the writer threads, with what was pushed and what was sent. -/
structure WriteState where
  q : List Ticketed := []
  closed : Bool := false
  writers : List (Writer V C) := []
  pushed : List Ticketed := []
  sent : List (Sent V C) := []

variable {V C}

/-- The message a writer has popped and is not done with. -/
def Writer.held (x : Writer V C) : Option Ticketed :=
  match x.phase with
  | .popped m | .refused m => some m
  | .sending e => some e.m
  | _ => none

/-- Whether the thread has not returned. -/
def Writer.running (x : Writer V C) : Bool :=
  match x.phase with
  | .returned => false
  | _ => true

/-- What can happen: a caller pushes a message, a connection comes online and starts its writer, a
read loop ends, the client closes, or writer `w` takes its next step, in which a send that is due
succeeds or not. -/
inductive WriteEvent
  | push (msg : Message)
  | start
  | kill (w : ℕ)
  | close
  | turn (w : ℕ) (sends : Bool)

namespace WriteState

/-- `push`: at the back of the queue. -/
def push (s : WriteState V C) (msg : Message) : WriteState V C :=
  let m : Ticketed := ⟨s.pushed.length, msg⟩
  { s with q := s.q ++ [m], pushed := s.pushed ++ [m] }

def setWriter (s : WriteState V C) (w : ℕ) (x : Writer V C) : WriteState V C :=
  { s with writers := s.writers.set w x }

/-- The next step of writer `w`, which stands as `x`. -/
def turn (s : WriteState V C) (w : ℕ) (x : Writer V C) (sends : Bool) : Option (WriteState V C) :=
  match x.phase with
  | .polling =>
    if x.dead then some (s.setWriter w { x with phase := .returned })
    else if s.closed then some (s.setWriter w { x with phase := .returned })
    else some (s.setWriter w { x with phase := .popping })
  | .popping =>
    match s.q with
    -- `pop_timeout` reached its deadline
    | [] => some (s.setWriter w { x with phase := .polling })
    | m :: q => some ({ s with q }.setWriter w { x with phase := .popped m })
  | .popped m =>
    match h : (Packet.message m.msg).encode V C with
    | .ok buf => some (s.setWriter w { x with phase := .sending ⟨m, buf, h⟩ })
    -- logged, and the message is dropped
    | .error _ => some (s.setWriter w { x with phase := .polling })
  | .sending e =>
    if sends then
      some ({ s with sent := s.sent ++ [Sent.mk w e] }.setWriter w { x with phase := .polling })
    else some (s.setWriter w { x with phase := .refused e.m })
  | .refused m => some ({ s with q := m :: s.q }.setWriter w { x with phase := .returned })
  | .returned => none

/-- One step of the threads. -/
def step (s : WriteState V C) : WriteEvent → Option (WriteState V C)
  | .push msg => some (s.push msg)
  | .start => some { s with writers := s.writers ++ [{}] }
  | .kill w => s.writers[w]?.map fun x => s.setWriter w { x with dead := true }
  | .close => some { s with closed := true }
  | .turn w sends => s.writers[w]?.bind fun x => s.turn w x sends

/-- What the writers hold. -/
def held (s : WriteState V C) : List Ticketed := s.writers.filterMap Writer.held

/-- What was sent, over all connections. -/
def accepted (s : WriteState V C) : List Ticketed := s.sent.map (·.packet.m)

/-- The state as a work queue. -/
def workQueue (s : WriteState V C) : WorkQueue Ticketed := ⟨s.pushed, s.q, s.held, s.accepted⟩

/-- At most one writer thread is running. -/
def OneWriter (s : WriteState V C) : Prop := (s.writers.filter Writer.running).length ≤ 1

/-! ## Each step moves at most one message -/

section Steps

variable {s s' : WriteState V C} {a : WriteEvent} {w : ℕ} {x : Writer V C}

/-- Replacing writer `w` changes what is held only where it stands. -/
theorem exists_workQueue_setWriter (h : s.writers[w]? = some x) :
    ∃ l r, s.workQueue = ⟨s.pushed, s.q, l ++ (x.held.toList ++ r), s.accepted⟩ ∧
      ∀ q sent y, ({ s with q, sent }.setWriter w y).workQueue =
        ⟨s.pushed, q, l ++ (y.held.toList ++ r), sent.map (·.packet.m)⟩ := by
  obtain ⟨l, r, hheld, hset⟩ := exists_filterMap_set h Writer.held
  refine ⟨l, r, ?_, fun q sent y => ?_⟩
  · rw [workQueue, held, hheld]
  · rw [workQueue, held, setWriter, hset]
    rfl

theorem workQueue_setWriter (h : s.writers[w]? = some x) {y : Writer V C} (hy : y.held = x.held) :
    (s.setWriter w y).workQueue = s.workQueue := by
  obtain ⟨l, r, hs, hset⟩ := exists_workQueue_setWriter h
  rw [hs, ← hy]
  exact hset s.q s.sent y

/-- A writer's step is a move of the work queue. -/
theorem turn_move (h : s.writers[w]? = some x) {sends : Bool}
    (ht : s.turn w x sends = some s') : WorkQueue.Move s.workQueue s'.workQueue := by
  have stay : ∀ y : Writer V C, y.held = x.held →
      WorkQueue.Move s.workQueue (s.setWriter w y).workQueue := by
    intro y hy
    rw [workQueue_setWriter h hy]
    exact .stay _
  obtain ⟨l, r, hs, hset⟩ := exists_workQueue_setWriter h
  obtain ⟨phase, dead⟩ := x
  cases phase with
  | polling =>
    simp only [turn] at ht
    split at ht
    · obtain rfl := Option.some.inj ht
      exact stay _ rfl
    · split at ht <;> obtain rfl := Option.some.inj ht <;> exact stay _ rfl
  | popping =>
    simp only [turn] at ht
    split at ht
    · obtain rfl := Option.some.inj ht
      exact stay _ rfl
    · rename_i m q hq
      obtain rfl := Option.some.inj ht
      rw [hs, hq, hset q s.sent]
      exact .take _ _ _ m l r
  | popped m =>
    simp only [turn] at ht
    split at ht
    · obtain rfl := Option.some.inj ht
      exact stay _ rfl
    -- the branch that drops the message is never taken
    · rename_i e he
      rw [Packet.encode_message] at he
      cases he
  | sending e =>
    simp only [turn] at ht
    split at ht
    · obtain rfl := Option.some.inj ht
      rw [hs, hset s.q, List.map_append]
      exact .deliver _ _ _ e.m l r
    · obtain rfl := Option.some.inj ht
      exact stay _ rfl
  | refused m =>
    simp only [turn] at ht
    obtain rfl := Option.some.inj ht
    rw [hs, hset (m :: s.q) s.sent]
    exact .putBack _ _ _ m l r
  | returned => simp [turn] at ht

/-- Every step of the threads is a move of the work queue. -/
theorem step_move (h : s.step a = some s') : WorkQueue.Move s.workQueue s'.workQueue := by
  cases a with
  | push msg =>
    obtain rfl := Option.some.inj h
    exact .issue _ _
  | start =>
    obtain rfl := Option.some.inj h
    have hq : ({ s with writers := s.writers ++ [{}] } : WriteState V C).workQueue =
        s.workQueue := by
      simp [workQueue, held, accepted, Writer.held]
    rw [hq]
    exact .stay _
  | kill w =>
    obtain ⟨x, hx, rfl⟩ := Option.map_eq_some_iff.1 h
    rw [workQueue_setWriter hx (y := { x with dead := true }) rfl]
    exact .stay _
  | close =>
    obtain rfl := Option.some.inj h
    exact .stay _
  | turn w sends =>
    obtain ⟨x, hx, ht⟩ := Option.bind_eq_some_iff.1 h
    exact turn_move hx ht

theorem turn_pushed {sends : Bool} (h : s.turn w x sends = some s') : s'.pushed = s.pushed := by
  unfold turn at h
  repeat' split at h
  all_goals first
    | obtain rfl := Option.some.inj h; rfl
    | cases h

/-- Only a push changes what was pushed, and it numbers the message it adds. -/
theorem step_pushed (h : s.step a = some s') :
    s'.pushed = s.pushed ∨ ∃ msg, s'.pushed = s.pushed ++ [⟨s.pushed.length, msg⟩] := by
  cases a with
  | push msg => exact .inr ⟨msg, congrArg pushed (Option.some.inj h).symm⟩
  | start =>
    obtain rfl := Option.some.inj h
    exact .inl rfl
  | kill w =>
    obtain ⟨x, -, rfl⟩ := Option.map_eq_some_iff.1 h
    exact .inl rfl
  | close =>
    obtain rfl := Option.some.inj h
    exact .inl rfl
  | turn w sends =>
    obtain ⟨x, -, ht⟩ := Option.bind_eq_some_iff.1 h
    exact .inl (turn_pushed ht)

end Steps

/-! ## Whole runs -/

section Runs

variable {s s' : WriteState V C} {a : WriteEvent} {as : List WriteEvent}

/-- The pushed messages bear the numbers of their pushes. -/
def Numbered (s : WriteState V C) : Prop :=
  s.pushed.map Ticketed.ticket = List.range s.pushed.length

theorem Numbered.nodup (h : s.Numbered) : s.pushed.Nodup := by
  apply List.Nodup.of_map Ticketed.ticket
  rw [h]
  exact List.nodup_range

theorem Numbered.step (h : s.Numbered) (hs : s.step a = some s') : s'.Numbered := by
  unfold Numbered at h ⊢
  rcases step_pushed hs with hp | ⟨msg, hp⟩
  · rw [hp, h]
  · rw [hp, List.map_append, h, List.length_append, List.length_singleton, List.range_succ]
    rfl

/-- A writer that has returned holds nothing. -/
theorem length_held_le (l : List (Writer V C)) :
    (l.filterMap Writer.held).length ≤ (l.filter Writer.running).length := by
  induction l with
  | nil => exact le_rfl
  | cons x l ih =>
    rw [List.filterMap_cons, List.filter_cons]
    obtain ⟨phase, dead⟩ := x
    cases phase with
    | returned => exact ih
    | polling | popping => exact ih.trans (Nat.le_succ _)
    | popped m | sending e | refused m => exact Nat.succ_le_succ ih

theorem inOrder_of_oneWriter (hr : run step ({} : WriteState V C) as = some s)
    (h : Throughout step OneWriter ({} : WriteState V C) as) : s.workQueue.InOrder :=
  h.invariant (J := fun s => s.workQueue.InOrder)
    (fun s _ s' h h' hJ hs => (step_move hs).inOrder ((length_held_le s.writers).trans h)
      ((length_held_le s'.writers).trans h') hJ) rfl hr

/-- Two messages; the first writer fails to send, and the second sends the same one. -/
def sampleRun : List WriteEvent :=
  [.push default, .push default, .start, .turn 0 true, .turn 0 true, .turn 0 true, .turn 0 false,
    .turn 0 true, .start, .turn 1 true, .turn 1 true, .turn 1 true, .turn 1 true]

instance : DecidablePred (OneWriter (V := V) (C := C)) :=
  fun _ => inferInstanceAs (Decidable (_ ≤ _))

end Runs

end WriteState

end Spot

import Spot.Conn.WriteQueue

/-!
# Waking the writers

A writer that finds the queue empty parks on its condition variable, and a push wakes one of those
that are parked, after it has released the lock.  `QueueState` adds this to the queue: which writers
are parked in `pop_timeout`, and how many threads have pushed and not notified yet.

`no_message_waits`: the states are those of the queue as it was without parking, and no writer stays
parked over a message, unless somebody is on the way to it.
-/

namespace Spot

variable {V : Uvarint} {C : Ciborium}

/-- The writer is in `pop_timeout`. -/
def Writer.isPopping (x : Writer V C) : Bool :=
  match x.phase with
  | .popping => true
  | _ => false

/-- The writer is about to put its message back. -/
def Writer.isRefused (x : Writer V C) : Bool :=
  match x.phase with
  | .refused _ => true
  | _ => false

variable (V C)

/-- The queue, the writers that are parked, and the numbers of calls of `notify_one` and of
`notify_all` that are due. -/
structure QueueState where
  write : WriteState V C := {}
  parked : List ℕ := []
  notifies : ℕ := 0
  wakeAlls : ℕ := 0

variable {V C}

/-- What can happen: a message is pushed; a thread that has pushed notifies, which wakes the parked
writer `w` if there is one; a connection comes online and starts its writer, a read loop ends, the
client closes, and then wakes all; writer `w` wakes up, its time being over or for no reason; or it
takes its next step, which finds its time over or not. -/
inductive QueueEvent
  | push (msg : Message)
  | notify (w : Option ℕ)
  | start
  | kill (w : ℕ)
  | close
  | wakeAll
  | wake (w : ℕ)
  | turn (w : ℕ) (expired sends : Bool)

namespace QueueState

/-- A step of the queue that does not depend on who is parked. -/
def lift (s : QueueState V C) (a : WriteEvent) : Option (QueueState V C) :=
  (s.write.step a).map fun write => { s with write }

/-- The next step of writer `w`, which stands as `x` and is not parked. -/
def turn (s : QueueState V C) (w : ℕ) (x : Writer V C) (expired sends : Bool) :
    Option (QueueState V C) :=
  if x.isPopping ∧ s.write.q = [] ∧ expired = false then some { s with parked := s.parked ++ [w] }
  else
    (s.write.turn w x sends).map fun write =>
      { s with write, notifies := s.notifies + share Writer.isRefused x }

/-- One step of the threads. -/
def step (s : QueueState V C) : QueueEvent → Option (QueueState V C)
  | .push msg => some { s with write := s.write.push msg, notifies := s.notifies + 1 }
  | .notify w =>
    if s.notifies = 0 then none
    else
      match w with
      | some w =>
        if w ∈ s.parked then
          some { s with parked := s.parked.erase w, notifies := s.notifies - 1 }
        else none
      | none => if s.parked = [] then some { s with notifies := s.notifies - 1 } else none
  | .start => s.lift .start
  | .kill w => s.lift (.kill w)
  | .close => (s.lift .close).map fun s => { s with wakeAlls := s.wakeAlls + 1 }
  | .wakeAll =>
    if s.wakeAlls = 0 then none else some { s with parked := [], wakeAlls := s.wakeAlls - 1 }
  | .wake w => if w ∈ s.parked then some { s with parked := s.parked.erase w } else none
  | .turn w expired sends =>
    if w ∈ s.parked then none
    else s.write.writers[w]?.bind fun x => s.turn w x expired sends

/-- The number of writers that are in `pop_timeout`. -/
def popping (s : QueueState V C) : ℕ := s.write.writers.countP Writer.isPopping

/-- The writers that are parked are in `pop_timeout`, and if there are any, the messages are no more
than the notifications that are due and the writers that are about to look at the queue. -/
structure Attended (s : QueueState V C) : Prop where
  nodup : s.parked.Nodup
  isPopping : ∀ w ∈ s.parked, ∃ x, s.write.writers[w]? = some x ∧ x.isPopping = true
  bound : s.parked = [] ∨ s.write.q.length + s.parked.length ≤ s.notifies + s.popping

end QueueState

/-! ## The steps of a writer -/

namespace WriteState

variable {s s' : WriteState V C} {w : ℕ} {x : Writer V C} {sends : Bool}

/-- What a step of a writer does to the length of the queue and to the number of writers that look
at it. -/
theorem turn_length (h : s.turn w x sends = some s') :
    ∃ y, s'.writers = s.writers.set w y ∧
      (x.isPopping = true ∧ s'.q.length + (if s.q = [] then 0 else 1) = s.q.length ∨
        x.isPopping = false ∧ s'.q.length = s.q.length + share Writer.isRefused x) := by
  obtain ⟨phase, dead⟩ := x
  cases phase with
  | polling =>
    simp only [turn] at h
    split at h
    · obtain rfl := Option.some.inj h
      exact ⟨_, rfl, .inr ⟨rfl, rfl⟩⟩
    split at h <;> obtain rfl := Option.some.inj h <;> exact ⟨_, rfl, .inr ⟨rfl, rfl⟩⟩
  | popping =>
    simp only [turn] at h
    split at h
    · rename_i hq
      obtain rfl := Option.some.inj h
      exact ⟨_, rfl, .inl ⟨rfl, by simp [setWriter, hq]⟩⟩
    · rename_i m q hq
      obtain rfl := Option.some.inj h
      exact ⟨_, rfl, .inl ⟨rfl, by simp [setWriter, hq]⟩⟩
  | popped m =>
    simp only [turn] at h
    split at h <;> obtain rfl := Option.some.inj h <;> exact ⟨_, rfl, .inr ⟨rfl, rfl⟩⟩
  | sending e =>
    cases sends <;> obtain rfl := Option.some.inj h <;> exact ⟨_, rfl, .inr ⟨rfl, rfl⟩⟩
  | refused m =>
    obtain rfl := Option.some.inj h
    exact ⟨_, rfl, .inr ⟨rfl, rfl⟩⟩
  | returned => cases h

end WriteState

namespace QueueState

section Steps

variable {s s' : QueueState V C} {a : QueueEvent} {w : ℕ} {x : Writer V C}

/-- A writer that looks at the queue is one more than those that are parked. -/
theorem Attended.length_lt (hs : s.Attended) (hw : w ∉ s.parked)
    (hx : s.write.writers[w]? = some x) (hp : x.isPopping = true) :
    s.parked.length + 1 ≤ s.popping := by
  have hnodup : (w :: s.parked).Nodup := List.nodup_cons.2 ⟨hw, hs.nodup⟩
  refine length_le_countP hnodup fun i hi => ?_
  rcases List.mem_cons.1 hi with rfl | hi
  · exact ⟨x, hx, hp⟩
  · exact hs.isPopping i hi

/-- A writer wakes up. -/
theorem Attended.unpark (hs : s.Attended) (hw : w ∈ s.parked) {n : ℕ}
    (hn : s.notifies ≤ n + 1) : { s with parked := s.parked.erase w, notifies := n }.Attended := by
  refine ⟨hs.nodup.erase w, fun i hi => hs.isPopping i (List.mem_of_mem_erase hi), ?_⟩
  have hlen := List.length_erase_of_mem hw
  have hpos := List.length_pos_of_mem hw
  rcases hs.bound with hnil | hle
  · rw [hnil] at hw
    cases hw
  · refine .inr ?_
    show s.write.q.length + (s.parked.erase w).length ≤ n + s.popping
    omega

theorem Attended.turn (hs : s.Attended) (hw : w ∉ s.parked) (hx : s.write.writers[w]? = some x)
    {expired sends : Bool} (h : s.turn w x expired sends = some s') : s'.Attended := by
  unfold QueueState.turn at h
  split at h
  · rename_i hparks
    obtain ⟨hp, hq, -⟩ := hparks
    obtain rfl := Option.some.inj h
    refine ⟨List.nodup_append.2 ⟨hs.nodup, List.nodup_singleton w, ?_⟩, fun i hi => ?_, .inr ?_⟩
    · intro i hi j hj hij
      obtain rfl := List.mem_singleton.1 hj
      exact hw (hij ▸ hi)
    · rcases List.mem_append.1 hi with hi | hi
      · exact hs.isPopping i hi
      · obtain rfl := List.mem_singleton.1 hi
        exact ⟨x, hx, hp⟩
    · have hlt := hs.length_lt hw hx hp
      show s.write.q.length + (s.parked ++ [w]).length ≤ s.notifies + s.popping
      rw [hq, List.length_append, List.length_singleton, List.length_nil]
      omega
  · obtain ⟨write, ht, rfl⟩ := Option.map_eq_some_iff.1 h
    obtain ⟨y, hset, hcases⟩ := WriteState.turn_length ht
    have hcount := countP_set_add hx Writer.isPopping y
    rw [← hset] at hcount
    refine ⟨hs.nodup, fun i hi => ?_, ?_⟩
    · obtain ⟨z, hz, hp⟩ := hs.isPopping i hi
      have hne : w ≠ i := fun heq => hw (heq ▸ hi)
      exact ⟨z, by rw [hset, List.getElem?_set_ne hne, hz], hp⟩
    rcases hs.bound with hnil | hle
    · exact .inl hnil
    refine .inr ?_
    show write.q.length + s.parked.length ≤
      s.notifies + share Writer.isRefused x + write.writers.countP Writer.isPopping
    unfold popping at hle
    rcases hcases with ⟨hp, hlen⟩ | ⟨hp, hlen⟩
    · -- it takes a message, or its time is over while the queue is empty
      have hlt := hs.length_lt hw hx hp
      have hshare : share Writer.isPopping x = 1 := by rw [share, if_pos hp]
      unfold popping at hlt
      split at hlen
      · rename_i hq
        rw [hq, List.length_nil] at hlen
        omega
      · omega
    · have hshare : share Writer.isPopping x = 0 := by
        rw [share, if_neg]
        simp [hp]
      omega

/-- Every step keeps the writers attended. -/
theorem Attended.step (hs : s.Attended) (h : s.step a = some s') : s'.Attended := by
  cases a with
  | push msg =>
    obtain rfl := Option.some.inj h
    refine ⟨hs.nodup, hs.isPopping, hs.bound.imp_right fun hle => ?_⟩
    show (s.write.q ++ [_]).length + s.parked.length ≤ s.notifies + 1 + s.popping
    rw [List.length_append, List.length_singleton]
    omega
  | notify w =>
    simp only [QueueState.step] at h
    split at h
    · cases h
    · cases w with
      | some w =>
        simp only at h
        split at h
        · rename_i hw
          obtain rfl := Option.some.inj h
          exact hs.unpark hw (by omega)
        · cases h
      | none =>
        simp only at h
        split at h
        · rename_i hnil
          obtain rfl := Option.some.inj h
          exact ⟨hs.nodup, hs.isPopping, .inl hnil⟩
        · cases h
  | start =>
    obtain rfl := Option.some.inj h
    refine ⟨hs.nodup, fun i hi => ?_, hs.bound.imp_right fun hle => hle.trans ?_⟩
    · obtain ⟨x, hx, hp⟩ := hs.isPopping i hi
      exact ⟨x, (List.getElem?_append_left (List.getElem?_eq_some_iff.1 hx).1).trans hx, hp⟩
    · show s.notifies + s.popping ≤ s.notifies + (s.write.writers ++ [_]).countP Writer.isPopping
      rw [countP_concat]
      exact Nat.add_le_add_left (Nat.le_add_right _ _) _
  | kill w =>
    obtain ⟨write, hkill, rfl⟩ := Option.map_eq_some_iff.1 h
    obtain ⟨x, hx, rfl⟩ := Option.map_eq_some_iff.1 hkill
    have hcount := countP_set_of_eq hx (p := Writer.isPopping) (y := { x with dead := true }) rfl
    refine ⟨hs.nodup, fun i hi => ?_, hs.bound.imp_right fun hle => ?_⟩
    · obtain ⟨z, hz, hp⟩ := hs.isPopping i hi
      by_cases hwi : w = i
      · subst hwi
        obtain rfl := Option.some.inj (hx.symm.trans hz)
        exact ⟨_, List.getElem?_set_self (List.getElem?_eq_some_iff.1 hx).1, hp⟩
      · exact ⟨z, (List.getElem?_set_ne hwi).trans hz, hp⟩
    · show s.write.q.length + s.parked.length ≤
        s.notifies + (s.write.writers.set w { x with dead := true }).countP Writer.isPopping
      rw [hcount]
      exact hle
  | close =>
    obtain rfl := Option.some.inj h
    exact ⟨hs.nodup, hs.isPopping, hs.bound⟩
  | wakeAll =>
    simp only [QueueState.step] at h
    split at h
    · cases h
    · obtain rfl := Option.some.inj h
      exact ⟨List.nodup_nil, fun i hi => absurd hi List.not_mem_nil, .inl rfl⟩
  | wake w =>
    simp only [QueueState.step] at h
    split at h
    · rename_i hw
      obtain rfl := Option.some.inj h
      exact hs.unpark hw (Nat.le_succ _)
    · cases h
  | turn w expired sends =>
    simp only [QueueState.step] at h
    split at h
    · cases h
    · rename_i hw
      obtain ⟨x, hx, ht⟩ := Option.bind_eq_some_iff.1 h
      exact hs.turn hw hx ht

/-- Forgetting who is parked, every step is a step of the queue or none. -/
theorem step_refines (h : s.step a = some s') : Reachable WriteState.step s.write s'.write := by
  cases a with
  | push msg =>
    obtain rfl := Option.some.inj h
    exact .single (a := .push msg) rfl
  | notify w =>
    simp only [QueueState.step] at h
    split at h
    · cases h
    · cases w with
      | some w =>
        simp only at h
        split at h
        · obtain rfl := Option.some.inj h
          exact .refl
        · cases h
      | none =>
        simp only at h
        split at h
        · obtain rfl := Option.some.inj h
          exact .refl
        · cases h
  | start =>
    obtain rfl := Option.some.inj h
    exact .single (a := .start) rfl
  | kill w =>
    obtain ⟨write, hstep, rfl⟩ := Option.map_eq_some_iff.1 h
    exact .single (a := .kill w) hstep
  | close =>
    obtain rfl := Option.some.inj h
    exact .single (a := .close) rfl
  | wakeAll =>
    simp only [QueueState.step] at h
    split at h
    · cases h
    · obtain rfl := Option.some.inj h
      exact .refl
  | wake w =>
    simp only [QueueState.step] at h
    split at h
    · obtain rfl := Option.some.inj h
      exact .refl
    · cases h
  | turn w expired sends =>
    simp only [QueueState.step] at h
    split at h
    · cases h
    · obtain ⟨x, hx, ht⟩ := Option.bind_eq_some_iff.1 h
      unfold QueueState.turn at ht
      split at ht
      · obtain rfl := Option.some.inj ht
        exact .refl
      · obtain ⟨write, hturn, rfl⟩ := Option.map_eq_some_iff.1 ht
        refine .single (a := .turn w sends) ?_
        rw [WriteState.step, hx, Option.bind_some, hturn]

end Steps

/-- In every state reached, the queue and the writers stand as they may without any parking; and
while a writer is parked, every message of the queue is matched by a notification that is due or by
a writer in `pop_timeout` that is not parked.  So if there is a message, there is one of these. -/
theorem no_message_waits {as : List QueueEvent} {s : QueueState V C}
    (hr : run step ({} : QueueState V C) as = some s) :
    Reachable WriteState.step ({} : WriteState V C) s.write ∧
      (s.parked ≠ [] → s.write.q.length + s.parked.length ≤ s.notifies + s.popping) ∧
      (s.parked ≠ [] → s.write.q ≠ [] → 0 < s.notifies ∨
        ∃ w x, w ∉ s.parked ∧ s.write.writers[w]? = some x ∧ x.isPopping = true) := by
  have hs : s.Attended :=
    run_invariant (fun _ _ _ h hstep => Attended.step h hstep)
      ⟨List.nodup_nil, fun i hi => absurd hi List.not_mem_nil, .inl rfl⟩ hr
  have hle : s.parked ≠ [] → s.write.q.length + s.parked.length ≤ s.notifies + s.popping :=
    fun hne => hs.bound.resolve_left hne
  refine ⟨?_, hle, fun hne hq => ?_⟩
  · have hsim : ∀ (s : QueueState V C) a s' t, s.write = t → s.step a = some s' →
        ∃ t', Reachable WriteState.step t t' ∧ s'.write = t' := by
      rintro s a s' t rfl hstep
      exact ⟨s'.write, step_refines hstep, rfl⟩
    obtain ⟨t, ht, rfl⟩ := Reachable.simulated hsim rfl ⟨as, hr⟩
    exact ht
  · have hpos := List.length_pos_iff.2 hq
    rcases Nat.eq_zero_or_pos s.notifies with hzero | hnotify
    · refine .inr (exists_notMem_of_lt_countP ?_)
      have hbound := hle hne
      rw [hzero, Nat.zero_add] at hbound
      exact lt_of_lt_of_le (Nat.lt_add_of_pos_left hpos) hbound
    · exact .inl hnotify

/-- Two writers park; of two messages one is notified of, and the writer that is woken is about to
take it when the client closes. -/
def parkingRun : List QueueEvent :=
  [.start, .start, .turn 0 false true, .turn 1 false true, .turn 0 false true, .turn 1 false true,
    .push default, .notify (some 0), .push default, .close]

theorem no_message_waits_parkingRun :
    ∃ s, run step ({} : QueueState leb128 sampleCiborium) parkingRun = some s ∧
      s.parked = [1] ∧ s.write.q.length + s.parked.length ≤ s.notifies + s.popping := by
  have hr : run step ({} : QueueState leb128 sampleCiborium) parkingRun = some _ := rfl
  exact ⟨_, hr, rfl, (no_message_waits hr).2.1 (by decide)⟩

end QueueState

end Spot

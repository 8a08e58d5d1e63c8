import Spot.Conn.WaitOnline

/-!
# Waiting to be online in the browser

In the browser `wait_online` is a task.  It tests the count and the flag, and if it has to wait it
leaves the send half of a oneshot channel in `online_waiters` and awaits the other half, or its
deadline; whatever changes the count, the threshold or the flag empties that list and fires all it
finds there.  A task is not interrupted between two awaits, so nothing comes between the tests and
the registration: `wait_online_wasm` says that no waiter is ever lost, as one can be on native.
-/

namespace Spot

/-- Where a call of `wait_online` stands: awaiting the oneshot it registered last, which is the
`waker`-th of the client and has been fired or not, or back with its result. -/
inductive WaitTask
  | awaiting (waker : ℕ) (fired : Bool)
  | returned (r : Result Unit)

/-- What the waiters read, the send halves that wait to be fired, the number of those ever made, and
the calls of `wait_online`. -/
structure WaitState where
  shared : SharedCount := {}
  onlineWaiters : List ℕ := []
  made : ℕ := 0
  tasks : List WaitTask := []

/-- What can happen: a call of `wait_online`, whose deadline may be over at once; call `i` goes on,
its oneshot being fired or its time over, and finds its deadline passed or not; a connection comes
online or goes offline; a threshold is stored; the client closes. -/
inductive WaitEvent
  | call (expired : Bool)
  | resume (i : ℕ) (expired : Bool)
  | incr
  | decr
  | storeMinConn (minConn : UInt32)
  | close

namespace WaitTask

/-- The task awaits a oneshot that has not been fired. -/
def Asleep : WaitTask → Prop
  | awaiting _ fired => fired = false
  | returned _ => False

/-- The oneshot is fired, if the task awaits it. -/
def fire (wakers : List ℕ) : WaitTask → WaitTask
  | awaiting waker fired => awaiting waker (fired || wakers.contains waker)
  | returned r => returned r

end WaitTask

namespace WaitState

/-- One round of the loop of `wait_online`: the result, or nothing if it has to wait. -/
def poll (s : WaitState) (expired : Bool) : Option (Result Unit) :=
  if s.shared.isOnline then some (.ok ())
  else if s.shared.closed then some (.error .closed)
  else if expired then some (.error .timeout)
  else none

/-- The round, with the registration of a new oneshot when the task has to wait. -/
def round (s : WaitState) (expired : Bool) : WaitState × WaitTask :=
  match s.poll expired with
  | some r => (s, .returned r)
  | none =>
    ({ s with onlineWaiters := s.onlineWaiters ++ [s.made], made := s.made + 1 },
      .awaiting s.made false)

/-- Fires all oneshots that are registered. -/
def wakeOnlineWaiters (s : WaitState) : WaitState :=
  { s with onlineWaiters := [], tasks := s.tasks.map (WaitTask.fire s.onlineWaiters) }

/-- One step of the event loop. -/
def step (s : WaitState) : WaitEvent → Option WaitState
  | .call expired =>
    let r := s.round expired
    some { r.1 with tasks := s.tasks ++ [r.2] }
  | .resume i expired =>
    match s.tasks[i]? with
    | some (.awaiting _ _) =>
      let r := s.round expired
      some { r.1 with tasks := s.tasks.set i r.2 }
    | _ => none
  | .incr => some { s with shared := s.shared.incr }.wakeOnlineWaiters
  | .decr => some { s with shared := s.shared.decr }.wakeOnlineWaiters
  | .storeMinConn minConn =>
    some { s with shared := s.shared.storeMinConn minConn }.wakeOnlineWaiters
  | .close => some { s with shared := s.shared.close }.wakeOnlineWaiters

/-- A task is asleep although the client is online or closed. -/
def Lost (s : WaitState) : Prop :=
  (∃ x ∈ s.tasks, x.Asleep) ∧ (s.shared.isOnline = true ∨ s.shared.closed = true)

/-- A task that is asleep has its oneshot in the list, and there is nothing it should have been
woken for. -/
def Attended (s : WaitState) (x : WaitTask) : Prop :=
  ∀ waker, x = .awaiting waker false →
    waker ∈ s.onlineWaiters ∧ s.shared.isOnline = false ∧ s.shared.closed = false

section Steps

variable {s s' : WaitState} {a : WaitEvent} {x : WaitTask}

/-- A round registers a oneshot only when there is nothing to return for. -/
theorem round_cases (s : WaitState) (expired : Bool) :
    (∃ r, s.round expired = (s, .returned r)) ∨
      s.shared.isOnline = false ∧ s.shared.closed = false ∧ s.round expired =
        ({ s with onlineWaiters := s.onlineWaiters ++ [s.made], made := s.made + 1 },
          .awaiting s.made false) := by
  unfold round
  cases hp : s.poll expired with
  | some r => exact .inl ⟨r, rfl⟩
  | none =>
    unfold poll at hp
    split_ifs at hp with honline hclosed hexpired
    exact .inr ⟨by simpa using honline, by simpa using hclosed, rfl⟩

/-- A round leaves the tasks attended that were, and what it makes of its own task is too. -/
theorem attended_round (s : WaitState) (expired : Bool) (tasks : List WaitTask) :
    (∀ x, s.Attended x → { (s.round expired).1 with tasks }.Attended x) ∧
      { (s.round expired).1 with tasks }.Attended (s.round expired).2 := by
  rcases round_cases s expired with ⟨r, hr⟩ | ⟨honline, hclosed, hr⟩ <;> rw [hr]
  · exact ⟨fun x hx => hx, fun waker h => by cases h⟩
  · refine ⟨fun x hx waker h => ?_, fun waker h => ?_⟩
    · obtain ⟨hmem, hcond⟩ := hx waker h
      exact ⟨List.mem_append_left _ hmem, hcond⟩
    · obtain ⟨rfl, -⟩ := WaitTask.awaiting.inj h
      exact ⟨List.mem_append_right _ List.mem_cons_self, honline, hclosed⟩

/-- Once all oneshots are fired, no task that was attended is asleep. -/
theorem attended_wake (hs : ∀ x ∈ s.tasks, s.Attended x) (shared : SharedCount) :
    ∀ x ∈ ({ s with shared }.wakeOnlineWaiters).tasks,
      ({ s with shared }.wakeOnlineWaiters).Attended x := by
  intro x hx waker h
  obtain ⟨y, hy, rfl⟩ := List.mem_map.1 hx
  cases y with
  | returned r => cases h
  | awaiting waker' fired =>
    obtain ⟨rfl, hfired⟩ := WaitTask.awaiting.inj h
    obtain ⟨hno, hmiss⟩ := Bool.or_eq_false_iff.1 hfired
    obtain ⟨hmem, -⟩ := hs _ hy waker' (by rw [hno])
    rw [List.contains_iff_mem.2 hmem] at hmiss
    cases hmiss

theorem attended_step (hs : ∀ x ∈ s.tasks, s.Attended x) (h : s.step a = some s') :
    ∀ x ∈ s'.tasks, s'.Attended x := by
  cases a with
  | call expired =>
    obtain rfl := Option.some.inj h
    obtain ⟨hold, hnew⟩ := attended_round s expired (s.tasks ++ [(s.round expired).2])
    intro x hx
    rcases List.mem_append.1 hx with hx | hx
    · exact hold x (hs x hx)
    · obtain rfl := List.mem_singleton.1 hx
      exact hnew
  | resume i expired =>
    simp only [step] at h
    split at h
    · obtain rfl := Option.some.inj h
      obtain ⟨hold, hnew⟩ := attended_round s expired (s.tasks.set i (s.round expired).2)
      intro x hx
      rcases List.mem_or_eq_of_mem_set hx with hx | rfl
      · exact hold x (hs x hx)
      · exact hnew
    · cases h
  | incr | decr | storeMinConn minConn | close =>
    obtain rfl := Option.some.inj h
    exact attended_wake hs _

end Steps

/-- In every state of every run, no call of `wait_online` is asleep while the client is online or
closed. -/
theorem wait_online_wasm {as : List WaitEvent} {s : WaitState} (hr : run step {} as = some s) :
    ¬ s.Lost := by
  have hs : ∀ x ∈ s.tasks, s.Attended x :=
    run_invariant (I := fun s => ∀ x ∈ s.tasks, s.Attended x)
      (fun _ _ _ hs h => attended_step hs h) (fun _ h => absurd h List.not_mem_nil) hr
  rintro ⟨⟨x, hx, hasleep⟩, hcond⟩
  cases x with
  | returned r => exact hasleep
  | awaiting waker fired =>
    obtain rfl : fired = false := hasleep
    obtain ⟨-, honline, hclosed⟩ := hs _ hx waker rfl
    rcases hcond with h | h
    · rw [honline] at h
      cases h
    · rw [hclosed] at h
      cases h

/-- Two calls wait; a connection comes online, and the first is resumed before the client closes. -/
def wasmWaitRun : List WaitEvent :=
  [.call false, .call false, .incr, .resume 0 false, .decr, .resume 1 false, .close]

theorem wait_online_wasm_run :
    ∃ s, run step {} wasmWaitRun = some s ∧ s.tasks = [.returned (.ok ()), .awaiting 2 true] ∧
      ¬ s.Lost := by
  have hr : run step {} wasmWaitRun = some _ := rfl
  exact ⟨_, hr, rfl, wait_online_wasm hr⟩

end WaitState

end Spot

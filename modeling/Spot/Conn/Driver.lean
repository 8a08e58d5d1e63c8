import Spot.Conn.Closing
import Spot.Conn.Session

/-!
# The connection threads with their sessions

A connection thread of a native client runs `handle` between two attempts, and with it a read loop
and a writer thread.  `Driver.step` puts together the steps of the threads (`Lifecycle.step`) and
those of the sessions (`SessionState.step`): a thread comes online as its session begins, and goes
on only when its session is left.

* `projects`: what the driver does, the threads and the sessions do each for themselves, so that all
  that holds of them holds here;
* `Matched.step`: each thread that is online runs one session, and the others run none;
* `close_releases`: after `close` all threads stop, those of the sessions included.
-/

namespace Spot

variable {V : Uvarint} {C : Ciborium}

/-- A step in which the connection thread takes part, or the whole client. -/
def SessionEvent.joint : SessionEvent → Bool
  | .incr | .start _ | .leave _ | .close => true
  | _ => false

/-- The thread has completed its handshake and is about to call `online_incr`, when `ok`. -/
def ConnThread.enters (x : ConnThread) (ok : Bool) : Bool :=
  match x.phase with
  | .handshaking _ => ok
  | _ => false

/-- Whether a connection is still counted, for all of them. -/
abbrev OnlineState.counted (s : OnlineState V C) : List Bool :=
  s.readers.map fun p => decide (p ≠ .left)

theorem ConnThread.phase_ne_finished {x : ConnThread} (h : x.isOnline = true) :
    x.phase ≠ .finished := by
  obtain ⟨host, phase⟩ := x
  cases phase with
  | online fails => exact ThreadPhase.noConfusion
  | _ => cases h

variable (V C)

/-- The threads and the sessions, with the threads that have called `online_incr` and not started
their writer yet, and for each session the thread that runs it until it returns from `handle`. -/
structure Driver where
  life : Lifecycle := {}
  session : SessionState V C := {}
  starting : List ℕ := []
  owners : List (Option ℕ) := []

variable {V C}

/-- What can happen: the reply that the main thread waits for arrives, the main thread takes a step,
or connection thread `i` does outside of a session; thread `i` comes online, or starts its writer;
a thread of a session takes a step of its own, or something comes from outside; session `k` is
left; or the client closes. -/
inductive DriverEvent
  | reply (r : HttpReply)
  | main
  | turn (i : ℕ) (ok : Bool)
  | incr (i : ℕ)
  | start (i : ℕ) (handle : Bool)
  | session (a : SessionEvent)
  | leave (k : ℕ) (lasted : Bool)
  | close

namespace DriverEvent

/-- A step of a thread that no one else has to do anything for. -/
def own : DriverEvent → Bool
  | main | turn _ _ | start _ _ | leave _ _ => true
  | session a => a.own
  | reply _ | incr _ | close => false

/-- A thread takes a step, or is given what it waits for. -/
def moves : DriverEvent → Bool
  | close => false
  | session a => a.own
  | _ => true

end DriverEvent

namespace Driver

/-- A step of the threads that leaves the sessions alone. -/
def liftLife (J : SerdeJson) (s : Driver V C) (a : LifecycleEvent) : Option (Driver V C) :=
  (s.life.step .native J a).map fun life => { s with life }

/-- One step of the threads. -/
def step (J : SerdeJson) (s : Driver V C) : DriverEvent → Option (Driver V C)
  | .reply r => s.liftLife J (.reply r)
  | .main => s.liftLife J .main
  | .turn i ok =>
    if s.life.threads[i]?.any fun x => x.isOnline || x.enters ok then none
    else s.liftLife J (.turn i ok)
  | .incr i =>
    if s.life.threads[i]?.any fun x => x.enters true then
      (s.life.step .native J (.turn i true)).bind fun life =>
        (s.session.step .incr).map fun session =>
          { s with life, session, starting := i :: s.starting }
    else none
  | .start i handle =>
    if i ∈ s.starting then
      (s.session.step (.start handle)).map fun session =>
        { s with session, starting := s.starting.erase i, owners := s.owners ++ [some i] }
    else none
  | .session a =>
    if a.joint then none else (s.session.step a).map fun session => { s with session }
  | .leave k lasted =>
    s.owners[k]?.join.bind fun i =>
      (s.session.step (.leave k)).bind fun session =>
        (s.life.step .native J (.turn i lasted)).map fun life =>
          { s with life, session, owners := s.owners.set k none }
  | .close =>
    (s.life.step .native J .close).bind fun life =>
      (s.session.step .close).map fun session => { s with life, session }

/-- The threads that are in a session. -/
def inSession (s : Driver V C) : List ℕ := s.starting ++ s.owners.filterMap id

/-- Each thread that is online runs one session, which is counted, and the others run none; both
parts agree on whether the client is closed. -/
structure Matched (s : Driver V C) : Prop where
  closed : s.life.closed = s.session.online.write.closed
  starting : s.session.online.starting = s.starting.length
  owners : s.owners.map Option.isSome = s.session.online.counted
  threads : List.Perm s.inSession (places ConnThread.isOnline s.life.threads)

/-- No thread can take a step unless something comes from outside. -/
def Settled (J : SerdeJson) (s : Driver V C) : Prop :=
  ∀ a : DriverEvent, a.own = true → s.step J a = none

/-- The most steps that all threads of a closed client have left. -/
def work (s : Driver V C) : ℕ := 6 * s.life.work + s.session.online.work

end Driver

/-! ## What a step changes -/

namespace Lifecycle

variable {t : Platform} {J : SerdeJson} {s s' : Lifecycle} {a : LifecycleEvent} {i : ℕ}
  {x : ConnThread} {ok : Bool}

/-- After a step a thread is online if it enters. -/
theorem turn_isOnline (h : s.turn i x ok = some s') :
    ∃ y : ConnThread, s'.threads = s.threads.set i y ∧ y.isOnline = x.enters ok := by
  have hfails : ∀ fails,
      ({ x with phase := afterFailure fails } : ConnThread).isOnline = false := by
    intro fails
    rcases afterFailure_eq fails with h | h <;> rw [h] <;> rfl
  obtain ⟨host, phase⟩ := x
  cases phase with
  | spawned | left | removed =>
    obtain rfl := Option.some.inj h
    exact ⟨_, rfl, rfl⟩
  | looping fails =>
    obtain rfl := Option.some.inj h
    refine ⟨_, rfl, ?_⟩
    cases s.closed <;> rfl
  | dialing fails =>
    obtain rfl := Option.some.inj h
    cases ok with
    | true => exact ⟨_, rfl, rfl⟩
    | false => exact ⟨_, rfl, hfails fails⟩
  | handshaking fails =>
    cases ok with
    | true =>
      obtain rfl := Option.some.inj h
      exact ⟨_, rfl, rfl⟩
    | false =>
      obtain rfl := Option.some.inj h
      exact ⟨_, rfl, hfails fails⟩
  | online fails =>
    obtain rfl := Option.some.inj h
    cases ok with
    | true => exact ⟨_, rfl, rfl⟩
    | false => exact ⟨_, rfl, hfails fails⟩
  | finished => cases h

/-- The steps of the main thread, replies and `close` take no thread online or off. -/
theorem places_step (ha : ∀ i ok, a ≠ .turn i ok) (h : s.step t J a = some s') :
    places ConnThread.isOnline s'.threads = places ConnThread.isOnline s.threads := by
  cases a with
  | reply r =>
    obtain ⟨-, main, rfl, -⟩ := reply_eq_some h
    rfl
  | main =>
    rcases mainStep_eq_some h with ⟨hosts, minConn, -, rfl⟩ | ⟨host, hosts, -, -, rfl⟩ |
      ⟨host, hosts, -, -, rfl⟩ | ⟨main, rfl, -⟩
    · rfl
    · rfl
    · exact places_concat rfl
    · rfl
  | turn i ok => exact absurd rfl (ha i ok)
  | close =>
    obtain rfl := Option.some.inj h
    rfl

/-- Only `close` changes the flag. -/
theorem closed_step (ha : a ≠ .close) (h : s.step t J a = some s') : s'.closed = s.closed := by
  cases a with
  | reply r =>
    obtain ⟨-, main, rfl, -⟩ := reply_eq_some h
    rfl
  | main =>
    rcases mainStep_eq_some h with ⟨hosts, minConn, -, rfl⟩ | ⟨host, hosts, -, -, rfl⟩ |
      ⟨host, hosts, -, -, rfl⟩ | ⟨main, rfl, -⟩ <;> rfl
  | turn i ok =>
    obtain ⟨x, -, ht⟩ := Option.bind_eq_some_iff.1 h
    obtain ⟨phase, hturned⟩ := turn_eq_some ht
    exact hturned.closed
  | close => exact absurd rfl ha

end Lifecycle

namespace SessionState

variable {s s' : SessionState V C} {a : SessionEvent}

theorem lift_counted {b : OnlineEvent}
    (hb : b ≠ .incr ∧ b ≠ .start ∧ (∀ i, b ≠ .leave i) ∧ b ≠ .close) (h : s.lift b = some s') :
    s'.online.starting = s.online.starting ∧
      s'.online.write.closed = s.online.write.closed ∧ s'.online.counted = s.online.counted := by
  obtain ⟨online, hstep, rfl⟩ := lift_eq_some h
  cases b with
  | incr => exact absurd rfl hb.1
  | start => exact absurd rfl hb.2.1
  | leave i => exact absurd rfl (hb.2.2.1 i)
  | close => exact absurd rfl hb.2.2.2
  | readEnds i =>
    simp only [OnlineState.step] at hstep
    split at hstep
    · rename_i hi
      obtain rfl := Option.some.inj hstep
      exact ⟨rfl, rfl, map_set_of_eq hi rfl⟩
    · cases hstep
  | flag i =>
    simp only [OnlineState.step] at hstep
    split at hstep
    · rename_i hi
      obtain ⟨write, hkill, rfl⟩ := Option.map_eq_some_iff.1 hstep
      obtain ⟨x, -, rfl⟩ := Option.map_eq_some_iff.1 hkill
      exact ⟨rfl, rfl, map_set_of_eq hi rfl⟩
    · cases hstep
  | push msg =>
    obtain rfl := Option.some.inj hstep
    exact ⟨rfl, rfl, rfl⟩
  | turn w sends =>
    obtain ⟨x, y, -, -, hreaders, hclosed, -⟩ := OnlineState.turn_eq_some hstep
    obtain ⟨write, -, rfl⟩ := Option.map_eq_some_iff.1 hstep
    exact ⟨rfl, hclosed, rfl⟩

/-- The steps that a session takes by itself leave no session and start none. -/
theorem counted_step (ha : a.joint = false) (h : s.step a = some s') :
    s'.online.starting = s.online.starting ∧
      s'.online.write.closed = s.online.write.closed ∧ s'.online.counted = s.online.counted := by
  cases a with
  | incr | start handle | leave i | close => cases ha
  | readEnds i | flag i | push msg => exact lift_counted (by simp) h
  | woken i =>
    simp only [step] at h
    split at h
    · exact lift_counted (by simp) h
    · cases h
  | timeout i =>
    simp only [step] at h
    split at h
    · split at h
      · exact lift_counted (by simp) h
      · obtain rfl := Option.some.inj h
        exact ⟨rfl, rfl, rfl⟩
    · cases h
  | turn w sends =>
    obtain ⟨x, y, -, -, hstarting, hreaders, -, hclosed, -⟩ := turn_eq_some h
    exact ⟨hstarting, hclosed, congrArg (List.map _) hreaders⟩

/-- The sessions that are left have no work left. -/
theorem Linked.work_le (hs : s.Linked) : s.online.work ≤ 7 * s.online.onlineCnt := by
  have hsum : (s.online.readers.map ReaderPhase.work).sum +
      (s.online.write.writers.map Writer.work).sum ≤ 7 * s.online.readers.countP (· ≠ .left) := by
    refine sum_add_sum_le hs.wired.length_eq fun i p x hp hx => ?_
    have hwriter : x.work ≤ 4 := by
      obtain ⟨phase, dead⟩ := x
      cases phase <;> simp [Writer.work]
    cases p with
    | left =>
      obtain ⟨y, hy, hrun⟩ := OnlineState.joined_iff.1 (hs.joined i hp)
      obtain rfl := Option.some.inj (hx.symm.trans hy)
      obtain ⟨phase, dead⟩ := x
      cases phase with
      | returned => exact Nat.le_refl _
      | _ => cases hrun
    | reading | ended | flagged =>
      exact (Nat.add_le_add_left hwriter _).trans (by decide)
  unfold OnlineState.work OnlineState.onlineCnt
  omega

/-- A session that is left was counted until then. -/
theorem leave_eq_some {k : ℕ} (h : s.step (.leave k) = some s') :
    s.online.readers[k]? = some .flagged ∧ s'.online.starting = s.online.starting ∧
      s'.online.write.closed = s.online.write.closed ∧
      s'.online.readers = s.online.readers.set k .left := by
  obtain ⟨online, hstep, rfl⟩ := lift_eq_some h
  simp only [OnlineState.step] at hstep
  split at hstep
  · rename_i hk
    obtain rfl := Option.some.inj hstep
    exact ⟨hk.1, rfl, rfl, rfl⟩
  · cases hstep

end SessionState

namespace Driver

section Steps

variable {J : SerdeJson} {s s' : Driver V C} {a : DriverEvent} {i k : ℕ} {ok : Bool}

theorem liftLife_eq_some {b : LifecycleEvent} (h : s.liftLife J b = some s') :
    ∃ life, s.life.step .native J b = some life ∧ s' = { s with life } := by
  obtain ⟨life, hstep, rfl⟩ := Option.map_eq_some_iff.1 h
  exact ⟨life, hstep, rfl⟩

theorem turn_eq_some (h : s.step J (.turn i ok) = some s') :
    ∃ x life, s.life.threads[i]? = some x ∧ x.isOnline = false ∧ x.enters ok = false ∧
      s.life.step .native J (.turn i ok) = some life ∧ s' = { s with life } := by
  simp only [step] at h
  split at h
  · cases h
  · rename_i hout
    obtain ⟨life, hstep, rfl⟩ := liftLife_eq_some h
    obtain ⟨x, hx, -⟩ := Option.bind_eq_some_iff.1 hstep
    simp only [hx, Option.any_some, Bool.or_eq_true, not_or, Bool.not_eq_true] at hout
    exact ⟨x, life, hx, hout.1, hout.2, hstep, rfl⟩

theorem incr_eq_some (h : s.step J (.incr i) = some s') :
    ∃ x life session, s.life.threads[i]? = some x ∧ x.enters true = true ∧
      s.life.step .native J (.turn i true) = some life ∧ s.session.step .incr = some session ∧
      s' = { s with life, session, starting := i :: s.starting } := by
  simp only [step] at h
  split at h
  · rename_i henters
    obtain ⟨x, hx, henters⟩ := (Option.any_eq_true _ _).1 henters
    obtain ⟨life, hlife, h⟩ := Option.bind_eq_some_iff.1 h
    obtain ⟨session, hsession, rfl⟩ := Option.map_eq_some_iff.1 h
    exact ⟨x, life, session, hx, henters, hlife, hsession, rfl⟩
  · cases h

theorem start_eq_some {handle : Bool} (h : s.step J (.start i handle) = some s') :
    i ∈ s.starting ∧ ∃ session, s.session.step (.start handle) = some session ∧
      s' = { s with
        session, starting := s.starting.erase i, owners := s.owners ++ [some i] } := by
  simp only [step] at h
  split at h
  · rename_i hi
    obtain ⟨session, hsession, rfl⟩ := Option.map_eq_some_iff.1 h
    exact ⟨hi, session, hsession, rfl⟩
  · cases h

theorem session_eq_some {b : SessionEvent} (h : s.step J (.session b) = some s') :
    b.joint = false ∧ ∃ session, s.session.step b = some session ∧ s' = { s with session } := by
  simp only [step] at h
  split at h
  · cases h
  · rename_i hb
    obtain ⟨session, hsession, rfl⟩ := Option.map_eq_some_iff.1 h
    exact ⟨eq_false_of_ne_true hb, session, hsession, rfl⟩

theorem leave_eq_some {lasted : Bool} (h : s.step J (.leave k lasted) = some s') :
    ∃ i life session, s.owners[k]? = some (some i) ∧ s.session.step (.leave k) = some session ∧
      s.life.step .native J (.turn i lasted) = some life ∧
      s' = { s with life, session, owners := s.owners.set k none } := by
  obtain ⟨i, hi, h⟩ := Option.bind_eq_some_iff.1 h
  obtain ⟨session, hsession, h⟩ := Option.bind_eq_some_iff.1 h
  obtain ⟨life, hlife, rfl⟩ := Option.map_eq_some_iff.1 h
  exact ⟨i, life, session, Option.join_eq_some_iff.1 hi, hsession, hlife, rfl⟩

theorem close_eq_some (h : s.step J .close = some s') :
    ∃ life session, s.life.step .native J .close = some life ∧
      s.session.step .close = some session ∧ s' = { s with life, session } := by
  simp only [step, Option.bind_eq_some_iff, Option.map_eq_some_iff] at h
  obtain ⟨life, hlife, session, hsession, rfl⟩ := h
  exact ⟨life, session, hlife, hsession, rfl⟩

/-- A step of the driver is one of the threads, of the sessions, or of both. -/
theorem step_projects (h : s.step J a = some s') :
    Reachable (Lifecycle.step .native J) s.life s'.life ∧
      Reachable SessionState.step s.session s'.session := by
  cases a with
  | reply r | main =>
    obtain ⟨life, hlife, rfl⟩ := liftLife_eq_some h
    exact ⟨.single hlife, .refl⟩
  | turn i ok =>
    obtain ⟨x, life, -, -, -, hlife, rfl⟩ := turn_eq_some h
    exact ⟨.single hlife, .refl⟩
  | incr i =>
    obtain ⟨x, life, session, -, -, hlife, hsession, rfl⟩ := incr_eq_some h
    exact ⟨.single hlife, .single hsession⟩
  | start i handle =>
    obtain ⟨-, session, hsession, rfl⟩ := start_eq_some h
    exact ⟨.refl, .single hsession⟩
  | session b =>
    obtain ⟨-, session, hsession, rfl⟩ := session_eq_some h
    exact ⟨.refl, .single hsession⟩
  | leave k lasted =>
    obtain ⟨i, life, session, -, hsession, hlife, rfl⟩ := leave_eq_some h
    exact ⟨.single hlife, .single hsession⟩
  | close =>
    obtain ⟨life, session, hlife, hsession, rfl⟩ := close_eq_some h
    exact ⟨.single hlife, .single hsession⟩

/-- What the driver does, the threads and the sessions do. -/
theorem projects {as : List DriverEvent} (hr : run (step J) s as = some s') :
    Reachable (Lifecycle.step .native J) s.life s'.life ∧
      Reachable SessionState.step s.session s'.session := by
  refine run_invariant (I := fun m => Reachable (Lifecycle.step .native J) s.life m.life ∧
    Reachable SessionState.step s.session m.session) ?_ ⟨.refl, .refl⟩ hr
  rintro m a m' ⟨hlife, hsession⟩ hstep
  exact ⟨hlife.trans (step_projects hstep).1, hsession.trans (step_projects hstep).2⟩

/-! ### Threads and sessions -/

theorem isOnline_step {x : ConnThread} {life : Lifecycle} (hx : s.life.threads[i]? = some x)
    (h : s.life.step .native J (.turn i ok) = some life) :
    ∃ y : ConnThread, life.threads = s.life.threads.set i y ∧ y.isOnline = x.enters ok := by
  obtain ⟨x', hx', ht⟩ := Option.bind_eq_some_iff.1 h
  obtain rfl := Option.some.inj (hx.symm.trans hx')
  exact Lifecycle.turn_isOnline ht

theorem Matched.step (hs : s.Matched) (h : s.step J a = some s') : s'.Matched := by
  cases a with
  | reply r | main =>
    obtain ⟨life, hlife, rfl⟩ := liftLife_eq_some h
    refine ⟨(Lifecycle.closed_step (by simp) hlife).trans hs.closed, hs.starting, hs.owners, ?_⟩
    rw [Lifecycle.places_step (by simp) hlife]
    exact hs.threads
  | turn i ok =>
    obtain ⟨x, life, hx, hoff, hout, hlife, rfl⟩ := turn_eq_some h
    obtain ⟨y, hset, hy⟩ := isOnline_step hx hlife
    refine ⟨(Lifecycle.closed_step (by simp) hlife).trans hs.closed, hs.starting, hs.owners, ?_⟩
    have hsame : places ConnThread.isOnline life.threads =
        places ConnThread.isOnline s.life.threads := by
      rw [hset]
      exact places_set_of_eq hx (by rw [hy, hout, hoff])
    rw [hsame]
    exact hs.threads
  | incr i =>
    obtain ⟨x, life, session, hx, henters, hlife, hsession, rfl⟩ := incr_eq_some h
    obtain ⟨y, hset, hy⟩ := isOnline_step hx hlife
    obtain ⟨online, honline, rfl⟩ := SessionState.lift_eq_some hsession
    obtain rfl := Option.some.inj honline
    have hoff : x.isOnline = false := by
      obtain ⟨host, phase⟩ := x
      cases phase with
      | online fails => cases henters
      | _ => rfl
    refine ⟨(Lifecycle.closed_step (by simp) hlife).trans hs.closed, ?_, hs.owners, ?_⟩
    · exact congrArg (· + 1) hs.starting
    · have hperm := perm_places_set hx hoff (hy.trans henters)
      rw [← hset] at hperm
      exact (List.Perm.cons i hs.threads).trans hperm.symm
  | start i handle =>
    obtain ⟨hi, session, hsession, rfl⟩ := start_eq_some h
    obtain ⟨-, hstarting, -, hreaders, -, hclosed, -⟩ := SessionState.start_eq_some hsession
    refine ⟨hs.closed.trans hclosed.symm, ?_, ?_, ?_⟩
    · rw [hstarting, hs.starting, List.length_erase_of_mem hi]
    · rw [List.map_append, hs.owners, OnlineState.counted, OnlineState.counted, hreaders,
        List.map_append]
      rfl
    · refine List.Perm.trans ?_ hs.threads
      have herase : List.Perm s.starting (i :: s.starting.erase i) := List.perm_cons_erase hi
      rw [inSession, inSession, List.filterMap_append]
      calc List.Perm (s.starting.erase i ++ (s.owners.filterMap id ++ [i]))
            (s.starting.erase i ++ ([i] ++ s.owners.filterMap id)) :=
            List.Perm.append_left _ List.perm_append_comm
        List.Perm _ (i :: s.starting.erase i ++ s.owners.filterMap id) := List.perm_middle
        List.Perm _ (s.starting ++ s.owners.filterMap id) :=
            List.Perm.append_right _ herase.symm
  | session b =>
    obtain ⟨hb, session, hsession, rfl⟩ := session_eq_some h
    obtain ⟨hstarting, hclosed, hcounted⟩ := SessionState.counted_step hb hsession
    exact ⟨hs.closed.trans hclosed.symm, hstarting.trans hs.starting,
      hs.owners.trans hcounted.symm, hs.threads⟩
  | leave k lasted =>
    obtain ⟨i, life, session, hk, hsession, hlife, rfl⟩ := leave_eq_some h
    obtain ⟨-, hstarting, hclosed, hreaders⟩ := SessionState.leave_eq_some hsession
    have hcollect := perm_filterMap_set hk id none
    have hmem : i ∈ places ConnThread.isOnline s.life.threads := by
      refine hs.threads.subset (List.mem_append_right _ ?_)
      exact List.mem_filterMap.2 ⟨some i, List.mem_of_getElem? hk, rfl⟩
    obtain ⟨x, hx, hon⟩ := mem_places.1 hmem
    obtain ⟨y, hset, hy⟩ := isOnline_step hx hlife
    have hoff : y.isOnline = false := by
      rw [hy]
      obtain ⟨host, phase⟩ := x
      cases phase with
      | handshaking fails => cases hon
      | _ => rfl
    refine ⟨?_, hstarting.trans hs.starting, ?_, ?_⟩
    · rw [Lifecycle.closed_step (by simp) hlife, hs.closed, hclosed]
    · rw [List.map_set, hs.owners, OnlineState.counted, OnlineState.counted, hreaders,
        List.map_set]
      rfl
    · have hperm := perm_places_set_of_not hx hon hoff
      rw [← hset] at hperm
      refine List.Perm.cons_inv (a := i) ?_
      refine List.Perm.trans ?_ (hs.threads.trans hperm)
      exact List.perm_middle.symm.trans (List.Perm.append_left s.starting hcollect)
  | close =>
    obtain ⟨life, session, hlife, hsession, rfl⟩ := close_eq_some h
    obtain ⟨online, honline, rfl⟩ := SessionState.lift_eq_some hsession
    obtain rfl := Option.some.inj honline
    obtain rfl := Option.some.inj hlife
    exact ⟨rfl, hs.starting, hs.owners, hs.threads⟩

theorem matched_start : ({} : Driver V C).Matched := ⟨rfl, rfl, rfl, .nil⟩

/-! ### What is left to do -/

/-- The steps of the threads use up the work of a closed client; a session begins only with a step
of a thread, which uses up more than the session brings. -/
theorem step_work (hs : s.Matched) (hc : s.life.closed = true) (h : s.step J a = some s') :
    s'.life.closed = true ∧ s'.work + share DriverEvent.moves a ≤ s.work := by
  have hc' : s.session.online.write.closed = true := hs.closed.symm.trans hc
  have threads : ∀ {b : LifecycleEvent} {life : Lifecycle}, s.life.step .native J b = some life →
      life.closed = true ∧ life.work + share LifecycleEvent.moves b ≤ s.life.work :=
    fun hstep => Lifecycle.step_work hc hstep
  have sessions : ∀ {b : SessionEvent} {session : SessionState V C},
      s.session.step b = some session →
        session.online.work + share SessionEvent.own b ≤
          s.session.online.work + 5 * share SessionEvent.isIncr b :=
    fun hstep => (SessionState.step_work hc' hstep).2
  cases a with
  | reply r | main =>
    obtain ⟨life, hlife, rfl⟩ := liftLife_eq_some h
    obtain ⟨hclosed, hle⟩ := threads hlife
    refine ⟨hclosed, ?_⟩
    simp only [work, share, LifecycleEvent.moves, DriverEvent.moves, if_true] at hle ⊢
    omega
  | turn i ok =>
    obtain ⟨x, life, -, -, -, hlife, rfl⟩ := turn_eq_some h
    obtain ⟨hclosed, hle⟩ := threads hlife
    refine ⟨hclosed, ?_⟩
    simp only [work, share, LifecycleEvent.moves, DriverEvent.moves, if_true] at hle ⊢
    omega
  | incr i =>
    obtain ⟨x, life, session, -, -, hlife, hsession, rfl⟩ := incr_eq_some h
    obtain ⟨hclosed, hle⟩ := threads hlife
    have hsle := sessions hsession
    refine ⟨hclosed, ?_⟩
    simp only [work, share, LifecycleEvent.moves, DriverEvent.moves, SessionEvent.own,
      SessionEvent.isIncr, if_true] at hle hsle ⊢
    omega
  | start i handle =>
    obtain ⟨-, session, hsession, rfl⟩ := start_eq_some h
    have hsle := sessions hsession
    refine ⟨hc, ?_⟩
    simp only [work, share, DriverEvent.moves, SessionEvent.own, SessionEvent.isIncr, if_true,
      Bool.false_eq_true, if_false] at hsle ⊢
    omega
  | session b =>
    obtain ⟨hb, session, hsession, rfl⟩ := session_eq_some h
    have hsle := sessions hsession
    have hincr : share SessionEvent.isIncr b = 0 := by
      cases b with
      | incr => cases hb
      | _ => rfl
    have hmoves : share DriverEvent.moves (.session b) = share SessionEvent.own b := rfl
    refine ⟨hc, ?_⟩
    simp only [work, hmoves]
    omega
  | leave k lasted =>
    obtain ⟨i, life, session, -, hsession, hlife, rfl⟩ := leave_eq_some h
    obtain ⟨hclosed, hle⟩ := threads hlife
    have hsle := sessions hsession
    refine ⟨hclosed, ?_⟩
    simp only [work, share, LifecycleEvent.moves, DriverEvent.moves, SessionEvent.own,
      SessionEvent.isIncr, if_true, Bool.false_eq_true, if_false] at hle hsle ⊢
    omega
  | close =>
    obtain ⟨life, session, hlife, hsession, rfl⟩ := close_eq_some h
    obtain ⟨hclosed, hle⟩ := threads hlife
    have hsle := sessions hsession
    refine ⟨hclosed, ?_⟩
    simp only [work, share, LifecycleEvent.moves, DriverEvent.moves, SessionEvent.own,
      SessionEvent.isIncr, Bool.false_eq_true, if_false] at hle hsle ⊢
    omega

/-- As many threads are online as sessions are counted. -/
theorem Matched.onlineCnt (hs : s.Matched) : s.session.online.onlineCnt = s.life.online := by
  have howners : (s.owners.filterMap id).length = s.session.online.readers.countP (· ≠ .left) := by
    have hcount := congrArg (List.countP id) hs.owners
    rw [List.countP_map, List.countP_map] at hcount
    rw [List.length_filterMap_eq_countP]
    exact hcount
  have hlength := hs.threads.length_eq
  rw [inSession, List.length_append, howners, length_places] at hlength
  rw [OnlineState.onlineCnt, hs.starting]
  exact hlength

theorem work_le (hs : s.Matched) (hlinked : s.session.Linked) :
    s.work ≤ 48 + 43 * s.life.alive := by
  have hlife := Lifecycle.work_le s.life
  have hsession := hlinked.work_le
  have honline : s.life.online ≤ s.life.alive :=
    Lifecycle.online_le_counted.trans Lifecycle.counted_le_alive
  rw [hs.onlineCnt] at hsession
  unfold work
  omega

end Steps

/-! ## When no thread can go on -/

section Settled

variable {J : SerdeJson} {s : Driver V C} {i : ℕ} {x : ConnThread}

/-- The thread of a session that is counted is online. -/
theorem Matched.online (hs : s.Matched) {k : ℕ} (hk : s.owners[k]? = some (some i)) :
    ∃ x, s.life.threads[i]? = some x ∧ x.isOnline = true := by
  refine mem_places.1 (hs.threads.subset (List.mem_append_right _ ?_))
  exact List.mem_filterMap.2 ⟨some i, List.mem_of_getElem? hk, rfl⟩

/-- The session of a thread is counted, and the others have no thread. -/
theorem Matched.owner (hs : s.Matched) {k : ℕ} {p : ReaderPhase}
    (hk : s.session.online.readers[k]? = some p) :
    ∃ o, s.owners[k]? = some o ∧ (p ≠ .left ↔ ∃ i, o = some i) := by
  have hat := congrArg (·[k]?) hs.owners
  simp only [List.getElem?_map, hk, Option.map_some, Option.map_eq_some_iff] at hat
  obtain ⟨o, ho, hsome⟩ := hat
  exact ⟨o, ho, by rw [← Option.isSome_iff_exists, hsome, decide_eq_true_iff]⟩

/-- When the driver is at rest, so are the sessions. -/
theorem Settled.sessions (h : s.Settled J) (hs : s.Matched) : s.session.Settled := by
  have alone : ∀ {b : SessionEvent}, b.joint = false → b.own = true → s.session.step b = none := by
    intro b hjoint hown
    have hnone := h (.session b) hown
    rw [step, if_neg (Bool.eq_false_iff.1 hjoint)] at hnone
    exact Option.map_eq_none_iff.1 hnone
  intro a ha
  by_contra hsome
  obtain ⟨session, hsession⟩ := Option.ne_none_iff_exists'.1 hsome
  cases a with
  | incr | readEnds k | push msg | close => cases ha
  | start handle =>
    obtain ⟨hpos, -⟩ := SessionState.start_eq_some hsession
    rw [hs.starting] at hpos
    obtain ⟨i, hi⟩ := List.exists_mem_of_length_pos hpos
    have hnone := h (.start i handle) rfl
    simp only [step, hi, hsession, if_true, Option.map_some] at hnone
    cases hnone
  | leave k =>
    obtain ⟨hk, -⟩ := SessionState.leave_eq_some hsession
    obtain ⟨o, ho, hiff⟩ := hs.owner hk
    obtain ⟨i, rfl⟩ := hiff.1 (by decide)
    obtain ⟨x, hx, hon⟩ := hs.online ho
    obtain ⟨life, hlife⟩ := Lifecycle.exists_step_turn (t := .native) (J := J) hx
      (ConnThread.phase_ne_finished hon) true
    have hnone := h (.leave k true) rfl
    simp only [step, ho, Option.join_some, Option.bind_some, hsession, hlife, Option.map_some]
      at hnone
    cases hnone
  | woken k | timeout k | flag k | turn w sends => cases (alone rfl ha).symm.trans hsession

/-- A thread that has not ended runs a session that is stranded. -/
theorem Settled.finished_or_stranded (h : s.Settled J) (hs : s.Matched)
    (hlinked : s.session.Linked) (hc : s.life.closed = true) (hx : s.life.threads[i]? = some x) :
    x.phase = .finished ∨ ∃ k, s.owners[k]? = some (some i) ∧ s.session.Stranded k := by
  have hsettled := h.sessions hs
  refine or_iff_not_imp_left.2 fun hp => ?_
  have hon : x.isOnline = true := by
    by_contra hon
    have hoff := eq_false_of_ne_true hon
    obtain ⟨life, hlife⟩ := Lifecycle.exists_step_turn (t := .native) (J := J) hx hp false
    have hout : x.enters false = false := by
      obtain ⟨host, phase⟩ := x
      cases phase <;> rfl
    have hnone := h (.turn i false) rfl
    simp only [step, liftLife, hx, Option.any_some, hoff, hout, hlife, Bool.or_self,
      Bool.false_eq_true, if_false, Option.map_some] at hnone
    cases hnone
  have hnil : s.starting = [] := by
    rw [← List.length_eq_zero_iff, ← hs.starting]
    exact hsettled.starting
  have hin : i ∈ s.inSession := hs.threads.symm.subset (mem_places.2 ⟨x, hx, hon⟩)
  rw [inSession, hnil, List.nil_append] at hin
  obtain ⟨o, ho, rfl⟩ := List.mem_filterMap.1 hin
  obtain ⟨k, hk⟩ := List.mem_iff_getElem?.1 ho
  have hlen : s.owners.length = s.session.online.readers.length := by
    simpa only [List.length_map] using congrArg List.length hs.owners
  obtain ⟨p, hp⟩ : ∃ p, s.session.online.readers[k]? = some p :=
    ⟨_, List.getElem?_eq_getElem (hlen ▸ (List.getElem?_eq_some_iff.1 hk).1)⟩
  obtain ⟨o, ho, hiff⟩ := hs.owner hp
  obtain rfl := Option.some.inj (hk.symm.trans ho)
  rcases hsettled.left_or_stranded hlinked (hs.closed.symm.trans hc) hp with hleft | hstranded
  · exact absurd hleft (hiff.2 ⟨i, rfl⟩)
  · exact ⟨k, hk, hstranded⟩

/-- Everything is given back if and only if no session is stranded. -/
theorem Settled.released_iff (h : s.Settled J) (hs : s.Matched) (hlinked : s.session.Linked)
    (hsound : s.life.Sound) (hc : s.life.closed = true) :
    s.life.Released ↔ ∀ k, ¬ s.session.Stranded k := by
  constructor
  · intro hreleased k hstranded
    obtain ⟨o, ho, hiff⟩ := hs.owner hstranded.1
    obtain ⟨i, rfl⟩ := hiff.1 (by decide)
    obtain ⟨x, hx, hon⟩ := hs.online ho
    exact ConnThread.phase_ne_finished hon (hreleased.threads x (List.mem_of_getElem? hx))
  · intro hnone
    have hfinished : ∀ (i : ℕ) x, s.life.threads[i]? = some x → x.phase = .finished := by
      intro i x hx
      refine (h.finished_or_stranded hs hlinked hc hx).resolve_right ?_
      rintro ⟨k, -, hstranded⟩
      exact hnone k hstranded
    refine Lifecycle.Settled.released (t := .native) (J := J) ⟨?_, fun i ok => ?_⟩ hsound
    · exact Option.map_eq_none_iff.1 (h .main rfl)
    · cases hx : s.life.threads[i]? with
      | none => rw [Lifecycle.step, hx, Option.bind_none]
      | some x =>
        rw [Lifecycle.step, hx, Option.bind_some, Lifecycle.turn, hfinished i x hx]

end Settled

/-- A connection comes online, and the client is closed. -/
def servingRun : List DriverEvent :=
  [.reply (.ok (200, oneHostReply)), .main, .main, .main, .turn 0 true, .turn 0 true, .turn 0 true,
    .incr 0, .start 0 true, .main, .main, .main, .close]

/-- Its writer forces the socket down, its read loop ends, and both threads go on to their ends. -/
def closingRun : List DriverEvent :=
  [.session (.turn 0 true), .main, .session (.woken 0), .session (.flag 0), .leave 0 true,
    .turn 0 true, .turn 0 true, .turn 0 true]

def closedDriver : Driver leb128 sampleCiborium := (run (step sampleSerde) {} servingRun).get rfl

def endedDriver : Driver leb128 sampleCiborium :=
  (run (step sampleSerde) closedDriver closingRun).get rfl

theorem settled_endedDriver : endedDriver.Settled sampleSerde := by
  intro a ha
  cases a with
  | main => rfl
  | turn i ok | start i handle | leave i lasted => rcases i with _ | _ | i <;> rfl
  | session b =>
    cases b with
    | woken i | timeout i | flag i | turn i sends => rcases i with _ | _ | i <;> rfl
    | start handle | leave i => rfl
    | incr | readEnds i | push msg | close => cases ha
  | reply r | incr i | close => cases ha

end Driver

end Spot

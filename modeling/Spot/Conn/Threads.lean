import Mathlib.Data.Finset.Basic
import Spot.Conn.Discovery
import Spot.General.Census
import Spot.General.Runs

/-!
# The connection threads

One thread (`main_thread`) asks for the list of servers, starts a connection thread for every host
that has none, and asks again whenever there are fewer connections than it wants; a connection
thread dials its host until the client closes or the host fails too often in a row.  The steps of
`Lifecycle.step` are their accesses to what they share, in any interleaving; in the browser the
threads are tasks, which interleave less.

* `turn_eq_some` says what a step of a connection thread can do;
* `mainStep_eq_some` says what a step of the main thread can do.
-/

namespace Spot

/-- Consecutive failed attempts beyond which a thread gives up on its host. -/
def connMaxFail : ℕ := 10

/-- The most threads there can be at a time: thread ids have fewer than 32 bits, and so do the
addresses of the browser, where tasks take memory. -/
def threadLimit : ℕ := 2 ^ 32 - 1

/-- Where a thread stands in `conn_thread`: not started yet, at the test of its loop, in `connect`,
in `handle` before and after `online_incr`, out of the loop, done with the host set, at its end. -/
inductive ThreadPhase
  | spawned
  | looping (fails : ℕ)
  | dialing (fails : ℕ)
  | handshaking (fails : ℕ)
  | online (fails : ℕ)
  | left
  | removed
  | finished
  deriving DecidableEq

/-- The thread of a connection. -/
structure ConnThread where
  host : Text
  phase : ThreadPhase := .spawned
  deriving DecidableEq

namespace ConnThread

/-- Between its `fetch_add` and its `fetch_sub` on `conn_cnt`. -/
def counted (x : ConnThread) : Bool :=
  match x.phase with
  | .spawned | .finished => false
  | _ => true

/-- Between its `online_incr` and its `online_decr`. -/
def isOnline (x : ConnThread) : Bool :=
  match x.phase with
  | .online _ => true
  | _ => false

/-- Not at its end. -/
def alive (x : ConnThread) : Bool :=
  match x.phase with
  | .finished => false
  | _ => true

/-- The host of the thread, until it has left its loop and removed it from the host set. -/
def registered (x : ConnThread) : Option Text :=
  match x.phase with
  | .removed | .finished => none
  | _ => some x.host

end ConnThread

/-- Where the main thread stands: in `run_connect`, waiting for the reply, storing the threshold, at
the head of its loop, between the registration of a host and the start of its thread, or sleeping
after it; or at the test or in the sleep of the maintenance loop; or at its end. -/
inductive MainPhase
  | fetching
  | storing (hosts : List Text) (minConn : UInt32)
  | connecting (hosts : List Text)
  | spawning (host : Text) (hosts : List Text)
  | staggering (hosts : List Text)
  | checking (tick : ℕ)
  | sleeping (tick : ℕ)
  | returned
  deriving DecidableEq

/-- There is no threshold to store and no thread to start. -/
def MainPhase.Idle : MainPhase → Prop
  | .storing _ _ | .spawning _ _ => False
  | _ => True

/-- What the threads share, and where each of them stands. -/
structure Lifecycle where
  closed : Bool := false
  minConn : UInt32 := 1
  hosts : Finset Text := ∅
  connCnt : UInt32 := 0
  onlineCnt : UInt32 := 0
  main : MainPhase := .fetching
  threads : List ConnThread := []
  deriving DecidableEq

/-- What can happen: the reply that the main thread waits for arrives, the main thread takes its
next step, connection thread `i` takes its next step, in which what it waits for succeeds or not,
or the client closes.  For a thread that is online, success is a session that lasted. -/
inductive LifecycleEvent
  | reply (r : HttpReply)
  | main
  | turn (i : ℕ) (ok : Bool)
  | close

namespace Lifecycle

/-- The number of threads that have not ended. -/
def alive (s : Lifecycle) : ℕ := s.threads.countP ConnThread.alive

/-- The number of threads between their `fetch_add` and their `fetch_sub`. -/
def counted (s : Lifecycle) : ℕ := s.threads.countP ConnThread.counted

/-- The number of connections that are online. -/
def online (s : Lifecycle) : ℕ := s.threads.countP ConnThread.isOnline

/-- The host whose thread the main thread is about to start. -/
def spawning (s : Lifecycle) : Option Text :=
  match s.main with
  | .spawning host _ => some host
  | _ => none

/-- The hosts that are registered, by their threads and by the main thread. -/
def registered (s : Lifecycle) : List Text :=
  s.spawning.toList ++ s.threads.filterMap ConnThread.registered

/-- The test of the maintenance tick. -/
def wantsMore (s : Lifecycle) : Bool := s.connCnt < s.minConn

/-- The test, and what follows it. -/
def test (s : Lifecycle) : Lifecycle :=
  { s with main := if s.wantsMore then .fetching else .checking 0 }

/-- The next step of the main thread, except when it waits for a reply. -/
def mainStep (t : Platform) (s : Lifecycle) : Option Lifecycle :=
  match s.main with
  | .fetching => none
  | .storing hosts minConn => some { s with minConn, main := .connecting hosts }
  | .connecting [] => some { s with main := .checking 0 }
  | .connecting (host :: hosts) =>
    if s.closed then some { s with main := .checking 0 }
    else if host ∈ s.hosts then some { s with main := .connecting hosts }
    else some { s with hosts := insert host s.hosts, main := .spawning host hosts }
  | .spawning host hosts =>
    -- the system has no room for more threads
    if s.alive < threadLimit then
      some { s with threads := s.threads ++ [{ host }], main := .staggering hosts }
    else none
  | .staggering hosts => some { s with main := .connecting hosts }
  | .checking tick => some { s with main := if s.closed then .returned else .sleeping tick }
  | .sleeping tick =>
    match t with
    -- thirty sleeps of one second, each followed by a look at the closed flag
    | .native => if tick + 1 < 30 then some { s with main := .checking (tick + 1) } else some s.test
    | .wasm => if s.closed then some { s with main := .returned } else some s.test
  | .returned => none

def setPhase (s : Lifecycle) (i : ℕ) (x : ConnThread) (phase : ThreadPhase) : Lifecycle :=
  { s with threads := s.threads.set i { x with phase } }

/-- After a failed attempt: the next one, or the end of the loop. -/
def afterFailure (fails : ℕ) : ThreadPhase :=
  if connMaxFail < fails + 1 then .left else .looping (fails + 1)

/-- The next step of connection thread `i`, which stands as `x`. -/
def turn (s : Lifecycle) (i : ℕ) (x : ConnThread) (ok : Bool) : Option Lifecycle :=
  match x.phase with
  | .spawned => some { s.setPhase i x (.looping 0) with connCnt := s.connCnt + 1 }
  | .looping fails => some (s.setPhase i x (if s.closed then .left else .dialing fails))
  | .dialing fails => some (s.setPhase i x (if ok then .handshaking fails else afterFailure fails))
  | .handshaking fails =>
    if ok then some { s.setPhase i x (.online fails) with onlineCnt := s.onlineCnt + 1 }
    else some (s.setPhase i x (afterFailure fails))
  | .online fails =>
    some { s.setPhase i x (if ok then .looping 0 else afterFailure fails) with
      onlineCnt := s.onlineCnt - 1 }
  | .left => some { s.setPhase i x .removed with hosts := s.hosts.erase x.host }
  | .removed => some { s.setPhase i x .finished with connCnt := s.connCnt - 1 }
  | .finished => none

/-- One step of the threads. -/
def step (t : Platform) (J : SerdeJson) (s : Lifecycle) : LifecycleEvent → Option Lifecycle
  | .reply r =>
    match s.main with
    | .fetching =>
      match getHosts J r with
      -- logged
      | .error _ => some { s with main := .checking 0 }
      | .ok (hosts, minConn) =>
        let hosts := dialled hosts
        some { s with main := .storing hosts (clampMinConn hosts minConn) }
    | _ => none
  | .main => s.mainStep t
  | .turn i ok => s.threads[i]?.bind fun x => s.turn i x ok
  | .close => some { s with closed := true }

/-! ## What a step can do -/

section Steps

variable {t : Platform} {J : SerdeJson} {s s' : Lifecycle} {i : ℕ} {x y : ConnThread} {ok : Bool}

/-- What a step of thread `i` from `x` to `y` does: the counters follow the phase, and the host
leaves the set when the thread gives it up. -/
structure Turned (s s' : Lifecycle) (i : ℕ) (x y : ConnThread) : Prop where
  threads : s'.threads = s.threads.set i y
  main : s'.main = s.main
  closed : s'.closed = s.closed
  minConn : s'.minConn = s.minConn
  alive : x.alive = true
  connCnt : s'.connCnt + UInt32.ofNat (share ConnThread.counted x) =
    s.connCnt + UInt32.ofNat (share ConnThread.counted y)
  onlineCnt : s'.onlineCnt + UInt32.ofNat (share ConnThread.isOnline x) =
    s.onlineCnt + UInt32.ofNat (share ConnThread.isOnline y)
  hosts : y.registered = x.registered ∧ s'.hosts = s.hosts ∨
    x.registered = some x.host ∧ y.registered = none ∧ s'.hosts = s.hosts.erase x.host

theorem turned_setPhase {phase : ThreadPhase} (ha : x.alive = true)
    (hc : ({ x with phase } : ConnThread).counted = x.counted)
    (ho : ({ x with phase } : ConnThread).isOnline = x.isOnline)
    (hr : ({ x with phase } : ConnThread).registered = x.registered) :
    Turned s (s.setPhase i x phase) i x { x with phase } where
  threads := rfl
  main := rfl
  closed := rfl
  minConn := rfl
  alive := ha
  connCnt := by rw [share, share, hc]; rfl
  onlineCnt := by rw [share, share, ho]; rfl
  hosts := .inl ⟨hr, rfl⟩

theorem afterFailure_eq (fails : ℕ) :
    afterFailure fails = .left ∨ afterFailure fails = .looping (fails + 1) := by
  unfold afterFailure
  split
  · exact .inl rfl
  · exact .inr rfl

/-- After a failed attempt a thread is still counted, registered, and not online. -/
theorem turned_afterFailure {fails : ℕ} (ha : x.alive = true) (hc : x.counted = true)
    (ho : x.isOnline = false) (hr : x.registered = some x.host) :
    Turned s (s.setPhase i x (afterFailure fails)) i x { x with phase := afterFailure fails } := by
  rcases afterFailure_eq fails with h | h <;>
  · rw [h]
    exact turned_setPhase ha hc.symm ho.symm hr.symm

/-- What the steps of a connection thread can do. -/
theorem turn_eq_some (h : s.turn i x ok = some s') :
    ∃ phase, Turned s s' i x { x with phase } := by
  obtain ⟨host, phase⟩ := x
  cases phase with
  | spawned =>
    obtain rfl := Option.some.inj h
    exact ⟨.looping 0, rfl, rfl, rfl, rfl, rfl, by simp [share, ConnThread.counted],
      by simp [share, ConnThread.isOnline, setPhase], .inl ⟨rfl, rfl⟩⟩
  | looping fails =>
    obtain rfl := Option.some.inj h
    refine ⟨_, turned_setPhase rfl ?_ ?_ ?_⟩ <;> split <;> rfl
  | dialing fails =>
    obtain rfl := Option.some.inj h
    cases ok with
    | true => exact ⟨_, turned_setPhase rfl rfl rfl rfl⟩
    | false => exact ⟨_, turned_afterFailure rfl rfl rfl rfl⟩
  | handshaking fails =>
    cases ok with
    | true =>
      obtain rfl := Option.some.inj h
      exact ⟨.online fails, rfl, rfl, rfl, rfl, rfl, by simp [share, ConnThread.counted, setPhase],
        by simp [share, ConnThread.isOnline], .inl ⟨rfl, rfl⟩⟩
    | false =>
      obtain rfl := Option.some.inj h
      exact ⟨_, turned_afterFailure rfl rfl rfl rfl⟩
  | online fails =>
    obtain rfl := Option.some.inj h
    have hphase : ∃ phase, (if ok then .looping 0 else afterFailure fails) = phase ∧
        (phase = .left ∨ ∃ n, phase = .looping n) := by
      cases ok with
      | true => exact ⟨_, rfl, .inr ⟨0, rfl⟩⟩
      | false => exact ⟨_, rfl, (afterFailure_eq fails).imp_right fun h => ⟨_, h⟩⟩
    obtain ⟨phase, hp, hcases⟩ := hphase
    rw [hp]
    rcases hcases with rfl | ⟨n, rfl⟩
    · exact ⟨.left, rfl, rfl, rfl, rfl, rfl, by simp [share, ConnThread.counted, setPhase],
        by simp [share, ConnThread.isOnline], .inl ⟨rfl, rfl⟩⟩
    · exact ⟨.looping n, rfl, rfl, rfl, rfl, rfl, by simp [share, ConnThread.counted, setPhase],
        by simp [share, ConnThread.isOnline], .inl ⟨rfl, rfl⟩⟩
  | left =>
    obtain rfl := Option.some.inj h
    exact ⟨.removed, rfl, rfl, rfl, rfl, rfl, rfl, rfl, .inr ⟨rfl, rfl, rfl⟩⟩
  | removed =>
    obtain rfl := Option.some.inj h
    exact ⟨.finished, rfl, rfl, rfl, rfl, rfl, by simp [share, ConnThread.counted],
      by simp [share, ConnThread.isOnline, setPhase], .inl ⟨rfl, rfl⟩⟩
  | finished => cases h

theorem test_main : s.test.main = if s.wantsMore then .fetching else .checking 0 := rfl

theorem idle_test (s : Lifecycle) :
    s.test.main.Idle ∧ (s.test.main = .fetching → s.wantsMore = true) := by
  rw [test_main]
  cases s.wantsMore with
  | true => exact ⟨trivial, fun _ => rfl⟩
  | false => exact ⟨trivial, MainPhase.noConfusion⟩

/-- What the steps of the main thread can do: store a threshold, register a host that is not, start
its thread, or go on. -/
theorem mainStep_eq_some (h : s.mainStep t = some s') :
    (∃ hosts minConn, s.main = .storing hosts minConn ∧
        s' = { s with minConn, main := .connecting hosts }) ∨
      (∃ host hosts, s.main = .connecting (host :: hosts) ∧ host ∉ s.hosts ∧
        s' = { s with hosts := insert host s.hosts, main := .spawning host hosts }) ∨
      (∃ host hosts, s.main = .spawning host hosts ∧ s.alive < threadLimit ∧
        s' = { s with threads := s.threads ++ [{ host }], main := .staggering hosts }) ∨
      ∃ main, s' = { s with main } ∧ s.main.Idle ∧ main.Idle ∧
        (main = .fetching → s.wantsMore = true) := by
  obtain ⟨closed, minConn, hosts, connCnt, onlineCnt, main, threads⟩ := s
  cases main with
  | fetching | returned => cases h
  | storing rest minConn =>
    obtain rfl := Option.some.inj h
    exact .inl ⟨rest, minConn, rfl, rfl⟩
  | connecting rest =>
    cases rest with
    | nil =>
      obtain rfl := Option.some.inj h
      exact .inr (.inr (.inr ⟨_, rfl, trivial, trivial, MainPhase.noConfusion⟩))
    | cons host rest =>
      simp only [mainStep] at h
      split at h
      · obtain rfl := Option.some.inj h
        exact .inr (.inr (.inr ⟨_, rfl, trivial, trivial, MainPhase.noConfusion⟩))
      split at h
      · obtain rfl := Option.some.inj h
        exact .inr (.inr (.inr ⟨_, rfl, trivial, trivial, MainPhase.noConfusion⟩))
      · rename_i hnew
        obtain rfl := Option.some.inj h
        exact .inr (.inl ⟨host, rest, rfl, hnew, rfl⟩)
  | spawning host rest =>
    simp only [mainStep] at h
    split at h
    · rename_i hroom
      obtain rfl := Option.some.inj h
      exact .inr (.inr (.inl ⟨host, rest, rfl, hroom, rfl⟩))
    · cases h
  | staggering rest =>
    obtain rfl := Option.some.inj h
    exact .inr (.inr (.inr ⟨_, rfl, trivial, trivial, MainPhase.noConfusion⟩))
  | checking tick =>
    obtain rfl := Option.some.inj h
    refine .inr (.inr (.inr ⟨_, rfl, trivial, ?_⟩))
    cases closed <;> exact ⟨trivial, MainPhase.noConfusion⟩
  | sleeping tick =>
    simp only [mainStep] at h
    split at h <;> split at h <;> obtain rfl := Option.some.inj h
    · exact .inr (.inr (.inr ⟨_, rfl, trivial, trivial, MainPhase.noConfusion⟩))
    · exact .inr (.inr (.inr ⟨_, rfl, trivial, idle_test _⟩))
    · exact .inr (.inr (.inr ⟨_, rfl, trivial, trivial, MainPhase.noConfusion⟩))
    · exact .inr (.inr (.inr ⟨_, rfl, trivial, idle_test _⟩))

/-- A reply is taken while the main thread waits for it, and changes nothing else. -/
theorem reply_eq_some {r : HttpReply} (h : s.step t J (.reply r) = some s') :
    s.main = .fetching ∧ ∃ main, s' = { s with main } ∧
      ((∃ e, getHosts J r = .error e ∧ main = .checking 0) ∨
        ∃ hosts minConn, getHosts J r = .ok (hosts, minConn) ∧
          main = .storing (dialled hosts) (clampMinConn (dialled hosts) minConn)) := by
  simp only [step] at h
  split at h
  · rename_i hmain
    cases hr : getHosts J r with
    | error e =>
      simp only [hr] at h
      exact ⟨hmain, _, (Option.some.inj h).symm, .inl ⟨e, rfl, rfl⟩⟩
    | ok p =>
      simp only [hr] at h
      exact ⟨hmain, _, (Option.some.inj h).symm, .inr ⟨p.1, p.2, rfl, rfl⟩⟩
  · cases h

end Steps

end Lifecycle

end Spot

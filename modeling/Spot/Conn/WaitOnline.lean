import Spot.Conn.Bookkeeping
import Spot.Conn.Threshold
import Spot.General.Monitor

/-!
# Waiting to be online

`wait_online` and what wakes it: connections that come online and go offline again, thresholds that
`run_connect` stores, and `close`.  The first two write under the lock of the online count, `close`
does not, so that a waiter that has found the client open can park after `close` has notified
already.  `wait_online_iff`: along every run no waiter is lost, if and only if none parks in that
way.  It rests on `Counted`: the count does not wrap around, as no more threads count a connection
than there can be.
-/

namespace Spot

/-- What the waiters read. -/
structure SharedCount where
  closed : Bool := false
  minConn : UInt32 := 1
  onlineCnt : UInt32 := 0

namespace SharedCount

/-- Enough connections are online. -/
def isOnline (s : SharedCount) : Bool := want s.minConn ≤ s.onlineCnt

def incr (s : SharedCount) : SharedCount := { s with onlineCnt := s.onlineCnt + 1 }

def decr (s : SharedCount) : SharedCount := { s with onlineCnt := s.onlineCnt - 1 }

def storeMinConn (minConn : UInt32) (s : SharedCount) : SharedCount := { s with minConn }

def close (s : SharedCount) : SharedCount := { s with closed := true }

end SharedCount

/-- What is written to the state of the waiters. -/
inductive CountWrite
  | incr
  | decr
  | storeMinConn (minConn : UInt32)
  | close
  deriving DecidableEq

def CountWrite.apply : CountWrite → SharedCount → SharedCount
  | incr, s => s.incr
  | decr, s => s.decr
  | storeMinConn minConn, s => s.storeMinConn minConn
  | close, s => s.close

/-- What changes the state of the waiters: a connection from its first packet to its last, the store
of a threshold, and the end of the client. -/
inductive CountOp
  | connection
  | runConnect (minConn : UInt32)
  | close

def onlineIncr : List (MonitorOp CountWrite) := [.lock, .write .incr, .notify, .unlock]

def onlineDecr : List (MonitorOp CountWrite) := [.lock, .write .decr, .unlock]

/-- The steps of each. -/
def CountOp.program : CountOp → List (MonitorOp CountWrite)
  | connection => onlineIncr ++ onlineDecr
  | runConnect minConn => [.lock, .write (.storeMinConn minConn), .unlock, .notify]
  | close => [.write .close, .notify]

/-- The loop of `wait_online`: it looks at the count and the threshold, then at the flag.  Whatever
writes is a thread; one that takes a connection off the count relies on being counted. -/
def waitOnline : MonitorCode SharedCount CountWrite CountOp where
  conditions := [⟨SharedCount.isOnline, true⟩, ⟨SharedCount.closed, false⟩]
  apply := CountWrite.apply
  relies w s := w = .decr → 0 < s.onlineCnt
  program := CountOp.program
  limit := threadLimit

/-- A waiter is parked although the client is online or closed, no notification to it is pending,
and no operation that has written is about to notify. -/
def LostWaiter (s : Monitor SharedCount CountWrite) : Prop :=
  .parked ∈ s.parties ∧ (s.shared.isOnline = true ∨ s.shared.closed = true) ∧ ¬ s.Pending

/-- No waiter parks when the client is closed, unless an operation is about to notify. -/
def ParksOpen (s : Monitor SharedCount CountWrite) : MonitorEvent CountOp → Prop
  | .turn i true => s.parties[i]? = some (.testing []) → s.shared.closed = true → s.Pending
  | _ => True

theorem parksOpen_of_open {s : Monitor SharedCount CountWrite} {a : MonitorEvent CountOp}
    (h : s.shared.closed = false) : ParksOpen s a := by
  cases a with
  | turn i parks =>
    cases parks with
    | true => exact fun _ hclosed => by rw [h] at hclosed; cases hclosed
    | false => trivial
  | _ => trivial

theorem lost_waitOnline : Monitor.Lost waitOnline = LostWaiter := by
  funext s
  simp [Monitor.Lost, LostWaiter, waitOnline]

theorem parksInTime_waitOnline : Monitor.ParksInTime waitOnline = ParksOpen := by
  funext s a
  cases a with
  | turn i parks =>
    cases parks with
    | true => simp [Monitor.ParksInTime, ParksOpen, waitOnline]
    | false => rfl
  | _ => rfl

theorem isOnline_of_decr {s : SharedCount} (hpos : 0 < s.onlineCnt)
    (h : s.decr.isOnline = true) : s.isOnline = true := by
  have hle : want s.minConn ≤ s.onlineCnt - 1 := of_decide_eq_true h
  have hsub : (s.onlineCnt - 1).toNat = s.onlineCnt.toNat - 1 := UInt32.toNat_sub_of_le _ _ hpos
  refine decide_eq_true (UInt32.le_iff_toNat_le.2 ?_)
  rw [UInt32.le_iff_toNat_le, hsub] at hle
  omega

/-! ## The count -/

/-- The worker has counted its connection and is still to take it off the count. -/
def counting : Party SharedCount CountWrite → Bool
  | .worker _ _ todo => MonitorOp.write .decr ∈ todo && MonitorOp.write .incr ∉ todo
  | _ => false

/-- A program counts its connection at most once, and takes it off the count after that. -/
def CountsOnce : List (MonitorOp CountWrite) → Prop
  | [] => True
  | .write .incr :: todo =>
    (.write .decr ∈ todo ∧ .write .incr ∉ todo) ∧ CountsOnce todo
  | .write .decr :: todo =>
    (.write .decr ∉ todo ∧ .write .incr ∉ todo) ∧ CountsOnce todo
  | _ :: todo => CountsOnce todo

/-- The count is the number of workers that have counted a connection, and there are fewer of them
than would make it wrap around. -/
structure Counted (s : Monitor SharedCount CountWrite) : Prop where
  count : s.shared.onlineCnt = UInt32.ofNat (s.parties.countP counting)
  busy_le : s.busy ≤ threadLimit
  once : ∀ held written todo, .worker held written todo ∈ s.parties → CountsOnce todo

theorem countsOnce_program (op : CountOp) : CountsOnce op.program := by
  cases op with
  | connection => exact ⟨by decide, by decide, trivial⟩
  | runConnect | close => trivial

theorem CountsOnce.tail {op : MonitorOp CountWrite} {todo : List (MonitorOp CountWrite)}
    (h : CountsOnce (op :: todo)) : CountsOnce todo := by
  cases op with
  | write w =>
    cases w with
    | incr | decr => exact h.2
    | storeMinConn | close => exact h
  | _ => exact h

section Count

variable {s s' : Monitor SharedCount CountWrite} {i : ℕ} {parks : Bool}
  {p q : Party SharedCount CountWrite} {shared : SharedCount} {holder : Option ℕ}
  {a : MonitorEvent CountOp}

theorem counting_wake (p : Party SharedCount CountWrite) : counting p.wake = counting p := by
  cases p <;> rfl

theorem busy_of_counting (h : counting p = true) : p.busy = true := by
  cases p with
  | worker held written todo =>
    cases todo with
    | nil => cases h
    | cons => rfl
  | _ => cases h

/-- The count changes by what the party that moves contributes. -/
theorem count_move (hm : s.Move waitOnline i parks p q shared holder)
    (honce : ∀ held written todo, p = .worker held written todo → CountsOnce todo) :
    shared.onlineCnt + UInt32.ofNat (share counting p) =
      s.shared.onlineCnt + UInt32.ofNat (share counting q) := by
  cases hm with
  | write held written w todo =>
    have htodo := honce _ _ _ rfl
    cases w with
    | incr =>
      obtain ⟨⟨hdecr, hincr⟩, -⟩ := htodo
      have hp : share counting (.worker held written (.write .incr :: todo)) = 0 := by
        simp [share, counting]
      have hq : share counting (.worker held true todo) = 1 := by
        simp [share, counting, hdecr, hincr]
      rw [hp, hq]
      exact add_zero _
    | decr =>
      obtain ⟨⟨hdecr, hincr⟩, -⟩ := htodo
      have hp : share counting (.worker held written (.write .decr :: todo)) = 1 := by
        simp [share, counting, hincr]
      have hq : share counting (.worker held true todo) = 0 := by
        simp [share, counting, hdecr]
      rw [hp, hq]
      exact (sub_add_cancel _ _).trans (add_zero _).symm
    | storeMinConn | close =>
      exact congrArg (s.shared.onlineCnt + UInt32.ofNat ·) (by simp [share, counting])
  | lock | announce | unlock => simp [share, counting]
  | enter p hp => obtain rfl | rfl := hp <;> rfl
  | _ => rfl

theorem Counted.step (hs : Counted s) (h : s.step waitOnline a = some s') : Counted s' where
  count := by
    cases a with
    | wait =>
      obtain rfl := Option.some.inj h
      rw [countP_concat]
      exact hs.count
    | work op =>
      rw [Monitor.step, Option.ite_none_right_eq_some] at h
      obtain rfl := Option.some.inj h.2
      have hzero : share counting (.worker false false (waitOnline.program op)) = 0 := by
        cases op <;> rfl
      rw [countP_concat]
      exact hs.count.trans (by rw [hzero, add_zero])
    | turn i parks =>
      obtain ⟨p, hi, ht⟩ := Option.bind_eq_some_iff.1 h
      obtain ⟨q, hm, hadd⟩ := Monitor.countP_turn counting_wake hi ht
      refine counter_eq_of_shift (count_move hm ?_) hadd hs.count
      exact fun held written todo e => hs.once held written todo (e ▸ List.mem_of_getElem? hi)
  busy_le := Monitor.busy_le_step hs.busy_le h
  once := Monitor.forall_todo_step countsOnce_program (fun _ _ => CountsOnce.tail) hs.once h

/-- A worker that takes a connection off the count finds it there. -/
theorem Counted.relied (hs : Counted s) : s.Relied waitOnline := by
  rintro held written w todo hw rfl
  obtain ⟨⟨-, hincr⟩, -⟩ := hs.once _ _ _ hw
  have hpos : 0 < s.parties.countP counting :=
    List.countP_pos_iff.2 ⟨_, hw, by simp [counting, hincr]⟩
  have hle : s.parties.countP counting ≤ s.busy :=
    List.countP_mono_left fun p _ => busy_of_counting
  have hlt : s.parties.countP counting < UInt32.size :=
    lt_of_le_of_lt (hle.trans hs.busy_le) (by decide)
  rw [hs.count, UInt32.lt_iff_toNat_lt, UInt32.toNat_ofNat_of_lt' hlt]
  exact hpos

end Count

/-! ## No waiter is lost -/

/-- Going offline makes no waiter's condition hold; all else is followed by a notification, and only
`close` writes without the lock. -/
theorem waitOnline_lawful : waitOnline.Lawful where
  announces op := by
    cases op with
    | connection =>
      have hdecr : ∀ c ∈ waitOnline.conditions, ∀ x : SharedCount,
          waitOnline.relies .decr x → c.test x.decr = true → c.test x = true := by
        intro c hc x hpos h
        simp only [waitOnline, List.mem_cons, List.not_mem_nil, or_false] at hc
        obtain rfl | rfl := hc
        · exact isOnline_of_decr (hpos rfl) h
        · exact h
      refine ⟨.inl ?_, .inr hdecr, trivial⟩
      simp
    | runConnect minConn => exact ⟨.inl (by simp), trivial⟩
    | close => exact ⟨.inl (by simp), trivial⟩
  disciplined op := by
    cases op with
    | connection => exact ⟨.inl rfl, rfl, .inl rfl, rfl, trivial⟩
    | runConnect minConn => exact ⟨.inl rfl, rfl, trivial⟩
    | close =>
      refine ⟨.inr fun c hc hlocked x h => ?_, trivial⟩
      simp only [waitOnline, List.mem_cons, List.not_mem_nil, or_false] at hc
      obtain rfl | rfl := hc
      · exact h
      · cases hlocked

/-- Nobody waits and nothing has happened. -/
def onlineStart : Monitor SharedCount CountWrite := { shared := {} }

theorem sound_onlineStart : onlineStart.Sound waitOnline where
  holder_lt i h := by cases h
  holds i p h := by simp [onlineStart] at h
  passed rest h := absurd h List.not_mem_nil
  lawful held written todo h := absurd h List.not_mem_nil

theorem counted_onlineStart : Counted onlineStart where
  count := rfl
  busy_le := Nat.zero_le _
  once _ _ _ h := absurd h List.not_mem_nil

/-- Along every run no waiter is lost if and only if none parks after the client has been closed and
all notifications are over. -/
theorem wait_online_iff {as : List (MonitorEvent CountOp)} {s : Monitor SharedCount CountWrite}
    (hr : run (Monitor.step waitOnline) onlineStart as = some s) :
    Throughout (Monitor.step waitOnline) (fun s => ¬ LostWaiter s) onlineStart as ↔
      Guarded (Monitor.step waitOnline) ParksOpen onlineStart as := by
  have hstart : ¬ onlineStart.Lost waitOnline := fun h => absurd h.1 List.not_mem_nil
  have hiff := Monitor.throughout_not_lost_iff waitOnline_lawful (fun _ _ _ => Counted.step)
    (fun _ => Counted.relied) counted_onlineStart sound_onlineStart hstart hr
  rw [parksInTime_waitOnline] at hiff
  simp only [lost_waitOnline] at hiff
  exact hiff

/-- A waiter finds the client open, is overtaken by `close`, and parks. -/
def overtaken : List (MonitorEvent CountOp) :=
  [.wait, .work .close, .turn 0 true, .turn 0 true, .turn 0 true, .turn 1 true, .turn 1 true,
    .turn 0 true]

theorem not_wait_online_overtaken :
    ¬ ∀ as s, run (Monitor.step waitOnline) onlineStart as = some s → ¬ LostWaiter s := by
  intro h
  have hrun : run (Monitor.step waitOnline) onlineStart overtaken =
      some { shared := { closed := true }, parties := [.parked, .worker false false []] } := rfl
  refine h overtaken _ hrun ⟨List.mem_cons_self, .inr rfl, ?_⟩
  rintro ⟨held, todo, hw, -⟩
  simp at hw

/-- A waiter that parks while the client is open, and is woken by `close`. -/
def wokenByClose : List (MonitorEvent CountOp) :=
  [.wait, .work .close, .turn 0 true, .turn 0 true, .turn 0 true, .turn 0 true, .turn 1 true,
    .turn 1 true]

theorem wait_online_iff_wokenByClose :
    Throughout (Monitor.step waitOnline) (fun s => ¬ LostWaiter s) onlineStart wokenByClose := by
  have hrun : run (Monitor.step waitOnline) onlineStart wokenByClose =
      some { shared := { closed := true }, parties := [.waking, .worker false false []] } := rfl
  refine (wait_online_iff hrun).2 ?_
  -- the client is open up to the step of `close` that stores the flag
  iterate 7
    refine ⟨parksOpen_of_open rfl, ?_⟩
    rintro _ ⟨⟩
  refine ⟨fun h => ?_, fun _ _ => trivial⟩
  cases h

end Spot

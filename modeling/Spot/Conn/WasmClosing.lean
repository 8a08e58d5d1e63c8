import Spot.Conn.WasmFlush
import Spot.General.Potential

/-!
# The end of the browser's connections

In the browser nothing closes a socket when the client does: the task of a connection looks at the
flag when a message has arrived or its timer has run out.  `LoopState.work` bounds what the tasks
can do by themselves, `step_work` says that they use it up and what packets, dials and pushes bring
in, and `close_ends_tasks` what is left of a closed client when nothing more comes: no task, no
flush and no sink.
-/

namespace Spot

variable {V : Uvarint} {C : Ciborium}

/-- The most steps that the task of a connection of a closed client takes before it needs another
packet, with three for the message it is sending. -/
def ConnTask.work : ConnTask V C → ℕ
  | .closed => 0
  | .handshaking | .reading | .challenged _ => 1
  | .answering => 2
  | .installing _ => 4

def ConnTask.ended : ConnTask V C → Bool
  | .closed => true
  | _ => false

namespace LoopEvent

/-- A timer runs out, or a send completes. -/
def own : LoopEvent → Bool
  | recv _ .silent _ | done _ _ | pushDone _ _ => true
  | recv _ _ _ | dial | push _ | close => false

/-- What an event from outside gives the tasks to do. -/
def brings : LoopEvent → ℕ
  | recv _ .silent _ => 0
  | recv _ _ _ | dial => 1
  | push _ => 3
  | done _ _ | pushDone _ _ | close => 0

end LoopEvent

namespace LoopState

/-- What the tasks of the connections have left. -/
def taskWork (s : LoopState V C) : ℕ := (s.conns.map (·.task.work)).sum

/-- What all tasks have left, with two for each message in the queue. -/
def work (s : LoopState V C) : ℕ :=
  2 * s.outq.length + 3 * s.pushes.countP Option.isSome + s.taskWork

/-- No timer can run out and no send completes. -/
def Settled (s : LoopState V C) : Prop := ∀ a : LoopEvent, a.own = true → s.step a = none

/-- The slot holds the sink of a connection that is online. -/
def SinkOnline (s : LoopState V C) : Prop :=
  ∀ c ∈ s.sink, ∃ t, s.task? c = some t ∧ t.online = true

/-! ## What a flush uses up -/

section Flush

variable {s s' : LoopState V C} {c d : ℕ} {t : ConnTask V C}

theorem closed_flushOut : s.flushOut.1.closed = s.closed := by
  unfold flushOut
  split <;> rfl

theorem pushes_flushOut : s.flushOut.1.pushes = s.pushes := by
  unfold flushOut
  split <;> rfl

theorem length_takeNext (c : ℕ) (q : List Ticketed) :
    (takeNext (V := V) (C := C) c q).1.length +
      share Option.isSome (takeNext (V := V) (C := C) c q).2 ≤ q.length := by
  induction q with
  | nil => exact Nat.le_refl _
  | cons m q ih =>
    rw [takeNext]
    split
    · exact Nat.le_refl _
    · exact ih.trans (Nat.le_succ _)

theorem length_flushOut :
    s.flushOut.1.outq.length + share Option.isSome s.flushOut.2 ≤ s.outq.length := by
  unfold flushOut
  split
  · exact Nat.le_refl _
  · exact length_takeNext _ _

theorem taskWork_eq_of_conns (h : s'.conns = s.conns) : s'.taskWork = s.taskWork := by
  rw [taskWork, taskWork, h]

theorem taskWork_fail : (s.fail c).taskWork = s.taskWork := by
  unfold taskWork fail
  cases hx : s.conns[c]? with
  | none => rw [List.modify_eq_set_getElem?, hx]; rfl
  | some x =>
    rw [modify_eq_set hx]
    exact congrArg List.sum (map_set_of_eq hx rfl)

theorem taskWork_setTask (h : s.task? c = some t) (t' : ConnTask V C) :
    (s.setTask c t').taskWork + t.work = s.taskWork + t'.work := by
  obtain ⟨x, hx, rfl⟩ := Option.map_eq_some_iff.1 h
  rw [setTask, taskWork, modify_eq_set hx]
  exact sum_set_add hx (·.task.work) { x with task := t' }

/-- A send that completes uses something up, whether the flush takes another message or ends, and
whether the message is sent or goes back. -/
theorem flushSent_work (f : Sending V C) (ok : Bool) :
    2 * (s.flushSent f ok).1.outq.length + 3 * share Option.isSome (s.flushSent f ok).2 + 1 ≤
        2 * s.outq.length + 3 ∧
      (s.flushSent f ok).1.taskWork = s.taskWork ∧ (s.flushSent f ok).1.closed = s.closed := by
  cases ok with
  | true =>
    have hlen : (s.flushSent f true).1.outq.length +
        share Option.isSome (s.flushSent f true).2 ≤ s.outq.length :=
      length_flushOut (s := { s with sent := s.sent ++ [f] })
    have hone := share_le_one Option.isSome (s.flushSent f true).2
    refine ⟨?_, taskWork_eq_of_conns flushOut_conns, ?_⟩
    · omega
    · exact closed_flushOut
  | false => exact ⟨Nat.le_refl _, taskWork_fail, rfl⟩

theorem work_afterFlush (r : Option (Sending V C)) :
    (afterFlush r).work = 1 + 3 * share Option.isSome r := by
  cases r <;> rfl

end Flush

/-! ## What a step uses up -/

section Steps

variable {s s' : LoopState V C} {a : LoopEvent} {c i : ℕ} {t : ConnTask V C}

theorem work_setTask (h : s.task? c = some t) (t' : ConnTask V C) :
    (s.setTask c t').work + t.work = s.work + t'.work := by
  have htask := taskWork_setTask h t'
  have hsame : (s.setTask c t').work =
      2 * s.outq.length + 3 * s.pushes.countP Option.isSome + (s.setTask c t').taskWork := rfl
  rw [hsame, work]
  omega

theorem work_dropSink (h : s.task? c = some t) : (s.dropSink c).work + t.work = s.work :=
  work_setTask (s := { s with sink := none }) h .closed

/-- A connection that gets online has at most one more thing to do than one in its handshake. -/
theorem work_setSink (h : s.task? c = some .handshaking) : (s.setSink c).work ≤ s.work + 1 := by
  obtain ⟨x, hx, htask⟩ := Option.map_eq_some_iff.1 h
  let r := ({ s with sink := some c } : LoopState V C).flushOut
  have hlen : r.1.outq.length + share Option.isSome r.2 ≤ s.outq.length := length_flushOut
  have hconns : r.1.conns = s.conns := flushOut_conns
  have hpushes : r.1.pushes = s.pushes := pushes_flushOut
  have hone := share_le_one Option.isSome r.2
  have hsum := sum_set_add hx (·.task.work) { task := afterFlush r.2 }
  have hwork : (s.setSink c).work = 2 * r.1.outq.length + 3 * r.1.pushes.countP Option.isSome +
      ((r.1.conns.modify c fun _ => { task := afterFlush r.2 }).map (·.task.work)).sum := rfl
  have hhandshaking : x.task.work = 1 := by rw [htask]; rfl
  rw [hwork, hconns, hpushes, modify_eq_set hx, work, taskWork]
  simp only [work_afterFlush, hhandshaking] at hsum
  omega

theorem work_fail : (s.fail c).work = s.work := by
  rw [work, work, taskWork_fail]
  rfl

theorem closed_setSink : (s.setSink c).closed = s.closed := closed_flushOut

theorem closed_reactRead (r : Reaction) : (s.reactRead c r).closed = s.closed := by
  cases r with
  | answer buf => cases hs : s.sink <;> rw [reactRead, hs] <;> rfl
  | stay | ready | leave => rfl

theorem work_reactHandshake (h : s.task? c = some .handshaking) (r : Reaction) :
    (s.reactHandshake c r).work ≤ s.work + 1 := by
  cases r with
  | stay => exact Nat.le_succ _
  | ready => exact work_setSink h
  | answer buf =>
    have hset := work_setTask (s := s.logAnswer c (some c) buf) h .answering
    exact Nat.le_of_eq (Nat.succ.inj hset)
  | leave =>
    have hset := work_setTask h .closed
    exact (Nat.le_of_lt (Nat.lt_of_succ_le (Nat.le_of_eq hset))).trans (Nat.le_succ _)

theorem work_reactRead (h : s.task? c = some .reading) (r : Reaction) :
    (s.reactRead c r).work ≤ s.work := by
  cases r with
  | stay | ready => exact Nat.le_refl _
  | answer buf =>
    cases hs : s.sink with
    | some d =>
      have hset := work_setTask (s := s.logAnswer c (some d) buf) h (.challenged d)
      rw [reactRead, hs]
      exact Nat.le_of_eq (Nat.succ.inj hset)
    | none =>
      have hdrop := work_dropSink (s := s.logAnswer c none buf) h
      rw [reactRead, hs]
      exact (Nat.le_succ _).trans (Nat.le_of_eq hdrop)
  | leave => exact (Nat.le_succ _).trans (Nat.le_of_eq (work_dropSink h))

/-- A packet brings the task of a connection at most one more thing to do; a timer that runs out
ends it. -/
theorem recv_work {ar : Arrival} {response : Option Bytes} (hc : s.closed = true)
    (h : s.step (.recv c ar response) = some s') :
    s'.closed = true ∧ s'.work + share LoopEvent.own (.recv c ar response) ≤
      s.work + (LoopEvent.recv c ar response).brings := by
  have hbrings : ar ≠ .silent → share LoopEvent.own (.recv c ar response) = 0 ∧
      (LoopEvent.recv c ar response).brings = 1 := by
    intro hne
    cases ar with
    | silent => exact absurd rfl hne
    | _ => exact ⟨rfl, rfl⟩
  rcases step_recv h with ⟨ht, r, hr, rfl⟩ | ⟨ht, r, hr, rfl⟩
  · refine ⟨?_, ?_⟩
    · cases r with
      | ready => exact closed_setSink.trans hc
      | stay | answer buf | leave => exact hc
    by_cases har : ar = .silent
    · subst har
      obtain rfl : r = .leave := (Option.some.inj hr).symm
      exact Nat.le_of_eq (work_setTask ht .closed)
    · rw [(hbrings har).1, (hbrings har).2]
      exact work_reactHandshake ht r
  · refine ⟨(closed_reactRead r).trans hc, ?_⟩
    by_cases har : ar = .silent
    · subst har
      rw [readRound, if_pos hc] at hr
      obtain rfl := Option.some.inj hr
      exact Nat.le_of_eq (work_dropSink ht)
    · rw [(hbrings har).1, (hbrings har).2]
      exact (work_reactRead ht r).trans (Nat.le_succ _)

/-- A send that completes leaves less to do. -/
theorem done_work {ok : Bool} (hc : s.closed = true) (h : s.step (.done c ok) = some s') :
    s'.closed = true ∧ s'.work + 1 ≤ s.work := by
  rcases step_done h with ⟨ht, rfl⟩ | ⟨f, ht, rfl⟩ | ⟨d, ht, hd⟩
  · refine ⟨hc, ?_⟩
    have hset := work_setTask ht (if ok then .handshaking else .closed)
    cases ok with
    | true => exact Nat.le_of_eq (Nat.succ.inj hset)
    | false => exact (Nat.le_succ _).trans (Nat.le_of_eq hset)
  · obtain ⟨hlen, htask, hclosed⟩ := flushSent_work (s := s) f ok
    refine ⟨hclosed.trans hc, ?_⟩
    have ht' : (s.flushSent f ok).1.task? c = some (.installing f) := task?_flushSent ht
    have hset := work_setTask ht' (afterFlush (s.flushSent f ok).2)
    have hinstalling : (ConnTask.installing f).work = 4 := rfl
    rw [work_afterFlush, hinstalling] at hset
    simp only [work, pushes_flushSent, htask] at hset ⊢
    omega
  · rcases hd with ⟨-, -, rfl⟩ | ⟨-, hopen, rfl⟩ | ⟨-, rfl⟩
    · exact ⟨hc, Nat.le_of_eq (work_dropSink ht)⟩
    · rw [hc] at hopen
      cases hopen
    · refine ⟨hc, ?_⟩
      have hdrop := work_dropSink (s := s.fail d) (task?_fail.trans ht)
      rw [work_fail] at hdrop
      exact Nat.le_of_eq hdrop

theorem pushDone_work {ok : Bool} (hc : s.closed = true) (h : s.step (.pushDone i ok) = some s') :
    s'.closed = true ∧ s'.work + 1 ≤ s.work := by
  obtain ⟨f, hf, rfl⟩ := step_pushDone h
  obtain ⟨hlen, htask, hclosed⟩ := flushSent_work (s := s) f ok
  refine ⟨hclosed.trans hc, ?_⟩
  have hcount := countP_set_add hf Option.isSome (s.flushSent f ok).2
  have hone : share Option.isSome (some f) = 1 := rfl
  rw [hone] at hcount
  have hwork : LoopState.work { (s.flushSent f ok).1 with
      pushes := (s.flushSent f ok).1.pushes.set i (s.flushSent f ok).2 } =
      2 * (s.flushSent f ok).1.outq.length +
        3 * ((s.flushSent f ok).1.pushes.set i (s.flushSent f ok).2).countP Option.isSome +
        (s.flushSent f ok).1.taskWork := rfl
  rw [hwork, pushes_flushSent, htask, work]
  omega

/-- The tasks of a closed client use up what they have to do, and what comes from outside brings
some more. -/
theorem step_work (hc : s.closed = true) (h : s.step a = some s') :
    s'.closed = true ∧ s'.work + share LoopEvent.own a ≤ s.work + a.brings := by
  cases a with
  | dial =>
    obtain rfl := Option.some.inj h
    refine ⟨hc, ?_⟩
    simp only [work, taskWork, List.map_append, List.sum_append, List.map_singleton,
      List.sum_singleton, ConnTask.work, share, LoopEvent.own, LoopEvent.brings]
    exact Nat.le_refl _
  | recv c ar response => exact recv_work hc h
  | done c ok => exact done_work hc h
  | push msg =>
    obtain rfl := Option.some.inj h
    let m : Ticketed := ⟨s.pushed.length, msg⟩
    let s₁ : LoopState V C := { s with outq := s.outq ++ [m], pushed := s.pushed ++ [m] }
    have hlen : s₁.flushOut.1.outq.length + share Option.isSome s₁.flushOut.2 ≤
        s.outq.length + 1 := by
      have h₁ : s₁.outq.length = s.outq.length + 1 := List.length_append
      rw [← h₁]
      exact length_flushOut
    have hone := share_le_one Option.isSome s₁.flushOut.2
    have hpushes : s₁.flushOut.1.pushes = s.pushes := pushes_flushOut
    have htask : s₁.flushOut.1.taskWork = s.taskWork := taskWork_eq_of_conns flushOut_conns
    have hwork : (s.pushOut msg).work = 2 * s₁.flushOut.1.outq.length +
        3 * (s₁.flushOut.1.pushes ++ [s₁.flushOut.2]).countP Option.isSome +
        s₁.flushOut.1.taskWork := rfl
    refine ⟨closed_flushOut.trans hc, ?_⟩
    have hown : share LoopEvent.own (.push msg) = 0 := rfl
    have hbrings : (LoopEvent.push msg).brings = 3 := rfl
    rw [hwork, hpushes, htask, countP_concat, work, hown, hbrings]
    omega
  | pushDone i ok => exact pushDone_work hc h
  | close =>
    obtain rfl := Option.some.inj h
    exact ⟨rfl, Nat.le_refl _⟩

end Steps

/-! ## The sink in the slot -/

section Slot

variable {s s' : LoopState V C} {a : LoopEvent} {c d i : ℕ} {t t' : ConnTask V C}

theorem task?_modify (g : WasmConn V C → WasmConn V C) :
    ({ s with conns := s.conns.modify c g } : LoopState V C).task? d =
      if c = d then s.conns[d]?.map fun x => (g x).task else s.task? d := by
  unfold task?
  rw [List.getElem?_modify]
  by_cases h : c = d
  · simp only [if_pos h]
    cases s.conns[d]? <;> rfl
  · simp only [if_neg h]
    cases s.conns[d]? <;> rfl

theorem SinkOnline.setTask (hs : s.SinkOnline) (h : s.task? c = some t)
    (hon : t'.online = true ∨ t.online = false) : (s.setTask c t').SinkOnline := by
  intro d hd
  obtain ⟨u, hu, huon⟩ := hs d hd
  rw [LoopState.setTask, task?_modify]
  by_cases hcd : c = d
  · subst hcd
    obtain rfl := Option.some.inj (h.symm.trans hu)
    obtain ⟨x, hx, -⟩ := Option.map_eq_some_iff.1 h
    rw [if_pos rfl, hx]
    refine ⟨t', rfl, hon.resolve_right ?_⟩
    rw [huon]
    exact Bool.noConfusion
  · rw [if_neg hcd]
    exact ⟨u, hu, huon⟩

theorem SinkOnline.setSink (h : s.task? c = some t) : (s.setSink c).SinkOnline := by
  intro d hd
  have hslot : (s.setSink c).sink = some c := flushOut_sink
  obtain rfl : c = d := Option.some.inj (hslot.symm.trans hd)
  obtain ⟨x, hx, -⟩ := Option.map_eq_some_iff.1 h
  rw [LoopState.setSink, task?_modify, if_pos rfl, flushOut_conns, hx]
  exact ⟨_, rfl, online_afterFlush _⟩

theorem SinkOnline.of_none (h : s.sink = none) : s.SinkOnline := by
  intro c hc
  rw [h] at hc
  cases hc

theorem SinkOnline.flushOut (hs : s.SinkOnline) : s.flushOut.1.SinkOnline := by
  intro c hc
  obtain ⟨t, ht, hon⟩ := hs c (flushOut_sink ▸ hc)
  refine ⟨t, ?_, hon⟩
  rw [task?, flushOut_conns]
  exact ht

theorem SinkOnline.flushSent (hs : s.SinkOnline) (f : Sending V C) (ok : Bool) :
    (s.flushSent f ok).1.SinkOnline := by
  cases ok with
  | true => exact SinkOnline.flushOut (s := { s with sent := s.sent ++ [f] }) hs
  | false => exact .of_none rfl

theorem SinkOnline.reactRead (hs : s.SinkOnline) (h : s.task? c = some .reading) (r : Reaction) :
    (s.reactRead c r).SinkOnline := by
  cases r with
  | stay | ready => exact hs
  | answer buf =>
    cases hslot : s.sink with
    | some d =>
      rw [LoopState.reactRead, hslot]
      exact SinkOnline.setTask (s := s.logAnswer c (some d) buf) hs h (.inl rfl)
    | none =>
      rw [LoopState.reactRead, hslot]
      exact .of_none rfl
  | leave => exact .of_none rfl

/-- The slot never holds the sink of a connection that has ended. -/
theorem SinkOnline.step (hs : s.SinkOnline) (h : s.step a = some s') : s'.SinkOnline := by
  cases a with
  | dial =>
    obtain rfl := Option.some.inj h
    intro c hc
    obtain ⟨t, ht, hon⟩ := hs c hc
    obtain ⟨x, hx, rfl⟩ := Option.map_eq_some_iff.1 ht
    have hlt := (List.getElem?_eq_some_iff.1 hx).1
    refine ⟨x.task, ?_, hon⟩
    rw [task?, List.getElem?_append_left hlt, hx]
    rfl
  | recv c ar response =>
    rcases step_recv h with ⟨ht, r, -, rfl⟩ | ⟨ht, r, -, rfl⟩
    · cases r with
      | stay => exact hs
      | ready => exact .setSink ht
      | answer buf => exact SinkOnline.setTask (s := s.logAnswer c (some c) buf) hs ht (.inr rfl)
      | leave => exact hs.setTask ht (.inr rfl)
    · exact hs.reactRead ht r
  | done c ok =>
    rcases step_done h with ⟨ht, rfl⟩ | ⟨f, ht, rfl⟩ | ⟨d, ht, hd⟩
    · exact hs.setTask ht (.inr rfl)
    · exact (hs.flushSent f ok).setTask (task?_flushSent ht) (.inl (online_afterFlush _))
    · rcases hd with ⟨-, -, rfl⟩ | ⟨-, -, rfl⟩ | ⟨-, rfl⟩
      · exact .of_none rfl
      · exact hs.setTask ht (.inl rfl)
      · exact .of_none rfl
  | push msg =>
    obtain rfl := Option.some.inj h
    exact SinkOnline.flushOut (s := { s with
      outq := s.outq ++ [⟨s.pushed.length, msg⟩]
      pushed := s.pushed ++ [⟨s.pushed.length, msg⟩] }) hs
  | pushDone i ok =>
    obtain ⟨f, -, rfl⟩ := step_pushDone h
    exact hs.flushSent f ok
  | close =>
    obtain rfl := Option.some.inj h
    exact hs

end Slot

/-! ## When nothing more comes -/

section Settled

variable {s : LoopState V C}

theorem Settled.task_closed (h : s.Settled) (hc : s.closed = true) :
    ∀ x ∈ s.conns, x.task = .closed := by
  intro x hx
  obtain ⟨c, hc'⟩ := List.mem_iff_getElem?.1 hx
  have htask : s.task? c = some x.task := by rw [task?, hc']; rfl
  have hsilent := h (.recv c .silent none) rfl
  have hdone := h (.done c true) rfl
  cases ht : x.task with
  | closed => rfl
  | handshaking =>
    simp only [step, htask, ht, handshakeRound, Option.map_some] at hsilent
    cases hsilent
  | reading =>
    simp only [step, htask, ht, readRound, hc, if_true, Option.map_some] at hsilent
    cases hsilent
  | answering | installing f =>
    simp only [step, htask, ht] at hdone
    cases hdone
  | challenged d =>
    simp only [step, htask, ht, hc, if_true] at hdone
    cases hdone

theorem Settled.pushes_none (h : s.Settled) : ∀ f ∈ s.pushes, f = none := by
  intro f hf
  obtain ⟨i, hi⟩ := List.mem_iff_getElem?.1 hf
  have hdone := h (.pushDone i true) rfl
  cases f with
  | none => rfl
  | some f =>
    simp only [step, hi] at hdone
    cases hdone

theorem Settled.sink_none (h : s.Settled) (hc : s.closed = true) (hs : s.SinkOnline) :
    s.sink = none := by
  rw [Option.eq_none_iff_forall_not_mem]
  intro c hmem
  obtain ⟨t, ht, hon⟩ := hs c hmem
  obtain ⟨x, hx, rfl⟩ := Option.map_eq_some_iff.1 ht
  rw [h.task_closed hc x (List.mem_of_getElem? hx)] at hon
  cases hon

/-- No flush is under way. -/
theorem Settled.flushing_nil (h : s.Settled) (hc : s.closed = true) : s.flushing = [] := by
  refine List.append_eq_nil_iff.2 ⟨List.filterMap_eq_nil_iff.2 fun x hx => ?_,
    List.filterMap_eq_nil_iff.2 h.pushes_none⟩
  rw [h.task_closed hc x hx]
  rfl

end Settled

/-- From any state in which the client is closed, whatever happens next: the tasks take at most the
steps that they have left, and one more for each packet and each dial and three for each message
that is pushed; and when no timer can run out and no send completes, every connection has ended, no
flush is under way, the slot is empty, and each message ever pushed is once in the queue or sent. -/
theorem close_ends_tasks {as bs : List LoopEvent} {s s' : LoopState V C}
    (hr : run step ({} : LoopState V C) as = some s) (hc : s.closed = true)
    (hr' : run step s bs = some s') :
    bs.countP LoopEvent.own ≤ 2 * s.outq.length + 3 * s.pushes.countP Option.isSome +
        4 * s.conns.countP (!·.task.ended) + (bs.map LoopEvent.brings).sum ∧
      (s'.Settled → (∀ x ∈ s'.conns, x.task = .closed) ∧ (∀ f ∈ s'.pushes, f = none) ∧
        s'.sink = none ∧
        ∀ m ∈ s'.pushed, s'.outq.count m + (s'.sent.map (·.packet.m)).count m = 1) := by
  have hs : s.SinkOnline :=
    run_invariant (fun _ _ _ h hstep => SinkOnline.step h hstep) (.of_none rfl) hr
  have hs' : s'.SinkOnline :=
    run_invariant (fun _ _ _ h hstep => SinkOnline.step h hstep) hs hr'
  have hc' : s'.closed = true :=
    run_invariant (I := fun s : LoopState V C => s.closed = true)
      (fun _ _ _ h hstep => (step_work h hstep).1) hc hr'
  have hall : run step ({} : LoopState V C) (as ++ bs) = some s' := by
    rw [run_append, hr, Option.bind_some, hr']
  have hpushed : s'.Settled →
      ∀ m ∈ s'.pushed, s'.outq.count m + (s'.sent.map (·.packet.m)).count m = 1 := by
    intro h m hm
    have hcount := (pushed_accounted hall).1 m hm
    rwa [h.flushing_nil hc', List.map_nil, List.count_nil, Nat.add_zero] at hcount
  refine ⟨?_, fun h => ⟨h.task_closed hc', h.pushes_none, h.sink_none hc' hs', hpushed h⟩⟩
  have hpotential : s'.work + amount step (fun _ a => 1 * share LoopEvent.own a) s bs ≤
      s.work + amount step (fun _ a => a.brings) s bs := by
    refine run_potential (I := fun s : LoopState V C => s.closed = true) (fun m a m' h hstep => ?_)
      hc hr'
    rw [Nat.one_mul]
    exact step_work h hstep
  rw [amount_kind 1 LoopEvent.own hr', amount_event LoopEvent.brings hr'] at hpotential
  have htasks : s.taskWork ≤ 4 * s.conns.countP (!·.task.ended) := by
    refine sum_map_le fun x => ?_
    obtain ⟨task, failed⟩ := x
    cases task <;> simp [ConnTask.work, ConnTask.ended, share]
  unfold work at hpotential
  omega

/-- A connection is online and sends a message, another one is in its handshake, and the client is
closed. -/
def busyRun : List LoopEvent :=
  [.dial, .recv 0 (.packet readyPacket) none, .push default, .dial, .close]

/-- The send completes, and the timers run out. -/
def quietEnd : List LoopEvent := [.pushDone 0 true, .recv 0 .silent none, .recv 1 .silent none]

def closedLoop : LoopState leb128 bareCiborium := (run step {} busyRun).get rfl

def endedLoop : LoopState leb128 bareCiborium := (run step closedLoop quietEnd).get rfl

theorem settled_endedLoop : endedLoop.Settled := by
  intro a ha
  cases a with
  | recv c ar response | done c ok => rcases c with _ | _ | c <;> rfl
  | pushDone i ok => rcases i with _ | i <;> rfl
  | dial | push msg | close => cases ha

theorem close_ends_tasks_busyRun :
    quietEnd.countP LoopEvent.own ≤ 11 ∧ endedLoop.sink = none ∧
      (∀ x ∈ endedLoop.conns, x.task = .closed) ∧
      endedLoop.outq.count ⟨0, default⟩ +
        (endedLoop.sent.map (·.packet.m)).count ⟨0, default⟩ = 1 := by
  have hr : run step {} busyRun = some closedLoop := rfl
  have hr' : run step closedLoop quietEnd = some endedLoop := rfl
  obtain ⟨hle, hends⟩ := close_ends_tasks hr rfl hr'
  obtain ⟨hclosed, -, hsink, hpushed⟩ := hends settled_endedLoop
  exact ⟨hle, hsink, hclosed, hpushed ⟨0, default⟩ List.mem_cons_self⟩

end LoopState

end Spot

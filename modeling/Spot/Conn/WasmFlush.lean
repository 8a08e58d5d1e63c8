import Spot.Conn.WasmQueue

/-!
# The queue of the event loop

The event loop (`LoopState`) is one environment of the outgoing queue (`OutState`): its connections
install and drop sinks, and its tasks run the flushes.  `Queues.step` says that every step of the
loop is a run of the queue, and `pushed_accounted` what follows for the messages of the loop.
-/

namespace Spot

variable {V : Uvarint} {C : Ciborium}

/-- The send that the flush of a task awaits. -/
def ConnTask.flush? : ConnTask V C → Option (Sending V C)
  | .installing f => some f
  | _ => none

namespace LoopState

/-- The sends that flushes await: those that follow the installation of a sink, and those of the
pushes. -/
def flushing (s : LoopState V C) : List (Sending V C) :=
  s.conns.filterMap (fun x => x.task.flush?) ++ s.pushes.filterMap id

/-- The slot, the queue, and what was pushed and sent are those of the loop. -/
structure Shares (s : LoopState V C) (o : OutState V C) : Prop where
  sink : o.sink = s.sink
  outq : o.outq = s.outq
  pushed : o.pushed = s.pushed
  sent : o.sent = s.sent

/-- The loop has the queue `o`, with the same flushes. -/
structure Queues (s : LoopState V C) (o : OutState V C) : Prop extends Shares s o where
  flushing : List.Perm (o.flushes.filterMap id) s.flushing

section Flushing

variable {s s' : LoopState V C} {o : OutState V C} {c i : ℕ} {t : ConnTask V C}
  {f : Sending V C} {r : Option (Sending V C)}

theorem flushing_setTask (h : s.task? c = some t) (t' : ConnTask V C) :
    List.Perm (t.flush?.toList ++ (s.setTask c t').flushing) (t'.flush?.toList ++ s.flushing) := by
  obtain ⟨x, hx, rfl⟩ := Option.map_eq_some_iff.1 h
  have hset := perm_filterMap_set hx (fun x => x.task.flush?) { x with task := t' }
  rw [flushing, setTask, modify_eq_set hx, ← List.append_assoc, flushing, ← List.append_assoc]
  exact hset.append_right _

theorem flushing_setPush (h : s.pushes[i]? = some (some f)) (r : Option (Sending V C)) :
    List.Perm (f :: ({ s with pushes := s.pushes.set i r } : LoopState V C).flushing)
      (r.toList ++ s.flushing) := by
  have hset := perm_filterMap_set h id r
  let l := s.conns.filterMap fun x => x.task.flush?
  calc List.Perm (f :: (l ++ (s.pushes.set i r).filterMap id))
        (l ++ f :: (s.pushes.set i r).filterMap id) := List.perm_middle.symm
    List.Perm _ (l ++ (r.toList ++ s.pushes.filterMap id)) := hset.append_left l
    List.Perm _ (r.toList ++ (l ++ s.pushes.filterMap id)) := List.perm_append_comm_assoc ..

theorem flushing_push (r : Option (Sending V C)) :
    List.Perm ({ s with pushes := s.pushes ++ [r] } : LoopState V C).flushing
      (r.toList ++ s.flushing) := by
  have hone : [r].filterMap id = r.toList := by cases r <;> rfl
  show List.Perm (s.conns.filterMap (fun x => x.task.flush?) ++ (s.pushes ++ [r]).filterMap id) _
  rw [List.filterMap_append, hone, ← List.append_assoc]
  exact List.perm_append_comm

/-- What is recorded of a flush that has ended, or awaits another send. -/
theorem Queues.of_flush {o' : OutState V C} (hm : s.Queues o) (hshare : s'.Shares o')
    (hs : List.Perm (f :: s'.flushing) (r.toList ++ s.flushing))
    (ho : List.Perm (f :: o'.flushes.filterMap id) (r.toList ++ o.flushes.filterMap id)) :
    s'.Queues o' := by
  refine ⟨hshare, List.Perm.cons_inv (a := f) ?_⟩
  exact ho.trans ((hm.flushing.append_left _).trans hs.symm)

/-- A flush of the loop is one of the queue. -/
theorem Shares.flushOut (hm : s.Shares o) :
    ∃ q r, s.flushOut = ({ s with outq := q }, r) ∧ o.flushOut = ({ o with outq := q }, r) := by
  obtain ⟨sink, outq, flushes, pushed, sent⟩ := o
  obtain ⟨closed, conns, sink', outq', pushes, pushed', sent', answers⟩ := s
  obtain ⟨rfl, rfl, rfl, rfl⟩ := hm
  cases sink with
  | none => exact ⟨outq, none, rfl, rfl⟩
  | some c => exact ⟨_, _, rfl, rfl⟩

/-- A flush that starts in the loop starts in the queue. -/
theorem Queues.startFlush (hm : s.Queues o) :
    ∃ q r, s.flushOut = ({ s with outq := q }, r) ∧
      ∀ s' : LoopState V C, s'.Shares { o with outq := q } →
        List.Perm s'.flushing (r.toList ++ s.flushing) → s'.Queues o.startFlush := by
  obtain ⟨q, r, hs, ho⟩ := hm.toShares.flushOut
  refine ⟨q, r, hs, fun s' hshare hflushing => ?_⟩
  have hone : [r].filterMap id = r.toList := by cases r <;> rfl
  rw [OutState.startFlush, ho]
  refine ⟨⟨hshare.sink, hshare.outq, hshare.pushed, hshare.sent⟩, ?_⟩
  show List.Perm ((o.flushes ++ [r]).filterMap id) _
  rw [List.filterMap_append, hone]
  exact List.perm_append_comm.trans ((hm.flushing.append_left _).trans hflushing.symm)

theorem pushes_flushSent {ok : Bool} : (s.flushSent f ok).1.pushes = s.pushes := by
  cases ok with
  | true =>
    show ({ s with sent := s.sent ++ [f] } : LoopState V C).flushOut.1.pushes = s.pushes
    unfold LoopState.flushOut
    split <;> rfl
  | false => rfl

theorem flushing_fail : (s.fail c).flushing = s.flushing := by
  have hconns : (s.conns.modify c fun x => { x with failed := true }).filterMap
      (fun x => x.task.flush?) = s.conns.filterMap fun x => x.task.flush? := by
    cases hx : s.conns[c]? with
    | none => rw [List.modify_eq_set_getElem?, hx]; rfl
    | some x =>
      obtain ⟨a, b, hl, hset⟩ := exists_filterMap_set hx fun x => x.task.flush?
      rw [modify_eq_set hx, hset, hl]
  exact congrArg (· ++ s.pushes.filterMap id) hconns

theorem flushing_flushSent {ok : Bool} : (s.flushSent f ok).1.flushing = s.flushing := by
  cases ok with
  | true =>
    rw [flushing, pushes_flushSent]
    show ({ s with sent := s.sent ++ [f] } : LoopState V C).flushOut.1.conns.filterMap _ ++ _ = _
    rw [flushOut_conns]
    rfl
  | false => exact flushing_fail (s := { s with outq := f.packet.m :: s.outq, sink := none })

/-- A send of the loop that completes is one of the queue. -/
theorem Queues.flushSent (hm : s.Queues o) (hf : f ∈ s.flushing) (ok : Bool) :
    ∃ i o', o.step (.sent i ok) = some o' ∧ (s.flushSent f ok).1.Shares o' ∧
      ∀ s' : LoopState V C, s'.Shares o' →
        List.Perm (f :: s'.flushing) ((s.flushSent f ok).2.toList ++ s.flushing) →
          s'.Queues o' := by
  obtain ⟨_, hmem, rfl⟩ := List.mem_filterMap.1 (hm.flushing.mem_iff.2 hf)
  obtain ⟨i, hi⟩ := List.mem_iff_getElem?.1 hmem
  cases ok with
  | true =>
    have hshare : ({ s with sent := s.sent ++ [f] } : LoopState V C).Shares
        { o with sent := o.sent ++ [f] } :=
      ⟨hm.sink, hm.outq, hm.pushed, congrArg (· ++ [f]) hm.sent⟩
    obtain ⟨q, r, hs, ho⟩ := hshare.flushOut
    have hsent : s.flushSent f true = ({ s with outq := q, sent := s.sent ++ [f] }, r) :=
      (if_pos rfl).trans hs
    have hstep : o.step (.sent i true) =
        some { o with outq := q, sent := o.sent ++ [f], flushes := o.flushes.set i r } := by
      simp only [OutState.step, hi]
      rw [if_pos trivial, OutState.continueFlush, ho]
    rw [hsent]
    exact ⟨i, _, hstep, ⟨hm.sink, rfl, hm.pushed, hshare.sent⟩,
      fun s' hshare' hs' => hm.of_flush hshare' hs' (perm_filterMap_set hi id r)⟩
  | false =>
    have hstep : o.step (.sent i false) = some { o with
        outq := f.packet.m :: o.outq, sink := none, flushes := o.flushes.set i none } := by
      simp only [OutState.step, hi]
      rfl
    exact ⟨i, _, hstep, ⟨rfl, congrArg (f.packet.m :: ·) hm.outq, hm.pushed, hm.sent⟩,
      fun s' hshare' hs' => hm.of_flush hshare' hs' (perm_filterMap_set hi id none)⟩

theorem Queues.setTask (hm : s.Queues o) (h : s.task? c = some t) {t' : ConnTask V C}
    (ht : t'.flush? = t.flush?) : (s.setTask c t').Queues o := by
  have hset := flushing_setTask h t'
  rw [ht, List.perm_append_left_iff] at hset
  exact ⟨⟨hm.sink, hm.outq, hm.pushed, hm.sent⟩, hm.flushing.trans hset.symm⟩

theorem Queues.dropSink (hm : s.Queues o) (h : s.task? c = some t) (ht : t.flush? = none) :
    (s.dropSink c).Queues { o with sink := none } := by
  have hm' : ({ s with sink := none } : LoopState V C).Queues { o with sink := none } :=
    ⟨⟨rfl, hm.outq, hm.pushed, hm.sent⟩, hm.flushing⟩
  have hclosed : (ConnTask.closed : ConnTask V C).flush? = t.flush? := ht.symm
  exact hm'.setTask h hclosed

theorem flush?_afterFlush (r : Option (Sending V C)) : (afterFlush r).flush? = r := by
  cases r <;> rfl

theorem Queues.setSink (hm : s.Queues o) (h : s.task? c = some .handshaking) :
    (s.setSink c).Queues (OutState.startFlush { o with sink := some c }) := by
  obtain ⟨x, hx, htask⟩ := Option.map_eq_some_iff.1 h
  have hm' : ({ s with sink := some c } : LoopState V C).Queues { o with sink := some c } :=
    ⟨⟨rfl, hm.outq, hm.pushed, hm.sent⟩, hm.flushing⟩
  obtain ⟨q, r, hs, hqueues⟩ := hm'.startFlush
  have hset := perm_filterMap_set hx (fun x => x.task.flush?) { task := afterFlush r }
  simp only [htask, flush?_afterFlush] at hset
  rw [LoopState.setSink, hs]
  refine hqueues _ ⟨rfl, rfl, hm.pushed, hm.sent⟩ ?_
  show List.Perm ((s.conns.modify c fun _ => _).filterMap _ ++ _) _
  rw [modify_eq_set hx, LoopState.flushing, ← List.append_assoc]
  exact hset.append_right _

theorem Queues.pushOut (hm : s.Queues o) (msg : Message) :
    ∃ o', o.step (.pushOut msg) = some o' ∧ (s.pushOut msg).Queues o' := by
  have hm' : ({ s with
        outq := s.outq ++ [⟨s.pushed.length, msg⟩]
        pushed := s.pushed ++ [⟨s.pushed.length, msg⟩] } : LoopState V C).Queues
      { o with
        outq := o.outq ++ [⟨o.pushed.length, msg⟩]
        pushed := o.pushed ++ [⟨o.pushed.length, msg⟩] } := by
    refine ⟨⟨hm.sink, ?_, ?_, hm.sent⟩, hm.flushing⟩
    · show o.outq ++ [_] = s.outq ++ [_]
      rw [hm.outq, hm.pushed]
    · show o.pushed ++ [_] = s.pushed ++ [_]
      rw [hm.pushed]
  obtain ⟨q, r, hs, hqueues⟩ := hm'.startFlush
  refine ⟨_, rfl, ?_⟩
  simp only [LoopState.pushOut, hs]
  exact hqueues _ ⟨hm.sink, rfl, hm'.pushed, hm.sent⟩ (flushing_push r)

theorem Queues.logAnswer (hm : s.Queues o) (c : ℕ) (on : Option ℕ) (buf : Bytes) :
    (s.logAnswer c on buf).Queues o :=
  ⟨⟨hm.sink, hm.outq, hm.pushed, hm.sent⟩, hm.flushing⟩

theorem Queues.fail (hm : s.Queues o) : (s.fail c).Queues o := by
  refine ⟨⟨hm.sink, hm.outq, hm.pushed, hm.sent⟩, ?_⟩
  rw [flushing_fail]
  exact hm.flushing

/-- What a connection does about an arrival in its read loop leaves the queue alone, or empties the
slot. -/
theorem Queues.reactRead (hm : s.Queues o) (h : s.task? c = some .reading) (reaction : Reaction) :
    (s.reactRead c reaction).Queues o ∨
      (s.reactRead c reaction).Queues { o with sink := none } := by
  cases reaction with
  | stay | ready => exact .inl hm
  | answer buf =>
    simp only [LoopState.reactRead]
    split
    · exact .inl ((hm.logAnswer c _ buf).setTask h rfl)
    · exact .inr ((hm.logAnswer c none buf).dropSink h rfl)
  | leave => exact .inr (hm.dropSink h rfl)

theorem mem_flushing_of_task (h : s.task? c = some (.installing f)) : f ∈ s.flushing := by
  obtain ⟨x, hx, htask⟩ := Option.map_eq_some_iff.1 h
  refine List.mem_append_left _ (List.mem_filterMap.2 ⟨x, List.mem_of_getElem? hx, ?_⟩)
  rw [htask]
  rfl

theorem mem_flushing_of_push (h : s.pushes[i]? = some (some f)) : f ∈ s.flushing :=
  List.mem_append_right _ (List.mem_filterMap.2 ⟨some f, List.mem_of_getElem? h, rfl⟩)

theorem Queues.dial (hm : s.Queues o) (h : s.step .dial = some s') : s'.Queues o := by
  obtain rfl := Option.some.inj h
  refine ⟨⟨hm.sink, hm.outq, hm.pushed, hm.sent⟩, ?_⟩
  show List.Perm _ ((s.conns ++ [_]).filterMap _ ++ _)
  have hnew : ([{}] : List (WasmConn V C)).filterMap (fun x => x.task.flush?) = [] := rfl
  rw [List.filterMap_append, hnew, List.append_nil]
  exact hm.flushing

/-- What a connection reads installs or drops a sink, or leaves the queue as it is. -/
theorem Queues.recv {a : Arrival} {response : Option Bytes} (hm : s.Queues o)
    (h : s.step (.recv c a response) = some s') :
    s'.Queues o ∨ ∃ e o', o.step e = some o' ∧ s'.Queues o' := by
  rcases step_recv h with ⟨htask, reaction, -, rfl⟩ | ⟨htask, reaction, -, rfl⟩
  · cases reaction with
    | stay => exact .inl hm
    | ready => exact .inr ⟨.setSink c, _, rfl, hm.setSink htask⟩
    | answer buf => exact .inl ((hm.logAnswer c (some c) buf).setTask htask rfl)
    | leave => exact .inl (hm.setTask htask rfl)
  · rcases hm.reactRead htask reaction with hq | hq
    · exact .inl hq
    · exact .inr ⟨.dropSink, _, rfl, hq⟩

/-- What a connection awaits ends: a flush goes on, or the sink may be dropped. -/
theorem Queues.done {ok : Bool} (hm : s.Queues o) (h : s.step (.done c ok) = some s') :
    s'.Queues o ∨ ∃ e o', o.step e = some o' ∧ s'.Queues o' := by
  rcases step_done h with ⟨htask, rfl⟩ | ⟨f, htask, rfl⟩ | ⟨d, htask, hd⟩
  · refine .inl (hm.setTask htask ?_)
    cases ok <;> rfl
  · obtain ⟨i, o', ho, hshare, hq⟩ := hm.flushSent (mem_flushing_of_task htask) ok
    refine .inr ⟨_, o', ho, hq _ ⟨hshare.sink, hshare.outq, hshare.pushed, hshare.sent⟩ ?_⟩
    have htask' : (s.flushSent f ok).1.task? c = some (.installing f) := task?_flushSent htask
    have hset := flushing_setTask htask' (afterFlush (s.flushSent f ok).2)
    rw [flush?_afterFlush, flushing_flushSent] at hset
    exact hset
  · rcases hd with ⟨-, -, rfl⟩ | ⟨-, -, rfl⟩ | ⟨-, rfl⟩
    · exact .inr ⟨.dropSink, _, rfl, hm.dropSink htask rfl⟩
    · exact .inl (hm.setTask htask rfl)
    · exact .inr ⟨.dropSink, _, rfl, hm.fail.dropSink (task?_fail.trans htask) rfl⟩

/-- The flush of a push goes on. -/
theorem Queues.pushDone {ok : Bool} (hm : s.Queues o) (h : s.step (.pushDone i ok) = some s') :
    ∃ e o', o.step e = some o' ∧ s'.Queues o' := by
  obtain ⟨f, hpush, rfl⟩ := step_pushDone h
  obtain ⟨j, o', ho, hshare, hq⟩ := hm.flushSent (mem_flushing_of_push hpush) ok
  refine ⟨_, o', ho, hq _ ⟨hshare.sink, hshare.outq, hshare.pushed, hshare.sent⟩ ?_⟩
  have hset := flushing_setPush (s := (s.flushSent f ok).1) (pushes_flushSent ▸ hpush)
    (s.flushSent f ok).2
  rw [flushing_flushSent] at hset
  exact hset

/-- Every step of the loop is a run of the queue. -/
theorem Queues.step {a : LoopEvent} (hm : s.Queues o) (h : s.step a = some s') :
    ∃ o', Reachable OutState.step o o' ∧ s'.Queues o' := by
  have one : (∃ e o', o.step e = some o' ∧ s'.Queues o') →
      ∃ o', Reachable OutState.step o o' ∧ s'.Queues o' := by
    rintro ⟨e, o', ho, hq⟩
    exact ⟨o', .single ho, hq⟩
  have atMost : s'.Queues o ∨ (∃ e o', o.step e = some o' ∧ s'.Queues o') →
      ∃ o', Reachable OutState.step o o' ∧ s'.Queues o' := by
    rintro (hq | hone)
    · exact ⟨o, .refl, hq⟩
    · exact one hone
  cases a with
  | dial => exact atMost (.inl (hm.dial h))
  | recv c a response => exact atMost (hm.recv h)
  | done c ok => exact atMost (hm.done h)
  | push msg =>
    obtain rfl := Option.some.inj h
    obtain ⟨o', ho, hq⟩ := hm.pushOut msg
    exact one ⟨_, o', ho, hq⟩
  | pushDone i ok => exact one (hm.pushDone h)
  | close =>
    obtain rfl := Option.some.inj h
    exact atMost (.inl ⟨⟨hm.sink, hm.outq, hm.pushed, hm.sent⟩, hm.flushing⟩)

end Flushing

/-- In every run of the event loop each message ever pushed is once in the queue, held by one flush,
or sent; and messages wait in the queue only while there is no sink or a flush is running. -/
theorem pushed_accounted {as : List LoopEvent} {s : LoopState V C}
    (hr : run step ({} : LoopState V C) as = some s) :
    (∀ m ∈ s.pushed, s.outq.count m + (s.flushing.map (·.packet.m)).count m +
        (s.sent.map (·.packet.m)).count m = 1) ∧
      (s.sink.isSome = true → s.flushing = [] → s.outq = []) := by
  have hstart : Queues ({} : LoopState V C) {} := ⟨⟨rfl, rfl, rfl, rfl⟩, List.Perm.refl _⟩
  obtain ⟨o, hreach, hm⟩ :=
    Reachable.simulated (fun _ _ _ _ hm h => Queues.step hm h) hstart ⟨as, hr⟩
  have ho : o.Accounted :=
    hreach.invariant (fun _ _ _ h hstep => OutState.Accounted.step h hstep) OutState.accounted_start
  constructor
  · intro m hmem
    have hheld : o.held = (o.flushes.filterMap id).map (·.packet.m) := List.map_filterMap.symm
    have hcount := ho.count_eq (hm.pushed ▸ hmem)
    rw [hheld, (hm.flushing.map _).count_eq, hm.outq, OutState.accepted, hm.sent] at hcount
    exact hcount
  · intro hsink hnone
    have hflushes := hm.flushing
    rw [hnone, List.perm_nil, List.filterMap_eq_nil_iff] at hflushes
    rw [← hm.outq]
    exact ho.drained (hm.sink ▸ hsink) hflushes

end LoopState

end Spot

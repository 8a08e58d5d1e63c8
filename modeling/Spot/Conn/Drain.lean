import Spot.Conn.WasmQueue
import Spot.Conn.Writers

/-!
# Emptying the queue

One writer thread, or one flush in the browser, empties the outgoing queue in order if its sends
succeed, with nobody's help.  `remaining` counts the steps that a writer has to take for that;
`turn_drains` is one of them and `drains` all of them, `flush_drains` the same in the browser.  And
as long as one flush holds a message at a time, the browser too sends in the order of the pushes
(`outq_in_order`).
-/

namespace Spot

variable {V : Uvarint} {C : Ciborium}

/-- The steps that a writer takes until the queue `q` is empty and it holds nothing. -/
def Writer.remaining (x : Writer V C) (q : List Ticketed) : ℕ :=
  match x.phase with
  | .popping => 4 * q.length - 1
  | .popped _ => 4 * q.length + 2
  | .sending _ => 4 * q.length + 1
  | _ => 4 * q.length

namespace WriteState

variable {s s' : WriteState V C} {w : ℕ} {x : Writer V C}

/-- The writer is in its loop, and nothing tells it to stop. -/
structure Healthy (s : WriteState V C) (w : ℕ) (x : Writer V C) : Prop where
  stands : s.writers[w]? = some x
  consuming : x.consuming = true
  dead : x.dead = false
  closed : s.closed = false

/-- What was sent, then what writer `x` holds, then the queue. -/
def outgoing (s : WriteState V C) (x : Writer V C) : List Ticketed :=
  s.accepted ++ (x.held.toList ++ s.q)

/-- A writer whose sends succeed gets nearer to an empty queue, and keeps the order. -/
theorem turn_drains (h : s.Healthy w x) {n : ℕ} (hn : x.remaining s.q = n + 1) :
    ∃ s' y, s.step (.turn w true) = some s' ∧ s'.Healthy w y ∧ y.remaining s'.q = n ∧
      s'.outgoing y = s.outgoing x := by
  obtain ⟨hx, hcons, hdead, hclosed⟩ := h
  have hself : ∀ y : Writer V C, (s.writers.set w y)[w]? = some y := fun y =>
    List.getElem?_set_self (List.getElem?_eq_some_iff.1 hx).1
  obtain ⟨phase, dead⟩ := x
  obtain rfl : dead = false := hdead
  cases phase with
  | polling =>
    have hturn : s.step (.turn w true) = some (s.setWriter w { phase := .popping }) := by
      simp only [step, hx, Option.bind_some, turn, hclosed]
      rfl
    refine ⟨_, _, hturn, ⟨hself _, rfl, rfl, hclosed⟩, ?_, rfl⟩
    exact (congrArg (· - 1) hn).trans (Nat.add_sub_cancel n 1)
  | popping =>
    cases hq : s.q with
    | nil =>
      rw [hq] at hn
      cases hn
    | cons m q =>
      have hturn : s.step (.turn w true) =
          some ({ s with q }.setWriter w { phase := .popped m }) := by
        simp only [step, hx, Option.bind_some, turn, hq]
      refine ⟨_, _, hturn, ⟨hself _, rfl, rfl, hclosed⟩, ?_, ?_⟩
      · rw [hq] at hn
        simp only [Writer.remaining, List.length_cons] at hn
        show 4 * q.length + 2 = n
        omega
      · rw [outgoing, outgoing, hq]
        rfl
  | popped m =>
    have hturn : ∃ e : Encoded V C, e.m = m ∧
        s.step (.turn w true) = some (s.setWriter w { phase := .sending e }) := by
      refine ⟨⟨m, _, Packet.encode_message V C m.msg⟩, rfl, ?_⟩
      simp only [step, hx, Option.bind_some, turn]
      rfl
    obtain ⟨e, rfl, hturn⟩ := hturn
    exact ⟨_, _, hturn, ⟨hself _, rfl, rfl, hclosed⟩, Nat.succ.inj hn, rfl⟩
  | sending e =>
    have hturn : s.step (.turn w true) =
        some ({ s with sent := s.sent ++ [Sent.mk w e] }.setWriter w { phase := .polling }) := by
      simp only [step, hx, Option.bind_some, turn]
      rfl
    refine ⟨_, _, hturn, ⟨hself _, rfl, rfl, hclosed⟩, Nat.succ.inj hn, ?_⟩
    show (s.sent ++ [Sent.mk w e]).map (·.packet.m) ++ ([] ++ s.q) =
      s.sent.map (·.packet.m) ++ ([e.m] ++ s.q)
    rw [List.map_append, List.append_assoc]
    rfl
  | refused m | returned => cases hcons

theorem eq_nil_of_remaining (h : s.Healthy w x) (hn : x.remaining s.q = 0) :
    s.q = [] ∧ x.held = none := by
  obtain ⟨-, hcons, -, -⟩ := h
  obtain ⟨phase, dead⟩ := x
  cases phase with
  | polling =>
    have hlen : 4 * s.q.length = 0 := hn
    exact ⟨List.length_eq_zero_iff.1 (by omega), rfl⟩
  | popping =>
    have hlen : 4 * s.q.length - 1 = 0 := hn
    exact ⟨List.length_eq_zero_iff.1 (by omega), rfl⟩
  | popped m | sending e => cases hn
  | refused m | returned => cases hcons

/-- A writer of an open client that is in its loop and has not been told to stop empties the queue
by itself if its sends succeed: it then has sent the message that it held and all that were queued,
in the order of the queue, in at most four steps for each. -/
theorem drains (hx : s.writers[w]? = some x) (hcons : x.consuming = true) (hdead : x.dead = false)
    (hopen : s.closed = false) :
    ∃ n s', n ≤ 4 * s.q.length + 2 ∧ run step s (List.replicate n (.turn w true)) = some s' ∧
      s'.q = [] ∧ s'.accepted = s.accepted ++ (x.held.toList ++ s.q) := by
  have hall : ∀ (n : ℕ) (s : WriteState V C) (x : Writer V C), s.Healthy w x →
      x.remaining s.q = n → ∃ s', run step s (List.replicate n (.turn w true)) = some s' ∧
        s'.q = [] ∧ s'.accepted = s.outgoing x := by
    -- on the steps that are left
    intro n
    induction n with
    | zero =>
      intro s x h hn
      obtain ⟨hq, hheld⟩ := eq_nil_of_remaining h hn
      refine ⟨s, rfl, hq, ?_⟩
      rw [outgoing, hq, hheld]
      simp
    | succ n ih =>
      intro s x h hn
      obtain ⟨s₁, y, hstep, hy, hrem, hout⟩ := turn_drains h hn
      obtain ⟨s', hr, hq, hacc⟩ := ih s₁ y hy hrem
      refine ⟨s', ?_, hq, hacc.trans hout⟩
      rw [List.replicate_succ, run_cons, hstep, Option.bind_some, hr]
  obtain ⟨s', hr, hq, hacc⟩ := hall _ s x ⟨hx, hcons, hdead, hopen⟩ rfl
  refine ⟨_, s', ?_, hr, hq, hacc⟩
  unfold Writer.remaining
  split <;> omega

/-- Two messages are queued when a connection comes online. -/
def queuedPair : WriteState leb128 sampleCiborium :=
  (run step {} [.push default, .push default, .start]).get rfl

theorem drains_queuedPair :
    ∃ n s', n ≤ 10 ∧ run step queuedPair (List.replicate n (.turn 0 true)) = some s' ∧
      s'.q = [] ∧ s'.accepted = queuedPair.q := by
  exact drains (s := queuedPair) (x := {}) rfl rfl rfl rfl

end WriteState

namespace OutState

variable {s s' : OutState V C} {i : ℕ} {f : Sending V C} {a : OutEvent} {as : List OutEvent}

/-- A send that succeeds is recorded, and the flush goes on to the next message if there is a sink
for it, else it ends. -/
theorem step_sent (hi : s.flushes[i]? = some (some f)) :
    (∃ g q c, s.outq = g.packet.m :: q ∧ s.sink = some c ∧ s.step (.sent i true) =
      some { s with outq := q, sent := s.sent ++ [f], flushes := s.flushes.set i (some g) }) ∨
    ((s.sink = none ∨ s.outq = []) ∧ s.step (.sent i true) =
      some { s with sent := s.sent ++ [f], flushes := s.flushes.set i none }) := by
  have hstep : s.step (.sent i true) =
      some ({ s with sent := s.sent ++ [f] }.continueFlush i) := by
    simp only [step, hi, if_true]
  rw [hstep, continueFlush]
  rcases flushOut_eq { s with sent := s.sent ++ [f] } with ⟨hend, hs⟩ | ⟨g, q, hq, hsink, hs⟩
  · exact .inr ⟨hend, by rw [hs]⟩
  · exact .inl ⟨g, q, g.on, hq, hsink, by rw [hs]⟩

/-- One flush of a client that has a sink empties the queue by itself if its sends succeed: it then
has sent the message that it held and all that were queued, in the order of the queue, one for each
send, and has ended. -/
theorem flush_drains (hi : s.flushes[i]? = some (some f)) (hsink : s.sink.isSome = true) :
    ∃ s', run step s (List.replicate (s.outq.length + 1) (.sent i true)) = some s' ∧
      s'.outq = [] ∧ s'.flushes[i]? = some none ∧
      s'.accepted = s.accepted ++ f.packet.m :: s.outq := by
  generalize hq : s.outq = q
  -- on the queue, over every state that has it
  induction q generalizing s f with
  | nil =>
    rcases step_sent hi with ⟨g, q, c, hcons, -, -⟩ | ⟨-, hstep⟩
    · rw [hq] at hcons
      cases hcons
    · have hlt := (List.getElem?_eq_some_iff.1 hi).1
      refine ⟨{ s with sent := s.sent ++ [f], flushes := s.flushes.set i none }, ?_, hq,
        List.getElem?_set_self hlt, ?_⟩
      · show run step s [.sent i true] = _
        rw [run_cons, hstep, Option.bind_some, run_nil]
      · show (s.sent ++ [f]).map (·.packet.m) = s.sent.map (·.packet.m) ++ [f.packet.m]
        rw [List.map_append]
        rfl
  | cons m q ih =>
    rcases step_sent hi with ⟨g, q', c, hcons, hc, hstep⟩ | ⟨hend, -⟩
    · obtain ⟨hm, hqq⟩ := List.cons.inj (hq.symm.trans hcons)
      have hlt := (List.getElem?_eq_some_iff.1 hi).1
      obtain ⟨s', hr, hempty, hended, hacc⟩ := ih (s :=
        { s with outq := q', sent := s.sent ++ [f], flushes := s.flushes.set i (some g) })
        (List.getElem?_set_self hlt) hsink hqq.symm
      refine ⟨s', ?_, hempty, hended, ?_⟩
      · rw [List.length_cons, List.replicate_succ, run_cons, hstep, Option.bind_some]
        exact hr
      · rw [hacc]
        show (s.sent ++ [f]).map (·.packet.m) ++ g.packet.m :: q =
          s.sent.map (·.packet.m) ++ f.packet.m :: m :: q
        rw [List.map_append, List.append_assoc, hm]
        rfl
    · rcases hend with hnone | hnil
      · rw [hnone] at hsink
        cases hsink
      · rw [hq] at hnil
        cases hnil

/-- Three messages are queued when a sink is installed. -/
def queuedTriple : OutState leb128 sampleCiborium :=
  (run step {} [.pushOut default, .pushOut default, .pushOut default, .setSink 0]).get rfl

theorem flush_drains_queuedTriple :
    ∃ s', run step queuedTriple (List.replicate 3 (.sent 3 true)) = some s' ∧ s'.outq = [] ∧
      s'.flushes[3]? = some none ∧ s'.accepted = queuedTriple.pushed := by
  have hi : queuedTriple.flushes[3]? = some (some _) := rfl
  exact flush_drains (s := queuedTriple) hi rfl

/-- At most one flush holds a message. -/
def OneFlush (s : OutState V C) : Prop := s.held.length ≤ 1

instance : DecidablePred (OneFlush (V := V) (C := C)) :=
  fun _ => inferInstanceAs (Decidable (_ ≤ _))

/-- While one flush at most holds a message, no step changes the order of the messages. -/
theorem inOrder_step (h : s.OneFlush) (h' : s'.OneFlush) (hs : s.workQueue.InOrder)
    (hstep : s.step a = some s') : s'.workQueue.InOrder := by
  cases a with
  | pushOut msg =>
    obtain rfl := Option.some.inj hstep
    refine (startFlush_spec _).1.inOrder h h' ?_
    exact (WorkQueue.Move.issue s.workQueue _).inOrder h h hs
  | flush =>
    obtain rfl := Option.some.inj hstep
    exact (startFlush_spec s).1.inOrder h h' hs
  | setSink c =>
    obtain rfl := Option.some.inj hstep
    exact (startFlush_spec { s with sink := some c }).1.inOrder h h' hs
  | dropSink =>
    obtain rfl := Option.some.inj hstep
    exact hs
  | sent i ok =>
    obtain ⟨f, hi⟩ : ∃ f, s.flushes[i]? = some (some f) := by
      simp only [step] at hstep
      split at hstep
      · exact ⟨_, ‹_›⟩
      · cases hstep
    obtain ⟨l, r, hl, hset⟩ := exists_filterMap_set hi heldBy
    have hheld : s.held = l ++ f.packet.m :: r := hl
    have hone : (l ++ f.packet.m :: r).length ≤ 1 := by
      rw [← hheld]
      exact h
    obtain ⟨rfl, rfl⟩ := WorkQueue.append_eq_of_length_le_one hone
    have horder : s.accepted ++ ([f.packet.m] ++ s.outq) = s.pushed := by
      have hs' : s.accepted ++ (s.held ++ s.outq) = s.pushed := hs
      rw [hheld] at hs'
      exact hs'
    cases ok with
    | true =>
      rcases step_sent hi with ⟨g, q, c, hq, -, hnext⟩ | ⟨-, hnext⟩
      all_goals
        obtain rfl := Option.some.inj (hnext.symm.trans hstep)
      · show (s.sent ++ [f]).map (·.packet.m) ++
          ((s.flushes.set i (some g)).filterMap heldBy ++ q) = s.pushed
        rw [hset, List.map_append, List.append_assoc, ← horder, hq]
        rfl
      · show (s.sent ++ [f]).map (·.packet.m) ++
          ((s.flushes.set i none).filterMap heldBy ++ s.outq) = s.pushed
        rw [hset, List.map_append, List.append_assoc, ← horder]
        rfl
    | false =>
      simp only [step, hi] at hstep
      obtain rfl := Option.some.inj hstep
      show s.accepted ++ ((s.flushes.set i none).filterMap heldBy ++ f.packet.m :: s.outq) =
        s.pushed
      rw [hset]
      exact horder

/-- If in a run of the browser's queue no send starts before the last one has ended, what was sent
over all sinks is a prefix of what was pushed. -/
theorem outq_in_order (hr : run step ({} : OutState V C) as = some s)
    (h : Throughout step OneFlush ({} : OutState V C) as) : s.accepted <+: s.pushed := by
  have hs : s.workQueue.InOrder :=
    h.invariant (J := fun s => s.workQueue.InOrder)
      (fun _ _ _ h h' hs hstep => inOrder_step h h' hs hstep) rfl hr
  exact hs.prefix_delivered

/-- A send fails between two others, and the next sink takes its message. -/
def oneFlush : List OutEvent :=
  [.pushOut default, .pushOut default, .setSink 0, .sent 2 true, .sent 2 false, .setSink 1,
    .sent 3 true]

theorem outq_in_order_oneFlush :
    ∃ s, run step ({} : OutState leb128 sampleCiborium) oneFlush = some s ∧
      s.accepted = s.pushed ∧ s.accepted <+: s.pushed := by
  have hr : run step ({} : OutState leb128 sampleCiborium) oneFlush = some _ := rfl
  exact ⟨_, hr, by decide, outq_in_order hr (by decide)⟩

end OutState

end Spot

import Spot.Conn.WasmSink

/-!
# Challenges to the browser client

A server may challenge a connection during its handshake and at any time afterwards.  An answer
belongs on the connection that was challenged; the handshake puts it there, and the read loop on
whatever connection's sink is in the slot.  `step_answers` gives the answer of each step, and
`answersOwn_iff` the runs along which every answer goes where it belongs.
-/

namespace Spot

/-- The answer is given to the connection that was challenged; it may only be refused to one on
whose own sink a send has failed. -/
def Answer.Own (x : Answer) : Prop :=
  x.on = some x.asked ∨ x.on = none ∧ x.ownFailure = true

instance : DecidablePred Answer.Own := fun _ => inferInstanceAs (Decidable (_ ∨ _))

namespace LoopState

variable {V : Uvarint} {C : Ciborium} {s s' : LoopState V C} {a : LoopEvent} {c : ℕ}

/-- Every answer is given to the connection that was challenged. -/
def AnswersOwn (s : LoopState V C) : Prop := ∀ x ∈ s.answers, x.Own

instance : DecidablePred (AnswersOwn (V := V) (C := C)) :=
  fun s => inferInstanceAs (Decidable (∀ x ∈ s.answers, x.Own))

/-- The answer an event makes the client give. -/
def answered (s : LoopState V C) : LoopEvent → Option Answer
  | .recv c a response =>
    match s.task? c with
    | some .handshaking =>
      match handshakeRound V C response a with
      | some (.answer buf) => some ⟨c, some c, buf, s.failed c⟩
      | _ => none
    | some .reading =>
      match readRound V C s.closed response a with
      | some (.answer buf) => some ⟨c, s.sink, buf, s.failed c⟩
      | _ => none
    | _ => none
  | _ => none

/-- The read loop answers a challenge to a connection only while the slot holds the sink of that
connection, or is empty after a send on that sink has failed. -/
def AskedInPlace (s : LoopState V C) : LoopEvent → Prop
  | .recv c a response =>
    s.task? c = some .reading → ∀ buf, readRound V C s.closed response a = some (.answer buf) →
      s.sink = some c ∨ s.sink = none ∧ s.failed c = true
  | _ => True

theorem flushOut_answers : s.flushOut.1.answers = s.answers := by
  unfold flushOut
  split <;> rfl

theorem flushSent_answers {f : Sending V C} {ok : Bool} :
    (s.flushSent f ok).1.answers = s.answers := by
  cases ok with
  | true => exact flushOut_answers
  | false => rfl

/-- The answers given in a step. -/
theorem step_answers (h : s.step a = some s') :
    s'.answers = s.answers ++ (s.answered a).toList := by
  cases a with
  | dial | close =>
    obtain rfl := Option.some.inj h
    exact (List.append_nil _).symm
  | recv c ar response =>
    rcases step_recv h with ⟨ht, r, hr, rfl⟩ | ⟨ht, r, hr, rfl⟩
    · cases r with
      | answer buf =>
        simp only [answered, ht, hr]
        rfl
      | ready =>
        simp only [answered, ht, hr, Option.toList_none, List.append_nil]
        exact flushOut_answers
      | stay | leave =>
        simp only [answered, ht, hr, Option.toList_none, List.append_nil]
        rfl
    · cases r with
      | answer buf =>
        simp only [answered, ht, hr, reactRead]
        cases s.sink <;> rfl
      | stay | ready | leave =>
        simp only [answered, ht, hr, Option.toList_none, List.append_nil]
        rfl
  | done c ok =>
    show s'.answers = s.answers ++ []
    rw [List.append_nil]
    rcases step_done h with ⟨-, rfl⟩ | ⟨f, -, rfl⟩ | ⟨d, -, hd⟩
    · rfl
    · exact flushSent_answers
    · rcases hd with ⟨-, -, rfl⟩ | ⟨-, -, rfl⟩ | ⟨-, rfl⟩ <;> rfl
  | push msg =>
    obtain rfl := Option.some.inj h
    rw [show (s.answered (.push msg)).toList = [] from rfl, List.append_nil]
    exact flushOut_answers
  | pushDone i ok =>
    show s'.answers = s.answers ++ []
    rw [List.append_nil]
    obtain ⟨f, -, rfl⟩ := step_pushDone h
    exact flushSent_answers

/-- In the handshake every answer is in place; later on, this is what the slot must be for it. -/
theorem answered_own_iff : (∀ x, s.answered a = some x → x.Own) ↔ s.AskedInPlace a := by
  cases a with
  | recv c ar response =>
    simp only [answered, AskedInPlace]
    split
    · rename_i ht
      rw [ht]
      constructor
      · rintro - ⟨⟩
      · intro _ x hx
        split at hx
        · obtain rfl := Option.some.inj hx
          exact .inl rfl
        · cases hx
    · rename_i ht
      constructor
      · intro h _ buf hr
        rw [hr] at h
        exact h _ rfl
      · intro h x hx
        split at hx
        · rename_i buf hr
          obtain rfl := Option.some.inj hx
          exact h ht buf hr
        · cases hx
    · rename_i hno
      constructor
      · intro _ ht
        exact absurd ht hno
      · rintro - x ⟨⟩
  | _ => simp [answered, AskedInPlace]

/-- Along a run of the event loop, every answer is given to the connection that was challenged,
exactly when every challenge in a read loop finds the sink of its own connection in the slot, or
an empty slot after a failure of that connection's own. -/
theorem answersOwn_iff {as : List LoopEvent} (hr : run step ({} : LoopState V C) as = some s) :
    Throughout step AnswersOwn ({} : LoopState V C) as ↔
      Guarded step AskedInPlace ({} : LoopState V C) as := by
  have own : ∀ s a (s' : LoopState V C), AnswersOwn s → step s a = some s' →
      (AnswersOwn s' ↔ s.AskedInPlace a) := by
    intro s a s' hs hstep
    rw [← answered_own_iff, AnswersOwn, step_answers hstep]
    constructor
    · intro h x hx
      exact h x (List.mem_append_right _ (Option.mem_toList.2 hx))
    · intro h x hx
      rcases List.mem_append.1 hx with hx | hx
      · exact hs x hx
      · exact h x (Option.mem_toList.1 hx)
  have start : ({} : LoopState V C).AnswersOwn := fun x hx => absurd hx List.not_mem_nil
  exact throughout_iff_guarded (fun s a s' hs hG hstep => (own s a s' hs hstep).2 hG)
    (fun s a s' hs hstep hs' => (own s a s' hs hstep).1 hs') start hr

/-- One connection, challenged in its handshake and again once it is online. -/
def challengedRun : List LoopEvent :=
  [.dial, .recv 0 (.packet challengePacket) (some [1]), .done 0 true,
    .recv 0 (.packet readyPacket) none, .recv 0 (.packet challengePacket) (some [2])]

theorem answersOwn_iff_challengedRun :
    Guarded step AskedInPlace ({} : LoopState leb128 bareCiborium) challengedRun := by
  have hr : run step ({} : LoopState leb128 bareCiborium) challengedRun = some _ := rfl
  exact (answersOwn_iff hr).1 (by decide)

/-- Two connections are online, and the server challenges the older one. -/
def misdirectedRun : List LoopEvent :=
  [.dial, .dial, .recv 0 (.packet readyPacket) none, .recv 1 (.packet readyPacket) none,
    .recv 0 (.packet challengePacket) (some [2])]

theorem not_answersOwn_misdirectedRun :
    ¬ ∀ as (s : LoopState leb128 bareCiborium), run step {} as = some s → s.AnswersOwn := by
  intro h
  exact absurd (h misdirectedRun _ rfl) (by decide)

end LoopState

end Spot

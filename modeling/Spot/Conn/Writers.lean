import Spot.Conn.WriteQueue

/-!
# Readers and writers of online connections

A connection that has completed its handshake is counted in `online_cnt`, starts its writer thread
and runs its read loop; when the read loop ends it tells the writer through a flag, waits for it,
and is counted no longer.  Nothing tells the read loop when the writer ends.

`hasWriters_iff`: along a run, every connection whose read loop is running has a writer that goes on
taking messages from the queue, exactly if no send fails on such a connection.
-/

namespace Spot

/-- Where a connection stands in `handle` once its writer is started: in the read loop, before the
flag is set, waiting for the writer, or past `online_decr`. -/
inductive ReaderPhase
  | reading
  | ended
  | flagged
  | left
  deriving DecidableEq

variable {V : Uvarint} {C : Ciborium}

/-- Whether the thread is in its loop and will come to the queue again. -/
def Writer.consuming (x : Writer V C) : Bool :=
  match x.phase with
  | .refused _ | .returned => false
  | _ => true

/-- Whether the step is a send that fails. -/
def Writer.failing (x : Writer V C) (sends : Bool) : Bool :=
  match x.phase with
  | .sending _ => !sends
  | _ => false

variable (V C)

/-- The queue with its writers, and the connections: those between `online_incr` and the start of
their writer, and for each writer where its connection stands. -/
structure OnlineState where
  write : WriteState V C := {}
  starting : ℕ := 0
  readers : List ReaderPhase := []

variable {V C}

/-- What can happen: a connection completes its handshake, one that has starts its writer, the read
loop of connection `i` ends, sets the flag, or finds that the writer has ended; a message is pushed,
the client closes, or writer `w` takes its next step. -/
inductive OnlineEvent
  | incr
  | start
  | readEnds (i : ℕ)
  | flag (i : ℕ)
  | leave (i : ℕ)
  | push (msg : Message)
  | close
  | turn (w : ℕ) (sends : Bool)

namespace OnlineState

/-- The number of connections counted in `online_cnt`. -/
def onlineCnt (s : OnlineState V C) : ℕ := s.starting + s.readers.countP (· ≠ .left)

def setReader (s : OnlineState V C) (i : ℕ) (p : ReaderPhase) : OnlineState V C :=
  { s with readers := s.readers.set i p }

/-- Whether the writer of connection `i` has ended. -/
def joined (s : OnlineState V C) (i : ℕ) : Bool := s.write.writers[i]?.any fun x => !x.running

/-- One step of the threads. -/
def step (s : OnlineState V C) : OnlineEvent → Option (OnlineState V C)
  | .incr => some { s with starting := s.starting + 1 }
  | .start =>
    if s.starting = 0 then none
    else (s.write.step .start).map fun write =>
      { write, starting := s.starting - 1, readers := s.readers ++ [.reading] }
  | .readEnds i => if s.readers[i]? = some .reading then some (s.setReader i .ended) else none
  | .flag i =>
    if s.readers[i]? = some .ended then
      (s.write.step (.kill i)).map fun write => { s.setReader i .flagged with write }
    else none
  | .leave i =>
    if s.readers[i]? = some .flagged ∧ s.joined i then some (s.setReader i .left) else none
  | .push msg => (s.write.step (.push msg)).map fun write => { s with write }
  | .close => (s.write.step .close).map fun write => { s with write }
  | .turn w sends => (s.write.step (.turn w sends)).map fun write => { s with write }

/-- Unless the client is closed, every connection whose read loop is running has a writer that is
still consuming the queue. -/
def HasWriters (s : OnlineState V C) : Prop :=
  s.write.closed = false → ∀ i : ℕ, s.readers[i]? = some .reading →
    ∃ x, s.write.writers[i]? = some x ∧ Writer.consuming x = true

/-- The connection on which a send fails, if one does. -/
def sendFails (s : OnlineState V C) : OnlineEvent → Option ℕ
  | .turn w sends => if s.write.writers[w]?.any fun x => x.failing sends then some w else none
  | _ => none

/-- No send fails while the client is open and the read loop of its connection is running. -/
def FailsAfterRead (s : OnlineState V C) (a : OnlineEvent) : Prop :=
  ∀ w ∈ s.sendFails a, s.write.closed = false → s.readers[w]? ≠ some .reading

instance (s : OnlineState V C) : DecidablePred s.FailsAfterRead := fun a =>
  inferInstanceAs (Decidable (∀ w ∈ s.sendFails a, _))

/-- Every connection has its writer, and a running read loop has not set the flag. -/
structure Wired (s : OnlineState V C) : Prop where
  length_eq : s.readers.length = s.write.writers.length
  notDead : ∀ (i : ℕ) (x : Writer V C), s.readers[i]? = some .reading →
    s.write.writers[i]? = some x → x.dead = false

end OnlineState

namespace WriteState

variable {s s' : WriteState V C} {w : ℕ} {x : Writer V C} {sends : Bool}

/-- A step of a writer leaves its flag alone; if the writer is consuming, has not been told to stop
and the client is open, it goes on consuming unless a send fails. -/
theorem turn_writers (h : s.turn w x sends = some s') :
    ∃ y, s'.writers = s.writers.set w y ∧ s'.closed = s.closed ∧ y.dead = x.dead ∧
      (x.consuming = true → x.dead = false → s.closed = false →
        y.consuming = !x.failing sends) := by
  obtain ⟨phase, dead⟩ := x
  cases phase with
  | polling =>
    simp only [turn] at h
    split at h
    · rename_i hd
      obtain rfl := Option.some.inj h
      refine ⟨_, rfl, rfl, rfl, fun _ hdead => ?_⟩
      cases hd.symm.trans hdead
    split at h
    · rename_i hc
      obtain rfl := Option.some.inj h
      refine ⟨_, rfl, rfl, rfl, fun _ _ hopen => ?_⟩
      cases hc.symm.trans hopen
    · obtain rfl := Option.some.inj h
      exact ⟨_, rfl, rfl, rfl, fun _ _ _ => rfl⟩
  | popping | popped m =>
    simp only [turn] at h
    split at h <;> obtain rfl := Option.some.inj h <;>
      exact ⟨_, rfl, rfl, rfl, fun _ _ _ => rfl⟩
  | sending e =>
    cases sends <;> obtain rfl := Option.some.inj h <;>
      exact ⟨_, rfl, rfl, rfl, fun _ _ _ => rfl⟩
  | refused m =>
    obtain rfl := Option.some.inj h
    exact ⟨_, rfl, rfl, rfl, fun hx => by cases hx⟩
  | returned => cases h

end WriteState

namespace OnlineState

section Steps

variable {s s' : OnlineState V C} {a : OnlineEvent}

/-- What the step of a writer can do. -/
theorem turn_eq_some {w : ℕ} {sends : Bool} (h : s.step (.turn w sends) = some s') :
    ∃ x y, s.write.writers[w]? = some x ∧ s'.write.writers = s.write.writers.set w y ∧
      s'.readers = s.readers ∧ s'.write.closed = s.write.closed ∧ y.dead = x.dead ∧
      (x.consuming = true → x.dead = false → s.write.closed = false →
        y.consuming = !x.failing sends) := by
  obtain ⟨write, hwrite, rfl⟩ := Option.map_eq_some_iff.1 h
  obtain ⟨x, hx, ht⟩ := Option.bind_eq_some_iff.1 hwrite
  obtain ⟨y, hset, hclosed, hdead, hy⟩ := WriteState.turn_writers ht
  exact ⟨x, y, hx, hset, rfl, hclosed, hdead, hy⟩

/-- What the other steps can do to the connections whose read loops are running and to their
writers: nothing, except that a new one starts with a new writer. -/
theorem step_eq_some (ha : ∀ w sends, a ≠ .turn w sends) (h : s.step a = some s') :
    (s'.write.closed = false → s.write.closed = false) ∧
      ((s'.readers = s.readers ++ [.reading] ∧
          s'.write.writers = s.write.writers ++ [{ phase := .polling }]) ∨
        s'.readers.length = s.readers.length ∧
          s'.write.writers.length = s.write.writers.length ∧
          ∀ i : ℕ, s'.readers[i]? = some .reading →
            s.readers[i]? = some .reading ∧ s'.write.writers[i]? = s.write.writers[i]?) := by
  have still : ∀ (i : ℕ) (p : ReaderPhase), p ≠ .reading → ∀ j : ℕ,
      (s.readers.set i p)[j]? = some .reading → s.readers[j]? = some .reading ∧ i ≠ j := by
    intro i p hp j hj
    rw [List.getElem?_set] at hj
    by_cases hij : i = j
    · rw [if_pos hij] at hj
      split at hj
      · exact absurd (Option.some.inj hj) hp
      · cases hj
    · rw [if_neg hij] at hj
      exact ⟨hj, hij⟩
  cases a with
  | incr =>
    obtain rfl := Option.some.inj h
    exact ⟨id, .inr ⟨rfl, rfl, fun _ hi => ⟨hi, rfl⟩⟩⟩
  | start =>
    simp only [step] at h
    split at h
    · cases h
    · obtain rfl := Option.some.inj h
      exact ⟨id, .inl ⟨rfl, rfl⟩⟩
  | readEnds i =>
    simp only [step] at h
    split at h
    · obtain rfl := Option.some.inj h
      refine ⟨id, .inr ⟨List.length_set, rfl, fun j hj => ?_⟩⟩
      exact ⟨(still i .ended (by decide) j hj).1, rfl⟩
    · cases h
  | flag i =>
    simp only [step] at h
    split at h
    · obtain ⟨write, hkill, rfl⟩ := Option.map_eq_some_iff.1 h
      obtain ⟨x, hx, rfl⟩ := Option.map_eq_some_iff.1 hkill
      refine ⟨id, .inr ⟨List.length_set, List.length_set, fun j hj => ?_⟩⟩
      obtain ⟨hj, hij⟩ := still i .flagged (by decide) j hj
      exact ⟨hj, List.getElem?_set_ne hij⟩
    · cases h
  | leave i =>
    simp only [step] at h
    split at h
    · obtain rfl := Option.some.inj h
      refine ⟨id, .inr ⟨List.length_set, rfl, fun j hj => ?_⟩⟩
      exact ⟨(still i .left (by decide) j hj).1, rfl⟩
    · cases h
  | push msg =>
    obtain rfl := Option.some.inj h
    exact ⟨id, .inr ⟨rfl, rfl, fun _ hi => ⟨hi, rfl⟩⟩⟩
  | close =>
    obtain rfl := Option.some.inj h
    exact ⟨(nomatch ·), .inr ⟨rfl, rfl, fun _ hi => ⟨hi, rfl⟩⟩⟩
  | turn w sends => exact absurd rfl (ha w sends)

theorem Wired.step (hs : s.Wired) (h : s.step a = some s') : s'.Wired := by
  by_cases hturn : ∃ w sends, a = .turn w sends
  · obtain ⟨w, sends, rfl⟩ := hturn
    obtain ⟨x, y, hx, hwriters, hreaders, -, hdead, -⟩ := turn_eq_some h
    refine ⟨by rw [hreaders, hwriters, List.length_set, hs.length_eq], fun i z hi hz => ?_⟩
    rw [hreaders] at hi
    rw [hwriters, List.getElem?_set] at hz
    split at hz
    · rename_i hwi
      subst hwi
      split at hz
      · obtain rfl := Option.some.inj hz
        exact hdead.trans (hs.notDead w x hi hx)
      · cases hz
    · exact hs.notDead i z hi hz
  · obtain ⟨-, ⟨hreaders, hwriters⟩ | ⟨hlen, hlen', hold⟩⟩ :=
      step_eq_some (fun w sends ha => hturn ⟨w, sends, ha⟩) h
    · refine ⟨by rw [hreaders, hwriters, List.length_append, List.length_append, hs.length_eq]; rfl,
        fun i z hi hz => ?_⟩
      rw [hreaders, List.getElem?_append] at hi
      rw [hwriters, List.getElem?_append, ← hs.length_eq] at hz
      split at hi
      · rename_i hlt
        rw [if_pos hlt] at hz
        exact hs.notDead i z hi hz
      · rename_i hge
        rw [if_neg hge] at hz
        obtain rfl := List.mem_singleton.1 (List.mem_of_getElem? hz)
        rfl
    · refine ⟨by rw [hlen, hlen', hs.length_eq], fun i z hi hz => ?_⟩
      obtain ⟨hi, heq⟩ := hold i hi
      exact hs.notDead i z hi (heq ▸ hz)

/-- After a step whose failing send, if any, comes after its read loop, no writer is missing. -/
theorem HasWriters.step (hs : s.Wired) (hw : s.HasWriters) (hG : s.FailsAfterRead a)
    (h : s.step a = some s') : s'.HasWriters := by
  intro hopen i hi
  by_cases hturn : ∃ w sends, a = .turn w sends
  · obtain ⟨w, sends, rfl⟩ := hturn
    obtain ⟨x, y, hx, hwriters, hreaders, hclosed, -, hy⟩ := turn_eq_some h
    rw [hclosed] at hopen
    rw [hreaders] at hi
    obtain ⟨z, hz, hcons⟩ := hw hopen i hi
    rw [hwriters]
    by_cases hwi : w = i
    · subst hwi
      obtain rfl := Option.some.inj (hx.symm.trans hz)
      refine ⟨y, List.getElem?_set_self (List.getElem?_eq_some_iff.1 hx).1, ?_⟩
      rw [hy hcons (hs.notDead w x hi hx) hopen]
      cases hf : x.failing sends with
      | false => rfl
      | true =>
        have hfails : s.sendFails (.turn w sends) = some w := by
          rw [sendFails, hx, Option.any_some, hf, if_pos rfl]
        exact absurd hi (hG w hfails hopen)
    · exact ⟨z, (List.getElem?_set_ne hwi).trans hz, hcons⟩
  · obtain ⟨hclosed, ⟨hreaders, hwriters⟩ | ⟨-, -, hold⟩⟩ :=
      step_eq_some (fun w sends ha => hturn ⟨w, sends, ha⟩) h
    · rw [hreaders, List.getElem?_append] at hi
      rw [hwriters]
      split at hi
      · rename_i hlt
        obtain ⟨z, hz, hcons⟩ := hw (hclosed hopen) i hi
        rw [hs.length_eq] at hlt
        exact ⟨z, (List.getElem?_append_left hlt).trans hz, hcons⟩
      · rename_i hge
        refine ⟨{}, ?_, rfl⟩
        rw [List.getElem?_append_right (hs.length_eq ▸ Nat.le_of_not_lt hge), ← hs.length_eq]
        have hone : i - s.readers.length < 1 := (List.getElem?_eq_some_iff.1 hi).1
        rw [Nat.lt_one_iff.1 hone]
        rfl
    · obtain ⟨hi, heq⟩ := hold i hi
      rw [heq]
      exact hw (hclosed hopen) i hi

/-- A send that fails under a running read loop leaves its connection without a writer. -/
theorem HasWriters.failsAfterRead (hs : s.Wired) (hw : s.HasWriters) (h : s.step a = some s')
    (hw' : s'.HasWriters) : s.FailsAfterRead a := by
  intro w hfails hopen hreading
  cases a with
  | turn w' sends =>
    simp only [sendFails, Option.mem_def] at hfails
    split at hfails
    · rename_i hany
      obtain rfl := Option.some.inj hfails
      obtain ⟨x, y, hx, hwriters, hreaders, hclosed, -, hy⟩ := turn_eq_some h
      rw [hx, Option.any_some] at hany
      obtain ⟨z, hz, hcons⟩ := hw hopen w' hreading
      obtain rfl := Option.some.inj (hx.symm.trans hz)
      have hstop : y.consuming = false := by
        rw [hy hcons (hs.notDead w' x hreading hx) hopen, hany]
        rfl
      obtain ⟨z, hz, hcons'⟩ := hw' (hclosed.trans hopen) w' (hreaders ▸ hreading)
      rw [hwriters, List.getElem?_set_self (List.getElem?_eq_some_iff.1 hx).1] at hz
      obtain rfl := Option.some.inj hz
      cases hstop.symm.trans hcons'
    · cases hfails
  | _ => cases hfails

end Steps

/-- Along a run, every connection whose read loop is running has a writer that is still consuming
the queue, as long as the client is open, exactly if no send fails on a connection whose read loop
is running while the client is open. -/
theorem hasWriters_iff {as : List OnlineEvent} {s : OnlineState V C}
    (hr : run step ({} : OnlineState V C) as = some s) :
    Throughout step HasWriters ({} : OnlineState V C) as ↔
      Guarded step FailsAfterRead ({} : OnlineState V C) as := by
  have hwired : ({} : OnlineState V C).Wired := ⟨rfl, fun i x hi => by cases hi⟩
  have hstart : ({} : OnlineState V C).HasWriters := fun _ i hi => by cases hi
  exact throughout_iff_guarded_within (fun _ _ _ hs h => hs.step h)
    (fun _ _ _ hs hw hG h => hw.step hs hG h) (fun _ _ _ hs hw h hw' => hw.failsAfterRead hs h hw')
    hwired hstart hr

/-- A connection comes online, its writer sends a message, and its read loop ends. -/
def quietRun : List OnlineEvent :=
  [.incr, .start, .push default, .turn 0 true, .turn 0 true, .turn 0 true, .turn 0 true,
    .readEnds 0, .flag 0, .turn 0 true, .leave 0]

theorem hasWriters_iff_quietRun :
    Throughout step HasWriters ({} : OnlineState leb128 sampleCiborium) quietRun := by
  have hr : run step ({} : OnlineState leb128 sampleCiborium) quietRun = some _ := rfl
  exact (hasWriters_iff hr).2 (by decide)

/-- The same connection, when the send fails and nothing is received. -/
def silentRun : List OnlineEvent :=
  [.incr, .start, .push default, .turn 0 true, .turn 0 true, .turn 0 true, .turn 0 false,
    .turn 0 true]

theorem not_hasWriters_silentRun :
    ¬ ∀ as (s : OnlineState leb128 sampleCiborium), run step {} as = some s → s.HasWriters := by
  intro h
  obtain ⟨x, hx, hcons⟩ := h silentRun _ rfl rfl 0 rfl
  obtain rfl := Option.some.inj hx
  cases hcons

end OnlineState

end Spot

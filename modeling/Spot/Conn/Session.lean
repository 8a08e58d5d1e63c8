import Spot.Conn.Writers
import Spot.General.Potential

/-!
# The end of a session

A read loop waits for packets without a deadline, so nothing in it looks at the closed flag.  It is
the writer thread of the connection that does, every half second; it sends a close frame and forces
the socket down, and the read returns.  A socket that cannot be forced down is read with a deadline
instead, and the read loop looks at the flag itself.

`close_ends_sessions`: after `close` the threads of all connections stop, and the only connections
that are left are those whose writer had ended before, when a send failed.
-/

namespace Spot

variable {V : Uvarint} {C : Ciborium}

/-- A socket: whether it has a handle that forces it down, whether it has been, and whether a send
on it has failed. -/
structure Socket where
  handle : Bool
  down : Bool := false
  failed : Bool := false
  deriving DecidableEq

/-- What a step of the writer does to its socket. -/
def Socket.after (k : Socket) (closes fails : Bool) : Socket :=
  { k with down := k.down || closes && k.handle, failed := k.failed || fails }

/-- The writer is about to see that the client is closed, which is when it closes its socket. -/
def Writer.closes (x : Writer V C) (closed : Bool) : Bool :=
  match x.phase with
  | .polling => !x.dead && closed
  | _ => false

/-- The most steps that the writer of a closed client has left. -/
def Writer.work (x : Writer V C) : ℕ :=
  match x.phase with
  | .returned => 0
  | .polling | .refused _ => 1
  | .sending _ => 2
  | .popped _ => 3
  | .popping => 4

/-- The most steps that a connection of a closed client has left beside those of its writer. -/
def ReaderPhase.work : ReaderPhase → ℕ
  | .left => 0
  | .flagged => 1
  | .ended => 2
  | .reading => 3

/-- The most steps that the threads of a closed client have left. -/
def OnlineState.work (s : OnlineState V C) : ℕ :=
  5 * s.starting + (s.readers.map ReaderPhase.work).sum + (s.write.writers.map Writer.work).sum

/-- A thread of a connection takes a step. -/
def OnlineEvent.moves : OnlineEvent → Bool
  | .incr | .push _ | .close => false
  | _ => true

def OnlineEvent.isIncr : OnlineEvent → Bool
  | .incr => true
  | _ => false

variable (V C)

/-- The connections with their sockets. -/
structure SessionState where
  online : OnlineState V C := {}
  sockets : List Socket := []

variable {V C}

/-- What can happen: a connection completes its handshake, one that has starts its writer; the read
of connection `i` yields an end or an error that comes from the network, or returns because the
socket was forced down, or reaches its deadline; the read loop sets the flag, or finds that the
writer has ended; a message is pushed, the client closes, or writer `w` takes its next step. -/
inductive SessionEvent
  | incr
  | start (handle : Bool)
  | readEnds (i : ℕ)
  | woken (i : ℕ)
  | timeout (i : ℕ)
  | flag (i : ℕ)
  | leave (i : ℕ)
  | push (msg : Message)
  | close
  | turn (w : ℕ) (sends : Bool)

namespace SessionEvent

/-- A step of a thread that no one else has to do anything for. -/
def own : SessionEvent → Bool
  | start _ | woken _ | timeout _ | flag _ | leave _ | turn _ _ => true
  | incr | readEnds _ | push _ | close => false

def isIncr : SessionEvent → Bool
  | incr => true
  | _ => false

end SessionEvent

namespace SessionState

/-- A step that leaves the sockets alone. -/
def lift (s : SessionState V C) (a : OnlineEvent) : Option (SessionState V C) :=
  (s.online.step a).map fun online => { s with online }

/-- One step of the threads. -/
def step (s : SessionState V C) : SessionEvent → Option (SessionState V C)
  | .incr => s.lift .incr
  | .start handle =>
    (s.online.step .start).map fun online => { online, sockets := s.sockets ++ [{ handle }] }
  | .readEnds i => s.lift (.readEnds i)
  | .woken i => if s.sockets[i]?.any (·.down) then s.lift (.readEnds i) else none
  | .timeout i =>
    if s.sockets[i]?.any (!·.handle) ∧ s.online.readers[i]? = some .reading then
      if s.online.write.closed then s.lift (.readEnds i) else some s
    else none
  | .flag i => s.lift (.flag i)
  | .leave i => s.lift (.leave i)
  | .push msg => s.lift (.push msg)
  | .close => s.lift .close
  | .turn w sends =>
    s.online.write.writers[w]?.bind fun x =>
      (s.online.step (.turn w sends)).map fun online =>
        { online
          sockets := s.sockets.modify w fun k =>
            k.after (x.closes s.online.write.closed) (x.failing sends) }

/-- No thread can take a step unless something comes from outside. -/
def Settled (s : SessionState V C) : Prop := ∀ a : SessionEvent, a.own = true → s.step a = none

/-- The read loop of connection `i` waits for the network alone, its writer having ended when a send
failed. -/
def Stranded (s : SessionState V C) (i : ℕ) : Prop :=
  s.online.readers[i]? = some .reading ∧ s.online.joined i = true ∧
    ∃ k : Socket, s.sockets[i]? = some k ∧ k.handle = true ∧ k.failed = true ∧ k.down = false

/-- Every connection has a writer and a socket; one that is left has no running writer; and where
the read loop runs, a writer that has stopped has failed to send or closed its socket. -/
structure Linked (s : SessionState V C) : Prop where
  wired : s.online.Wired
  length_eq : s.sockets.length = s.online.readers.length
  joined : ∀ i : ℕ, s.online.readers[i]? = some .left → s.online.joined i = true
  cause : ∀ (i : ℕ) (x : Writer V C) (k : Socket), s.online.readers[i]? = some .reading →
    s.online.write.writers[i]? = some x → s.sockets[i]? = some k → x.consuming = false →
      k.failed = true ∨ x.running = false ∧ (k.handle = true → k.down = true)

end SessionState

/-! ## The steps of a writer -/

namespace WriteState

variable {s s' : WriteState V C} {w : ℕ} {x : Writer V C} {sends : Bool}

/-- A writer that stops was told to, had stopped already, fails to send, or sees that the client is
closed. -/
theorem turn_stops (h : s.turn w x sends = some s') :
    ∃ y, s'.writers = s.writers.set w y ∧ s'.closed = s.closed ∧ y.dead = x.dead ∧
      x.running = true ∧ (s.closed = true → y.work + 1 ≤ x.work) ∧
      (y.consuming = false → x.dead = true ∨ x.consuming = false ∨ x.failing sends = true ∨
        x.closes s.closed = true ∧ y.running = false) := by
  obtain ⟨phase, dead⟩ := x
  cases phase with
  | polling =>
    simp only [turn] at h
    split at h
    · rename_i hd
      obtain rfl := Option.some.inj h
      exact ⟨_, rfl, rfl, rfl, rfl, fun _ => Nat.le_refl _, fun _ => .inl hd⟩
    split at h
    · rename_i hd hc
      obtain rfl := Option.some.inj h
      refine ⟨_, rfl, rfl, rfl, rfl, fun _ => Nat.le_refl _, fun _ => .inr (.inr (.inr ⟨?_, rfl⟩))⟩
      have hlive : dead = false := by simpa using hd
      simp only [Writer.closes, hlive, hc]
      rfl
    · rename_i hc
      obtain rfl := Option.some.inj h
      exact ⟨_, rfl, rfl, rfl, rfl, fun hclosed => absurd hclosed hc, fun hy => by cases hy⟩
  | popping =>
    simp only [turn] at h
    split at h <;> obtain rfl := Option.some.inj h
    · exact ⟨_, rfl, rfl, rfl, rfl, fun _ => by simp [Writer.work], fun hy => by cases hy⟩
    · exact ⟨_, rfl, rfl, rfl, rfl, fun _ => by simp [Writer.work], fun hy => by cases hy⟩
  | popped m =>
    simp only [turn] at h
    split at h <;> obtain rfl := Option.some.inj h
    · exact ⟨_, rfl, rfl, rfl, rfl, fun _ => by simp [Writer.work], fun hy => by cases hy⟩
    · exact ⟨_, rfl, rfl, rfl, rfl, fun _ => by simp [Writer.work], fun hy => by cases hy⟩
  | sending e =>
    cases sends <;> obtain rfl := Option.some.inj h
    · exact ⟨_, rfl, rfl, rfl, rfl, fun _ => by simp [Writer.work], fun _ => .inr (.inr (.inl rfl))⟩
    · exact ⟨_, rfl, rfl, rfl, rfl, fun _ => by simp [Writer.work], fun hy => by cases hy⟩
  | refused m =>
    obtain rfl := Option.some.inj h
    exact ⟨_, rfl, rfl, rfl, rfl, fun _ => by simp [Writer.work], fun _ => .inr (.inl rfl)⟩
  | returned => cases h

/-- A writer that runs can take a step. -/
theorem exists_turn (hx : x.running = true) : ∃ s', s.turn w x true = some s' := by
  obtain ⟨phase, dead⟩ := x
  cases phase with
  | polling =>
    simp only [turn]
    split
    · exact ⟨_, rfl⟩
    · split <;> exact ⟨_, rfl⟩
  | popping | popped m =>
    simp only [turn]
    split <;> exact ⟨_, rfl⟩
  | sending e | refused m => exact ⟨_, rfl⟩
  | returned => cases hx

end WriteState

namespace OnlineState

variable {s s' : OnlineState V C} {a : OnlineEvent}

theorem joined_iff {i : ℕ} :
    s.joined i = true ↔ ∃ x, s.write.writers[i]? = some x ∧ x.running = false := by
  simp [joined, Option.any_eq_true]

/-- The list that a step of one connection leaves, where it is as asked for. -/
theorem getElem?_set_left {l : List ReaderPhase} {i j : ℕ} {p : ReaderPhase}
    (h : (l.set j p)[i]? = some .left) : l[i]? = some .left ∨ i = j ∧ p = .left := by
  rw [List.getElem?_set] at h
  split at h
  · rename_i hij
    split at h
    · exact .inr ⟨hij.symm, Option.some.inj h⟩
    · cases h
  · exact .inl h

/-- The writer of a connection that is left has returned, and does not run again. -/
theorem joined_step (hj : ∀ i : ℕ, s.readers[i]? = some .left → s.joined i = true)
    (h : s.step a = some s') : ∀ i : ℕ, s'.readers[i]? = some .left → s'.joined i = true := by
  intro i hi
  cases a with
  | incr | push msg | close =>
    obtain rfl := Option.some.inj h
    exact hj i hi
  | start =>
    simp only [step] at h
    split at h
    · cases h
    · obtain rfl := Option.some.inj h
      rw [List.getElem?_append] at hi
      split at hi
      · obtain ⟨x, hx, hrun⟩ := joined_iff.1 (hj i hi)
        exact joined_iff.2
          ⟨x, (List.getElem?_append_left (List.getElem?_eq_some_iff.1 hx).1).trans hx, hrun⟩
      · cases List.mem_singleton.1 (List.mem_of_getElem? hi)
  | readEnds j =>
    simp only [step] at h
    split at h
    · obtain rfl := Option.some.inj h
      rcases getElem?_set_left hi with hi | ⟨-, hp⟩
      · exact hj i hi
      · cases hp
    · cases h
  | flag j =>
    simp only [step] at h
    split at h
    · obtain ⟨write, hkill, rfl⟩ := Option.map_eq_some_iff.1 h
      obtain ⟨y, hy, rfl⟩ := Option.map_eq_some_iff.1 hkill
      rcases getElem?_set_left hi with hi | ⟨-, hp⟩
      · obtain ⟨x, hx, hrun⟩ := joined_iff.1 (hj i hi)
        by_cases hij : j = i
        · subst hij
          obtain rfl := Option.some.inj (hx.symm.trans hy)
          exact joined_iff.2
            ⟨_, List.getElem?_set_self (List.getElem?_eq_some_iff.1 hx).1, hrun⟩
        · exact joined_iff.2 ⟨x, (List.getElem?_set_ne hij).trans hx, hrun⟩
      · cases hp
    · cases h
  | leave j =>
    simp only [step] at h
    split at h
    · rename_i hleave
      obtain rfl := Option.some.inj h
      rcases getElem?_set_left hi with hi | ⟨rfl, -⟩
      · exact hj i hi
      · exact hleave.2
    · cases h
  | turn w sends =>
    obtain ⟨write, hwrite, rfl⟩ := Option.map_eq_some_iff.1 h
    obtain ⟨x, hx, ht⟩ := Option.bind_eq_some_iff.1 hwrite
    obtain ⟨y, hset, -, -, hrunning, -⟩ := WriteState.turn_stops ht
    obtain ⟨z, hz, hrun⟩ := joined_iff.1 (hj i hi)
    by_cases hwi : w = i
    · subst hwi
      obtain rfl := Option.some.inj (hx.symm.trans hz)
      rw [hrunning] at hrun
      cases hrun
    · refine joined_iff.2 ⟨z, ?_, hrun⟩
      rw [hset, List.getElem?_set_ne hwi, hz]

theorem length_readers (ha : a ≠ .start) (h : s.step a = some s') :
    s'.readers.length = s.readers.length := by
  cases a with
  | start => exact absurd rfl ha
  | incr | push msg | close =>
    obtain rfl := Option.some.inj h
    rfl
  | readEnds j | leave j =>
    simp only [step] at h
    split at h
    · obtain rfl := Option.some.inj h
      exact List.length_set
    · cases h
  | flag j =>
    simp only [step] at h
    split at h
    · obtain ⟨write, -, rfl⟩ := Option.map_eq_some_iff.1 h
      exact List.length_set
    · cases h
  | turn w sends =>
    obtain ⟨write, -, rfl⟩ := Option.map_eq_some_iff.1 h
    rfl

theorem work_setReader {i : ℕ} {p q : ReaderPhase} (h : s.readers[i]? = some p) :
    (s.setReader i q).work + p.work = s.work + q.work := by
  have hsum := sum_set_add h ReaderPhase.work q
  simp only [work, setReader]
  omega

/-- The steps of the threads use up the work of a closed client; each connection that comes online
brings some more. -/
theorem step_work (hc : s.write.closed = true) (h : s.step a = some s') :
    s'.write.closed = true ∧
      s'.work + share OnlineEvent.moves a ≤ s.work + 5 * share OnlineEvent.isIncr a := by
  cases a with
  | incr =>
    obtain rfl := Option.some.inj h
    refine ⟨hc, ?_⟩
    simp only [work, share, OnlineEvent.moves, OnlineEvent.isIncr, Bool.false_eq_true, if_false,
      if_true]
    omega
  | start =>
    simp only [step] at h
    split at h
    · cases h
    · obtain rfl := Option.some.inj h
      refine ⟨hc, ?_⟩
      simp only [work, List.map_append, List.sum_append, List.map_cons, List.map_nil, List.sum_cons,
        List.sum_nil, ReaderPhase.work, Writer.work, share, OnlineEvent.moves, OnlineEvent.isIncr,
        Bool.false_eq_true, if_false, if_true]
      omega
  | readEnds i =>
    simp only [step] at h
    split at h
    · rename_i hi
      obtain rfl := Option.some.inj h
      have hwork := work_setReader (q := .ended) hi
      exact ⟨hc, Nat.le_of_add_le_add_right (b := 2) (Nat.le_of_eq hwork)⟩
    · cases h
  | flag i =>
    simp only [step] at h
    split at h
    · rename_i hi
      obtain ⟨write, hkill, rfl⟩ := Option.map_eq_some_iff.1 h
      obtain ⟨x, hx, rfl⟩ := Option.map_eq_some_iff.1 hkill
      have hwriters := sum_set_add hx Writer.work { x with dead := true }
      have hreaders := sum_set_add hi ReaderPhase.work .flagged
      have hsame : Writer.work { x with dead := true } = x.work := rfl
      refine ⟨hc, ?_⟩
      simp only [work, setReader, WriteState.setWriter, share, OnlineEvent.moves,
        OnlineEvent.isIncr, ReaderPhase.work, Bool.false_eq_true, if_false, if_true] at *
      omega
    · cases h
  | leave i =>
    simp only [step] at h
    split at h
    · rename_i hi
      obtain rfl := Option.some.inj h
      have hwork := work_setReader (q := .left) hi.1
      exact ⟨hc, Nat.le_of_eq hwork⟩
    · cases h
  | push msg =>
    obtain rfl := Option.some.inj h
    exact ⟨hc, Nat.le_refl _⟩
  | close =>
    obtain rfl := Option.some.inj h
    exact ⟨rfl, Nat.le_refl _⟩
  | turn w sends =>
    obtain ⟨write, hwrite, rfl⟩ := Option.map_eq_some_iff.1 h
    obtain ⟨x, hx, ht⟩ := Option.bind_eq_some_iff.1 hwrite
    obtain ⟨y, hset, hclosed, -, -, hwork, -⟩ := WriteState.turn_stops ht
    have hsum := sum_set_add hx Writer.work y
    have hle := hwork hc
    refine ⟨hclosed.trans hc, ?_⟩
    simp only [work, hset, share, OnlineEvent.moves, OnlineEvent.isIncr, Bool.false_eq_true,
      if_false, if_true]
    omega

theorem work_le (s : OnlineState V C) (hs : s.Wired) :
    s.work ≤ 5 * s.starting + 7 * s.readers.length := by
  have hreader : ∀ p : ReaderPhase, p.work ≤ 3 := by
    intro p
    cases p <;> decide
  have hwriter : ∀ x : Writer V C, x.work ≤ 4 := by
    rintro ⟨phase, dead⟩
    cases phase <;> simp [Writer.work]
  have hsum : ∀ {α : Type} (l : List α) (f : α → ℕ) (n : ℕ), (∀ x, f x ≤ n) →
      (l.map f).sum ≤ n * l.length := by
    intro α l f n hf
    induction l with
    | nil => exact Nat.zero_le _
    | cons x l ih =>
      have hx := hf x
      rw [List.map_cons, List.sum_cons, List.length_cons, Nat.mul_succ]
      omega
  have hreaders := hsum s.readers ReaderPhase.work 3 hreader
  have hwriters := hsum s.write.writers Writer.work 4 hwriter
  rw [← hs.length_eq] at hwriters
  unfold work
  omega

end OnlineState

namespace SessionState

section Steps

variable {s s' : SessionState V C} {a : SessionEvent}

theorem lift_eq_some {b : OnlineEvent} (h : s.lift b = some s') :
    ∃ online, s.online.step b = some online ∧ s' = { s with online } := by
  obtain ⟨online, hstep, rfl⟩ := Option.map_eq_some_iff.1 h
  exact ⟨online, hstep, rfl⟩

/-- A step of the connections that is none of their writers' and starts none keeps the links. -/
theorem Linked.lift (hs : s.Linked) {b : OnlineEvent} (hb : ∀ w sends, b ≠ .turn w sends)
    (hnew : b ≠ .start) (h : s.lift b = some s') : s'.Linked := by
  obtain ⟨online, hstep, rfl⟩ := lift_eq_some h
  have hlen : online.readers.length = s.online.readers.length :=
    OnlineState.length_readers hnew hstep
  refine ⟨hs.wired.step hstep, hs.length_eq.trans hlen.symm,
    OnlineState.joined_step hs.joined hstep, fun i x k hi hx hk => ?_⟩
  obtain ⟨-, ⟨hreaders, -⟩ | ⟨-, -, hold⟩⟩ := OnlineState.step_eq_some hb hstep
  · rw [hreaders, List.length_append, List.length_singleton] at hlen
    exact absurd hlen (Nat.succ_ne_self _)
  · obtain ⟨hi, heq⟩ := hold i hi
    exact hs.cause i x k hi (heq ▸ hx) hk

theorem start_eq_some {handle : Bool} (h : s.step (.start handle) = some s') :
    0 < s.online.starting ∧ s'.online.starting = s.online.starting - 1 ∧
      s.online.step .start = some s'.online ∧
      s'.online.readers = s.online.readers ++ [.reading] ∧
      s'.online.write.writers = s.online.write.writers ++ [({} : Writer V C)] ∧
      s'.online.write.closed = s.online.write.closed ∧
      s'.sockets = s.sockets ++ [({ handle } : Socket)] := by
  obtain ⟨online, hstep, rfl⟩ := Option.map_eq_some_iff.1 h
  have hstart := hstep
  simp only [OnlineState.step] at hstart
  split at hstart
  · cases hstart
  · rename_i hpos
    obtain rfl := Option.some.inj hstart
    exact ⟨Nat.pos_of_ne_zero hpos, rfl, hstep, rfl, rfl, rfl, rfl⟩

theorem turn_eq_some {w : ℕ} {sends : Bool} (h : s.step (.turn w sends) = some s') :
    ∃ x y, s.online.write.writers[w]? = some x ∧ s.online.step (.turn w sends) = some s'.online ∧
      s'.online.starting = s.online.starting ∧ s'.online.readers = s.online.readers ∧
      s'.online.write.writers = s.online.write.writers.set w y ∧
      s'.online.write.closed = s.online.write.closed ∧
      s'.sockets = s.sockets.modify w
        (fun k => k.after (x.closes s.online.write.closed) (x.failing sends)) ∧
      (s.online.write.closed = true → y.work + 1 ≤ x.work) ∧
      (y.consuming = false → x.dead = true ∨ x.consuming = false ∨ x.failing sends = true ∨
        x.closes s.online.write.closed = true ∧ y.running = false) ∧ x.running = true := by
  obtain ⟨x, hx, h⟩ := Option.bind_eq_some_iff.1 h
  obtain ⟨online, hstep, rfl⟩ := Option.map_eq_some_iff.1 h
  obtain ⟨write, hwrite, rfl⟩ := Option.map_eq_some_iff.1 hstep
  obtain ⟨x', hx', ht⟩ := Option.bind_eq_some_iff.1 hwrite
  obtain rfl := Option.some.inj (hx.symm.trans hx')
  obtain ⟨y, hset, hclosed, -, hrunning, hwork, hstops⟩ := WriteState.turn_stops ht
  exact ⟨x, y, hx, hstep, rfl, rfl, hset, hclosed, rfl, hwork, hstops, hrunning⟩

theorem Linked.step (hs : s.Linked) (h : s.step a = some s') : s'.Linked := by
  cases a with
  | incr | readEnds i | flag i | leave i | push msg | close =>
    exact hs.lift (by simp) (by simp) h
  | woken i =>
    simp only [SessionState.step] at h
    split at h
    · exact hs.lift (by simp) (by simp) h
    · cases h
  | timeout i =>
    simp only [SessionState.step] at h
    split at h
    · split at h
      · exact hs.lift (by simp) (by simp) h
      · obtain rfl := Option.some.inj h
        exact hs
    · cases h
  | start handle =>
    obtain ⟨-, -, hstep, hreaders, hwriters, -, hsockets⟩ := start_eq_some h
    refine ⟨hs.wired.step hstep, ?_, OnlineState.joined_step hs.joined hstep, ?_⟩
    · rw [hsockets, hreaders, List.length_append, List.length_append, hs.length_eq]
      rfl
    · intro i x k hi hx hk hstop
      rw [hreaders] at hi
      rw [hwriters] at hx
      rw [hsockets] at hk
      by_cases hlt : i < s.online.readers.length
      · rw [List.getElem?_append_left hlt] at hi
        rw [List.getElem?_append_left (hs.wired.length_eq ▸ hlt)] at hx
        rw [List.getElem?_append_left (hs.length_eq.symm ▸ hlt)] at hk
        exact hs.cause i x k hi hx hk hstop
      · rw [List.getElem?_append_right (hs.wired.length_eq ▸ Nat.le_of_not_lt hlt)] at hx
        obtain rfl := List.mem_singleton.1 (List.mem_of_getElem? hx)
        cases hstop
  | turn w sends =>
    obtain ⟨x, y, hx, hstep, -, hreaders, hwriters, -, hsockets, -, hstops,
      hrunning⟩ := turn_eq_some h
    refine ⟨hs.wired.step hstep, ?_, OnlineState.joined_step hs.joined hstep, ?_⟩
    · rw [hsockets, hreaders, List.length_modify, hs.length_eq]
    · intro i z k hi hz hk hstop
      rw [hreaders] at hi
      rw [hwriters] at hz
      rw [hsockets] at hk
      by_cases hwi : w = i
      · subst hwi
        rw [List.getElem?_set_self (List.getElem?_eq_some_iff.1 hx).1] at hz
        obtain rfl := Option.some.inj hz
        rw [List.getElem?_modify_eq] at hk
        obtain ⟨k₀, hk₀, rfl⟩ := Option.map_eq_some_iff.1 hk
        simp only [Socket.after, Bool.or_eq_true, Bool.and_eq_true]
        rcases hstops hstop with hdead | hstopped | hfails | ⟨hcloses, hreturned⟩
        · rw [hs.wired.notDead w x hi hx] at hdead
          cases hdead
        · rcases hs.cause w x k₀ hi hx hk₀ hstopped with hfailed | ⟨hreturned, -⟩
          · exact .inl (.inl hfailed)
          · rw [hrunning] at hreturned
            cases hreturned
        · exact .inl (.inr hfails)
        · exact .inr ⟨hreturned, fun hhandle => .inr ⟨hcloses, hhandle⟩⟩
      · rw [List.getElem?_set_ne hwi] at hz
        rw [List.getElem?_modify_ne _ _ hwi] at hk
        exact hs.cause i z k hi hz hk hstop

theorem linked_start : ({} : SessionState V C).Linked :=
  ⟨⟨rfl, fun _ _ hi => (nomatch hi)⟩, rfl, fun _ hi => (nomatch hi), fun _ _ _ hi => (nomatch hi)⟩

/-- The steps of the threads use up the work of a closed client. -/
theorem step_work (hc : s.online.write.closed = true) (h : s.step a = some s') :
    s'.online.write.closed = true ∧
      s'.online.work + share SessionEvent.own a ≤
        s.online.work + 5 * share SessionEvent.isIncr a := by
  have lifted : ∀ {b : OnlineEvent}, s.lift b = some s' →
      s'.online.write.closed = true ∧
        s'.online.work + share OnlineEvent.moves b ≤
          s.online.work + 5 * share OnlineEvent.isIncr b := by
    intro b hb
    obtain ⟨online, hstep, rfl⟩ := lift_eq_some hb
    exact OnlineState.step_work hc hstep
  cases a with
  | incr | flag i | leave i | push msg | close => exact lifted h
  | readEnds i =>
    obtain ⟨hc', hle⟩ := lifted h
    exact ⟨hc', (Nat.le_add_right _ 1).trans hle⟩
  | woken i =>
    simp only [SessionState.step] at h
    split at h
    · exact lifted h
    · cases h
  | timeout i =>
    simp only [SessionState.step, hc, if_true] at h
    split at h
    · exact lifted h
    · cases h
  | start handle =>
    obtain ⟨-, -, hstep, -⟩ := start_eq_some h
    exact OnlineState.step_work hc hstep
  | turn w sends =>
    obtain ⟨-, -, -, hstep, -⟩ := turn_eq_some h
    exact OnlineState.step_work hc hstep

end Steps

/-! ## When no thread can go on -/

section Settled

variable {s : SessionState V C} {i : ℕ} {x : Writer V C}

/-- The writers have all returned. -/
theorem Settled.not_running (h : s.Settled) (hx : s.online.write.writers[i]? = some x) :
    x.running = false := by
  by_contra hrun
  obtain ⟨write, hturn⟩ := WriteState.exists_turn (s := s.online.write) (w := i)
    (eq_true_of_ne_false hrun)
  have hnone := h (.turn i true) rfl
  simp only [step, OnlineState.step, WriteState.step, hx, Option.bind_some, hturn,
    Option.map_some] at hnone
  cases hnone

/-- A connection that is not left is stranded. -/
theorem Settled.left_or_stranded (h : s.Settled) (hs : s.Linked)
    (hc : s.online.write.closed = true) {p : ReaderPhase} (hp : s.online.readers[i]? = some p) :
    p = .left ∨ s.Stranded i := by
  have hi := (List.getElem?_eq_some_iff.1 hp).1
  obtain ⟨x, hx⟩ : ∃ x, s.online.write.writers[i]? = some x :=
    ⟨_, List.getElem?_eq_getElem (hs.wired.length_eq ▸ hi)⟩
  obtain ⟨k, hk⟩ : ∃ k, s.sockets[i]? = some k :=
    ⟨_, List.getElem?_eq_getElem (hs.length_eq.symm ▸ hi)⟩
  have hrun := h.not_running hx
  have hjoined : s.online.joined i = true := OnlineState.joined_iff.2 ⟨x, hx, hrun⟩
  cases p with
  | left => exact .inl rfl
  | flagged =>
    have hnone := h (.leave i) rfl
    simp only [step, lift, OnlineState.step, hp, hjoined, and_self, if_true, Option.map_some]
      at hnone
    cases hnone
  | ended =>
    have hnone := h (.flag i) rfl
    simp only [step, lift, OnlineState.step, WriteState.step, hp, hx, if_true, Option.map_some]
      at hnone
    cases hnone
  | reading =>
    have hends : s.lift (.readEnds i) ≠ none := by
      simp [lift, OnlineState.step, hp]
    have hhandle : k.handle = true := by
      by_contra hno
      have hnone := h (.timeout i) rfl
      simp only [step, hk, hp, hc, Option.any_some, Bool.not_eq_true _ ▸ hno, Bool.not_false,
        and_self, if_true] at hnone
      exact hends hnone
    have hup : k.down = false := by
      by_contra hdown
      have hnone := h (.woken i) rfl
      simp only [step, hk, Option.any_some, Bool.not_eq_false _ ▸ hdown, if_true] at hnone
      exact hends hnone
    have hstopped : x.consuming = false := by
      obtain ⟨phase, dead⟩ := x
      cases phase with
      | returned => rfl
      | _ => cases hrun
    refine .inr ⟨hp, hjoined, k, hk, hhandle, ?_, hup⟩
    rcases hs.cause i x k hp hx hk hstopped with hfailed | ⟨-, hdown⟩
    · exact hfailed
    · rw [hdown hhandle] at hup
      cases hup

theorem Settled.starting (h : s.Settled) : s.online.starting = 0 := by
  by_contra hpos
  have hnone := h (.start true) rfl
  simp only [step, OnlineState.step, hpos, if_false] at hnone
  cases hnone

end Settled

/-- Two connections come online, a send fails on the first, and the client is closed. -/
def pairRun : List SessionEvent :=
  [.incr, .start true, .push default, .turn 0 true, .turn 0 true, .turn 0 true, .turn 0 false,
    .turn 0 true, .incr, .start true, .close]

/-- The second one is closed by its writer. -/
def pairEnd : List SessionEvent := [.turn 1 true, .woken 1, .flag 1, .leave 1]

def closedPair : SessionState leb128 sampleCiborium := (run step {} pairRun).get rfl

def leftPair : SessionState leb128 sampleCiborium := (run step closedPair pairEnd).get rfl

theorem settled_leftPair : leftPair.Settled := by
  intro a ha
  cases a with
  | start handle => rfl
  | woken i | timeout i | flag i | leave i | turn i sends => rcases i with _ | _ | i <;> rfl
  | _ => cases ha

end SessionState

end Spot

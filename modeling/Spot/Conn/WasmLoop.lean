import Spot.Conn.WriteQueue

/-!
# The event loop of the browser client

One thread runs the tasks of all connections and of all callers; a task runs until it awaits
something, so a step of `LoopState.step` is what a task does from one await to the next.  Every
connection that completes its handshake puts its sink in one slot (`sink`); queued messages and the
answers to later challenges are sent on whatever sink the slot holds.

The state keeps what the tasks share, where each task awaits, and three things that only this
development looks at: what was pushed, what was sent, and the answers to challenges.
-/

namespace Spot

/-- What the read half of a connection yields; `silent` is a read that timed out. -/
inductive Arrival
  | packet (data : Bytes)
  | closed
  | error
  | silent

/-- What a connection does about an arrival. -/
inductive Reaction
  | stay
  | ready
  | answer (buf : Bytes)
  | leave
  deriving DecidableEq

section Loops

variable (V : Uvarint) (C : Ciborium)

/-- One round of `handshake`; `response` is what `build_handshake_response` gives, if it does. -/
def handshakeRound (response : Option Bytes) : Arrival → Option Reaction
  | .packet data =>
    match parse .wasm V C data true with
    | .ok (.handshakeRequest req) =>
      if req.ready then some .ready
      else match response with
        | some buf => some (.answer buf)
        | none => some .leave
    | .ok _ => some .stay
    | .error (.err _) => some .leave
    -- a panic stops the whole module
    | .error .panic => none
  | .closed | .error | .silent => some .leave

/-- One round of `read_loop`. -/
def readRound (isClosed : Bool) (response : Option Bytes) : Arrival → Option Reaction
  | .packet data =>
    match parse .wasm V C data true with
    | .ok (.handshakeRequest req) =>
      if req.ready then some .stay
      else match response with
        | some buf => some (.answer buf)
        | none => some .leave
    | .ok _ => if isClosed then some .leave else some .stay
    | .error (.err _) => some .leave
    | .error .panic => none
  | .closed | .error => some .leave
  | .silent => if isClosed then some .leave else some .stay

/-- A message being sent on the sink of a connection. -/
structure Sending where
  on : ℕ
  packet : Encoded V C

/-- Where the task of a connection awaits: a packet, the sending of an answer on its own sink, a
send of the flush that follows the installation of its sink, or the sending of an answer on the
sink it found in the slot. -/
inductive ConnTask
  | handshaking
  | answering
  | installing (f : Sending V C)
  | reading
  | challenged (on : ℕ)
  | closed

/-- A connection, and whether a send on its sink has failed since it was installed. -/
structure WasmConn where
  task : ConnTask V C := .handshaking
  failed : Bool := false

/-- An answer to a challenge: the connection it came on, the one whose sink the answer was given
to, if there was any, and whether a send had failed on the first. -/
structure Answer where
  asked : ℕ
  on : Option ℕ
  buf : Bytes
  ownFailure : Bool
  deriving DecidableEq

/-- The state of the event loop. -/
structure LoopState where
  closed : Bool := false
  conns : List (WasmConn V C) := []
  sink : Option ℕ := none
  outq : List Ticketed := []
  /-- The flush of each `push_out`, if it has not ended. -/
  pushes : List (Option (Sending V C)) := []
  pushed : List Ticketed := []
  sent : List (Sending V C) := []
  answers : List Answer := []

end Loops

variable {V : Uvarint} {C : Ciborium}

/-- Whether the sink of the connection has been installed, and not dropped since. -/
def ConnTask.online : ConnTask V C → Bool
  | .installing _ | .reading | .challenged _ => true
  | _ => false

/-- What can happen: a connection is dialled, connection `c` receives something, the send that the
task of connection `c` awaits completes, a caller pushes a message, the send that the `i`-th such
push awaits completes, or the client closes. -/
inductive LoopEvent
  | dial
  | recv (c : ℕ) (a : Arrival) (response : Option Bytes)
  | done (c : ℕ) (ok : Bool)
  | push (msg : Message)
  | pushDone (i : ℕ) (ok : Bool)
  | close

namespace LoopState

/-- The task of connection `c`. -/
def task? (s : LoopState V C) (c : ℕ) : Option (ConnTask V C) := s.conns[c]?.map WasmConn.task

/-- Whether a send on the sink of connection `c` has failed. -/
def failed (s : LoopState V C) (c : ℕ) : Bool := s.conns[c]?.any WasmConn.failed

def setTask (s : LoopState V C) (c : ℕ) (t : ConnTask V C) : LoopState V C :=
  { s with conns := s.conns.modify c fun x => { x with task := t } }

def fail (s : LoopState V C) (c : ℕ) : LoopState V C :=
  { s with conns := s.conns.modify c fun x => { x with failed := true } }

def logAnswer (s : LoopState V C) (c : ℕ) (on : Option ℕ) (buf : Bytes) : LoopState V C :=
  { s with answers := s.answers ++ [⟨c, on, buf, s.failed c⟩] }

/-- What a flush takes from the queue for the sink of connection `c`. -/
def takeNext (c : ℕ) : List Ticketed → List Ticketed × Option (Sending V C)
  | [] => ([], none)
  | m :: q =>
    match h : (Packet.message m.msg).encode V C with
    | .ok buf => (q, some ⟨c, m, buf, h⟩)
    -- logged, and the message is dropped
    | .error _ => takeNext c q

/-- `flush_out`, up to the send it then awaits, if it does not end. -/
def flushOut (s : LoopState V C) : LoopState V C × Option (Sending V C) :=
  match s.sink with
  | none => (s, none)
  | some c => ({ s with outq := (takeNext (V := V) (C := C) c s.outq).1 }, (takeNext c s.outq).2)

/-- `flush_out` once the send `f` has completed: the next round, or the message goes back and the
slot is emptied. -/
def flushSent (s : LoopState V C) (f : Sending V C) (ok : Bool) :
    LoopState V C × Option (Sending V C) :=
  if ok then { s with sent := s.sent ++ [f] }.flushOut
  else ({ s with outq := f.packet.m :: s.outq, sink := none }.fail f.on, none)

/-- The task of a connection whose `set_sink` awaits the send `f`, or has ended. -/
def afterFlush : Option (Sending V C) → ConnTask V C
  | some f => .installing f
  | none => .reading

/-- `set_sink`, up to the first send of its flush. -/
def setSink (s : LoopState V C) (c : ℕ) : LoopState V C :=
  let r := { s with sink := some c }.flushOut
  { r.1 with conns := r.1.conns.modify c fun _ => { task := afterFlush r.2 } }

/-- The end of `handle`, with its `drop_sink`. -/
def dropSink (s : LoopState V C) (c : ℕ) : LoopState V C :=
  { s with sink := none }.setTask c .closed

/-- Connection `c` reacts in its handshake: the answer goes on its own sink. -/
def reactHandshake (s : LoopState V C) (c : ℕ) : Reaction → LoopState V C
  | .stay => s
  | .ready => s.setSink c
  | .answer buf => (s.logAnswer c (some c) buf).setTask c .answering
  | .leave => s.setTask c .closed

/-- Connection `c` reacts in its read loop: the answer goes on the sink in the slot (`send_raw`). -/
def reactRead (s : LoopState V C) (c : ℕ) : Reaction → LoopState V C
  | .stay | .ready => s
  | .answer buf =>
    match s.sink with
    | some d => (s.logAnswer c (some d) buf).setTask c (.challenged d)
    | none => (s.logAnswer c none buf).dropSink c
  | .leave => s.dropSink c

/-- `push_out`, up to the first send of its flush. -/
def pushOut (s : LoopState V C) (msg : Message) : LoopState V C :=
  let m : Ticketed := ⟨s.pushed.length, msg⟩
  let r := { s with outq := s.outq ++ [m], pushed := s.pushed ++ [m] }.flushOut
  { r.1 with pushes := r.1.pushes ++ [r.2] }

/-- One step of the event loop. -/
def step (s : LoopState V C) : LoopEvent → Option (LoopState V C)
  | .dial => some { s with conns := s.conns ++ [{}] }
  | .recv c a response =>
    match s.task? c with
    | some .handshaking => (handshakeRound V C response a).map (s.reactHandshake c)
    | some .reading => (readRound V C s.closed response a).map (s.reactRead c)
    | _ => none
  | .done c ok =>
    match s.task? c with
    | some .answering => some (s.setTask c (if ok then .handshaking else .closed))
    | some (.installing f) =>
      let r := s.flushSent f ok
      some (r.1.setTask c (afterFlush r.2))
    | some (.challenged d) =>
      if ok then
        if s.closed then some (s.dropSink c) else some (s.setTask c .reading)
      else some ((s.fail d).dropSink c)
    | _ => none
  | .push msg => some (s.pushOut msg)
  | .pushDone i ok =>
    match s.pushes[i]? with
    | some (some f) =>
      let r := s.flushSent f ok
      some { r.1 with pushes := r.1.pushes.set i r.2 }
    | _ => none
  | .close => some { s with closed := true }

section Steps

variable {s s' : LoopState V C} {c i : ℕ} {ok : Bool}

/-- A connection reads in its handshake or in its read loop, and reacts. -/
theorem step_recv {a : Arrival} {response : Option Bytes}
    (h : s.step (.recv c a response) = some s') :
    (s.task? c = some .handshaking ∧
      ∃ r, handshakeRound V C response a = some r ∧ s' = s.reactHandshake c r) ∨
    s.task? c = some .reading ∧
      ∃ r, readRound V C s.closed response a = some r ∧ s' = s.reactRead c r := by
  simp only [step] at h
  split at h
  · rename_i htask
    obtain ⟨r, hr, rfl⟩ := Option.map_eq_some_iff.1 h
    exact .inl ⟨htask, r, hr, rfl⟩
  · rename_i htask
    obtain ⟨r, hr, rfl⟩ := Option.map_eq_some_iff.1 h
    exact .inr ⟨htask, r, hr, rfl⟩
  · cases h

/-- What a connection awaits ends: its answer in the handshake, a send of its flush, or its answer
in the read loop. -/
theorem step_done (h : s.step (.done c ok) = some s') :
    (s.task? c = some .answering ∧ s' = s.setTask c (if ok then .handshaking else .closed)) ∨
    (∃ f, s.task? c = some (.installing f) ∧
      s' = (s.flushSent f ok).1.setTask c (afterFlush (s.flushSent f ok).2)) ∨
    ∃ d, s.task? c = some (.challenged d) ∧
      (ok = true ∧ s.closed = true ∧ s' = s.dropSink c ∨
        ok = true ∧ s.closed = false ∧ s' = s.setTask c .reading ∨
        ok = false ∧ s' = (s.fail d).dropSink c) := by
  simp only [step] at h
  split at h
  · rename_i htask
    exact .inl ⟨htask, (Option.some.inj h).symm⟩
  · rename_i f htask
    exact .inr (.inl ⟨f, htask, (Option.some.inj h).symm⟩)
  · rename_i d htask
    refine .inr (.inr ⟨d, htask, ?_⟩)
    split at h
    · rename_i hok
      split at h
      · rename_i hclosed
        exact .inl ⟨hok, hclosed, (Option.some.inj h).symm⟩
      · rename_i hclosed
        exact .inr (.inl ⟨hok, Bool.eq_false_iff.2 hclosed, (Option.some.inj h).symm⟩)
    · rename_i hok
      exact .inr (.inr ⟨Bool.eq_false_iff.2 hok, (Option.some.inj h).symm⟩)
  · cases h

/-- A send of the flush of a push ends. -/
theorem step_pushDone (h : s.step (.pushDone i ok) = some s') :
    ∃ f, s.pushes[i]? = some (some f) ∧
      s' = { (s.flushSent f ok).1 with
        pushes := (s.flushSent f ok).1.pushes.set i (s.flushSent f ok).2 } := by
  simp only [step] at h
  split at h
  · rename_i f hpush
    exact ⟨f, hpush, (Option.some.inj h).symm⟩
  · cases h

end Steps

end LoopState

/-! ## Requests in a few bytes -/

/-- CBOR as it is read from the maps `{}` and `{"rdy": true}`. -/
def bareCiborium : Ciborium where
  intoWriter _ := .error "unused".toList
  fromReader b :=
    if b = [0xa0] then .ok (.map [])
    else if b = [0xa1, 0x63, 0x72, 0x64, 0x79, 0xf5] then
      .ok (.map [(.text Key.rdy, .bool true)])
    else .error "eof".toList

/-- A handshake request that is not ready, with every field left out. -/
def challengePacket : Bytes := [0x01, 0xa0]

/-- A handshake request that is ready. -/
def readyPacket : Bytes := [0x01, 0xa1, 0x63, 0x72, 0x64, 0x79, 0xf5]

end Spot

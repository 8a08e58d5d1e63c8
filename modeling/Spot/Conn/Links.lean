import Mathlib.Data.List.TakeWhile
import Spot.Conn.Handshake

/-!
# The sessions of a client

A connection that has been dialled reads: first in its handshake, then, once the server has said
that it is ready, in its read loop, which answers further challenges and routes messages.  All the
connections of a client share its identity, and any challenge may change it.  `Links.step` is a
step of one of any number of connections: a read, which applies the records that come with a
challenge; the building of the answer, which in the browser comes with the read, while native
connections may get ahead of each other; and the end of the sending.

`Link.Next` says what the protocol asks of a connection that deals with a read, and `Link.Sound`
what it is to have done so all along (`Link.Sound.next`).
-/

namespace Spot

/-- How far a connection has come: it is in its handshake or in its read loop, it has a challenge to
answer, the answer is being sent that it built for the identity `st`, or it has ended, and remembers
whether it was online, and the result of its handler. -/
inductive LinkPhase (B : Bottlers)
  | handshaking
  | reading
  | answering (online : Bool) (x : Turn B) (req : HandshakeRequest)
  | sending (online : Bool) (x : Turn B) (st : IdState B) (buf : Bytes)
  | ended (online : Bool) (res : Except (Fault Error) Unit)

/-- A read that a connection has dealt with: the identity it was answered for, if it is a challenge,
and what the closed flag was at the end. -/
structure LinkRead (B : Bottlers) where
  st : IdState B
  turn : Turn B
  closed : Bool

/-- A connection: what it has sent and routed, for what reads. -/
structure Link (B : Bottlers) where
  phase : LinkPhase B := .handshaking
  sent : List Bytes := []
  routed : List Message := []
  reads : List (LinkRead B) := []

/-- The connections of a client, and its identity. -/
structure Links (B : Bottlers) where
  st : IdState B
  links : List (Link B) := []

/-- What can happen: a connection is dialled, or the `i`-th one reads, builds its answer, or is done
with sending it. -/
inductive LinksEvent (B : Bottlers)
  | dialled
  | read (i : ℕ) (x : Turn B) (closed : Bool)
  | build (i : ℕ)
  | finish (i : ℕ) (closed : Bool)

variable {B : Bottlers}

namespace LinkPhase

/-- The connection is online, or was when it ended. -/
def online : LinkPhase B → Bool
  | .handshaking => false
  | .reading => true
  | .answering online _ _ | .sending online _ _ _ | .ended online _ => online

/-- The handler of the connection has returned. -/
def isEnded : LinkPhase B → Bool
  | .ended _ _ => true
  | _ => false

/-- The challenge that the connection has read and not dealt with yet. -/
def pending : LinkPhase B → Option (Turn B)
  | .answering _ x _ | .sending _ x _ _ => some x
  | _ => none

end LinkPhase

/-- Where a round of the handshake leaves a connection. -/
def ConnPhase.afterHandshake : ConnPhase → LinkPhase B
  | .handshaking => .handshaking
  | .online => .reading
  | .failed e => .ended false (.error e)

namespace Link

/-- The connection, with one more read dealt with. -/
def noted (l : Link B) (r : LinkRead B) : Link B := { l with reads := l.reads ++ [r] }

/-- The handler returns. -/
def leave (l : Link B) (r : LinkRead B) (res : Except (Fault Error) Unit) : Link B :=
  { l.noted r with phase := .ended l.phase.online res }

section Rounds

variable (t : Platform) (S : RawSigner B) (V : Uvarint) (C : Ciborium) (acct : Account B)

/-- The end of a round of `read_loop`: in the browser it looks whether the client is closed. -/
def checked (l : Link B) (r : LinkRead B) : Link B :=
  match t with
  | .native => l.noted r
  | .wasm => if r.closed then l.leave r (.ok ()) else l.noted r

/-- A challenge is to be answered, once the records that came with it are applied. -/
def challenged (st : IdState B) (l : Link B) (x : Turn B) (req : HandshakeRequest) :
    IdState B × Link B :=
  (joinGroups C acct st req x.cardSeed, { l with phase := .answering l.phase.online x req })

/-- One round of `handshake`, up to the answer. -/
def handshakeRound (st : IdState B) (l : Link B) (x : Turn B) (closed : Bool) :
    IdState B × Link B :=
  let r : LinkRead B := ⟨st, x, closed⟩
  match recvPacket x.recv with
  | .error e => (st, l.leave r (.error (.err e)))
  | .ok none => (st, l.noted r)
  | .ok (some .closed) =>
    (st, l.leave r (.error (.err (.ws "connection closed during handshake".toList))))
  | .ok (some .timeout) => (st, l.leave r (.error (.err (.ws "handshake timed out".toList))))
  | .ok (some (.packet data)) =>
    match liftProto (parse t V C data true) with
    | .error e => (st, l.leave r (.error e))
    | .ok (.handshakeRequest req) =>
      if req.ready then (st, { l.noted r with phase := .reading })
      else l.challenged C acct st x req
    -- logged, and the loop goes on
    | .ok _ => (st, l.noted r)

/-- One round of `read_loop`, up to the answer. -/
def readRound (st : IdState B) (l : Link B) (x : Turn B) (closed : Bool) : IdState B × Link B :=
  let r : LinkRead B := ⟨st, x, closed⟩
  match recvPacket x.recv with
  | .error e => (st, l.leave r (.error (.err e)))
  | .ok none => (st, l.noted r)
  -- a clean close
  | .ok (some .closed) => (st, l.leave r (.ok ()))
  | .ok (some .timeout) => (st, if closed then l.leave r (.ok ()) else l.noted r)
  | .ok (some (.packet data)) =>
    match liftProto (parse t V C data true) with
    | .error e => (st, l.leave r (.error e))
    | .ok (.handshakeRequest req) =>
      if req.ready then (st, l.noted r) else l.challenged C acct st x req
    | .ok (.message msg) => (st, { l with routed := l.routed ++ [msg] }.checked t r)
    -- logged, and the loop goes on
    | .ok _ => (st, l.checked t r)

/-- A read of a connection. -/
def read (st : IdState B) (l : Link B) (x : Turn B) (closed : Bool) : IdState B × Link B :=
  match l.phase with
  | .handshaking => l.handshakeRound t V C acct st x closed
  | .reading => l.readRound t V C acct st x closed
  | _ => (st, l)

/-- The answer is built, for the identity as it now is. -/
def build (st : IdState B) (l : Link B) : Link B :=
  match l.phase with
  | .answering online x req =>
    match responsePacket S V C acct st.signed x.sigSeed req with
    | .error e => l.leave ⟨st, x, false⟩ (.error e)
    | .ok buf => { l with phase := .sending online x st buf }
  | _ => l

/-- The sending of the answer is done. -/
def finish (l : Link B) (closed : Bool) : Link B :=
  match l.phase with
  | .sending online x st buf =>
    match x.sent with
    | .error e => l.leave ⟨st, x, closed⟩ (.error (.err (.ws e)))
    | .ok () =>
      if online then
        { l with phase := .reading, sent := l.sent ++ [buf] }.checked t ⟨st, x, closed⟩
      else { l with phase := .handshaking, sent := l.sent ++ [buf] }.noted ⟨st, x, closed⟩
  | _ => l

/-- The steps of a native connection when no other comes between. -/
def alone (st : IdState B) (l : Link B) (x : Turn B) (closed : Bool) : IdState B × Link B :=
  let r := l.read .native V C acct st x closed
  (r.1, (r.2.build S V C acct r.1).finish .native closed)

/-- What a read leads to before anything else can happen: in the browser, the answer is built. -/
def received (st : IdState B) (l : Link B) (x : Turn B) (closed : Bool) : IdState B × Link B :=
  let r := l.read t V C acct st x closed
  match t with
  | .native => r
  | .wasm => (r.1, r.2.build S V C acct r.1)

end Rounds

end Link

/-- One step; a connection reads in its two loops only. -/
def Links.step (t : Platform) (S : RawSigner B) (V : Uvarint) (C : Ciborium) (acct : Account B)
    (s : Links B) : LinksEvent B → Option (Links B)
  | .dialled => some { s with links := s.links ++ [{}] }
  | .read i x closed =>
    match s.links[i]? with
    | some l =>
      match l.phase with
      | .handshaking | .reading =>
        let r := l.received t S V C acct s.st x closed
        some { st := r.1, links := s.links.set i r.2 }
      | _ => none
    | none => none
  | .build i =>
    match s.links[i]? with
    | some l =>
      match l.phase with
      | .answering _ _ _ => some { s with links := s.links.set i (l.build S V C acct s.st) }
      | _ => none
    | none => none
  | .finish i closed =>
    match s.links[i]? with
    | some l =>
      match l.phase with
      | .sending _ _ _ _ => some { s with links := s.links.set i (l.finish t closed) }
      | _ => none
    | none => none

/-! ## What a read is to a connection -/

section Reads

variable (t : Platform) (S : RawSigner B) (V : Uvarint) (C : Ciborium) (acct : Account B)

/-- The packet that the read yields. -/
def Turn.packet? (x : Turn B) : Option Packet :=
  match x.recv with
  | .binary data =>
    match parse t V C data true with
    | .ok p => some p
    | .error _ => none
  | _ => none

/-- The server reports that it is ready. -/
def Turn.isReady (x : Turn B) : Bool :=
  match x.packet? t V C with
  | some (.handshakeRequest req) => req.ready
  | _ => false

/-- The challenge that the read is. -/
def Turn.asked? (x : Turn B) : Option HandshakeRequest :=
  match x.packet? t V C with
  | some (.handshakeRequest req) => if req.ready then none else some req
  | _ => none

/-- The message that the read is. -/
def Turn.message? (x : Turn B) : Option Message :=
  match x.packet? t V C with
  | some (.message msg) => some msg
  | _ => none

namespace LinkRead

/-- The read ends a connection with an error: it fails, the packet is malformed, or it is a
challenge whose answer cannot be built or not be sent. -/
def Fails (r : LinkRead B) : Prop :=
  (∃ e, r.turn.recv = .failed e) ∨
    (∃ data e, r.turn.recv = .binary data ∧ parse t V C data true = .error e) ∨
    ∃ req, r.turn.asked? t V C = some req ∧
      ((∃ e, responsePacket S V C acct r.st.signed r.turn.sigSeed req = .error e) ∨
        ∃ e, r.turn.sent = .error e)

/-- A read loop leaves: the connection was closed, or the client was and the loop looks. -/
def Leaves (r : LinkRead B) : Prop :=
  r.turn.recv = .closed ∨ r.closed = true ∧
    (r.turn.recv = .timedOut ∨
      t = .wasm ∧ (r.turn.packet? t V C).isSome = true ∧ r.turn.isReady t V C = false)

/-- The read ends a connection, in its handshake or online. -/
def Ends (r : LinkRead B) : Bool → Prop
  | false => r.Fails t S V C acct ∨ r.turn.recv = .closed ∨ r.turn.recv = .timedOut
  | true => r.Fails t S V C acct ∨ r.Leaves t V C

/-- The packet answers the challenge: it has the main public key, a signature with that key over the
bytes after the type byte, and as id the signed card. -/
def AnsweredBy (r : LinkRead B) (buf : Bytes) : Prop :=
  ∃ v body res, r.turn.recv = .binary (v :: body) ∧
    (Packet.handshakeResponse res).encode V C = .ok buf ∧
    B.publicPkix acct.signer = .ok res.key ∧
    S.sign r.turn.sigSeed acct.signer body = .ok res.sig ∧ res.id = r.st.signed

end LinkRead

namespace Link

/-- What the connection has read from the report that the server is ready on. -/
def session (l : Link B) : List (LinkRead B) := l.reads.dropWhile fun r => !r.turn.isReady t V C

/-- The challenges are answered in order, all of them unless the last ended the connection with an
error. -/
def Answered (l : Link B) : Prop :=
  ∃ asked missed, l.reads.filter (fun r => (r.turn.asked? t V C).isSome) = asked ++ missed ∧
    List.Forall₂ (fun r buf => r.AnsweredBy S V C acct buf) asked l.sent ∧
    (missed = [] ∨ missed.length = 1 ∧ ∃ online e, l.phase = .ended online (.error e))

/-- What the protocol asks of a connection that deals with `r` and becomes `l'`. -/
structure Next (l : Link B) (r : LinkRead B) (l' : Link B) : Prop where
  reads : l'.reads = l.reads ++ [r]
  idle : l'.phase.pending = none
  online : l'.phase.online = (l.phase.online || r.turn.isReady t V C)
  routed : l'.routed = l.routed ++ if l.phase.online then (r.turn.message? t V C).toList else []
  answered : (l'.sent = l.sent ∧
      (r.turn.asked? t V C = none ∨ ∃ online e, l'.phase = .ended online (.error e))) ∨
    ∃ buf, l'.sent = l.sent ++ [buf] ∧ (r.turn.asked? t V C).isSome = true ∧
      r.AnsweredBy S V C acct buf
  ended : l'.phase.isEnded = true ↔ r.Ends t S V C acct l.phase.online
  result : ∀ online res, l'.phase = .ended online res →
    (res = .ok () ↔ online = true ∧ ¬ r.Fails t S V C acct)

/-- What the connection holds of a challenge that it has not dealt with yet. -/
def Holds (l : Link B) : Prop :=
  match l.phase with
  | .answering _ x req => x.asked? t V C = some req
  | .sending _ x st buf => ∃ req, x.asked? t V C = some req ∧
      responsePacket S V C acct st.signed x.sigSeed req = .ok buf
  | _ => True

/-- A connection that has done what the protocol asks of it. -/
structure Sound (l : Link B) : Prop where
  holds : l.Holds t S V C acct
  online : l.phase.online = l.reads.any (·.turn.isReady t V C)
  routed : l.routed = (l.session t V C).filterMap (·.turn.message? t V C)
  answered : l.Answered t S V C acct
  ended : ∀ pre r post, l.reads = pre ++ r :: post →
    (r.Ends t S V C acct (pre.any (·.turn.isReady t V C)) ↔ post = [] ∧ l.phase.isEnded = true)
  result : ∀ online res, l.phase = .ended online res → ∃ r, l.reads.getLast? = some r ∧
    (res = .ok () ↔ online = true ∧ ¬ r.Fails t S V C acct)

end Link

end Reads

section Rounds

variable {t : Platform} {S : RawSigner B} {V : Uvarint} {C : Ciborium} {acct : Account B}
  {l l' m : Link B} {r : LinkRead B} {x : Turn B} {data : Bytes} {req : HandshakeRequest}

namespace Turn

theorem packet?_eq_some {p : Packet} (h : x.packet? t V C = some p) :
    ∃ data, x.recv = .binary data ∧ parse t V C data true = .ok p := by
  unfold packet? at h
  split at h
  · rename_i data hrecv
    split at h
    · rename_i p' hparse
      obtain rfl := Option.some.inj h
      exact ⟨data, hrecv, hparse⟩
    · cases h
  · cases h

theorem packet?_of_parse {p : Packet} (hrecv : x.recv = .binary data)
    (hparse : parse t V C data true = .ok p) : x.packet? t V C = some p := by
  rw [packet?, hrecv]
  simp only [hparse]

theorem asked?_eq_some : x.asked? t V C = some req ↔
    x.packet? t V C = some (.handshakeRequest req) ∧ req.ready = false := by
  unfold asked?
  split
  · rename_i req' hp
    rw [hp]
    cases hready : req'.ready with
    | true =>
      refine iff_of_false (fun h => by cases h) ?_
      rintro ⟨h, hnot⟩
      obtain rfl := Packet.handshakeRequest.inj (Option.some.inj h)
      cases hready.symm.trans hnot
    | false =>
      constructor
      · intro h
        obtain rfl := Option.some.inj h
        exact ⟨rfl, hready⟩
      · rintro ⟨h, -⟩
        exact congrArg some (Packet.handshakeRequest.inj (Option.some.inj h))
  · rename_i hno
    exact iff_of_false (fun h => by cases h) fun h => hno req h.1

/-- A challenge is no report that the server is ready, and no message. -/
theorem other_of_asked? (h : x.asked? t V C = some req) :
    x.isReady t V C = false ∧ x.message? t V C = none := by
  obtain ⟨hp, hready⟩ := asked?_eq_some.1 h
  simp only [isReady, message?, hp]
  exact ⟨hready, trivial⟩

/-- Nor is such a report a message, or a challenge. -/
theorem other_of_isReady (h : x.isReady t V C = true) :
    x.message? t V C = none ∧ x.asked? t V C = none := by
  unfold isReady at h
  split at h
  · rename_i req hp
    simp only [message?, asked?, hp, h]
    exact ⟨trivial, rfl⟩
  · cases h

/-- A read without a packet is none of them. -/
theorem other_of_packet? (h : x.packet? t V C = none) :
    x.isReady t V C = false ∧ x.message? t V C = none ∧ x.asked? t V C = none := by
  simp only [isReady, message?, asked?, h, and_self]

end Turn

/-- The answer that is built to a challenge answers it. -/
theorem answeredBy_of_built {buf : Bytes} (h : r.turn.asked? t V C = some req)
    (hbuf : responsePacket S V C acct r.st.signed r.turn.sigSeed req = .ok buf) :
    r.AnsweredBy S V C acct buf := by
  obtain ⟨hp, -⟩ := Turn.asked?_eq_some.1 h
  obtain ⟨data, hrecv, hparse⟩ := Turn.packet?_eq_some hp
  cases data with
  | nil => cases hparse
  | cons v body =>
    rcases responsePacket_cases (S := S) (V := V) (C := C) acct r.st.signed r.turn.sigSeed
        (raw_of_parse hparse) with ⟨sig, key, buf', hsig, hkey, hencode, hok⟩ | ⟨-, e, herror⟩
    · obtain rfl := Except.ok.inj (hbuf.symm.trans hok)
      exact ⟨v, body, _, hrecv, hencode, hkey, hsig, rfl⟩
    · cases hbuf.symm.trans herror

namespace Link

/-- A read belongs to the session once the server has said that it is ready. -/
theorem messages_session (hreads : l'.reads = l.reads ++ [r]) :
    (l'.session t V C).filterMap (·.turn.message? t V C) =
      (l.session t V C).filterMap (·.turn.message? t V C) ++
        if l.reads.any (·.turn.isReady t V C) then (r.turn.message? t V C).toList else [] := by
  unfold session
  rw [hreads, List.dropWhile_append]
  cases hany : l.reads.any (·.turn.isReady t V C) with
  | true =>
    obtain ⟨y, hy, hready⟩ := List.any_eq_true.1 hany
    have hne : (l.reads.dropWhile fun r => !r.turn.isReady t V C).isEmpty = false := by
      by_contra hempty
      have hnil := List.isEmpty_iff.1 (eq_true_of_ne_false hempty)
      have hnot := List.dropWhile_eq_nil_iff.1 hnil y hy
      rw [hready] at hnot
      cases hnot
    rw [if_neg (by rw [hne]; decide), if_pos rfl, List.filterMap_append]
    cases hmsg : r.turn.message? t V C <;> simp [hmsg]
  | false =>
    have hnil : (l.reads.dropWhile fun r => !r.turn.isReady t V C) = [] := by
      refine List.dropWhile_eq_nil_iff.2 fun y hy => ?_
      rw [List.any_eq_false] at hany
      simpa using hany y hy
    rw [hnil]
    -- a report that the server is ready is itself no message
    cases hready : r.turn.isReady t V C with
    | true => simp [hready, (Turn.other_of_isReady hready).1]
    | false => simp [hready]

theorem holds_of_idle (h : l.phase.pending = none) : l.Holds t S V C acct := by
  unfold Holds
  cases hphase : l.phase with
  | answering | sending =>
    rw [hphase] at h
    cases h
  | handshaking | reading | ended => trivial

/-- A connection that has done what is asked of it, and goes on to do so, has done so. -/
theorem Sound.next (hl : l.Sound t S V C acct) (h : l.Next t S V C acct r l')
    (hrunning : l.phase.isEnded = false) : l'.Sound t S V C acct := by
  have hreads := h.reads
  constructor
  · exact holds_of_idle h.idle
  · rw [h.online, hl.online, hreads, List.any_append, List.any_cons, List.any_nil, Bool.or_false]
  · rw [messages_session hreads, h.routed, hl.routed, hl.online]
  · obtain ⟨asked, missed, hasked, hanswers, hmissed⟩ := hl.answered
    obtain rfl : missed = [] := by
      refine hmissed.resolve_right fun ⟨_, online, e, hphase⟩ => ?_
      rw [hphase] at hrunning
      cases hrunning
    rw [List.append_nil] at hasked
    have hall : l'.reads.filter (fun r => (r.turn.asked? t V C).isSome) =
        asked ++ if (r.turn.asked? t V C).isSome then [r] else [] := by
      rw [hreads, List.filter_append, hasked, List.filter_singleton, Bool.cond_eq_ite]
    rcases h.answered with ⟨hsent, hnone | hfailed⟩ | ⟨buf, hsent, hsome, hbuf⟩
    · refine ⟨asked, [], ?_, by rw [hsent]; exact hanswers, .inl rfl⟩
      rw [hall, hnone]
      rfl
    · refine ⟨asked, _, hall, by rw [hsent]; exact hanswers, ?_⟩
      split
      · exact .inr ⟨rfl, hfailed⟩
      · exact .inl rfl
    · refine ⟨asked ++ [r], [], ?_, ?_, .inl rfl⟩
      · rw [hall, if_pos hsome, List.append_nil]
      · rw [hsent]
        exact List.rel_append hanswers (.cons hbuf .nil)
  · intro pre r₁ post hsplit
    rw [hreads] at hsplit
    rcases List.eq_nil_or_concat' post with rfl | ⟨post, r₂, rfl⟩
    · obtain ⟨rfl, hr⟩ := List.append_inj' hsplit rfl
      obtain rfl := List.singleton_inj.1 hr
      rw [← hl.online, h.ended]
      exact (and_iff_right rfl).symm
    · have hlast : l.reads ++ [r] = (pre ++ r₁ :: post) ++ [r₂] := by
        rw [hsplit, List.append_assoc, List.cons_append]
      have hgoes := hl.ended pre r₁ post (List.append_inj' hlast rfl).1
      refine iff_of_false (fun hends => ?_) (fun hnil => List.concat_ne_nil _ _ hnil.1)
      cases hrunning.symm.trans (hgoes.1 hends).2
  · intro online res hphase
    exact ⟨r, by rw [hreads, List.getLast?_concat], h.result online res hphase⟩

/-- So has one that has a challenge to deal with. -/
theorem Sound.hold {p : LinkPhase B} (hl : l.Sound t S V C acct)
    (hrunning : l.phase.isEnded = false) (honline : p.online = l.phase.online)
    (hp : p.isEnded = false)
    (hholds : { l with phase := p }.Holds t S V C acct) :
    { l with phase := p }.Sound t S V C acct := by
  constructor
  · exact hholds
  · exact honline.trans hl.online
  · exact hl.routed
  · obtain ⟨asked, missed, hasked, hanswers, hmissed⟩ := hl.answered
    refine ⟨asked, missed, hasked, hanswers, hmissed.imp_right fun ⟨_, online, e, hphase⟩ => ?_⟩
    rw [hphase] at hrunning
    cases hrunning
  · intro pre r₁ post hsplit
    rw [hl.ended pre r₁ post hsplit, hrunning]
    show _ ↔ post = [] ∧ p.isEnded = true
    rw [hp]
  · intro online res hphase
    obtain rfl : p = .ended online res := hphase
    cases hp

/-- A read that changes nothing. -/
theorem next_noted (hready : l.phase.online = true ∨ r.turn.isReady t V C = false)
    (hmsg : r.turn.message? t V C = none) (hasked : r.turn.asked? t V C = none)
    (hgoes : ¬ r.Ends t S V C acct l.phase.online) (hrunning : l.phase.isEnded = false)
    (hidle : l.phase.pending = none) : l.Next t S V C acct r (l.noted r) := by
  refine ⟨rfl, hidle, ?_, ?_, .inl ⟨rfl, .inl hasked⟩, ?_, fun online res h => ?_⟩
  · show l.phase.online = _
    rcases hready with h | h <;> simp [h]
  · simp [noted, hmsg]
  · exact iff_of_false (fun h => by cases hrunning.symm.trans h) hgoes
  · have hphase : l.phase = .ended online res := h
    rw [hphase] at hrunning
    cases hrunning

/-- A read on which the handler returns. -/
theorem next_leave {res : Except (Fault Error) Unit} (hready : r.turn.isReady t V C = false)
    (hmsg : r.turn.message? t V C = none)
    (hasked : r.turn.asked? t V C = none ∨ ∃ e, res = .error e)
    (hends : r.Ends t S V C acct l.phase.online)
    (hres : res = .ok () ↔ l.phase.online = true ∧ ¬ r.Fails t S V C acct) :
    l.Next t S V C acct r (l.leave r res) := by
  refine ⟨rfl, rfl, ?_, ?_, .inl ⟨rfl, hasked.imp_right ?_⟩, iff_of_true rfl hends,
    fun online res' h => ?_⟩
  · rw [hready, Bool.or_false]
    rfl
  · simp [leave, noted, hmsg]
  · rintro ⟨e, rfl⟩
    exact ⟨_, e, rfl⟩
  · obtain ⟨rfl, rfl⟩ := LinkPhase.ended.inj h
    exact hres

/-- A round of the read loop that gets to its end. -/
theorem next_checked {p : Packet} (hp : r.turn.packet? t V C = some p)
    (hready : r.turn.isReady t V C = false) (hfine : ¬ r.Fails t S V C acct)
    (honline : l.phase.online = true) (hphase : m.phase = .reading) (hreads : m.reads = l.reads)
    (hrouted : m.routed = l.routed ++ (r.turn.message? t V C).toList)
    (hsent : (m.sent = l.sent ∧ r.turn.asked? t V C = none) ∨ ∃ buf, m.sent = l.sent ++ [buf] ∧
      (r.turn.asked? t V C).isSome = true ∧ r.AnsweredBy S V C acct buf) :
    l.Next t S V C acct r (m.checked t r) := by
  obtain ⟨data, hrecv, -⟩ := Turn.packet?_eq_some hp
  have hends : r.Ends t S V C acct l.phase.online ↔ t = .wasm ∧ r.closed = true := by
    rw [honline]
    constructor
    · rintro (h | h | ⟨hclosed, h | ⟨ht, -, -⟩⟩)
      · exact absurd h hfine
      · cases hrecv.symm.trans h
      · cases hrecv.symm.trans h
      · exact ⟨ht, hclosed⟩
    · rintro ⟨ht, hclosed⟩
      exact .inr (.inr ⟨hclosed, .inr ⟨ht, by rw [hp]; rfl, hready⟩⟩)
  have hgo : ¬ (t = .wasm ∧ r.closed = true) → l.Next t S V C acct r (m.noted r) := by
    intro hnot
    refine ⟨?_, ?_, ?_, ?_, hsent.imp_left fun h => ⟨h.1, .inl h.2⟩, ?_, fun online res h => ?_⟩
    · rw [noted, hreads]
    · rw [noted, hphase]
      rfl
    · rw [noted, hphase, honline]
      rfl
    · rw [noted, hrouted, if_pos honline]
    · refine iff_of_false (fun h => ?_) (hends.not.2 hnot)
      rw [noted, hphase] at h
      cases h
    · rw [noted, hphase] at h
      cases h
  have hleave : t = .wasm ∧ r.closed = true → l.Next t S V C acct r (m.leave r (.ok ())) := by
    intro hleaves
    have hmonline : m.phase.online = true := by rw [hphase]; rfl
    refine ⟨?_, rfl, ?_, ?_, hsent.imp_left fun h => ⟨h.1, .inl h.2⟩,
      iff_of_true rfl (hends.2 hleaves), fun online res h => ?_⟩
    · rw [leave, noted, hreads]
    · show m.phase.online = _
      rw [hmonline, honline]
      rfl
    · rw [leave, noted, hrouted, if_pos honline]
    · obtain ⟨rfl, rfl⟩ := LinkPhase.ended.inj h
      exact iff_of_true rfl ⟨hmonline, hfine⟩
  unfold checked
  cases t with
  | native => exact hgo fun h => by cases h.1
  | wasm =>
    cases hclosed : r.closed with
    | true => exact hleave ⟨rfl, hclosed⟩
    | false =>
      refine hgo fun h => ?_
      cases hclosed.symm.trans h.2

end Link

end Rounds

end Spot

import Spot.Conn.Links
import Spot.General.Runs

/-!
# What the sessions of a client do

* `next_read`, `next_build` and `next_finish`: what each step makes of a connection;
* `handshakesAlone`: what a native connection does alone, in a round of its handshake;
* `session_protocol`: what a connection has routed and answered, and how it ends, whatever the
  others do in between.
-/

namespace Spot

variable {B : Bottlers}

section Rounds

variable {t : Platform} {S : RawSigner B} {V : Uvarint} {C : Ciborium} {acct : Account B}
  {st : IdState B} {l l' : Link B} {r : LinkRead B} {x : Turn B} {closed : Bool} {data : Bytes}
  {req : HandshakeRequest}

namespace Link

/-! ## The steps of a connection -/

theorem not_fails_of_packet? {p : Packet} (hp : r.turn.packet? t V C = some p)
    (hasked : r.turn.asked? t V C = none) : ¬ r.Fails t S V C acct := by
  obtain ⟨data, hrecv, hparse⟩ := Turn.packet?_eq_some hp
  rintro (⟨e, h⟩ | ⟨data', e, h, herror⟩ | ⟨req, h, -⟩)
  · cases hrecv.symm.trans h
  · obtain rfl := WsRead.binary.inj (hrecv.symm.trans h)
    cases hparse.symm.trans herror
  · cases hasked.symm.trans h

/-- A read without bytes is neither a packet nor malformed. -/
theorem not_fails_of_recv (hbinary : ∀ data, r.turn.recv ≠ .binary data)
    (hfailed : ∀ e, r.turn.recv ≠ .failed e) : ¬ r.Fails t S V C acct := by
  rintro (⟨e, h⟩ | ⟨data, e, h, -⟩ | ⟨req, h, -⟩)
  · exact hfailed e h
  · exact hbinary data h
  · obtain ⟨data, hrecv, -⟩ := Turn.packet?_eq_some (Turn.asked?_eq_some.1 h).1
    exact hbinary data hrecv

theorem fails_of_parse {e : Fault ProtoError} (hrecv : r.turn.recv = .binary data)
    (hparse : parse t V C data true = .error e) : r.Fails t S V C acct :=
  .inr (.inl ⟨data, e, hrecv, hparse⟩)

/-- A round of the handshake that is no challenge. -/
theorem next_handshake (hl : l.phase = .handshaking) (hasked : x.asked? t V C = none) :
    (l.handshakeRound t V C acct st x closed).1 = st ∧
      l.Next t S V C acct ⟨st, x, closed⟩ (l.handshakeRound t V C acct st x closed).2 := by
  have hoffline : l.phase.online = false := by rw [hl]; rfl
  have hrunning : l.phase.isEnded = false := by rw [hl]; rfl
  have hidle : l.phase.pending = none := by rw [hl]; rfl
  have hres : ∀ e : Fault Error, (.error e : Except (Fault Error) Unit) = .ok () ↔
      l.phase.online = true ∧ ¬ LinkRead.Fails t S V C acct ⟨st, x, closed⟩ := fun e =>
    iff_of_false (fun h => by cases h) fun h => by cases hoffline.symm.trans h.1
  have hends : LinkRead.Fails t S V C acct ⟨st, x, closed⟩ ∨ x.recv = .closed ∨
      x.recv = .timedOut ↔ LinkRead.Ends t S V C acct ⟨st, x, closed⟩ l.phase.online := by
    rw [hoffline]
    exact Iff.rfl
  unfold handshakeRound
  cases hp : x.packet? t V C with
  | none =>
    obtain ⟨hready, hmsg, -⟩ := Turn.other_of_packet? hp
    cases hrecv : x.recv with
    | failed e =>
      exact ⟨rfl, next_leave hready hmsg (.inl hasked) (hends.1 (.inl (.inl ⟨e, hrecv⟩))) (hres _)⟩
    | closed =>
      exact ⟨rfl, next_leave hready hmsg (.inl hasked) (hends.1 (.inr (.inl hrecv))) (hres _)⟩
    | timedOut =>
      exact ⟨rfl, next_leave hready hmsg (.inl hasked) (hends.1 (.inr (.inr hrecv))) (hres _)⟩
    | text s =>
      refine ⟨rfl, next_noted (.inr hready) hmsg hasked (hends.not.1 ?_) hrunning hidle⟩
      rintro (h | h | h)
      · exact not_fails_of_recv (fun data h => by cases hrecv.symm.trans h)
          (fun e h => by cases hrecv.symm.trans h) h
      · cases hrecv.symm.trans h
      · cases hrecv.symm.trans h
    | binary data =>
      cases hparse : parse t V C data true with
      | ok p => cases hp.symm.trans (Turn.packet?_of_parse hrecv hparse)
      | error e =>
        have hfails : LinkRead.Fails t S V C acct ⟨st, x, closed⟩ := fails_of_parse hrecv hparse
        simp only [recvPacket, hparse]
        cases e <;>
          exact ⟨rfl, next_leave hready hmsg (.inl hasked) (hends.1 (.inl hfails)) (hres _)⟩
  | some p =>
    obtain ⟨data, hrecv, hparse⟩ := Turn.packet?_eq_some hp
    have hgoes : ¬ LinkRead.Ends t S V C acct ⟨st, x, closed⟩ l.phase.online := by
      refine hends.not.1 ?_
      rintro (h | h | h)
      · exact not_fails_of_packet? hp hasked h
      · cases hrecv.symm.trans h
      · cases hrecv.symm.trans h
    simp only [hrecv, recvPacket, hparse, liftProto]
    cases p with
    | handshakeRequest req =>
      cases hready : req.ready with
      | false => cases hasked.symm.trans (Turn.asked?_eq_some.2 ⟨hp, hready⟩)
      | true =>
        have hisReady : x.isReady t V C = true := by rw [Turn.isReady, hp]; exact hready
        simp only [hready, if_pos]
        refine ⟨trivial, rfl, rfl, ?_, ?_, .inl ⟨rfl, .inl hasked⟩, ?_, fun _ _ h => by cases h⟩
        · rw [hisReady, Bool.or_true]
          rfl
        · simp [noted, hoffline]
        · exact iff_of_false (fun h => by cases h) hgoes
    | ping | handshakeResponse | message =>
      have hready : x.isReady t V C = false := by rw [Turn.isReady, hp]
      refine ⟨rfl, rfl, hidle, ?_, ?_, .inl ⟨rfl, .inl hasked⟩, ?_, fun online res h => ?_⟩
      · rw [hready, Bool.or_false]
        rfl
      · simp [noted, hoffline]
      · exact iff_of_false (fun h => by cases hrunning.symm.trans h) hgoes
      · have hphase : l.phase = .ended online res := h
        rw [hphase] at hrunning
        cases hrunning

/-- A round of the read loop that is no challenge. -/
theorem next_readRound (hl : l.phase = .reading) (hasked : x.asked? t V C = none) :
    (l.readRound t V C acct st x closed).1 = st ∧
      l.Next t S V C acct ⟨st, x, closed⟩ (l.readRound t V C acct st x closed).2 := by
  have honline : l.phase.online = true := by rw [hl]; rfl
  have hrunning : l.phase.isEnded = false := by rw [hl]; rfl
  have hidle : l.phase.pending = none := by rw [hl]; rfl
  have hfailed : ∀ e : Fault Error, LinkRead.Fails t S V C acct ⟨st, x, closed⟩ →
      ((.error e : Except (Fault Error) Unit) = .ok () ↔
        l.phase.online = true ∧ ¬ LinkRead.Fails t S V C acct ⟨st, x, closed⟩) := fun e hfails =>
    iff_of_false (fun h => by cases h) fun h => h.2 hfails
  have hends : LinkRead.Fails t S V C acct ⟨st, x, closed⟩ ∨
      LinkRead.Leaves t V C ⟨st, x, closed⟩ ↔
        LinkRead.Ends t S V C acct ⟨st, x, closed⟩ l.phase.online := by
    rw [honline]
    exact Iff.rfl
  unfold readRound
  cases hp : x.packet? t V C with
  | none =>
    obtain ⟨hready, hmsg, -⟩ := Turn.other_of_packet? hp
    have hfine : (∀ data, x.recv ≠ .binary data) → (∀ e, x.recv ≠ .failed e) →
        ¬ LinkRead.Fails t S V C acct ⟨st, x, closed⟩ := fun hb hf => not_fails_of_recv hb hf
    cases hrecv : x.recv with
    | failed e =>
      have hfails : LinkRead.Fails t S V C acct ⟨st, x, closed⟩ := .inl ⟨e, hrecv⟩
      exact ⟨rfl, next_leave hready hmsg (.inl hasked) (hends.1 (.inl hfails)) (hfailed _ hfails)⟩
    | closed =>
      refine ⟨rfl, next_leave hready hmsg (.inl hasked) (hends.1 (.inr (.inl hrecv))) ?_⟩
      refine iff_of_true rfl ⟨honline, hfine ?_ ?_⟩ <;> rw [hrecv] <;> intro _ h <;> cases h
    | timedOut =>
      have hnot : ¬ LinkRead.Fails t S V C acct ⟨st, x, closed⟩ := by
        refine hfine ?_ ?_ <;> rw [hrecv] <;> intro _ h <;> cases h
      cases closed with
      | true =>
        exact ⟨rfl, next_leave hready hmsg (.inl hasked) (hends.1 (.inr (.inr ⟨rfl, .inl hrecv⟩)))
          (iff_of_true rfl ⟨honline, hnot⟩)⟩
      | false =>
        refine ⟨rfl, next_noted (.inl honline) hmsg hasked (hends.not.1 ?_) hrunning hidle⟩
        rintro (h | h | ⟨h, -⟩)
        · exact hnot h
        · cases hrecv.symm.trans h
        · cases h
    | text s =>
      have hnot : ¬ LinkRead.Fails t S V C acct ⟨st, x, closed⟩ := by
        refine hfine ?_ ?_ <;> rw [hrecv] <;> intro _ h <;> cases h
      refine ⟨rfl, next_noted (.inl honline) hmsg hasked (hends.not.1 ?_) hrunning hidle⟩
      rintro (h | h | ⟨-, h | ⟨-, h, -⟩⟩)
      · exact hnot h
      · cases hrecv.symm.trans h
      · cases hrecv.symm.trans h
      · rw [hp] at h
        cases h
    | binary data =>
      cases hparse : parse t V C data true with
      | ok p => cases hp.symm.trans (Turn.packet?_of_parse hrecv hparse)
      | error e =>
        have hfails : LinkRead.Fails t S V C acct ⟨st, x, closed⟩ := fails_of_parse hrecv hparse
        simp only [recvPacket, hparse]
        cases e <;> exact ⟨rfl,
          next_leave hready hmsg (.inl hasked) (hends.1 (.inl hfails)) (hfailed _ hfails)⟩
  | some p =>
    obtain ⟨data, hrecv, hparse⟩ := Turn.packet?_eq_some hp
    have hnot : ¬ LinkRead.Fails t S V C acct ⟨st, x, closed⟩ := not_fails_of_packet? hp hasked
    simp only [hrecv, recvPacket, hparse, liftProto]
    cases p with
    | handshakeRequest req =>
      cases hready : req.ready with
      | false => cases hasked.symm.trans (Turn.asked?_eq_some.2 ⟨hp, hready⟩)
      | true =>
        have hisReady : x.isReady t V C = true := by rw [Turn.isReady, hp]; exact hready
        have hmsg := (Turn.other_of_isReady hisReady).1
        simp only [hready, if_pos]
        refine ⟨trivial, next_noted (.inl honline) hmsg hasked (hends.not.1 ?_) hrunning hidle⟩
        rintro (h | h | ⟨-, h | ⟨-, -, h⟩⟩)
        · exact hnot h
        · cases hrecv.symm.trans h
        · cases hrecv.symm.trans h
        · cases hisReady.symm.trans h
    | ping | handshakeResponse | message =>
      have hready : x.isReady t V C = false := by rw [Turn.isReady, hp]
      refine ⟨rfl, next_checked hp hready hnot honline hl rfl ?_ (.inl ⟨rfl, hasked⟩)⟩
      simp only [Turn.message?, hp, Option.toList_none, List.append_nil, Option.toList_some]

/-- A read that is no challenge, in either loop. -/
theorem next_read (hl : l.phase = .handshaking ∨ l.phase = .reading)
    (hasked : x.asked? t V C = none) :
    (l.read t V C acct st x closed).1 = st ∧
      l.Next t S V C acct ⟨st, x, closed⟩ (l.read t V C acct st x closed).2 := by
  unfold read
  rcases hl with hl | hl
  · rw [hl]
    exact next_handshake hl hasked
  · rw [hl]
    exact next_readRound hl hasked

/-- A challenge, in either loop. -/
theorem read_asked (hl : l.phase = .handshaking ∨ l.phase = .reading)
    (hasked : x.asked? t V C = some req) :
    l.read t V C acct st x closed = l.challenged C acct st x req := by
  obtain ⟨hp, hready⟩ := Turn.asked?_eq_some.1 hasked
  obtain ⟨data, hrecv, hparse⟩ := Turn.packet?_eq_some hp
  rcases hl with hl | hl
  · simp only [read, hl, handshakeRound, hrecv, recvPacket, hparse, liftProto, hready]
    rfl
  · simp only [read, hl, readRound, hrecv, recvPacket, hparse, liftProto, hready]
    rfl

/-- An answer that cannot be built ends the connection; any other goes on its way. -/
theorem next_build {online : Bool} (hl : l.phase = .answering online x req)
    (hasked : x.asked? t V C = some req) :
    (∃ buf, responsePacket S V C acct st.signed x.sigSeed req = .ok buf ∧
        l.build S V C acct st = { l with phase := .sending online x st buf }) ∨
      l.Next t S V C acct ⟨st, x, false⟩ (l.build S V C acct st) := by
  obtain ⟨hready, hmsg⟩ := Turn.other_of_asked? hasked
  simp only [build, hl]
  cases hbuf : responsePacket S V C acct st.signed x.sigSeed req with
  | ok buf => exact .inl ⟨buf, rfl, rfl⟩
  | error e =>
    have hfails : LinkRead.Fails t S V C acct ⟨st, x, false⟩ :=
      .inr (.inr ⟨req, hasked, .inl ⟨e, hbuf⟩⟩)
    have hends : ∀ b, LinkRead.Ends t S V C acct ⟨st, x, false⟩ b := by
      rintro (_ | _) <;> exact .inl hfails
    exact .inr (next_leave hready hmsg (.inr ⟨e, rfl⟩) (hends _)
      (iff_of_false (fun h => by cases h) fun h => h.2 hfails))

/-- The end of the sending of an answer. -/
theorem next_finish {online : Bool} {buf : Bytes} (hl : l.phase = .sending online x st buf)
    (hasked : x.asked? t V C = some req)
    (hbuf : responsePacket S V C acct st.signed x.sigSeed req = .ok buf) :
    l.Next t S V C acct ⟨st, x, closed⟩ (l.finish t closed) := by
  obtain ⟨hready, hmsg⟩ := Turn.other_of_asked? hasked
  have honline : l.phase.online = online := by rw [hl]; rfl
  have hp := (Turn.asked?_eq_some.1 hasked).1
  have hanswer : LinkRead.AnsweredBy S V C acct ⟨st, x, closed⟩ buf :=
    answeredBy_of_built hasked hbuf
  have hsome : (x.asked? t V C).isSome = true := by rw [hasked]; rfl
  simp only [finish, hl]
  cases hsent : x.sent with
  | error e =>
    have hfails : LinkRead.Fails t S V C acct ⟨st, x, closed⟩ :=
      .inr (.inr ⟨req, hasked, .inr ⟨e, hsent⟩⟩)
    have hends : ∀ b, LinkRead.Ends t S V C acct ⟨st, x, closed⟩ b := by
      rintro (_ | _) <;> exact .inl hfails
    exact next_leave hready hmsg (.inr ⟨_, rfl⟩) (hends _)
      (iff_of_false (fun h => by cases h) fun h => h.2 hfails)
  | ok u =>
    have hfine : ¬ LinkRead.Fails t S V C acct ⟨st, x, closed⟩ := by
      obtain ⟨data, hrecv, hparse⟩ := Turn.packet?_eq_some hp
      rintro (⟨e, h⟩ | ⟨data', e, h, herror⟩ | ⟨req', h, ⟨e, he⟩ | ⟨e, he⟩⟩)
      · cases hrecv.symm.trans h
      · obtain rfl := WsRead.binary.inj (hrecv.symm.trans h)
        cases hparse.symm.trans herror
      · obtain rfl := Option.some.inj (hasked.symm.trans h)
        cases hbuf.symm.trans he
      · cases hsent.symm.trans he
    cases online with
    | true =>
      refine next_checked hp hready hfine honline rfl rfl ?_ (.inr ⟨buf, rfl, hsome, hanswer⟩)
      rw [hmsg]
      exact (List.append_nil _).symm
    | false =>
      refine ⟨rfl, rfl, ?_, ?_, .inr ⟨buf, rfl, hsome, hanswer⟩, ?_, fun _ _ h => by cases h⟩
      · rw [honline, hready]
        rfl
      · simp [noted, hmsg]
      · rw [honline]
        refine iff_of_false (fun h => by cases h) ?_
        obtain ⟨data, hrecv, -⟩ := Turn.packet?_eq_some hp
        rintro (h | h | h)
        · exact hfine h
        · cases hrecv.symm.trans h
        · cases hrecv.symm.trans h

variable (S V C acct) in
/-- A native connection alone, in a round of its handshake, does what `handshakeTurn` says. -/
def HandshakesAlone (st : IdState B) (l : Link B) : Prop :=
  l.phase = .handshaking → ∀ x closed,
    (l.alone S V C acct st x closed).1 =
        (handshakeTurn S V C acct { st, sent := l.sent } x).st ∧
      (l.alone S V C acct st x closed).2.phase =
        (handshakeTurn S V C acct { st, sent := l.sent } x).phase.afterHandshake ∧
      (l.alone S V C acct st x closed).2.sent =
        (handshakeTurn S V C acct { st, sent := l.sent } x).sent

theorem handshakesAlone : l.HandshakesAlone S V C acct st := by
  intro hl x closed
  simp only [alone, read, hl, handshakeRound, handshakeTurn]
  cases x.recv with
  | text s => simp [recvPacket, noted, build, finish, hl, ConnPhase.afterHandshake]
  | closed | timedOut | failed =>
    simp [recvPacket, noted, leave, build, finish, hl, LinkPhase.online, ConnPhase.afterHandshake]
  | binary data =>
    simp only [recvPacket]
    cases parse .native V C data true with
    | error e =>
      cases e <;> simp [liftProto, noted, leave, build, finish, hl, LinkPhase.online,
        ConnPhase.afterHandshake]
    | ok p =>
      cases p with
      | ping | handshakeResponse | message =>
        simp [liftProto, noted, build, finish, hl, ConnPhase.afterHandshake]
      | handshakeRequest req =>
        cases hready : req.ready with
        | true => simp [liftProto, hready, noted, build, finish, ConnPhase.afterHandshake]
        | false =>
          simp only [liftProto, hready, challenged, respondHandshake, build]
          cases hbuf : responsePacket S V C acct (joinGroups C acct st req x.cardSeed).signed
              x.sigSeed req with
          | error e =>
            simp [hbuf, leave, noted, finish, hl, LinkPhase.online, ConnPhase.afterHandshake]
          | ok buf =>
            cases hsent : x.sent <;>
              simp [hbuf, hsent, leave, noted, finish, hl, LinkPhase.online,
                ConnPhase.afterHandshake]

/-! ## What it has read -/

/-- What the connection has read. -/
def turns (l : Link B) : List (Turn B) := l.reads.map (·.turn) ++ l.phase.pending.toList

theorem Next.turns_eq (h : l.Next t S V C acct r l') :
    l'.turns = l.reads.map (·.turn) ++ [r.turn] := by
  rw [turns, h.idle, h.reads, List.map_append]
  exact List.append_nil _

variable (t S V C acct) in
/-- What a step makes of a connection and of the identity, and what it reads. -/
inductive Step (st : IdState B) (l : Link B) : IdState B → Link B → List (Turn B) → Prop
  | read (x : Turn B) (closed : Bool) (hl : l.phase = .handshaking ∨ l.phase = .reading) :
      l.Step st (l.received t S V C acct st x closed).1 (l.received t S V C acct st x closed).2 [x]
  | build {online : Bool} {x : Turn B} {req : HandshakeRequest}
      (hl : l.phase = .answering online x req) : l.Step st st (l.build S V C acct st) []
  | finish {online : Bool} {x : Turn B} {st₀ : IdState B} {buf : Bytes} (closed : Bool)
      (hl : l.phase = .sending online x st₀ buf) : l.Step st st (l.finish t closed) []

/-- The building of an answer. -/
theorem Sound.build {online : Bool} (hl : l.Sound t S V C acct)
    (hphase : l.phase = .answering online x req) :
    (l.build S V C acct st).Sound t S V C acct ∧ (l.build S V C acct st).turns = l.turns := by
  have hrunning : l.phase.isEnded = false := by rw [hphase]; rfl
  have hasked : x.asked? t V C = some req := by
    have hholds := hl.holds
    rw [Holds, hphase] at hholds
    exact hholds
  have hturns : l.turns = l.reads.map (·.turn) ++ [x] := by rw [turns, hphase]; rfl
  rcases next_build hphase hasked with ⟨buf, hbuf, hbuilt⟩ | hnext
  · rw [hbuilt, hturns]
    exact ⟨hl.hold hrunning (by rw [hphase]; rfl) rfl ⟨req, hasked, hbuf⟩, rfl⟩
  · rw [hturns]
    exact ⟨hl.next hnext hrunning, hnext.turns_eq⟩

/-- A read, and what it leads to. -/
theorem Sound.received (hl : l.Sound t S V C acct)
    (hphase : l.phase = .handshaking ∨ l.phase = .reading) :
    (l.received t S V C acct st x closed).2.Sound t S V C acct ∧
      (l.received t S V C acct st x closed).2.turns = l.turns ++ [x] := by
  have hrunning : l.phase.isEnded = false := by rcases hphase with h | h <;> rw [h] <;> rfl
  have hturns : l.turns = l.reads.map (·.turn) := by
    rcases hphase with h | h <;> rw [turns, h] <;> exact List.append_nil _
  cases hasked : x.asked? t V C with
  | some req =>
    have hheld : (l.challenged C acct st x req).2.Sound t S V C acct :=
      hl.hold hrunning rfl rfl hasked
    have hread : (l.challenged C acct st x req).2.turns = l.turns ++ [x] := by
      rw [hturns]
      rfl
    unfold Link.received
    rw [read_asked hphase hasked]
    cases t with
    | native => exact ⟨hheld, hread⟩
    | wasm => exact (hheld.build rfl).imp_right fun h => h.trans hread
  | none =>
    have hnext : l.Next t S V C acct ⟨st, x, closed⟩ (l.read t V C acct st x closed).2 :=
      (next_read hphase hasked).2
    -- there is no answer to build
    have hbuild : (l.received t S V C acct st x closed).2 = (l.read t V C acct st x closed).2 := by
      have hidle := hnext.idle
      unfold Link.received
      cases t with
      | native => rfl
      | wasm =>
        simp only [Link.build]
        split
        · rename_i hanswering
          rw [hanswering] at hidle
          cases hidle
        · rfl
    rw [hbuild, hturns]
    exact ⟨hl.next hnext hrunning, hnext.turns_eq⟩

/-- A step of a connection keeps it sound. -/
theorem Sound.step {st' : IdState B} {xs : List (Turn B)} (hl : l.Sound t S V C acct)
    (h : l.Step t S V C acct st st' l' xs) : l'.Sound t S V C acct ∧ l'.turns = l.turns ++ xs := by
  cases h with
  | read x closed hphase => exact hl.received hphase
  | build hphase =>
    rw [List.append_nil]
    exact hl.build hphase
  | @finish online x st₀ buf closed hphase =>
    have hholds := hl.holds
    rw [Holds, hphase] at hholds
    obtain ⟨req, hasked, hbuf⟩ := hholds
    have hnext : l.Next t S V C acct ⟨st₀, x, closed⟩ (l.finish t closed) :=
      next_finish hphase hasked hbuf
    refine ⟨hl.next hnext (by rw [hphase]; rfl), ?_⟩
    rw [hnext.turns_eq, List.append_nil, turns, hphase]
    rfl

theorem sound_start : ({} : Link B).Sound t S V C acct := by
  refine ⟨trivial, rfl, rfl, ⟨[], [], rfl, .nil, .inl rfl⟩, fun pre r post h => ?_,
    fun _ _ h => by cases h⟩
  cases pre <;> cases h

end Link

end Rounds

/-- What the `i`-th connection reads in an event. -/
def LinksEvent.turnsOn (i : ℕ) : LinksEvent B → List (Turn B)
  | .read j x _ => if i = j then [x] else []
  | _ => []

namespace Links

variable {t : Platform} {S : RawSigner B} {V : Uvarint} {C : Ciborium} {acct : Account B}
  {s s' : Links B} {a : LinksEvent B} {as : List (LinksEvent B)} {l : Link B} {i : ℕ}

/-- What the `i`-th connection has read. -/
def turns (s : Links B) (i : ℕ) : List (Turn B) := (s.links[i]?.map Link.turns).getD []

/-- A connection is dialled, or one of them makes a step. -/
theorem step_eq_some (h : s.step t S V C acct a = some s') :
    (a = .dialled ∧ s' = { s with links := s.links ++ [{}] }) ∨
      ∃ i l st' l' xs, s.links[i]? = some l ∧ l.Step t S V C acct s.st st' l' xs ∧
        s' = ⟨st', s.links.set i l'⟩ ∧ ∀ j, a.turnsOn j = if j = i then xs else [] := by
  cases a with
  | dialled => exact .inl ⟨rfl, (Option.some.inj h).symm⟩
  | read i x closed =>
    simp only [step] at h
    split at h
    · rename_i l hl
      split at h
      · rename_i hphase
        exact .inr ⟨i, l, _, _, [x], hl, .read x closed (.inl hphase), (Option.some.inj h).symm,
          fun _ => rfl⟩
      · rename_i hphase
        exact .inr ⟨i, l, _, _, [x], hl, .read x closed (.inr hphase), (Option.some.inj h).symm,
          fun _ => rfl⟩
      · cases h
    · cases h
  | build i =>
    simp only [step] at h
    split at h
    · rename_i l hl
      split at h
      · rename_i hphase
        exact .inr ⟨i, l, _, _, [], hl, .build hphase, (Option.some.inj h).symm,
          fun _ => (ite_self _).symm⟩
      · cases h
    · cases h
  | finish i closed =>
    simp only [step] at h
    split at h
    · rename_i l hl
      split at h
      · rename_i hphase
        exact .inr ⟨i, l, _, _, [], hl, .finish closed hphase, (Option.some.inj h).symm,
          fun _ => (ite_self _).symm⟩
      · cases h
    · cases h

/-- The connections stay sound, and take note of what they read. -/
theorem sound_step (hs : ∀ l ∈ s.links, l.Sound t S V C acct)
    (h : s.step t S V C acct a = some s') :
    (∀ l ∈ s'.links, l.Sound t S V C acct) ∧ ∀ i, s'.turns i = s.turns i ++ a.turnsOn i := by
  rcases step_eq_some h with ⟨rfl, rfl⟩ | ⟨i, l, st', l', xs, hl, hstep, rfl, hxs⟩
  · refine ⟨fun l hl => ?_, fun i => ?_⟩
    · rcases List.mem_append.1 hl with hl | hl
      · exact hs l hl
      · obtain rfl := List.mem_singleton.1 hl
        exact Link.sound_start
    · show _ = s.turns i ++ []
      rw [List.append_nil, turns, turns, List.getElem?_append]
      split
      · rfl
      · rename_i hi
        rw [List.getElem?_eq_none (not_lt.1 hi), List.getElem?_singleton]
        split <;> rfl
  · obtain ⟨hsound, hturns⟩ := (hs l (List.mem_of_getElem? hl)).step hstep
    refine ⟨fun k hk => ?_, fun j => ?_⟩
    · rcases List.mem_or_eq_of_mem_set hk with hk | rfl
      · exact hs k hk
      · exact hsound
    · rw [hxs, turns, turns]
      by_cases hj : j = i
      · subst hj
        rw [List.getElem?_set_self (List.getElem?_eq_some_iff.1 hl).1, hl, if_pos rfl]
        exact hturns
      · rw [List.getElem?_set_ne (Ne.symm hj), if_neg hj, List.append_nil]

/-- In every run of any number of connections, on either platform, each of them has read what came
on it, in order; it has routed the messages that it read after the server had said that it is ready,
in order, and no others; it has answered the challenges it read in order, each for the identity at
that time; it is online exactly if it was told so; it has ended exactly if the last read it dealt
with ends it, and without an error exactly if it was online and that read was fine; and a native one
goes on in its handshake as `handshake` does, when no other comes between. -/
theorem session_protocol {st : IdState B} (hr : run (step t S V C acct) { st } as = some s)
    (hl : s.links[i]? = some l) :
    l.reads.map (·.turn) ++ l.phase.pending.toList = as.flatMap (·.turnsOn i) ∧
      l.routed = (l.session t V C).filterMap (·.turn.message? t V C) ∧
      l.Answered t S V C acct ∧
      (l.phase.online = true ↔ ∃ r ∈ l.reads, r.turn.isReady t V C = true) ∧
      (∀ pre r post, l.reads = pre ++ r :: post →
        (r.Ends t S V C acct (pre.any (·.turn.isReady t V C)) ↔
          post = [] ∧ l.phase.isEnded = true)) ∧
      (∀ online res, l.phase = .ended online res → ∃ r, l.reads.getLast? = some r ∧
        (res = .ok () ↔ online = true ∧ ¬ r.Fails t S V C acct)) ∧
      (t = .native → l.HandshakesAlone S V C acct s.st) := by
  have hs : (∀ l ∈ s.links, l.Sound t S V C acct) ∧
      s.turns i = ({ st } : Links B).turns i ++ as.flatMap (·.turnsOn i) := by
    refine run_collect (I := fun s => ∀ l ∈ s.links, l.Sound t S V C acct)
      (g := fun s => s.turns i) ?_ ?_ hr
    · exact fun s a s' hs h => (sound_step hs h).imp_right fun h => h i
    · exact fun _ h => absurd h List.not_mem_nil
  have hsound := hs.1 l (List.mem_of_getElem? hl)
  refine ⟨?_, hsound.routed, hsound.answered, ?_, hsound.ended, hsound.result,
    fun _ => Link.handshakesAlone⟩
  · have hturns := hs.2
    rw [turns, hl] at hturns
    exact hturns
  · rw [hsound.online, List.any_eq_true]

/-- A message, as it comes from the server. -/
def messageTurn : Turn plain :=
  ⟨.binary (instantMsg :: (default : Message).toBytes leb128), (), (), .ok ()⟩

/-- Two connections are challenged, and one overtakes the other with its answer.  The first gets
online, routes a message, is challenged again and leaves once the client is closed; the second reads
a message too early and is closed in its handshake. -/
def pairReads : List (LinksEvent plain) :=
  [.dialled, .dialled, .read 0 challengeTurn false, .read 1 challengeTurn false, .build 1,
    .build 0, .finish 0 false, .finish 1 false, .read 0 readyTurn false, .read 1 messageTurn false,
    .read 0 messageTurn false, .read 1 ⟨.closed, (), (), .ok ()⟩ false,
    .read 0 challengeTurn false, .build 0, .finish 0 false,
    .read 0 ⟨.timedOut, (), (), .ok ()⟩ true]

/-- What becomes of them. -/
def readPair : Links plain :=
  (run (step .native plainSigner leb128 greetCiborium Account.plainAccount)
    { st := Account.plainIdState } pairReads).get rfl

theorem session_protocol_pairReads :
    ∃ l, readPair.links[0]? = some l ∧ l.routed.length = 1 ∧ l.sent.length = 2 ∧
      l.routed = (l.session .native leb128 greetCiborium).filterMap
        (·.turn.message? .native leb128 greetCiborium) ∧
      l.Answered .native plainSigner leb128 greetCiborium Account.plainAccount := by
  have hr : run (step .native plainSigner leb128 greetCiborium Account.plainAccount)
      { st := Account.plainIdState } pairReads = some readPair := rfl
  have hfirst : readPair.links[0]? = some _ := rfl
  obtain ⟨-, hrouted, hanswered, -⟩ := session_protocol hr hfirst
  exact ⟨_, rfl, rfl, rfl, hrouted, hanswered⟩

example : readPair.links.map (·.phase.online) = [true, false] := rfl

end Links

end Spot

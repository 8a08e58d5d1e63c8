import Spot.Conn.Protocol
import Spot.Conn.WasmLoop

/-!
# The sessions of the browser client

The browser's `handshake` and `read_loop` are written a second time, as tasks of one event loop.
They do what the native ones do (`browser_refines_native`), as long as the client is open, for the
browser's read loop looks whether it was closed after every packet, and as long as the two builds
read the packets in the same way; and what the event loop makes of their rounds (`Link.Looped`).
-/

namespace Spot

variable {B : Bottlers}

/-- The client is open, and both builds read what comes in the same way. -/
def LinksEvent.Alike (V : Uvarint) (C : Ciborium) : LinksEvent B → Prop
  | .read _ x closed => closed = false ∧ ∀ data, x.recv = .binary data →
      parse .native V C data true = parse .wasm V C data true
  | .finish _ closed => closed = false
  | .dialled | .build _ => True

/-- What can be seen of an event from outside: all but the building of an answer. -/
def LinksEvent.visible : LinksEvent B → List (LinksEvent B)
  | .build _ => []
  | a => [a]

section Refinement

variable {S : RawSigner B} {V : Uvarint} {C : Ciborium} {acct : Account B} {st : IdState B}
  {l : Link B} {r : LinkRead B} {x : Turn B}

namespace Link

theorem checked_open (h : r.closed = false) : l.checked .wasm r = l.checked .native r := by
  simp only [checked, h]
  rfl

theorem read_alike (h : ∀ data, x.recv = .binary data →
    parse .native V C data true = parse .wasm V C data true) :
    l.read .wasm V C acct st x false = l.read .native V C acct st x false := by
  have hround : l.handshakeRound .wasm V C acct st x false =
        l.handshakeRound .native V C acct st x false ∧
      l.readRound .wasm V C acct st x false = l.readRound .native V C acct st x false := by
    unfold handshakeRound readRound
    cases hrecv : x.recv with
    | text | closed | timedOut | failed => exact ⟨rfl, rfl⟩
    | binary data =>
      simp only [recvPacket, ← h data hrecv]
      exact ⟨trivial, by simp only [checked_open]⟩
  unfold read
  rw [hround.1, hround.2]

theorem finish_open : l.finish .wasm false = l.finish .native false := by
  unfold finish
  simp only [checked_open]

theorem build_of_not_answering (h : ∀ online x req, l.phase ≠ .answering online x req) :
    l.build S V C acct st = l := by
  unfold build
  split
  · rename_i hphase
    exact absurd hphase (h _ _ _)
  · rfl

end Link

/-! ## The rounds of the event loop -/

/-- What the event loop makes of a read; text is skipped. -/
def WsRead.arrival : WsRead → Option Arrival
  | .binary data => some (.packet data)
  | .text _ => none
  | .closed => some .closed
  | .timedOut => some .silent
  | .failed _ => some .error

/-- How the event loop sees that a connection in phase `p` has come to phase `p'`. -/
def LinkPhase.reaction (p p' : LinkPhase B) : Reaction :=
  match p' with
  | .ended _ _ => .leave
  | .sending _ _ _ buf => .answer buf
  | .reading => if p.online then .stay else .ready
  | .handshaking | .answering _ _ _ => .stay

variable (S V C acct) in
/-- `build_handshake_response`, if the read is a challenge. -/
def Turn.response (st : IdState B) (x : Turn B) : Option Bytes :=
  (x.asked? .wasm V C).bind fun req =>
    (responsePacket S V C acct (joinGroups C acct st req x.cardSeed).signed x.sigSeed req).toOption

variable {closed : Bool} {ar : Arrival}

theorem response_eq {data : Bytes} {req : HandshakeRequest} (hrecv : x.recv = .binary data)
    (hparse : parse .wasm V C data true = .ok (.handshakeRequest req))
    (hready : req.ready = false) :
    x.response S V C acct st =
      (responsePacket S V C acct (joinGroups C acct st req x.cardSeed).signed x.sigSeed
        req).toOption := by
  rw [Turn.response, Turn.asked?_eq_some.2 ⟨Turn.packet?_of_parse hrecv hparse, hready⟩]
  rfl

/-- A challenge, to the event loop. -/
theorem reaction_asked {data : Bytes} {req : HandshakeRequest}
    (hl : l.phase = .handshaking ∨ l.phase = .reading) (hrecv : x.recv = .binary data)
    (hparse : parse .wasm V C data true = .ok (.handshakeRequest req))
    (hready : req.ready = false) :
    l.phase.reaction (l.received .wasm S V C acct st x closed).2.phase =
      match x.response S V C acct st with
      | some buf => .answer buf
      | none => .leave := by
  have hasked : x.asked? .wasm V C = some req :=
    Turn.asked?_eq_some.2 ⟨Turn.packet?_of_parse hrecv hparse, hready⟩
  simp only [Link.received, Link.read_asked hl hasked, Link.challenged, Link.build,
    response_eq hrecv hparse hready]
  cases responsePacket S V C acct (joinGroups C acct st req x.cardSeed).signed x.sigSeed req <;> rfl

/-- The rounds of the event loop are those of the browser's connections, as long as no packet brings
the module down: in the handshake, -/
theorem reaction_handshakeRound (hl : l.phase = .handshaking) (har : x.recv.arrival = some ar)
    (hfine : ∀ data, x.recv = .binary data → parse .wasm V C data true ≠ .error .panic) :
    handshakeRound V C (x.response S V C acct st) ar =
      some (l.phase.reaction (l.received .wasm S V C acct st x closed).2.phase) := by
  cases hrecv : x.recv with
  | text s =>
    rw [hrecv] at har
    cases har
  | closed | timedOut | failed =>
    rw [hrecv] at har
    obtain rfl := Option.some.inj har
    simp only [Link.received, Link.read, hl, Link.handshakeRound, hrecv, recvPacket]
    rfl
  | binary data =>
    rw [hrecv] at har
    obtain rfl := Option.some.inj har
    cases hparse : parse .wasm V C data true with
    | error e =>
      cases e with
      | panic => exact absurd hparse (hfine data hrecv)
      | err e =>
        simp only [handshakeRound, hparse, Link.received, Link.read, hl, Link.handshakeRound, hrecv,
          recvPacket]
        rfl
    | ok p =>
      cases p with
      | handshakeRequest req =>
        cases hready : req.ready with
        | true =>
          simp [handshakeRound, hparse, hready, Link.received, Link.read, hl, Link.handshakeRound,
            hrecv, recvPacket, liftProto, Link.noted, Link.build, LinkPhase.reaction,
            LinkPhase.online]
        | false =>
          rw [reaction_asked (.inl hl) hrecv hparse hready]
          simp only [handshakeRound, hparse, hready]
          cases x.response S V C acct st <;> rfl
      | ping | handshakeResponse | message =>
        simp only [handshakeRound, hparse, Link.received, Link.read, hl, Link.handshakeRound, hrecv,
          recvPacket, liftProto, Link.noted, Link.build, LinkPhase.reaction]

/-- and in the read loop. -/
theorem reaction_readRound (hl : l.phase = .reading) (har : x.recv.arrival = some ar)
    (hfine : ∀ data, x.recv = .binary data → parse .wasm V C data true ≠ .error .panic) :
    readRound V C closed (x.response S V C acct st) ar =
      some (l.phase.reaction (l.received .wasm S V C acct st x closed).2.phase) := by
  cases hrecv : x.recv with
  | text s =>
    rw [hrecv] at har
    cases har
  | closed | failed =>
    rw [hrecv] at har
    obtain rfl := Option.some.inj har
    simp only [Link.received, Link.read, hl, Link.readRound, hrecv, recvPacket]
    rfl
  | timedOut =>
    rw [hrecv] at har
    obtain rfl := Option.some.inj har
    simp only [Link.received, Link.read, hl, Link.readRound, hrecv, recvPacket]
    cases closed with
    | true => rfl
    | false => simp [readRound, Link.noted, Link.build, hl, LinkPhase.reaction, LinkPhase.online]
  | binary data =>
    rw [hrecv] at har
    obtain rfl := Option.some.inj har
    cases hparse : parse .wasm V C data true with
    | error e =>
      cases e with
      | panic => exact absurd hparse (hfine data hrecv)
      | err e =>
        simp only [readRound, hparse, Link.received, Link.read, hl, Link.readRound, hrecv,
          recvPacket]
        rfl
    | ok p =>
      cases p with
      | handshakeRequest req =>
        cases hready : req.ready with
        | true =>
          simp [readRound, hparse, hready, Link.received, Link.read, hl, Link.readRound, hrecv,
            recvPacket, liftProto, Link.noted, Link.build, LinkPhase.reaction, LinkPhase.online]
        | false =>
          rw [reaction_asked (.inr hl) hrecv hparse hready]
          simp only [readRound, hparse, hready]
          cases x.response S V C acct st <;> rfl
      | ping | handshakeResponse | message =>
        cases closed <;>
          simp [readRound, hparse, Link.received, Link.read, hl, Link.readRound, hrecv, recvPacket,
            liftProto, Link.checked, Link.leave, Link.noted, Link.build, LinkPhase.reaction,
            LinkPhase.online]

/-- The round of the event loop that a connection in this phase is in. -/
def LinkPhase.round (V : Uvarint) (C : Ciborium) (closed : Bool) (response : Option Bytes)
    (ar : Arrival) : LinkPhase B → Option Reaction
  | .handshaking => handshakeRound V C response ar
  | .reading => readRound V C closed response ar
  | _ => none

variable (S V C acct) in
/-- What the connection does with what it reads next is what the event loop makes of it, unless a
packet brings the module down. -/
def Link.Looped (st : IdState B) (l : Link B) : Prop :=
  ∀ x closed ar, l.phase = .handshaking ∨ l.phase = .reading → x.recv.arrival = some ar →
    (∀ data, x.recv = .binary data → parse .wasm V C data true ≠ .error .panic) →
    l.phase.round V C closed (x.response S V C acct st) ar =
      some (l.phase.reaction (l.received .wasm S V C acct st x closed).2.phase)

theorem Link.looped : l.Looped S V C acct st := by
  rintro x closed ar (hl | hl) har hfine
  · rw [← reaction_handshakeRound hl har hfine, hl]
    rfl
  · rw [← reaction_readRound hl har hfine, hl]
    rfl

/-! ## Runs -/

namespace Links

variable {s s' : Links B} {a : LinksEvent B} {as : List (LinksEvent B)}

theorem step_read (t : Platform) {i : ℕ} {closed : Bool} (hl : s.links[i]? = some l)
    (hphase : l.phase = .handshaking ∨ l.phase = .reading) :
    s.step t S V C acct (.read i x closed) =
      some ⟨(l.received t S V C acct s.st x closed).1,
        s.links.set i (l.received t S V C acct s.st x closed).2⟩ := by
  simp only [step, hl]
  rcases hphase with h | h <;> simp only [h]

theorem step_build (t : Platform) {i : ℕ} {online : Bool} {req : HandshakeRequest}
    (hl : s.links[i]? = some l) (hphase : l.phase = .answering online x req) :
    s.step t S V C acct (.build i) =
      some { s with links := s.links.set i (l.build S V C acct s.st) } := by
  simp only [step, hl, hphase]

/-- A read of the browser is a read of a native connection, and the building of the answer. -/
theorem step_refines (ha : a.Alike V C) (h : s.step .wasm S V C acct a = some s') :
    ∃ bs, run (step .native S V C acct) s bs = some s' ∧
      bs.flatMap LinksEvent.visible = a.visible := by
  have hone : s.step .native S V C acct a = some s' → ∃ bs,
      run (step .native S V C acct) s bs = some s' ∧
        bs.flatMap LinksEvent.visible = a.visible := fun h =>
    ⟨[a], run_cons_eq_some.2 ⟨s', h, rfl⟩, List.flatMap_singleton _ _⟩
  cases a with
  | dialled => exact hone h
  | build i => exact hone h
  | finish i closed =>
    obtain rfl : closed = false := ha
    refine hone ?_
    rw [← h]
    simp only [step, Link.finish_open]
  | read i x closed =>
    obtain ⟨rfl, hparse⟩ := ha
    obtain ⟨l, hl, hphase⟩ : ∃ l, s.links[i]? = some l ∧
        (l.phase = .handshaking ∨ l.phase = .reading) := by
      simp only [step] at h
      split at h
      · rename_i l hl
        split at h
        · exact ⟨l, hl, .inl ‹_›⟩
        · exact ⟨l, hl, .inr ‹_›⟩
        · cases h
      · cases h
    rw [step_read .wasm hl hphase] at h
    obtain rfl := Option.some.inj h
    simp only [Link.received, Link.read_alike hparse]
    generalize hread : l.read .native V C acct s.st x false = r
    have hstep : s.step .native S V C acct (.read i x false) =
        some ⟨r.1, s.links.set i r.2⟩ := by
      rw [step_read .native hl hphase, Link.received, hread]
    by_cases hanswering : ∃ online x req, r.2.phase = .answering online x req
    · obtain ⟨online, y, req, hphase'⟩ := hanswering
      have hr : (s.links.set i r.2)[i]? = some r.2 :=
        List.getElem?_set_self (List.getElem?_eq_some_iff.1 hl).1
      refine ⟨[.read i x false, .build i], ?_, rfl⟩
      refine run_cons_eq_some.2 ⟨_, hstep, run_cons_eq_some.2 ⟨_, ?_, rfl⟩⟩
      rw [step_build (s := ⟨r.1, s.links.set i r.2⟩) .native hr hphase', List.set_set]
    · have hsame : r.2.build S V C acct r.1 = r.2 :=
        Link.build_of_not_answering fun online y req h => hanswering ⟨online, y, req, h⟩
      refine ⟨[.read i x false], run_cons_eq_some.2 ⟨_, hstep, ?_⟩, rfl⟩
      rw [hsame]
      rfl

/-- Every run of the browser's connections while the client is open, on packets that both builds
read in the same way, is a run of native connections to the same state: the same reads and sends,
with the answers built at once.  And what each connection does next is what the event loop makes of
it. -/
theorem browser_refines_native (ha : ∀ a ∈ as, a.Alike V C)
    (hr : run (step .wasm S V C acct) s as = some s') :
    (∃ bs, run (step .native S V C acct) s bs = some s' ∧
      bs.flatMap LinksEvent.visible = as.flatMap LinksEvent.visible) ∧
    ∀ l ∈ s'.links, l.Looped S V C acct s'.st := by
  have hg : Guarded (step .wasm S V C acct) (fun _ a => a.Alike V C) s as :=
    .of_forall fun a h _ => ha a h
  exact ⟨run_simulated (fun _ _ _ ha h => step_refines ha h) hg hr, fun _ _ => Link.looped⟩

/-- The browser is challenged, gets online, routes a message, and is challenged again. -/
def browserReads : List (LinksEvent plain) :=
  [.dialled, .read 0 challengeTurn false, .finish 0 false, .read 0 readyTurn false,
    .read 0 messageTurn false, .read 0 challengeTurn false]

/-- What becomes of it. -/
def readBrowser : Links plain :=
  (run (step .wasm plainSigner leb128 greetCiborium Account.plainAccount)
    { st := Account.plainIdState } browserReads).get rfl

theorem browser_refines_native_browserReads :
    (∃ bs, run (step .native plainSigner leb128 greetCiborium Account.plainAccount)
        { st := Account.plainIdState } bs = some readBrowser ∧
      bs.flatMap LinksEvent.visible = browserReads) ∧
    ∀ l ∈ readBrowser.links,
      l.Looped plainSigner leb128 greetCiborium Account.plainAccount readBrowser.st := by
  have hr : run (step .wasm plainSigner leb128 greetCiborium Account.plainAccount)
      { st := Account.plainIdState } browserReads = some readBrowser := rfl
  refine browser_refines_native (fun a ha => ?_) hr
  have hsame : ∀ x ∈ [challengeTurn, readyTurn, messageTurn], ∀ data, x.recv = .binary data →
      parse .native leb128 greetCiborium data true =
        parse .wasm leb128 greetCiborium data true := by
    intro x hx data hdata
    rcases List.mem_cons.1 hx with rfl | hx
    · obtain rfl := WsRead.binary.inj hdata
      rfl
    rcases List.mem_cons.1 hx with rfl | hx
    · obtain rfl := WsRead.binary.inj hdata
      rfl
    obtain rfl := List.mem_singleton.1 hx
    obtain rfl := WsRead.binary.inj hdata
    rfl
  simp only [browserReads, List.mem_cons, List.not_mem_nil, or_false] at ha
  rcases ha with rfl | rfl | rfl | rfl | rfl | rfl
  · trivial
  · exact ⟨rfl, hsame _ (by simp)⟩
  · exact rfl
  · exact ⟨rfl, hsame _ (by simp)⟩
  · exact ⟨rfl, hsame _ (by simp)⟩
  · exact ⟨rfl, hsame _ (by simp)⟩

end Links

end Refinement

end Spot

import Spot.Client.IdState
import Spot.Proto.Packet

/-!
# The handshake of a native connection

A connection reads packets and answers the challenges among them, until the server reports that it
is ready or something goes wrong.  A challenge may bring membership records, which change the
client's card before the answer is made; `idAfter` is what it does to the card.

* `turn_challenge`: what becomes of one challenge;
* `handshake_proceeds`: a connection that only reads packets that do not end the handshake goes on,
  with one answer for each challenge;
* `handshake_protocol`: which sequences of reads bring the connection online, and with what answers.
-/

namespace Spot

/-- Signatures of the cryptographic library on plain bytes. -/
structure RawSigner (B : Bottlers) where
  sign : B.Seed → B.PrivateKey → Bytes → Except Text Bytes

variable {B : Bottlers}

namespace HandshakeRequest

/-- The bytes that a response to the request signs. -/
def signedBytes (C : Ciborium) (req : HandshakeRequest) : ProtoResult Bytes :=
  match req.raw with
  | some r => .ok r
  -- a guess of what the raw buffer was
  | none => req.toCbor C

/-- Generates a response to the request. -/
def respond (S : RawSigner B) (C : Ciborium) (seed : B.Seed) (req : HandshakeRequest)
    (key : B.PrivateKey) : ProtoResult HandshakeResponse :=
  match req.signedBytes C with
  | .error e => .error e
  | .ok raw =>
    match S.sign seed key raw with
    | .error e => .error (.err (.bottle e))
    | .ok sig =>
      match B.publicPkix key with
      | .error e => .error (.err (.bottle e))
      | .ok pkix => .ok { id := [], key := pkix, sig }

/-- A request that was read from bytes has those bytes signed. -/
theorem raw_of_fromCbor {C : Ciborium} {buf : Bytes} {req : HandshakeRequest}
    (h : fromCbor C buf = .ok req) : req.raw = some buf := by
  unfold fromCbor at h
  split at h
  · cases h
  · rename_i map hmap
    obtain rfl := Except.ok.inj h
    have keep : ∀ (m : List (Value × Value)) (r : HandshakeRequest),
        (m.foldl setEntry r).raw = r.raw := by
      intro m
      induction m with
      | nil => exact fun _ => rfl
      | cons e m ih =>
        intro r
        rw [List.foldl_cons, ih]
        unfold setEntry
        repeat' split
        all_goals rfl
    exact keep map _
  · cases h

end HandshakeRequest

/-- What a read of the websocket yields. -/
inductive WsRead
  | binary (data : Bytes)
  | text (s : Str)
  | closed
  | timedOut
  | failed (e : Text)

/-- The outcome of a read, to the protocol. -/
inductive Incoming
  | packet (data : Bytes)
  | closed
  | timeout

/-- `recv_packet`; text messages are skipped. -/
def recvPacket : WsRead → Result (Option Incoming)
  | .binary data => .ok (some (.packet data))
  | .text _ => .ok none
  | .closed => .ok (some .closed)
  | .timedOut => .ok (some .timeout)
  | .failed e => .error (.ws e)

/-- A read of a connection in its handshake, with what is drawn for the signatures of an answer to
it and what becomes of the sending of that answer. -/
structure Turn (B : Bottlers) where
  recv : WsRead
  cardSeed : B.Seed
  sigSeed : B.Seed
  sent : Except Text Unit

/-- How far a connection has come. -/
inductive ConnPhase
  | handshaking
  | online
  | failed (e : Fault Error)

/-- A connection in its handshake: the client's identity, and the packets sent. -/
structure Handshaking (B : Bottlers) where
  st : IdState B
  phase : ConnPhase := .handshaking
  sent : List Bytes := []

/-- A result of the protocol crate, as the client passes it on. -/
def liftProto {α : Type} : ProtoResult α → Except (Fault Error) α
  | .ok a => .ok a
  | .error .panic => .error .panic
  | .error (.err e) => .error (.err (.proto e))

section Handshake

variable (S : RawSigner B) (V : Uvarint) (C : Ciborium) (acct : Account B)

/-- The identity with the records of a request applied; an error is logged. -/
def joinGroups (st : IdState B) (req : HandshakeRequest) (seed : B.Seed) : IdState B :=
  match req.groups with
  | some groups => (acct.handleGroups C st seed groups).1
  | none => st

/-- The packet that answers a request, of a client whose card is signed as `id`. -/
def responsePacket (id : Bytes) (seed : B.Seed) (req : HandshakeRequest) :
    Except (Fault Error) Bytes :=
  match liftProto (req.respond S C seed acct.signer) with
  | .error e => .error e
  | .ok res => liftProto ((Packet.handshakeResponse { res with id }).encode V C)

/-- `respond_handshake`. -/
def respondHandshake (s : Handshaking B) (req : HandshakeRequest) (x : Turn B) : Handshaking B :=
  let st := joinGroups C acct s.st req x.cardSeed
  match responsePacket S V C acct st.signed x.sigSeed req with
  | .error e => { s with st, phase := .failed e }
  | .ok buf =>
    match x.sent with
    | .ok () => { s with st, sent := s.sent ++ [buf] }
    | .error e => { s with st, phase := .failed (.err (.ws e)) }

/-- One round of `handshake`; a connection whose handshake is done gets online, its read timeout
being set. -/
def handshakeTurn (s : Handshaking B) (x : Turn B) : Handshaking B :=
  match recvPacket x.recv with
  | .error e => { s with phase := .failed (.err e) }
  | .ok none => s
  | .ok (some .closed) =>
    { s with phase := .failed (.err (.ws "connection closed during handshake".toList)) }
  | .ok (some .timeout) => { s with phase := .failed (.err (.ws "handshake timed out".toList)) }
  | .ok (some (.packet data)) =>
    match liftProto (parse .native V C data true) with
    | .error e => { s with phase := .failed e }
    | .ok (.handshakeRequest req) =>
      if req.ready then { s with phase := .online }
      else respondHandshake S V C acct s req x
    -- logged, and the loop goes on
    | .ok _ => s

/-- `handshake`, for what the connection reads. -/
def handshake (s : Handshaking B) : List (Turn B) → Handshaking B
  | [] => s
  | x :: xs =>
    match (handshakeTurn S V C acct s x).phase with
    | .handshaking => handshake (handshakeTurn S V C acct s x) xs
    | _ => handshakeTurn S V C acct s x

/-! ## What a read is to the handshake -/

/-- The request that a packet is, with the bytes after its type byte. -/
def Turn.request? (x : Turn B) : Option (Bytes × HandshakeRequest) :=
  match x.recv with
  | .binary (v :: body) =>
    match parse .native V C (v :: body) true with
    | .ok (.handshakeRequest req) => some (body, req)
    | _ => none
  | _ => none

/-- The server reports that it is ready. -/
def Turn.Ready (x : Turn B) : Prop :=
  ∃ body req, x.request? V C = some (body, req) ∧ req.ready = true

/-- The packet is a challenge, a request to answer. -/
def Turn.Challenge (x : Turn B) (body : Bytes) (req : HandshakeRequest) : Prop :=
  x.request? V C = some (body, req) ∧ req.ready = false

/-- The connection is closed or fails, or the read times out. -/
def Turn.Ends (x : Turn B) : Prop :=
  match x.recv with
  | .closed | .timedOut | .failed _ => True
  | .binary _ | .text _ => False

/-- The packet cannot be parsed. -/
def Turn.Malformed (x : Turn B) : Prop :=
  ∃ data e, x.recv = .binary data ∧ parse .native V C data true = .error e

/-- The bytes cannot be signed with the main key. -/
def Unsigned (body : Bytes) (seed : B.Seed) : Prop :=
  (∃ e, S.sign seed acct.signer body = .error e) ∨ ∃ e, B.publicPkix acct.signer = .error e

/-- The answer to the bytes cannot be written, or not be sent. -/
def Unsent (id body : Bytes) (x : Turn B) : Prop :=
  (∃ e sig key, S.sign x.sigSeed acct.signer body = .ok sig ∧ B.publicPkix acct.signer = .ok key ∧
    (Packet.handshakeResponse ⟨id, key, sig⟩).encode V C = .error e) ∨ ∃ e, x.sent = .error e

/-- The read stops the handshake of a client with the identity `st`: it is a close, a failure, a
timeout or a malformed packet, or a challenge whose answer cannot be signed or not be sent. -/
def Turn.Stops (st : IdState B) (x : Turn B) : Prop :=
  x.Ends ∨ x.Malformed V C ∨ ∃ body req, x.Challenge V C body req ∧
    (Unsigned S acct body x.sigSeed ∨
      Unsent S V C acct (joinGroups C acct st req x.cardSeed).signed body x)

/-- What a read does to the identity. -/
def idAfter (st : IdState B) (x : Turn B) : IdState B :=
  match x.request? V C with
  | some (_, req) => if req.ready then st else joinGroups C acct st req x.cardSeed
  | none => st

/-- None of the reads stops the handshake. -/
def Unstopped : IdState B → List (Turn B) → Prop
  | _, [] => True
  | st, x :: xs => ¬ x.Stops S V C acct st ∧ Unstopped (idAfter V C acct st x) xs

/-- The challenges among the reads, each with the identity when it comes. -/
def challenges : IdState B → List (Turn B) → List (IdState B × Turn B)
  | _, [] => []
  | st, x :: xs =>
    (match x.request? V C with
      | some (_, req) => if req.ready then [] else [(st, x)]
      | none => []) ++ challenges (idAfter V C acct st x) xs

/-- The packet `buf` answers the challenge `x` of a client with the identity `st`: it has the main
public key, a signature with that key over the bytes after the type byte, and as id the signed card,
after the records that came with the challenge if these apply. -/
def AnswerTo (st : IdState B) (x : Turn B) (buf : Bytes) : Prop :=
  ∃ body req res, x.Challenge V C body req ∧
    (Packet.handshakeResponse res).encode V C = .ok buf ∧
    B.publicPkix acct.signer = .ok res.key ∧ S.sign x.sigSeed acct.signer body = .ok res.sig ∧
    (req.groups = none → res.id = st.signed) ∧
    ∀ groups, req.groups = some groups →
      (∀ card signed, updateGroups B C st.card groups = (card, .ok ()) →
        B.signCard x.cardSeed acct.signer card = .ok signed → res.id = signed) ∧
      ∀ e, (acct.handleGroups C st x.cardSeed groups).2 = .error e → res.id = st.signed

end Handshake

section Turns

variable {S : RawSigner B} {V : Uvarint} {C : Ciborium} {acct : Account B} {s : Handshaking B}
  {x : Turn B} {body : Bytes} {req : HandshakeRequest}

/-- A request that was parsed remembers the bytes after its type byte. -/
theorem raw_of_parse {t : Platform} {v : UInt8}
    (h : parse t V C (v :: body) true = .ok (.handshakeRequest req)) : req.raw = some body := by
  simp only [parse] at h
  split_ifs at h
  · cases h
  · cases hf : HandshakeRequest.fromCbor C body with
    | error e =>
      rw [hf] at h
      cases h
    | ok r =>
      rw [hf] at h
      obtain rfl := Packet.handshakeRequest.inj (Except.ok.inj h)
      exact HandshakeRequest.raw_of_fromCbor hf
  · cases hm : Message.parse t V body <;> rw [hm] at h <;> cases h

/-- A request comes in a binary message. -/
theorem request?_eq_some (h : x.request? V C = some (body, req)) :
    ∃ v, x.recv = .binary (v :: body) ∧
      parse .native V C (v :: body) true = .ok (.handshakeRequest req) := by
  unfold Turn.request? at h
  split at h
  · rename_i v b hrecv
    split at h
    · rename_i r hparse
      obtain ⟨rfl, rfl⟩ := Prod.mk.inj (Option.some.inj h)
      exact ⟨v, hrecv, hparse⟩
    · cases h
  · cases h

theorem raw_of_request? (h : x.request? V C = some (body, req)) : req.raw = some body := by
  obtain ⟨v, -, hparse⟩ := request?_eq_some h
  exact raw_of_parse hparse

/-- The round of a request. -/
theorem turn_request (h : x.request? V C = some (body, req)) :
    handshakeTurn S V C acct s x =
      if req.ready then { s with phase := .online } else respondHandshake S V C acct s req x := by
  obtain ⟨v, hrecv, hparse⟩ := request?_eq_some h
  simp only [handshakeTurn, hrecv, recvPacket, hparse, liftProto]

theorem turn_ready (h : x.Ready V C) :
    handshakeTurn S V C acct s x = { s with phase := .online } := by
  obtain ⟨body, req, hreq, hready⟩ := h
  rw [turn_request hreq, if_pos hready]

/-- A read that is no request and does not stop the handshake is passed over. -/
theorem turn_other (h : x.request? V C = none) (hs : ¬ x.Stops S V C acct s.st) :
    handshakeTurn S V C acct s x = s := by
  obtain ⟨hends, hs⟩ := not_or.1 hs
  have hwell := (not_or.1 hs).1
  unfold Turn.Ends at hends
  unfold Turn.request? at h
  unfold handshakeTurn
  cases hrecv : x.recv with
  | text t => rfl
  | closed | timedOut | failed => simp [hrecv] at hends
  | binary data =>
    simp only [recvPacket]
    cases hparse : parse .native V C data true with
    | error e => exact absurd ⟨data, e, hrecv, hparse⟩ hwell
    | ok p =>
      cases data with
      | nil => cases hparse
      | cons v body =>
        cases p with
        | handshakeRequest req => simp [hrecv, hparse] at h
        | ping | handshakeResponse | message => rfl

theorem respond_eq {seed : B.Seed} (h : req.raw = some body) :
    req.respond S C seed acct.signer =
      match S.sign seed acct.signer body with
      | .error e => .error (.err (.bottle e))
      | .ok sig =>
        match B.publicPkix acct.signer with
        | .error e => .error (.err (.bottle e))
        | .ok pkix => .ok ⟨[], pkix, sig⟩ := by
  rw [HandshakeRequest.respond, HandshakeRequest.signedBytes, h]

/-- The answer to a request that remembers its bytes, if they can be signed and it can be
written. -/
theorem responsePacket_cases (acct : Account B) (id : Bytes) (seed : B.Seed)
    (h : req.raw = some body) :
    (∃ sig key buf, S.sign seed acct.signer body = .ok sig ∧ B.publicPkix acct.signer = .ok key ∧
        (Packet.handshakeResponse ⟨id, key, sig⟩).encode V C = .ok buf ∧
        responsePacket S V C acct id seed req = .ok buf) ∨
      (Unsigned S acct body seed ∨ ∃ e sig key, S.sign seed acct.signer body = .ok sig ∧
        B.publicPkix acct.signer = .ok key ∧
        (Packet.handshakeResponse ⟨id, key, sig⟩).encode V C = .error e) ∧
        ∃ e, responsePacket S V C acct id seed req = .error e := by
  unfold responsePacket
  rw [respond_eq h]
  cases hsig : S.sign seed acct.signer body with
  | error e => exact .inr ⟨.inl (.inl ⟨e, hsig⟩), _, rfl⟩
  | ok sig =>
    cases hkey : B.publicPkix acct.signer with
    | error e => exact .inr ⟨.inl (.inr ⟨e, hkey⟩), _, rfl⟩
    | ok key =>
      cases hbuf : (Packet.handshakeResponse ⟨id, key, sig⟩).encode V C with
      | ok buf =>
        refine .inl ⟨sig, key, buf, rfl, rfl, hbuf, ?_⟩
        simp only [liftProto, hbuf]
      | error e =>
        refine .inr ⟨.inr ⟨e, sig, key, rfl, rfl, hbuf⟩, ?_⟩
        simp only [liftProto, hbuf]
        cases e with
        | panic => exact ⟨_, rfl⟩
        | err e => exact ⟨_, rfl⟩

/-- The id of an answer is the signed card as the records of the challenge leave it. -/
theorem joinGroups_spec (st : IdState B) (seed : B.Seed) :
    (req.groups = none → (joinGroups C acct st req seed).signed = st.signed) ∧
    ∀ groups, req.groups = some groups →
      (∀ card signed, updateGroups B C st.card groups = (card, .ok ()) →
        B.signCard seed acct.signer card = .ok signed →
          (joinGroups C acct st req seed).signed = signed) ∧
      ∀ e, (acct.handleGroups C st seed groups).2 = .error e →
        (joinGroups C acct st req seed).signed = st.signed := by
  constructor
  · intro h
    rw [joinGroups, h]
  · intro groups h
    constructor
    · intro card signed hcard hsigned
      simp only [joinGroups, h, Account.handleGroups, hcard, hsigned]
    · intro e he
      simp only [joinGroups, h]
      unfold Account.handleGroups at he ⊢
      split at he
      · rfl
      · split at he
        · cases he
        · rfl

/-- A challenge that does not stop the handshake is answered. -/
theorem turn_challenge (h : x.Challenge V C body req) (hs : ¬ x.Stops S V C acct s.st) :
    ∃ buf, AnswerTo S V C acct s.st x buf ∧ handshakeTurn S V C acct s x =
      { s with st := idAfter V C acct s.st x, sent := s.sent ++ [buf] } := by
  obtain ⟨hreq, hready⟩ := h
  have hnot : ¬ (req.ready = true) := by simp [hready]
  have hafter : idAfter V C acct s.st x = joinGroups C acct s.st req x.cardSeed := by
    rw [idAfter, hreq]
    exact if_neg hnot
  have hfine : ∀ {P : Prop}, (P → Unsigned S acct body x.sigSeed ∨
      Unsent S V C acct (joinGroups C acct s.st req x.cardSeed).signed body x) → ¬ P :=
    fun hP hp => hs (.inr (.inr ⟨body, req, ⟨hreq, hready⟩, hP hp⟩))
  rw [turn_request hreq, if_neg hnot, hafter, respondHandshake]
  rcases responsePacket_cases (S := S) (V := V) (C := C) acct
      (joinGroups C acct s.st req x.cardSeed).signed x.sigSeed (raw_of_request? hreq) with
    ⟨sig, key, buf, hsig, hkey, hbuf, hpacket⟩ | ⟨hbad, -⟩
  · cases hsent : x.sent with
    | error e => exact absurd ⟨e, hsent⟩ (hfine fun h => .inr (.inr h))
    | ok u =>
      refine ⟨buf, ⟨body, req, ⟨_, key, sig⟩, ⟨hreq, hready⟩, hbuf, hkey, hsig, ?_⟩, ?_⟩
      · exact joinGroups_spec s.st x.cardSeed
      · simp only [hpacket]
  · rcases hbad with hbad | hbad
    · exact absurd hbad (hfine .inl)
    · exact absurd hbad (hfine fun h => .inr (.inl h))

theorem turn_stops (hs : x.Stops S V C acct s.st) :
    ∃ e st, handshakeTurn S V C acct s x = { s with st, phase := .failed e } := by
  rcases hs with hends | ⟨data, e, hrecv, hparse⟩ | ⟨body, req, ⟨hreq, hready⟩, hbad⟩
  · unfold Turn.Ends at hends
    unfold handshakeTurn
    cases hrecv : x.recv with
    | binary data => simp [hrecv] at hends
    | text t => simp [hrecv] at hends
    | closed => exact ⟨_, s.st, rfl⟩
    | timedOut => exact ⟨_, s.st, rfl⟩
    | failed e => exact ⟨_, s.st, rfl⟩
  · simp only [handshakeTurn, hrecv, recvPacket, hparse]
    cases e with
    | panic => exact ⟨_, s.st, rfl⟩
    | err e => exact ⟨_, s.st, rfl⟩
  · have hnot : ¬ (req.ready = true) := by simp [hready]
    rw [turn_request hreq, if_neg hnot, respondHandshake]
    rcases responsePacket_cases (S := S) (V := V) (C := C) acct
        (joinGroups C acct s.st req x.cardSeed).signed x.sigSeed (raw_of_request? hreq) with
      ⟨sig, key, buf, hsig, hkey, hbuf, hpacket⟩ | ⟨-, e, hpacket⟩
    · simp only [hpacket]
      rcases hbad with (⟨e, he⟩ | ⟨e, he⟩) | ⟨e, sig', key', hsig', hkey', he⟩ | ⟨e, he⟩
      · rw [hsig] at he
        cases he
      · rw [hkey] at he
        cases he
      · obtain rfl := Except.ok.inj (hsig.symm.trans hsig')
        obtain rfl := Except.ok.inj (hkey.symm.trans hkey')
        rw [hbuf] at he
        cases he
      · rw [he]
        exact ⟨_, _, rfl⟩
    · simp only [hpacket]
      exact ⟨_, _, rfl⟩

end Turns

section Loop

variable {S : RawSigner B} {V : Uvarint} {C : Ciborium} {acct : Account B} {s : Handshaking B}
  {x : Turn B} {xs pre post : List (Turn B)}

/-- What the challenges and the answers to them are, when no read ends the handshake. -/
def AnswersAll (S : RawSigner B) (V : Uvarint) (C : Ciborium) (acct : Account B) (st : IdState B)
    (xs : List (Turn B)) (bufs : List Bytes) : Prop :=
  List.Forall₂ (fun c buf => AnswerTo S V C acct c.1 c.2 buf) (challenges V C acct st xs) bufs

/-- A read that does not end the handshake leaves the connection in it, with the challenge
answered, if it is one. -/
theorem turn_proceeds (hready : ¬ x.Ready V C) (hs : ¬ x.Stops S V C acct s.st) :
    ∃ bufs, AnswersAll S V C acct s.st [x] bufs ∧ handshakeTurn S V C acct s x =
      { s with st := idAfter V C acct s.st x, sent := s.sent ++ bufs } := by
  cases hreq : x.request? V C with
  | none =>
    refine ⟨[], ?_, ?_⟩
    · simp [AnswersAll, challenges, hreq]
    · rw [turn_other hreq hs, idAfter, hreq, List.append_nil]
  | some r =>
    obtain ⟨body, req⟩ := r
    have hnot : req.ready = false := by
      by_contra h
      exact hready ⟨body, req, hreq, eq_true_of_ne_false h⟩
    obtain ⟨buf, hbuf, hturn⟩ := turn_challenge ⟨hreq, hnot⟩ hs
    refine ⟨[buf], ?_, hturn⟩
    simp only [AnswersAll, challenges, hreq, hnot]
    exact .cons hbuf .nil

theorem challenges_append (st : IdState B) :
    challenges V C acct st (pre ++ post) =
      challenges V C acct st pre ++
        challenges V C acct (pre.foldl (idAfter V C acct) st) post := by
  induction pre generalizing st with
  | nil => rfl
  | cons y pre ih =>
    rw [List.cons_append, challenges, ih, challenges, List.append_assoc, List.foldl_cons]

/-- Reads that do not end the handshake are all answered, and the connection reads on. -/
theorem handshake_proceeds (post : List (Turn B)) (hs : s.phase = .handshaking)
    (hready : ∀ x ∈ pre, ¬ x.Ready V C) (hun : Unstopped S V C acct s.st pre) :
    ∃ bufs, AnswersAll S V C acct s.st pre bufs ∧ handshake S V C acct s (pre ++ post) =
      handshake S V C acct
        { s with st := pre.foldl (idAfter V C acct) s.st, sent := s.sent ++ bufs } post := by
  induction pre generalizing s with
  | nil => exact ⟨[], .nil, by rw [List.append_nil]; rfl⟩
  | cons y pre ih =>
    obtain ⟨bufs, hbufs, hturn⟩ := turn_proceeds (hready y List.mem_cons_self) hun.1
    obtain ⟨bufs', hbufs', hrest⟩ := ih (s := handshakeTurn S V C acct s y)
      (by rw [hturn]; exact hs) (fun x hx => hready x (List.mem_cons_of_mem _ hx))
      (by rw [hturn]; exact hun.2)
    refine ⟨bufs ++ bufs', ?_, ?_⟩
    · rw [AnswersAll, ← List.singleton_append, challenges_append]
      rw [hturn] at hbufs'
      exact List.rel_append hbufs hbufs'
    · have hphase : (handshakeTurn S V C acct s y).phase = .handshaking := by rw [hturn]; exact hs
      rw [List.cons_append, handshake]
      simp only [hphase]
      rw [hrest, hturn, List.append_assoc]
      rfl

/-- A ready request, with nothing before it that stops the handshake, brings the connection
online. -/
theorem online_of_ready (hs : s.phase = .handshaking) (hx : x.Ready V C)
    (hun : Unstopped S V C acct s.st pre) :
    (handshake S V C acct s (pre ++ x :: post)).phase = .online := by
  induction pre generalizing s with
  | nil =>
    rw [List.nil_append, handshake, turn_ready hx]
  | cons y pre ih =>
    rw [List.cons_append, handshake]
    by_cases hy : y.Ready V C
    · rw [turn_ready hy]
    · obtain ⟨bufs, -, hturn⟩ := turn_proceeds hy hun.1
      have hphase : (handshakeTurn S V C acct s y).phase = .handshaking := by rw [hturn]; exact hs
      simp only [hphase]
      apply ih hphase
      rw [hturn]
      exact hun.2

/-- The reads up to the first that ends the handshake, if there is one. -/
theorem exists_first_end (acct : Account B) (st : IdState B) (xs : List (Turn B)) :
    ∃ pre post, xs = pre ++ post ∧ (∀ x ∈ pre, ¬ x.Ready V C) ∧ Unstopped S V C acct st pre ∧
      (post = [] ∨ ∃ x rest, post = x :: rest ∧
        (x.Ready V C ∨ x.Stops S V C acct (pre.foldl (idAfter V C acct) st))) := by
  induction xs generalizing st with
  | nil => exact ⟨[], [], rfl, fun _ h => absurd h List.not_mem_nil, trivial, .inl rfl⟩
  | cons x xs ih =>
    by_cases hx : x.Ready V C ∨ x.Stops S V C acct st
    · exact ⟨[], x :: xs, rfl, fun _ h => absurd h List.not_mem_nil, trivial, .inr ⟨x, xs, rfl, hx⟩⟩
    · obtain ⟨hready, hstops⟩ := not_or.1 hx
      obtain ⟨pre, post, rfl, hpre, hun, hpost⟩ := ih (idAfter V C acct st x)
      refine ⟨x :: pre, post, rfl, fun y hy => ?_, ⟨hstops, hun⟩, hpost⟩
      rcases List.mem_cons.1 hy with rfl | hy
      · exact hready
      · exact hpre y hy

/-- What comes out of a handshake once a read has ended it. -/
theorem handshake_ends (hx : x.Ready V C ∨ x.Stops S V C acct s.st) :
    (handshake S V C acct s (x :: post)).sent = s.sent ∧
      ((handshake S V C acct s (x :: post)).phase = .online → x.Ready V C) := by
  rcases hx with hx | hx
  · rw [handshake, turn_ready hx]
    exact ⟨rfl, fun _ => hx⟩
  · obtain ⟨e, st, hturn⟩ := turn_stops hx
    rw [handshake, hturn]
    exact ⟨rfl, fun h => by cases h⟩

end Loop

/-- A connection gets online exactly when a ready request is read with nothing before it that stops
the handshake.  Until the read that ends the handshake it has sent one answer to each challenge, in
order.  The bytes that are signed for a request as it was built are the ones it would itself
sign. -/
theorem handshake_protocol (S : RawSigner B) (V : Uvarint) (C : Ciborium) (acct : Account B)
    (st : IdState B) (xs : List (Turn B)) :
    ((handshake S V C acct { st } xs).phase = .online ↔
      ∃ pre x post, xs = pre ++ x :: post ∧ x.Ready V C ∧ Unstopped S V C acct st pre) ∧
    (∀ pre post, xs = pre ++ post → (∀ x ∈ pre, ¬ x.Ready V C) → Unstopped S V C acct st pre →
      (post = [] ∨ ∃ x rest, post = x :: rest ∧
        (x.Ready V C ∨ x.Stops S V C acct (pre.foldl (idAfter V C acct) st))) →
      AnswersAll S V C acct st pre (handshake S V C acct { st } xs).sent) ∧
    ∀ (req : HandshakeRequest) (buf : Bytes), req.raw = none → req.toCbor C = .ok buf →
      ∀ x ∈ xs, x.recv = .binary (handshakeType :: buf) →
        ∀ body req', x.request? V C = some (body, req') →
          req.signedBytes C = .ok body ∧ req'.signedBytes C = .ok body := by
  refine ⟨⟨fun h => ?_, ?_⟩, ?_, ?_⟩
  · obtain ⟨pre, post, rfl, hpre, hun, hpost⟩ := exists_first_end (S := S) acct st xs
    obtain ⟨bufs, -, hrest⟩ := handshake_proceeds (s := { st }) post rfl hpre hun
    rw [hrest] at h
    rcases hpost with rfl | ⟨x, rest, rfl, hx⟩
    · cases h
    · obtain ⟨-, hready⟩ := handshake_ends (s := { st := _, sent := _ }) hx
      exact ⟨pre, x, rest, rfl, hready h, hun⟩
  · rintro ⟨pre, x, post, rfl, hx, hun⟩
    exact online_of_ready rfl hx hun
  · rintro pre post rfl hpre hun hpost
    obtain ⟨bufs, hbufs, hrest⟩ := handshake_proceeds (s := { st }) post rfl hpre hun
    rw [hrest]
    rcases hpost with rfl | ⟨x, rest, rfl, hx⟩
    · exact hbufs
    · obtain ⟨hsent, -⟩ := handshake_ends (s := { st := _, sent := _ }) hx
      rw [hsent]
      exact hbufs
  · intro req buf hraw hcbor x _ hrecv body req' hreq
    obtain ⟨v, hbin, -⟩ := request?_eq_some hreq
    obtain ⟨-, rfl⟩ := List.cons.inj (WsRead.binary.inj (hrecv.symm.trans hbin))
    rw [HandshakeRequest.signedBytes, hraw, HandshakeRequest.signedBytes, raw_of_request? hreq]
    exact ⟨hcbor, rfl⟩

/-! ### A challenge, then the end -/

/-- Signatures in the open: the public key, then the bytes. -/
def plainSigner : RawSigner plain where
  sign _ key b := .ok (Plain.toPkix (Plain.publicKey key) ++ b)

/-- CBOR as it is written for any map, and read from the maps `{}` and
`{"rdy": true}`. -/
def greetCiborium : Ciborium where
  intoWriter _ := .ok [0xa0]
  fromReader b :=
    if b = [0xa0] then .ok (.map [])
    else if b = [0xa1, 0x63, 0x72, 0x64, 0x79, 0xf5] then
      .ok (.map [(.text Key.rdy, .bool true)])
    else .error "eof".toList

def challengeTurn : Turn plain := ⟨.binary [0x01, 0xa0], (), (), .ok ()⟩

def readyTurn : Turn plain :=
  ⟨.binary [0x01, 0xa1, 0x63, 0x72, 0x64, 0x79, 0xf5], (), (), .ok ()⟩

/-- Two challenges are answered, with a ping in between, and the connection gets online. -/
example :
    let s := handshake plainSigner leb128 greetCiborium Account.plainAccount
      { st := Account.plainIdState }
      [challengeTurn, ⟨.binary [0x00, 7], (), (), .ok ()⟩, challengeTurn, readyTurn]
    s.phase = .online ∧ s.sent.length = 2 :=
  ⟨rfl, rfl⟩

end Spot

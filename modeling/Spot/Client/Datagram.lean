import Spot.Client.ClientId
import Spot.Client.EndToEnd
import Spot.Client.Enqueue

/-!
# A one-way message between two clients

Two clients that were built and know each other's current cards: `packet_delivered` follows what the
one sends to the packet connection of the other, with `send_to`, `send_to_with_from` or a packet
connection of its own, over the wire and into the channel.  The address that the payload comes with
is that of the endpoint it was sent from, and nothing goes back.
-/

namespace Spot

variable {B : Bottlers}

/-- The endpoint that a one-way message is sent from. -/
def sendingEndpoint (sender : Text) (id : MessageId) : Text :=
  if sender = [] then '/' :: uuidString id else sender

/-- The address of a sending endpoint. -/
def sendingAddr (B : Bottlers) (selfKey : Bytes) (sender : Text) (id : MessageId) : Text :=
  targetId B selfKey ++ sendingEndpoint sender id

/-- What a connection sends from is its local address. -/
theorem sendingAddr_path (selfKey : Bytes) (name : Text) (id : MessageId) :
    sendingAddr B selfKey ('/' :: name) id = localAddr B selfKey name := by
  rw [sendingAddr, sendingEndpoint, if_neg (List.cons_ne_nil _ _), localAddr]

/-! ## The way there -/

/-- The relay adds the address of the client to an endpoint. -/
theorem relaySender_path {selfKey : Bytes} {s : Str} (hs : s.chars.head? = some '/')
    (hlen : (utf8 (targetId B selfKey ++ s.chars)).length ≤ 256) :
    s.len ≤ 256 ∧ (relaySender B selfKey s).chars = targetId B selfKey ++ s.chars ∧
      (relaySender B selfKey s).len ≤ 256 := by
  have hshort : s.len ≤ 256 := by
    rw [utf8_append, List.length_append] at hlen
    exact le_trans (Nat.le_add_left _ _) hlen
  have hrelay : s.len ≤ 256 ∧ s.chars.head? = some '/' := ⟨hshort, hs⟩
  unfold relaySender
  rw [dif_pos hrelay]
  exact ⟨hshort, rfl, hlen⟩

/-- A message from an endpoint that is not too long arrives with the address of the endpoint. -/
theorem carry_oneWay {t : Platform} {V : Uvarint} (hV : V.Lawful) {C : Ciborium} {selfKey : Bytes}
    {sender : Text} {req : Message} (hfrom : SentFrom sender req)
    (hhead : sender = [] ∨ sender.head? = some '/')
    (hsender : (utf8 (targetId B selfKey ++ sender)).length ≤ 256)
    (hlen : req.recipient.len ≤ 256) :
    ∃ m, carry t V C (relaySender B selfKey) req = .ok (.message m) ∧ m.messageId = req.messageId ∧
      m.flags = req.flags ∧ m.recipient = req.recipient ∧ m.body = req.body ∧
      m.sender.chars = sendingAddr B selfKey sender req.messageId := by
  obtain ⟨hshort, hchars, haddr⟩ : req.sender.len ≤ 256 ∧
      (relaySender B selfKey req.sender).chars = sendingAddr B selfKey sender req.messageId ∧
      (relaySender B selfKey req.sender).len ≤ 256 := by
    rcases hfrom with ⟨rfl, hreply⟩ | ⟨hne, hchars⟩
    · obtain ⟨hchars, haddr⟩ := @relaySender_replyAddress B selfKey req.messageId
      rw [hreply]
      exact ⟨(len_replyAddress _).trans (by decide), hchars, haddr⟩
    · subst hchars
      rw [sendingAddr, sendingEndpoint, if_neg hne]
      exact relaySender_path (hhead.resolve_left hne) hsender
  exact ⟨_, carry_eq_ok hV hlen hshort haddr, rfl, rfl, rfl, rfl, hchars⟩

/-! ## The two runs -/

def deliver? : Asked (Reply B) → Option (ℕ × Bytes × Str)
  | ⟨.deliver chan payload sender, _⟩ => some (chan, payload, sender)
  | _ => none

/-- What is sent on the channels of packet connections in a trace. -/
def delivered (tr : Trace B) : List (ℕ × Bytes × Str) := tr.filterMap deliver?

/-- The message `m` arrives, no query waits under the name `ep`, and the handler `h` does. -/
def Reaches (m : Message) (ep : Text) (h : Handler) : Asked (Reply B) → Prop
  | ⟨.receive, msg⟩ => msg = m
  | ⟨.takeInQ name, taken⟩ => name = ep → taken = false
  | ⟨.getHandler name, found⟩ => name = ep → found = some h
  | _ => True

/-- A run of what the arrival of `m` starts, with the card of the sender in the cache and the
handler `h` under the name `ep`. -/
def ReachedRun (t : Platform) (acct : Account B) (card : B.Card) (m : Message) (ep : Text)
    (h : Handler) (tr : Trace B) : Prop :=
  (incoming t acct).Run tr () ∧ ∀ e ∈ tr, Reaches m ep h e ∧ KnowsCard card e

/-- The payload is sent on the channel, once, with the address of the sender; no handler of the user
is called, and nothing is pushed. -/
def PutThrough (chan : ℕ) (payload : Bytes) (sender : Str) (tr : Trace B) : Prop :=
  delivered tr = [(chan, payload, sender)] ∧ handled tr = [] ∧ pushed tr = []

section Runs

variable {t : Platform} {acct : Account B} {card : B.Card}

/-- A message to a client whose card is in the cache is sealed for it and pushed. -/
theorem safe_send_known {target sender : Str} {payload : Bytes} {R : Asked (Reply B) → Prop}
    (hhead : sender.chars = [] ∨ sender.chars.head? = some '/')
    (hh : recipientHash target.chars = .ok (keyHash card)) (hR : ∀ e, R e → KnowsCard card e)
    (hprep : ∀ now seeds, ∃ buf, prepareMessage acct now seeds (some card) payload = .ok buf) :
    (sendToWithFrom t acct target payload sender).run.Safe (fun _ _ => True) R
      (fun tr r => r = .ok () ∧ ∃ req now seeds, pushed tr = [req] ∧ req.flags = 0 ∧
        req.recipient = target ∧ SentFrom sender.chars req ∧
        prepareMessage acct now seeds (some card) payload = .ok req.body) [] := by
  unfold sendToWithFrom
  rw [Prog.safe_run_bind, getIdcardForRecipient, Prog.safe_run_bind, Prog.safe_run_except, hh]
  refine Prog.safe_run_once_bind (G := fun _ _ => True) (Ask.cached (keyHash card)) trivial
    fun cached hcached => ?_
  obtain rfl : cached = some card := hR _ hcached rfl
  refine Prog.safe_run_pure.2 ?_
  dsimp only
  rw [Prog.safe_run_bind]
  refine safe_prepare (fun _ _ _ => trivial) fun now seeds => ?_
  obtain ⟨buf, hbuf⟩ := hprep now seeds
  rw [hbuf]
  refine Prog.safe_run_once_bind (G := fun _ _ => True) Ask.uuid trivial fun id _ => ?_
  by_cases hempty : sender.chars = []
  · rw [if_pos hempty]
    exact ⟨trivial, fun _ _ => ⟨rfl, _, now, seeds, rfl, rfl, rfl, .inl ⟨hempty, rfl⟩, hbuf⟩⟩
  · rw [if_neg hempty, if_pos (hhead.resolve_left hempty)]
    exact ⟨trivial, fun _ _ => ⟨rfl, _, now, seeds, rfl, rfl, rfl, .inr ⟨hempty, rfl⟩, hbuf⟩⟩

/-- A message that arrives from a sender whose card is in the cache is opened and given to the
handler. -/
theorem Addressed.reached {m : Message} {ep : Text} {plain : Bytes}
    (hm : Addressed acct card m ep plain) {h : Handler} {P : Trace B → Prop}
    (hP : ∀ now, (runOpened t acct (some card) { m with body := plain } h).Safe (fun _ _ => True)
      (fun e => Reaches m ep h e ∧ KnowsCard card e) (fun tr _ => P tr)
      [⟨.receive, m⟩, ⟨.takeInQ ep, false⟩, ⟨.getHandler ep, some h⟩,
        ⟨.cached (keyHash card), some card⟩, ⟨.now, now⟩])
    {tr : Trace B} (hrun : ReachedRun t acct card m ep h tr) : P tr := by
  suffices hsafe : (incoming t acct).Safe (fun _ _ => True)
      (fun e => Reaches m ep h e ∧ KnowsCard card e) (fun tr _ => P tr) [] from
    (hsafe.run hrun.1 hrun.2).1
  refine ⟨trivial, fun msg hmsg => ?_⟩
  obtain rfl : msg = m := hmsg.1
  show (routeMessage t acct msg).Safe _ _ _ _
  unfold routeMessage
  simp only [hm.route]
  refine ⟨trivial, fun taken htaken => ?_⟩
  obtain rfl : taken = false := htaken.1 rfl
  refine ⟨trivial, fun found hfound => ?_⟩
  obtain rfl : found = some h := hfound.1 rfl
  show (runHandler t acct msg h).Safe _ _ _ _
  have hclear : msg.flags &&& msgFlagNotBottle = 0 := by rw [hm.flags]; rfl
  rw [runHandler, Prog.safe_bind]
  exact safe_openRequest_known hclear hm.sender (fun _ => And.right) hm.authentic hP

theorem respond_none {rid : Option B.Card} {msg : Message} (hflags : msg.flags = 0) :
    respond acct rid msg (.ok none) = pure () := by
  have hrequest : ¬ msg.flags &&& msgFlagResponse = msgFlagResponse := by rw [hflags]; decide
  unfold respond
  rw [if_neg hrequest]

/-- A message for a packet connection is put through. -/
theorem Addressed.putThrough {m : Message} {ep : Text} {chan : ℕ} {plain : Bytes} {tr : Trace B}
    (hm : Addressed acct card m ep plain) (hrun : ReachedRun t acct card m ep (.packet chan) tr) :
    PutThrough chan plain m.sender tr := by
  refine hm.reached (fun now => ?_) hrun
  have hflags : Message.flags { m with body := plain } = 0 := hm.flags
  have henc : Message.isEncrypted { m with body := plain } = true :=
    Message.isEncrypted_iff.2 (by rw [hflags]; rfl)
  rw [runOpened, Prog.safe_bind, Handler.call, packetHandler, henc]
  refine ⟨trivial, fun _ _ => ?_⟩
  show (respond acct (some card) { m with body := plain } (.ok none)).Safe _ _ _ _
  rw [respond_none hflags]
  exact ⟨rfl, rfl, rfl⟩

/-- Answers to the program of a client that has the card in its cache and the handler `h`. -/
def reachingAnswers (card : B.Card) (h : Handler) (msg : Message) (seeds : Seeds B) :
    (q : Ask B) → Reply B q
  | .getHandler _ => some h
  | q => arrival card 0 seeds msg.messageId 0 (.panicked none) msg q

theorem exists_reachedRun (t : Platform) (acct : Account B) (card : B.Card) (m : Message)
    (ep : Text) (h : Handler) (seeds : Seeds B) : ∃ tr, ReachedRun t acct card m ep h tr := by
  obtain ⟨tr, ⟨⟩, hr, ho⟩ := Prog.exists_run (reachingAnswers card h m seeds) (incoming t acct)
  refine ⟨tr, hr, fun e he => ?_⟩
  have hanswer := ho e he
  obtain ⟨q, a⟩ := e
  cases q with
  | receive => exact ⟨hanswer, trivial⟩
  | takeInQ name => exact ⟨fun _ => hanswer, trivial⟩
  | getHandler name => exact ⟨fun _ => hanswer, trivial⟩
  | cached h => exact ⟨trivial, fun _ => hanswer⟩
  | _ => exact ⟨trivial, trivial⟩

end Runs

/-! ## From one client to the other -/

section Clients

variable {V : Uvarint} {C : Ciborium} {envA envB : BuildEnv B} {bA bB : ClientBuilder B}
  {a b : Built B} {cardA cardB : B.Card} {ep : Text} {target sender : Str} {tA tB : Platform}
  {payload : Bytes} {trA : Trace B} {r : Result Unit}

/-- A one-way message is pushed and arrives. -/
theorem oneWay_arrives (tB : Platform) (hB : B.Lawful) (hV : V.Lawful)
    (ha : bA.build envA = .ok a) (hb : bB.build envB = .ok b)
    (hcardA : a.Current C cardA) (hcardB : b.Current C cardB)
    (hdecB : ∃ key ∈ B.keys b.acct.kc, decryptPurpose ∈ keyPurposes key.1) (hep : '/' ∉ ep)
    (htarget : target.chars = localAddr B cardB.selfKey ep) (hlen : target.len ≤ 256)
    (hhead : sender.chars = [] ∨ sender.chars.head? = some '/')
    (hsender : (utf8 (targetId B cardA.selfKey ++ sender.chars)).length ≤ 256)
    (hrunA : (sendToWithFrom tA a.acct target payload sender).run.Run trA r)
    (hknows : ∀ e ∈ trA, KnowsCard cardB e) :
    r = .ok () ∧ ∃ req, pushed trA = [req] ∧
      ∃ m, carry tB V C (relaySender B cardA.selfKey) req = .ok (.message m) ∧
        m.sender.chars = sendingAddr B cardA.selfKey sender.chars req.messageId ∧
        Addressed b.acct cardA m ep payload := by
  have hreadyA := hcardA.ready hB ha
  have hreadyB := hcardB.ready hB hb
  have hhB : recipientHash target.chars = .ok (keyHash cardB) := by
    rw [htarget]
    exact recipientHash_targetId ep
  have hseal := prepareMessage_of_ready hB hreadyA hreadyB hdecB
  have hsafe := safe_send_known (t := tA) hhead hhB (fun _ => id) fun now seeds =>
    (hseal now seeds payload).imp fun _ => And.left
  obtain ⟨hr, req, now, seeds, hpushed, hflags, rfl, hfrom, hbuf⟩ := (hsafe.run hrunA hknows).1
  obtain ⟨buf, hbuf', hauth⟩ := hseal now seeds payload
  obtain rfl := Except.ok.inj (hbuf.symm.trans hbuf')
  obtain ⟨m, hm, -, hmflags, hrecipient, hbody, haddr⟩ :=
    carry_oneWay (t := tB) hV (C := C) hfrom hhead hsender hlen
  refine ⟨hr, req, hpushed, m, hm, haddr, ?_, hmflags.trans hflags, ?_, hbody ▸ hauth⟩
  · rw [hrecipient, htarget]
    exact routeName_append slash_notMem_targetId hep
  · rw [haddr, sendingAddr, sendingEndpoint]
    split
    · exact recipientHash_targetId _
    · next hne =>
      obtain ⟨name, hname⟩ := List.head?_eq_some_iff.1 (hhead.resolve_left hne)
      rw [hname]
      exact recipientHash_targetId name

/-- Two clients that were built have each other's current card in the cache, and a one-way message
of the one names an endpoint of the other at which a packet connection listens and no query waits.
The call succeeds and pushes one message, which arrives from the address of the endpoint it was sent
from; it is put through to the packet connection, with that address and the payload; and this does
happen. -/
theorem packet_delivered (hB : B.Lawful) (hV : V.Lawful) (ha : bA.build envA = .ok a)
    (hb : bB.build envB = .ok b) (hcardA : a.Current C cardA) (hcardB : b.Current C cardB)
    (hdecB : ∃ key ∈ B.keys b.acct.kc, decryptPurpose ∈ keyPurposes key.1) (hep : '/' ∉ ep)
    (htarget : target.chars = localAddr B cardB.selfKey ep) (hlen : target.len ≤ 256)
    (hhead : sender.chars = [] ∨ sender.chars.head? = some '/')
    (hsender : (utf8 (targetId B cardA.selfKey ++ sender.chars)).length ≤ 256)
    (hrunA : (sendToWithFrom tA a.acct target payload sender).run.Run trA r)
    (hknows : ∀ e ∈ trA, KnowsCard cardB e) :
    r = .ok () ∧ ∃ req, pushed trA = [req] ∧
      ∃ m, carry tB V C (relaySender B cardA.selfKey) req = .ok (.message m) ∧
        m.sender.chars = sendingAddr B cardA.selfKey sender.chars req.messageId ∧
        ∀ chan, (∃ trB, ReachedRun tB b.acct cardA m ep (.packet chan) trB) ∧
          ∀ trB, ReachedRun tB b.acct cardA m ep (.packet chan) trB →
            PutThrough chan payload m.sender trB := by
  obtain ⟨hr, req, hpushed, m, hm, haddr, haddressed⟩ := oneWay_arrives tB hB hV ha hb
    hcardA hcardB hdecB hep htarget hlen hhead hsender hrunA hknows
  exact ⟨hr, req, hpushed, m, hm, haddr, fun chan =>
    ⟨exists_reachedRun tB b.acct cardA m ep (.packet chan) ⟨envA.sign, envA.sign⟩,
      fun trB => haddressed.putThrough⟩⟩

end Clients

/-! ### A packet between two connections -/

def outEndpoint : Str := ⟨"/out".toList, by decide⟩

/-- What the connection `out` of the client of the key `[0, 5]` sends to the other client. -/
def outPacket : Message where
  messageId := zeroId
  flags := 0
  recipient := endpointTarget
  sender := outEndpoint
  body := Plain.write ⟨some [(0, 9)], [(0, 5)], [3]⟩

def packetTrace : Trace plain :=
  [⟨.cached hash9, some (plainBuilt 9).st.card⟩, ⟨.now, 0⟩, ⟨.seeds, ⟨(), ()⟩⟩, ⟨.uuid, zeroId⟩,
    ⟨.push outPacket, ()⟩]

theorem packet_delivered_packetTrace :
    ∃ m, carry .wasm leb128 sampleCiborium (relaySender plain [0, 5]) outPacket =
        .ok (.message m) ∧
      m.sender.chars = localAddr plain [0, 5] "out".toList ∧
      ∃ trB, ReachedRun .wasm (plainBuilt 9).acct (plainBuilt 5).st.card m "in".toList
          (.packet 0) trB ∧
        PutThrough 0 [3] m.sender trB := by
  have hbuild5 : (oneKey 5).build plainEnv = .ok (plainBuilt 5) := rfl
  have hbuild9 : (oneKey 9).build plainEnv = .ok (plainBuilt 9) := rfl
  have hcurrent5 : (plainBuilt 5).Current sampleCiborium (plainBuilt 5).st.card :=
    ⟨_, .refl, rfl⟩
  have hcurrent9 : (plainBuilt 9).Current sampleCiborium (plainBuilt 9).st.card :=
    ⟨_, .refl, rfl⟩
  have hdec9 : ∃ key ∈ plain.keys (plainBuilt 9).acct.kc, decryptPurpose ∈ keyPurposes key.1 :=
    ⟨_, List.mem_cons_self, by decide⟩
  have hrun : (sendToWithFrom .native (plainBuilt 5).acct endpointTarget [3] outEndpoint).run.Run
      packetTrace (.ok ()) :=
    ⟨_, _, rfl, _, _, rfl, _, _, rfl, _, _, rfl, _, _, rfl, rfl, rfl⟩
  have hknows : ∀ e ∈ packetTrace, KnowsCard (plainBuilt 9).st.card e := by
    rintro e he
    simp [packetTrace] at he
    rcases he with rfl | rfl | rfl | rfl | rfl
    · exact fun _ => rfl
    all_goals trivial
  have hep : '/' ∉ "in".toList := by decide
  have hlen : endpointTarget.len ≤ 256 := by decide +kernel
  have hsender : (utf8 (targetId plain [0, 5] ++ outEndpoint.chars)).length ≤ 256 := by
    decide +kernel
  obtain ⟨-, req, hpushed, m, hm, haddr, hput⟩ := packet_delivered plain_lawful
    leb128_lawful hbuild5 hbuild9 hcurrent5 hcurrent9 hdec9 hep rfl hlen (.inr rfl) hsender hrun
    hknows
  obtain rfl : outPacket = req := List.singleton_inj.1 hpushed
  obtain ⟨⟨trB, hrunB⟩, hall⟩ := hput 0
  exact ⟨m, hm, haddr.trans (sendingAddr_path _ _ _), trB, hrunB, hall trB hrunB⟩

end Spot

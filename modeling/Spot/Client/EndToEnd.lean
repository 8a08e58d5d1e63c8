import Spot.Client.Build
import Spot.Client.Cache
import Spot.Client.Correlation
import Spot.Proto.Packet

/-!
# A query and its answer

Two clients that were built and know each other's current cards: `query_answered` follows a query of
the one from the address over the wire into the handler of the other, and the handler's result back.
-/

namespace Spot

variable {B : Bottlers}

/-! ## Bodies between two clients -/

/-- The subkeys of a client's card do not expire. -/
theorem Account.Ready.signsFor_of_lists {acct : Account B} {card : B.Card} (h : acct.Ready card)
    {pkix : Bytes} {ps : List Text} (hlists : Lists B card.subkeys pkix ps)
    (hsign : signPurpose ∈ ps) (now : ℤ) : SignsFor B card now pkix := by
  obtain ⟨sub, hsub, hkey, hps⟩ := hlists
  refine ⟨sub, hsub, hkey, hps _ hsign, fun exp hexp => ?_⟩
  rw [(h.sound sub hsub).1] at hexp
  cases hexp

theorem Account.Ready.signsFor {acct : Account B} {card : B.Card} (h : acct.Ready card) (now : ℤ) :
    SignsFor B card now acct.signerPkix := by
  obtain ⟨pkix, hpkix, hlists⟩ := h.listed acct.signer h.main
  obtain rfl : pkix = acct.signerPkix := Except.ok.inj (hpkix.symm.trans h.pkix)
  exact h.signsFor_of_lists hlists h.signs now

/-- What one client seals for another, that can decrypt, is authentic there. -/
theorem prepareMessage_of_ready (hB : B.Lawful) {sender recipient : Account B}
    {card card' : B.Card} (hs : sender.Ready card) (hr : recipient.Ready card')
    (hdec : ∃ key ∈ B.keys recipient.kc, decryptPurpose ∈ keyPurposes key.1) (now : ℤ)
    (seeds : Seeds B) (payload : Bytes) :
    ∃ buf, prepareMessage sender now seeds (some card') payload = .ok buf ∧
      ∀ now', Authentic recipient card now' buf payload := by
  obtain ⟨key, hkey, hkdec⟩ := hdec
  obtain ⟨pkix, hpkix, sub, hsub, hsubkey, hps⟩ := hr.listed key hkey
  obtain ⟨copy, hcopy, hkind, hsame⟩ := hr.opens key hkey
  have hsubdec := hps _ hkdec
  obtain ⟨b, hb⟩ := hB.encrypt_ok seeds.encrypt card' now (B.newBottle payload) hr.sound
    ⟨sub, hsub, hsubdec⟩
  obtain ⟨b', hb'⟩ := hB.bottleUp_ok b
  obtain ⟨b'', hb''⟩ := hB.sign_ok seeds.sign sender.signer b' hs.signs
  obtain ⟨buf, hbuf⟩ := hB.toCbor_ok b''
  refine ⟨buf, ?_, fun now' => ?_⟩
  · simp only [prepareMessage, hb, hb', hb'', hbuf, wrapBottle, bind, Except.bind]
  · obtain ⟨info, hopen, hd, hsigned⟩ := hB.openCbor_sealed recipient.opener card' sub copy
      sender.signer sender.signerPkix payload buf now seeds.encrypt seeds.sign b b' b'' hcopy
      (hkind ▸ hkdec) (by rw [hsame, hpkix, hsubkey]) hsub hsubdec (hr.sound sub hsub).1 hb hb' hb''
      hbuf hs.pkix
    exact ⟨info, hopen, hd, sender.signerPkix, hs.signsFor now', hsigned⟩

/-! ## The way through the relay -/

/-- The sender that the relay puts in place of `/x`: the address of the client it comes from. -/
def relaySender (B : Bottlers) (selfKey : Bytes) (s : Str) : Str :=
  if h : s.len ≤ 256 ∧ s.chars.head? = some '/' then
    { chars := targetId B selfKey ++ s.chars
      size_le := by
        have hs : (utf8 s.chars).length ≤ 256 := h.1
        rw [utf8_append, List.length_append, length_utf8_targetId]
        unfold isizeMax
        omega }
  else s

/-- A packet with another sender, if it is a message. -/
def Packet.withSender (rewrite : Str → Str) : Packet → Packet
  | message m => message { m with sender := rewrite m.sender }
  | p => p

/-- What arrives of a message that one client encodes, the relay passes on with the sender
rewritten, and another client parses. -/
def carry (t : Platform) (V : Uvarint) (C : Ciborium) (rewrite : Str → Str) (m : Message) :
    ProtoResult Packet := do
  let sent ← (Packet.message m).encode V C
  let p ← parse .native V C sent false
  let forwarded ← (p.withSender rewrite).encode V C
  parse t V C forwarded true

theorem carry_eq_ok {t : Platform} {V : Uvarint} (hV : V.Lawful) {C : Ciborium}
    {rewrite : Str → Str} {m : Message} (hr : m.recipient.len ≤ 256) (hs : m.sender.len ≤ 256)
    (hs' : (rewrite m.sender).len ≤ 256) :
    carry t V C rewrite m = .ok (.message { m with sender := rewrite m.sender }) := by
  have hread : parse .native V C (instantMsg :: m.toBytes V) false = .ok (.message m) :=
    parse_message .native hV C hr hs false
  unfold carry
  rw [Packet.encode_message]
  simp only [bind, Except.bind, hread, Packet.withSender, Packet.encode_message]
  exact parse_message t hV C (m := { m with sender := rewrite m.sender }) hr hs' true

theorem relaySender_replyAddress (selfKey : Bytes) (id : MessageId) :
    (relaySender B selfKey (replyAddress id)).chars = targetId B selfKey ++ '/' :: uuidString id ∧
      (relaySender B selfKey (replyAddress id)).len ≤ 256 := by
  have hlen := len_replyAddress id
  have h : (replyAddress id).len ≤ 256 ∧ (replyAddress id).chars.head? = some '/' :=
    ⟨by omega, rfl⟩
  unfold relaySender
  rw [dif_pos h]
  refine ⟨rfl, ?_⟩
  show (utf8 (targetId B selfKey ++ (replyAddress id).chars)).length ≤ 256
  rw [utf8_append, List.length_append, length_utf8_targetId]
  have hlen' : (utf8 (replyAddress id).chars).length ≤ 49 := hlen
  omega

/-- A request arrives with its flags, body and recipient, and the address of its sender. -/
theorem carry_request {t : Platform} {V : Uvarint} (hV : V.Lawful) {C : Ciborium} (selfKey : Bytes)
    (id : MessageId) {target : Str} (hlen : target.len ≤ 256) (body : Bytes) :
    ∃ m, carry t V C (relaySender B selfKey) (request id target body) = .ok (.message m) ∧
      m.messageId = id ∧ m.flags = 0 ∧ m.recipient = target ∧ m.body = body ∧
      m.sender.chars = targetId B selfKey ++ '/' :: uuidString id ∧ m.sender.len ≤ 256 := by
  obtain ⟨hsender, hsenderLen⟩ := @relaySender_replyAddress B selfKey id
  have hreply : (replyAddress id).len ≤ 256 := le_trans (len_replyAddress id) (by decide)
  exact ⟨_, carry_eq_ok hV hlen hreply hsenderLen, rfl, rfl, rfl, rfl, hsender, hsenderLen⟩

/-! ## The two runs -/

def push? : Asked (Reply B) → Option Message
  | ⟨.push m, _⟩ => some m
  | _ => none

def handle? : Asked (Reply B) → Option (ℕ × Message × Outcome)
  | ⟨.handle f m, out⟩ => some (f, m, out)
  | _ => none

/-- The messages pushed in a trace. -/
def pushed (tr : Trace B) : List Message := tr.filterMap push?

/-- The calls of the user's handlers in a trace, and how they ended. -/
def handled (tr : Trace B) : List (ℕ × Message × Outcome) := tr.filterMap handle?

/-- The cache has the card, under the hash of its key. -/
def KnowsCard (card : B.Card) : Asked (Reply B) → Prop
  | ⟨.cached h, cached⟩ => h = keyHash card → cached = some card
  | _ => True

/-- The message `m` arrives, no query waits under the name `ep`, and the handler `f` does. -/
def Serves (m : Message) (ep : Text) (f : ℕ) : Asked (Reply B) → Prop
  | ⟨.receive, msg⟩ => msg = m
  | ⟨.takeInQ name, taken⟩ => name = ep → taken = false
  | ⟨.getHandler name, h⟩ => name = ep → h = some (.user f)
  | _ => True

/-- A run of a query with the card of the recipient in the cache. -/
def QueryRun (t : Platform) (acct : Account B) (card : B.Card) (target : Str) (payload : Bytes)
    (tr : Trace B) (r : Result Bytes) : Prop :=
  (query t acct target payload).run.Run tr r ∧ ∀ e ∈ tr, KnowsCard card e

/-- A run of what the arrival of `m` starts, with the card of the sender in the cache and the
handler `f` registered under the name `ep`. -/
def ServedRun (t : Platform) (acct : Account B) (card : B.Card) (m : Message) (ep : Text) (f : ℕ)
    (tr : Trace B) : Prop :=
  (incoming t acct).Run tr () ∧ ∀ e ∈ tr, Serves m ep f e ∧ KnowsCard card e

/-- The message `m` arrives, and a query waits under the name. -/
def AwaitedAs (m : Message) (name : Text) : Asked (Reply B) → Prop
  | ⟨.receive, msg⟩ => msg = m
  | ⟨.takeInQ name', taken⟩ => name' = name → taken = true
  | _ => True

/-- The message is one for the query with this id: when it arrives while the query waits, it is
sent to the query and nothing else is done with it; and a query with this id that waits and has not
been reached receives it. -/
structure ReachesQuery (t : Platform) (acct : Account B) (id : MessageId) (m : Message) : Prop where
  name : routeName m.recipient.chars = some (uuidString id)
  routed : ∀ tr, (incoming t acct).Run tr () ∧ (∀ e ∈ tr, AwaitedAs m (uuidString id) e) ↔
    tr = [⟨.receive, m⟩, ⟨.takeInQ (uuidString id), true⟩]
  received : ∀ es s, Guarded CorrState.step CorrState.FreshId {} es →
    run CorrState.step {} es = some s → ∀ (i : ℕ) (q : QueryState), s.queries[i]? = some q →
      q.id = id → q.taken = false → q.phase = .waiting → ∃ s' q',
        run CorrState.step s [.route m, .send s.inflight.length, .receive i] = some s' ∧
        s'.queries[i]? = some q' ∧ q'.completedBy = some ⟨s.arrivals, m⟩

theorem reachesQuery (t : Platform) (acct : Account B) {id : MessageId} {m : Message}
    (h : routeName m.recipient.chars = some (uuidString id)) : ReachesQuery t acct id m where
  name := h
  routed tr := by
    constructor
    · rintro ⟨⟨msg, tr₁, rfl, hr⟩, hall⟩
      obtain rfl : msg = m := hall _ List.mem_cons_self
      have hroute : (routeMessage t acct msg).Run tr₁ () := hr
      unfold routeMessage at hroute
      simp only [h] at hroute
      obtain ⟨taken, tr₂, rfl, hroute⟩ := hroute
      obtain rfl : taken = true := hall _ (List.mem_cons_of_mem _ List.mem_cons_self) rfl
      obtain ⟨rfl, -⟩ := hroute
      rfl
    · rintro rfl
      refine ⟨⟨m, _, rfl, ?_⟩, fun e he => ?_⟩
      · show (routeMessage t acct m).Run _ ()
        unfold routeMessage
        simp only [h]
        exact ⟨true, [], rfl, rfl, rfl⟩
      · rcases List.mem_cons.1 he with rfl | he
        · rfl
        · obtain rfl := List.mem_singleton.1 he
          exact fun _ => rfl
  received es s hg hr i q hq hid htaken hwaits :=
    CorrState.received_of_waiting hg hr hq (hid ▸ h) htaken hwaits

/-- Answers to the programs of a client that has the card in its cache and a handler that ends with
`out`, when `msg` arrives. -/
def arrival (card : B.Card) (now : ℤ) (seeds : Seeds B) (id : MessageId) (f : ℕ) (out : Outcome)
    (msg : Message) : (q : Ask B) → Reply B q
  | .now => now
  | .seeds => seeds
  | .uuid => id
  | .cached _ => some card
  | .wait _ _ => .message msg
  | .receive => msg
  | .takeInQ _ => false
  | .getHandler _ => some (.user f)
  | .idBin => ([] : Bytes)
  | .handle _ _ => out
  | .insert _ _ | .setCache _ _ | .refresh | .push _ | .deliver _ _ _ => ()

theorem knowsCard_arrival {card : B.Card} {now : ℤ} {seeds : Seeds B} {id : MessageId} {f : ℕ}
    {out : Outcome} {msg : Message} {e : Asked (Reply B)}
    (he : e.2 = arrival card now seeds id f out msg e.1) : KnowsCard card e := by
  obtain ⟨q, a⟩ := e
  cases q with
  | cached h => exact fun _ => he
  | _ => trivial

theorem serves_arrival {card : B.Card} {now : ℤ} {seeds : Seeds B} {id : MessageId} {f : ℕ}
    {out : Outcome} {msg : Message} {ep : Text} {e : Asked (Reply B)}
    (he : e.2 = arrival card now seeds id f out msg e.1) : Serves msg ep f e := by
  obtain ⟨q, a⟩ := e
  cases q with
  | receive => exact he
  | takeInQ name => exact fun _ => he
  | getHandler name => exact fun _ => he
  | _ => trivial

theorem mem_of_mem_handled {tr : Trace B} {f : ℕ} {m : Message} {out : Outcome}
    (h : (f, m, out) ∈ handled tr) : ⟨.handle f m, out⟩ ∈ tr := by
  obtain ⟨⟨q, a⟩, he, heq⟩ := List.mem_filterMap.1 h
  cases q with
  | handle f' m' =>
    obtain ⟨rfl, rfl, rfl⟩ : f' = f ∧ m' = m ∧ a = out := by
      simpa [handle?] using heq
    exact he
  | _ => cases heq

/-- The flags and the body of the response to the result of a handler, if there is one. -/
def answerOf : Except Text (Option Bytes) → Option (UInt64 × Bytes)
  | .ok none => none
  | .ok (some body) => some (msgFlagResponse, body)
  | .error e => some (msgFlagResponse ||| msgFlagError, utf8 e)

/-- The handler `f` is called once, with the message `m` opened to `plain`, and what it returns is
sealed for the sender. -/
def Answered (acct : Account B) (card : B.Card) (m : Message) (f : ℕ) (plain : Bytes)
    (tr : Trace B) : Prop :=
  ∃ out, handled tr = [(f, { m with body := plain }, out)] ∧
    ∀ res flags body, out = .returned res → answerOf res = some (flags, body) →
      ∃ now seeds buf, prepareMessage acct now seeds (some card) body = .ok buf ∧
        pushed tr = [{ messageId := m.messageId, flags, recipient := m.sender
                       sender := noreply, body := buf }]

/-- The message is for the endpoint `ep`, comes from the owner of the card and opens to `plain`. -/
structure Addressed (acct : Account B) (card : B.Card) (m : Message) (ep : Text) (plain : Bytes) :
    Prop where
  route : routeName m.recipient.chars = some ep
  flags : m.flags = 0
  sender : recipientHash m.sender.chars = .ok (keyHash card)
  authentic : ∀ now, Authentic acct card now m.body plain

section Runs

variable {t : Platform} {acct : Account B} {card : B.Card}

/-- A query to a key whose card is in the cache. -/
theorem Queried.of_known {target : Str} {payload : Bytes} {tr : Trace B} {r : Result Bytes}
    (hq : Queried t acct target payload tr r) (hk : isKeyTarget target.chars = true)
    (hh : recipientHash target.chars = .ok (keyHash card)) (hknows : ∀ e ∈ tr, KnowsCard card e) :
    ∃ tr', tr = ⟨.cached (keyHash card), some card⟩ :: tr' ∧
      Exchanged t acct none (some card) target payload tr' r := by
  have hmiss : ∀ tr', ¬ ∀ e ∈ (⟨.cached (keyHash card), none⟩ :: tr' : Trace B),
      KnowsCard card e := by
    intro tr' hall
    cases hall _ List.mem_cons_self rfl
  cases hq with
  | noTarget he =>
    rw [he] at hk
    cases hk
  | noHash _ hh' =>
    rw [hh] at hh'
    cases hh'
  | noCard _ hh' hf =>
    obtain rfl := Except.ok.inj (hh.symm.trans hh')
    cases hf with
    | failed => exact absurd hknows (hmiss _)
    | unreadable => exact absurd hknows (hmiss _)
  | server hk' _ =>
    rw [hk] at hk'
    cases hk'
  | @key tr₁ tr₂ card' r h _ hh' hf hx =>
    obtain rfl := Except.ok.inj (hh.symm.trans hh')
    cases hf with
    | cached =>
      obtain rfl := Option.some.inj (hknows _ List.mem_cons_self rfl)
      exact ⟨tr₂, rfl, hx⟩
    | fetched => exact absurd hknows (hmiss _)

/-- A query that can seal its request pushes it, and nothing else. -/
theorem Exchanged.sent {target : Str} {payload : Bytes} {tr : Trace B} {r : Result Bytes}
    (hx : Exchanged t acct none (some card) target payload tr r)
    (hprep : ∀ now seeds, ∃ buf, prepareMessage acct now seeds (some card) payload = .ok buf) :
    ∃ now seeds buf id, prepareMessage acct now seeds (some card) payload = .ok buf ∧
      pushed tr = [request id target buf] := by
  cases hx with
  | @unsealed now seeds e hbody =>
    obtain ⟨buf, hbuf⟩ := hprep now seeds
    rw [hbuf] at hbody
    cases hbody
  | unanswered hbody => exact ⟨_, _, _, _, hbody, rfl⟩
  | @answered now now' seeds buf id obj hbody =>
    refine ⟨now, seeds, buf, id, hbody, ?_⟩
    cases hrefresh : (finishQuery acct now' (some card) obj).refresh <;> rfl

/-- A query that can seal its request has a run in which a given message reaches it. -/
theorem exists_replied {target : Str} {payload buf : Bytes} {now : ℤ} {seeds : Seeds B}
    (hk : isKeyTarget target.chars = true) (hh : recipientHash target.chars = .ok (keyHash card))
    (hbuf : prepareMessage acct now seeds (some card) payload = .ok buf) (id : MessageId)
    (obj : Message) :
    ∃ tr now', QueryRun t acct card target payload tr (finishQuery acct now' (some card) obj).body ∧
      pushed tr = [request id target buf] ∧ ⟨.wait id none, .message obj⟩ ∈ tr := by
  obtain ⟨tr, r, hr, ho⟩ := Prog.exists_run (arrival card now seeds id 0 (.panicked none) obj)
    (query t acct target payload).run
  have hknows : ∀ e ∈ tr, KnowsCard card e := fun e he => knowsCard_arrival (ho e he)
  obtain ⟨tr', rfl, hx⟩ := (queried_of_run hr).of_known hk hh hknows
  have ho' := fun e he => ho e (List.mem_cons_of_mem _ he)
  cases hx with
  | @unsealed now' seeds' e hbody =>
    obtain rfl : now' = now := ho' ⟨.now, now'⟩ (by simp)
    obtain rfl : seeds' = seeds := ho' ⟨.seeds, seeds'⟩ (by simp)
    rw [hbuf] at hbody
    cases hbody
  | @unanswered now' seeds' buf' id' wait e hbody hwait =>
    obtain rfl : wait = .message obj :=
      ho' ⟨.wait id' none, wait⟩ (by simp [sentTrace, request])
    cases hwait
  | @answered now' now'' seeds' buf' id' obj' hbody =>
    obtain rfl : now' = now := ho' ⟨.now, now'⟩ (by simp [sentTrace])
    obtain rfl : seeds' = seeds := ho' ⟨.seeds, seeds'⟩ (by simp [sentTrace])
    obtain rfl : id' = id := ho' ⟨.uuid, id'⟩ (by simp [sentTrace, request])
    have hobj : Wait.message obj' = .message obj :=
      ho' ⟨.wait id' none, .message obj'⟩ (by simp [sentTrace, request])
    obtain rfl := Wait.message.inj hobj
    obtain rfl := Except.ok.inj (hbuf.symm.trans hbody)
    refine ⟨_, now'', ⟨hr, hknows⟩, ?_, by simp [sentTrace, request]⟩
    cases hrefresh : (finishQuery acct now'' (some card) obj').refresh <;> rfl

/-- An authentic message from a sender whose card is in the cache is opened. -/
theorem safe_openRequest_known {msg : Message} {plain : Bytes} {R : Asked (Reply B) → Prop}
    {tr : Trace B} (hflags : msg.flags &&& msgFlagNotBottle = 0)
    (hh : recipientHash msg.sender.chars = .ok (keyHash card))
    (hR : ∀ e, R e → KnowsCard card e) (hauth : ∀ now, Authentic acct card now msg.body plain)
    {P : Trace B → Result (Option B.Card × Message) → Prop}
    (hP : ∀ now, P (tr ++ [⟨.cached (keyHash card), some card⟩, ⟨.now, now⟩])
      (.ok (some card, { msg with body := plain }))) :
    (openRequest t acct msg).run.Safe (fun _ _ => True) R P tr := by
  unfold openRequest
  rw [if_pos hflags, Prog.safe_run_bind, getIdcardForRecipient, Prog.safe_run_bind,
    Prog.safe_run_except, hh]
  refine Prog.safe_run_once_bind (G := fun _ _ => True) (Ask.cached (keyHash card)) trivial
    fun cached hcached => ?_
  obtain rfl : cached = some card := hR _ hcached rfl
  refine Prog.safe_run_once_bind (G := fun _ _ => True) Ask.now trivial fun now _ => ?_
  have hbody := decodeMessage_eq_ok.2 (hauth now)
  have hrefresh : (decodeMessage acct now (some card) msg.body).refresh = false := by
    rw [← Bool.not_eq_true, decodeMessage_refresh]
    exact (hauth now).not_mismatched
  rw [Prog.safe_run_bind]
  refine safe_finish (fun _ _ _ => trivial) ?_
  rw [hbody, hrefresh, if_neg Bool.false_ne_true, List.append_nil, List.append_assoc]
  exact hP now

/-- The response to an encrypted request, if there is one, is sealed and pushed. -/
theorem safe_respond_known {msg : Message} {res : Except Text (Option Bytes)}
    {R : Asked (Reply B) → Prop} {tr : Trace B} (hflags : msg.flags = 0)
    (hprep : ∀ now seeds body, ∃ buf, prepareMessage acct now seeds (some card) body = .ok buf)
    {P : Trace B → Unit → Prop} (hnone : answerOf res = none → P tr ())
    (hsome : ∀ flags body now seeds buf, answerOf res = some (flags, body) →
      prepareMessage acct now seeds (some card) body = .ok buf →
      P (tr ++ [⟨.now, now⟩, ⟨.seeds, seeds⟩,
        ⟨.push { messageId := msg.messageId, flags, recipient := msg.sender, sender := noreply,
                 body := buf }, ()⟩]) ()) :
    (respond acct (some card) msg res).Safe (fun _ _ => True) R P tr := by
  have hclear : msg.flags &&& msgFlagNotBottle = 0 := by rw [hflags]; rfl
  have hrequest : ¬ msg.flags &&& msgFlagResponse = msgFlagResponse := by rw [hflags]; decide
  have hsend : ∀ flags body, answerOf res = some (flags, body) →
      (sendResponse acct (some card) msg flags body).Safe (fun _ _ => True) R P tr := by
    intro flags body hanswer
    unfold sendResponse
    rw [if_pos hclear, Prog.safe_bind]
    refine safe_prepare (fun _ _ _ => trivial) fun now seeds => ?_
    obtain ⟨buf, hbuf⟩ := hprep now seeds body
    rw [hbuf]
    refine ⟨trivial, fun _ _ => ?_⟩
    rw [List.append_assoc]
    exact hsome flags body now seeds buf hanswer hbuf
  unfold respond
  rw [if_neg hrequest]
  cases res with
  | error e => exact hsend _ _ rfl
  | ok body =>
    cases body with
    | none => exact hnone rfl
    | some body => exact hsend _ _ rfl

/-- A message for the handler `f`, from a sender whose card is in the cache, is answered. -/
theorem incoming_served {m : Message} {ep : Text} {f : ℕ} {plain : Bytes} {tr : Trace B}
    (hm : Addressed acct card m ep plain)
    (hprep : ∀ now seeds body, ∃ buf, prepareMessage acct now seeds (some card) body = .ok buf)
    (hrun : ServedRun t acct card m ep f tr) : Answered acct card m f plain tr := by
  suffices hsafe : (incoming t acct).Safe (fun _ _ => True)
      (fun e => Serves m ep f e ∧ KnowsCard card e)
      (fun tr _ => Answered acct card m f plain tr) [] from (hsafe.run hrun.1 hrun.2).1
  refine ⟨trivial, fun msg hmsg => ?_⟩
  obtain rfl : msg = m := hmsg.1
  obtain ⟨hroute, hflags, hh, hauth⟩ := hm
  show (routeMessage t acct msg).Safe _ _ _ _
  unfold routeMessage
  simp only [hroute]
  refine ⟨trivial, fun taken htaken => ?_⟩
  obtain rfl : taken = false := htaken.1 rfl
  refine ⟨trivial, fun h hhandler => ?_⟩
  obtain rfl : h = some (.user f) := hhandler.1 rfl
  show (runHandler t acct msg (.user f)).Safe _ _ _ _
  have hclear : msg.flags &&& msgFlagNotBottle = 0 := by rw [hflags]; rfl
  rw [runHandler, Prog.safe_bind]
  refine safe_openRequest_known hclear hh (fun _ => And.right) hauth fun now => ?_
  show (runOpened t acct (some card) { msg with body := plain } (.user f)).Safe _ _ _ _
  rw [runOpened, Prog.safe_bind]
  refine (Prog.safe_once (q := Ask.handle f _) (G := fun _ _ => True)).2
    ⟨trivial, fun out _ => ?_⟩
  cases hres : out.result t with
  | none =>
    refine ⟨out, rfl, fun res flags body hout _ => ?_⟩
    rw [hout] at hres
    cases hres
  | some res =>
    refine safe_respond_known hflags hprep (fun hno => ?_)
      fun flags body now seeds buf hanswer hbuf => ?_
    · refine ⟨out, rfl, fun res' flags body hout hanswer => ?_⟩
      rw [hout] at hres
      obtain rfl := Option.some.inj hres
      rw [hno] at hanswer
      cases hanswer
    · refine ⟨out, rfl, fun res' flags' body' hout hanswer' => ?_⟩
      rw [hout] at hres
      obtain rfl := Option.some.inj hres
      obtain ⟨rfl, rfl⟩ := Prod.mk.inj (Option.some.inj (hanswer.symm.trans hanswer'))
      exact ⟨now, seeds, buf, hbuf, rfl⟩

/-- There is such a run for every end of the handler. -/
theorem exists_served (t : Platform) (acct : Account B) (card : B.Card) (m : Message) (ep : Text)
    (f : ℕ) (out : Outcome) (seeds : Seeds B) :
    ∃ tr, ServedRun t acct card m ep f tr ∧ ∀ f' m' out', (f', m', out') ∈ handled tr →
      out' = out := by
  obtain ⟨tr, ⟨⟩, hr, ho⟩ := Prog.exists_run (arrival card 0 seeds m.messageId f out m)
    (incoming t acct)
  refine ⟨tr, ⟨hr, fun e he => ⟨serves_arrival (ho e he), knowsCard_arrival (ho e he)⟩⟩, ?_⟩
  intro f' m' out' hmem
  exact ho _ (mem_of_mem_handled hmem)

end Runs

/-- What the query returns when the handler ends with a result, if there is a response. -/
def outcomeOf : Except Text (Option Bytes) → Option (Result Bytes)
  | .ok none => none
  | .ok (some body) => some (.ok body)
  | .error e => some (.error (.remote e))

theorem exists_answerOf {res : Except Text (Option Bytes)} {want : Result Bytes}
    (h : outcomeOf res = some want) : ∃ flags body, answerOf res = some (flags, body) := by
  cases res with
  | error e => exact ⟨_, _, rfl⟩
  | ok body =>
    cases body with
    | none => cases h
    | some body => exact ⟨_, _, rfl⟩

/-- The reply to a query is the result of the handler. -/
theorem finishQuery_answerOf {acct : Account B} {card : B.Card} {now : ℤ} {obj : Message}
    {res : Except Text (Option Bytes)} {body : Bytes} {want : Result Bytes}
    (hanswer : answerOf res = some (obj.flags, body)) (hwant : outcomeOf res = some want)
    (hauth : Authentic acct card now obj.body body) :
    (finishQuery acct now (some card) obj).body = want := by
  have hbody := decodeMessage_eq_ok.2 hauth
  cases res with
  | error e =>
    obtain ⟨hflags, rfl⟩ := Prod.mk.inj (Option.some.inj hanswer)
    obtain rfl := Option.some.inj hwant
    have hclear : obj.flags &&& msgFlagNotBottle = 0 := by rw [← hflags]; decide
    have herror : obj.flags &&& msgFlagError ≠ 0 := by rw [← hflags]; decide
    unfold finishQuery
    rw [if_pos hclear]
    simp only [hbody, conclude]
    rw [if_pos herror, lossy_utf8]
  | ok res =>
    cases res with
    | none => cases hwant
    | some b =>
      obtain ⟨hflags, rfl⟩ := Prod.mk.inj (Option.some.inj hanswer)
      obtain rfl := Option.some.inj hwant
      have hclear : obj.flags &&& msgFlagNotBottle = 0 := by rw [← hflags]; decide
      have herror : ¬ obj.flags &&& msgFlagError ≠ 0 := by rw [← hflags]; decide
      unfold finishQuery
      rw [if_pos hclear]
      simp only [hbody, conclude]
      rw [if_neg herror]

section Exchange

variable {V : Uvarint} {C : Ciborium} {tA : Platform} {acctA acctB : Account B}
  {cardA cardB : B.Card} {target : Str} {payload buf : Bytes} {tr : Trace B} {r : Result Bytes}

/-- A query pushes one request, which arrives at the endpoint that it names. -/
theorem request_arrives (hB : B.Lawful) (hV : V.Lawful) (tB : Platform) (C : Ciborium)
    (hreadyA : acctA.Ready cardA) (hreadyB : acctB.Ready cardB)
    (hdec : ∃ key ∈ B.keys acctB.kc, decryptPurpose ∈ keyPurposes key.1) {ep : Text}
    (hep : '/' ∉ ep) (htarget : target.chars = targetId B cardB.selfKey ++ '/' :: ep)
    (hlen : target.len ≤ 256) (hx : Exchanged tA acctA none (some cardB) target payload tr r) :
    ∃ now seeds buf id, prepareMessage acctA now seeds (some cardB) payload = .ok buf ∧
      pushed tr = [request id target buf] ∧
      ∃ m, carry tB V C (relaySender B cardA.selfKey) (request id target buf) = .ok (.message m) ∧
        m.messageId = id ∧ m.sender.chars = targetId B cardA.selfKey ++ '/' :: uuidString id ∧
        m.sender.len ≤ 256 ∧ Addressed acctB cardA m ep payload := by
  have hseal := prepareMessage_of_ready hB hreadyA hreadyB hdec
  obtain ⟨now, seeds, buf, id, hbuf, hpushed⟩ := hx.sent fun now seeds =>
    (hseal now seeds payload).imp fun _ => And.left
  obtain ⟨buf', hbuf', hauth⟩ := hseal now seeds payload
  obtain rfl : buf = buf' := Except.ok.inj (hbuf.symm.trans hbuf')
  obtain ⟨m, hm, hid, hflags, hrecipient, rfl, hsender, hsenderLen⟩ :=
    @carry_request B tB V hV C cardA.selfKey id target hlen buf
  refine ⟨now, seeds, _, id, hbuf, hpushed, m, hm, hid, hsender, hsenderLen, ?_, hflags, ?_, hauth⟩
  · rw [hrecipient, htarget]
    exact routeName_append slash_notMem_targetId hep
  · rw [hsender]
    exact recipientHash_targetId _

/-- The response to a request arrives, and is what the query that receives it returns; and there is
a run in which it is received. -/
theorem response_arrives (hV : V.Lawful) (hk : isKeyTarget target.chars = true)
    (hh : recipientHash target.chars = .ok (keyHash cardB)) {now : ℤ} {seeds : Seeds B}
    (hbuf : prepareMessage acctA now seeds (some cardB) payload = .ok buf)
    (hx : Exchanged tA acctA none (some cardB) target payload tr r) {m : Message} {selfKey : Bytes}
    (hsender : m.sender.chars = targetId B selfKey ++ '/' :: uuidString m.messageId)
    (hlen : m.sender.len ≤ 256) {res : Except Text (Option Bytes)} {want : Result Bytes}
    {flags : UInt64} {body sealed : Bytes} (hanswer : answerOf res = some (flags, body))
    (hwant : outcomeOf res = some want) (hauth : ∀ now, Authentic acctA cardB now sealed body)
    {rewrite : Str → Str} (hrewrite : (rewrite noreply).len ≤ 256) :
    ∃ m', carry tA V C rewrite
        { messageId := m.messageId, flags, recipient := m.sender, sender := noreply
          body := sealed } = .ok (.message m') ∧
      ReachesQuery tA acctA m.messageId m' ∧
      (⟨.wait m.messageId none, .message m'⟩ ∈ tr → r = want) ∧
      ∃ tr', QueryRun tA acctA cardB target payload tr' want ∧
        pushed tr' = [request m.messageId target buf] ∧
        ⟨.wait m.messageId none, .message m'⟩ ∈ tr' := by
  have hnoreply : noreply.len ≤ 256 := by decide
  obtain ⟨m', hm', rfl, hrecipient, rfl⟩ : ∃ m', carry tA V C rewrite
      { messageId := m.messageId, flags, recipient := m.sender, sender := noreply
        body := sealed } = .ok (.message m') ∧
      m'.flags = flags ∧ m'.recipient = m.sender ∧ m'.body = sealed :=
    ⟨_, carry_eq_ok hV hlen hnoreply hrewrite, rfl, rfl, rfl⟩
  have hresult : ∀ now, (finishQuery acctA now (some cardB) m').body = want :=
    fun now => finishQuery_answerOf hanswer hwant (hauth now)
  refine ⟨m', hm', reachesQuery tA acctA ?_, fun hw => ?_, ?_⟩
  · rw [hrecipient, hsender]
    exact routeName_append slash_notMem_targetId (slash_notMem_uuidString m.messageId)
  · obtain ⟨-, now', -, -, -, -, -, rfl⟩ := hx.of_wait hw
    exact hresult now'
  · obtain ⟨tr', now', hrun', hpushed', hw⟩ := exists_replied hk hh hbuf m.messageId m'
    rw [hresult now'] at hrun'
    exact ⟨tr', hrun', hpushed', hw⟩

end Exchange

/-- Two clients that were built have each other's current card in the cache, and a query of the one
names an endpoint of the other at which a handler is registered and no query waits.  The query
pushes one request, which arrives with the address of its sender; the handler is called once, with
the payload; if it ends with a response or an error, that is pushed as one message, which arrives
and is sent to the query if that still waits; and when it reaches the query, the query returns it.
All of this does happen: there are runs for every end of the handler, and for the response to reach
the query. -/
theorem query_answered (hB : B.Lawful) {V : Uvarint} (hV : V.Lawful) {C : Ciborium}
    {envA envB : BuildEnv B} {bA bB : ClientBuilder B} {a b : Built B}
    (ha : bA.build envA = .ok a) (hb : bB.build envB = .ok b)
    {cardA cardB : B.Card} (hcardA : a.Current C cardA) (hcardB : b.Current C cardB)
    (hdecA : ∃ key ∈ B.keys a.acct.kc, decryptPurpose ∈ keyPurposes key.1)
    (hdecB : ∃ key ∈ B.keys b.acct.kc, decryptPurpose ∈ keyPurposes key.1)
    {ep : Text} (hep : '/' ∉ ep) {target : Str}
    (htarget : target.chars = targetId B cardB.selfKey ++ '/' :: ep) (hlen : target.len ≤ 256)
    {tA tB : Platform} {payload : Bytes} {f : ℕ} {trA : Trace B} {r : Result Bytes}
    (hrunA : QueryRun tA a.acct cardB target payload trA r) :
    ∃ req, pushed trA = [req] ∧
      ∃ m, carry tB V C (relaySender B cardA.selfKey) req = .ok (.message m) ∧
        (∀ out, ∃ trB, ServedRun tB b.acct cardA m ep f trB ∧
          handled trB = [(f, { m with body := payload }, out)]) ∧
        ∀ trB, ServedRun tB b.acct cardA m ep f trB →
          ∃ out, handled trB = [(f, { m with body := payload }, out)] ∧
            ∀ res want, out = .returned res → outcomeOf res = some want →
              ∃ resp, pushed trB = [resp] ∧
                ∀ rewrite : Str → Str, (rewrite resp.sender).len ≤ 256 →
                  ∃ m', carry tA V C rewrite resp = .ok (.message m') ∧
                    ReachesQuery tA a.acct req.messageId m' ∧
                    (⟨.wait req.messageId none, .message m'⟩ ∈ trA → r = want) ∧
                    ∃ trA', QueryRun tA a.acct cardB target payload trA' want ∧
                      pushed trA' = [req] ∧ ⟨.wait req.messageId none, .message m'⟩ ∈ trA' := by
  have hreadyA := hcardA.ready hB ha
  have hreadyB := hcardB.ready hB hb
  have hk : isKeyTarget target.chars = true := by rw [htarget]; rfl
  have hhB : recipientHash target.chars = .ok (keyHash cardB) := by
    rw [htarget]
    exact recipientHash_targetId ep
  obtain ⟨tr, rfl, hx⟩ := (queried_of_run hrunA.1).of_known hk hhB hrunA.2
  obtain ⟨now, seeds, buf, id, hbuf, hpushed, m, hm, rfl, hsender, hsenderLen, haddressed⟩ :=
    request_arrives hB hV tB C hreadyA hreadyB hdecB hep htarget hlen hx
  have hseal := prepareMessage_of_ready hB hreadyB hreadyA hdecA
  have hprep : ∀ now seeds body, ∃ buf,
      prepareMessage b.acct now seeds (some cardA) body = .ok buf :=
    fun now seeds body => (hseal now seeds body).imp fun _ => And.left
  refine ⟨_, hpushed, m, hm, fun out => ?_, fun trB hrunB => ?_⟩
  · obtain ⟨trB, hrunB, hout⟩ := exists_served tB b.acct cardA m ep f out seeds
    obtain ⟨out', hhandled, -⟩ := incoming_served haddressed hprep hrunB
    obtain rfl := hout f _ out' (hhandled ▸ List.mem_cons_self)
    exact ⟨trB, hrunB, hhandled⟩
  obtain ⟨out, hhandled, hresp⟩ := incoming_served haddressed hprep hrunB
  refine ⟨out, hhandled, fun res want hout hwant => ?_⟩
  obtain ⟨flags, body, hanswer⟩ := exists_answerOf hwant
  obtain ⟨now', seeds', sealed, hsealed, hpushedB⟩ := hresp res flags body hout hanswer
  obtain ⟨buf', hbuf', hauthA⟩ := hseal now' seeds' body
  obtain rfl : sealed = buf' := Except.ok.inj (hsealed.symm.trans hbuf')
  refine ⟨_, hpushedB, fun rewrite hrewrite => ?_⟩
  obtain ⟨m', hm', hreaches, hreturns, hruns⟩ :=
    response_arrives hV hk hhB hbuf hx hsender hsenderLen hanswer hwant hauthA hrewrite
  exact ⟨m', hm', hreaches, fun hw => hreturns (List.mem_of_ne_of_mem (by simp) hw), hruns⟩

/-! ### A query to an endpoint -/

def plainEnv : BuildEnv plain := ⟨(), (), 0, 0, 0⟩

/-- A builder with one key. -/
def oneKey (b : UInt8) : ClientBuilder plain := { keys := [Plain.mk .ecdsa b] }

/-- The client that is built from the key `[0, b]`. -/
def plainBuilt (b : UInt8) : Built plain where
  acct :=
    { kc := [Plain.mk .ecdsa b], signerPkix := [0, b], opener := [Plain.mk .ecdsa b]
      signer := Plain.mk .ecdsa b
      signer_eq := by simp [plain, Plain.mk, Plain.toPkix, Plain.publicKey, Plain.kindByte] }
  st :=
    { card :=
        { Plain.cardOf [0, b] 0 with
          subkeys := [{ key := [0, b], issued := 0, expires := none
                        purposes := [signPurpose, decryptPurpose, signPurpose] }]
          metadata := some [] }
      signed := [0, b, 0] }
  handlers := withDefaults ∅

/-- The endpoint `in` of the client of the key `[0, 9]`. -/
def endpointTarget : Str := ⟨targetId plain [0, 9] ++ "/in".toList, by decide +kernel⟩

/-- The reply `[8]` of that client to the client of the key `[0, 5]`. -/
def endpointReply : Message where
  messageId := zeroId
  flags := msgFlagResponse
  recipient := relaySender plain [0, 5] (replyAddress zeroId)
  sender := noreply
  body := Plain.write ⟨some [(0, 5)], [(0, 9)], [8]⟩

def endpointTrace : Trace plain :=
  ⟨.cached hash9, some (plainBuilt 9).st.card⟩ ::
    (sentTrace 0 ⟨(), ()⟩
      (request zeroId endpointTarget (Plain.write ⟨some [(0, 9)], [(0, 5)], [3]⟩)) none
      (.message endpointReply) ++ [⟨.now, 0⟩])

theorem query_answered_endpointTrace :
    ∃ req, pushed endpointTrace = [req] ∧
      ∃ m, carry .wasm leb128 sampleCiborium (relaySender plain [0, 5]) req = .ok (.message m) ∧
        ∃ trB, ServedRun .wasm (plainBuilt 9).acct (plainBuilt 5).st.card m "in".toList 0 trB ∧
          handled trB = [(0, { m with body := [3] }, .returned (.ok (some [8])))] ∧
          ∃ resp, pushed trB = [resp] ∧
            ∃ m', carry .native leb128 sampleCiborium (fun _ => noreply) resp = .ok (.message m') ∧
              ∃ trA, QueryRun .native (plainBuilt 5).acct (plainBuilt 9).st.card endpointTarget [3]
                trA (.ok [8]) ∧ ⟨.wait req.messageId none, .message m'⟩ ∈ trA := by
  have hbuild5 : (oneKey 5).build plainEnv = .ok (plainBuilt 5) := rfl
  have hbuild9 : (oneKey 9).build plainEnv = .ok (plainBuilt 9) := rfl
  have hcurrent5 : (plainBuilt 5).Current sampleCiborium (plainBuilt 5).st.card :=
    ⟨_, .refl, rfl⟩
  have hcurrent9 : (plainBuilt 9).Current sampleCiborium (plainBuilt 9).st.card :=
    ⟨_, .refl, rfl⟩
  have hdec5 : ∃ key ∈ plain.keys (plainBuilt 5).acct.kc, decryptPurpose ∈ keyPurposes key.1 :=
    ⟨_, List.mem_cons_self, by decide⟩
  have hdec9 : ∃ key ∈ plain.keys (plainBuilt 9).acct.kc, decryptPurpose ∈ keyPurposes key.1 :=
    ⟨_, List.mem_cons_self, by decide⟩
  have hrun : (query .native (plainBuilt 5).acct endpointTarget [3]).run.Run endpointTrace
      (.ok [8]) :=
    ⟨_, _, rfl, _, _, rfl, _, _, rfl, _, _, rfl, _, _, rfl, _, _, rfl, _, _, rfl, rfl, rfl⟩
  have hknows : ∀ e ∈ endpointTrace, KnowsCard (plainBuilt 9).st.card e := by
    rintro e he
    simp [endpointTrace, sentTrace] at he
    rcases he with rfl | rfl | rfl | rfl | rfl | rfl | rfl
    · exact fun _ => rfl
    all_goals trivial
  have hep : '/' ∉ "in".toList := by decide
  have hlen : endpointTarget.len ≤ 256 := by decide +kernel
  obtain ⟨req, hpushed, m, hm, hexists, hserved⟩ := query_answered plain_lawful leb128_lawful
    hbuild5 hbuild9 hcurrent5 hcurrent9 hdec5 hdec9 hep rfl hlen ⟨hrun, hknows⟩
  obtain ⟨trB, hrunB, hhandled⟩ := hexists (.returned (.ok (some [8])))
  obtain ⟨out, hhandled', hresp⟩ := hserved trB hrunB
  obtain rfl : Outcome.returned (.ok (some [8])) = out := by
    simpa [hhandled] using hhandled'
  obtain ⟨resp, hpushedB, hback⟩ := hresp _ (.ok [8]) rfl rfl
  have hnoreply : noreply.len ≤ 256 := by decide
  obtain ⟨m', hm', -, -, trA, hrunA, -, hw⟩ := hback (fun _ => noreply) hnoreply
  exact ⟨req, hpushed, m, hm, trB, hrunB, hhandled, resp, hpushedB, m', hm', trA, hrunA, hw⟩

end Spot

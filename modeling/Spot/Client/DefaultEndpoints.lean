import Spot.Client.BuilderCalls
import Spot.Client.Datagram

/-!
# The endpoints that every client has

A client answers under `ping`, `version` and `finger` also if nobody registers a handler there.
`default_answered` follows a query of one client that was built to such an endpoint of another, and
the answer back.
-/

namespace Spot

variable {B : Bottlers}

/-- What a default handler answers, where the trace has the signed card of the client. -/
def DefaultAnswer (payload : Bytes) (tr : Trace B) : Handler → Bytes → Prop
  | .ping, body => body = payload.take 128
  | .version, body => body = utf8 "spotlib-rs/0.1.3".toList
  | .finger, body => ⟨.idBin, body⟩ ∈ tr
  | _, _ => False

/-- The endpoints with a default answer. -/
def AnswersByDefault (ep : Text) (h : Handler) : Prop :=
  defaultHandler ep = some h ∧ h ≠ .idcardUpdate

theorem AnswersByDefault.cases {ep : Text} {h : Handler} (hd : AnswersByDefault ep h) :
    '/' ∉ ep ∧ (utf8 ep).length ≤ 7 ∧ (h = .ping ∨ h = .version ∨ h = .finger) := by
  obtain ⟨hdefault, hnot⟩ := hd
  unfold defaultHandler at hdefault
  split_ifs at hdefault with hping hversion hfinger hupdate
  · exact ⟨by rw [hping]; decide, by rw [hping]; decide, .inl (Option.some.inj hdefault).symm⟩
  · exact ⟨by rw [hversion]; decide, by rw [hversion]; decide,
      .inr (.inl (Option.some.inj hdefault).symm)⟩
  · exact ⟨by rw [hfinger]; decide, by rw [hfinger]; decide,
      .inr (.inr (Option.some.inj hdefault).symm)⟩
  · exact absurd (Option.some.inj hdefault).symm hnot

section Runs

variable {t : Platform} {acct : Account B} {card : B.Card}

/-- One response, with the answer, sealed for the sender of `m`. -/
def RespondsWith (acct : Account B) (card : B.Card) (m : Message) (body : Bytes) (tr : Trace B) :
    Prop :=
  ∃ now seeds buf, prepareMessage acct now seeds (some card) body = .ok buf ∧
    pushed tr = [{ messageId := m.messageId, flags := msgFlagResponse, recipient := m.sender
                   sender := noreply, body := buf }]

theorem safe_respond_body {msg : Message} {body : Bytes} {R : Asked (Reply B) → Prop} {tr : Trace B}
    (hflags : msg.flags = 0)
    (hprep : ∀ now seeds body, ∃ buf, prepareMessage acct now seeds (some card) body = .ok buf)
    {P : Trace B → Prop}
    (hP : ∀ tr', RespondsWith acct card msg body tr' → P (tr ++ tr')) :
    (respond acct (some card) msg (.ok (some body))).Safe (fun _ _ => True) R (fun tr _ => P tr)
      tr := by
  refine safe_respond_known hflags hprep (fun hnone => by cases hnone)
    fun flags body' now seeds buf hanswer hbuf => ?_
  obtain ⟨rfl, rfl⟩ := Prod.mk.inj (Option.some.inj hanswer)
  exact hP _ ⟨now, seeds, buf, hbuf, rfl⟩

/-- A message for a default endpoint is answered. -/
theorem Addressed.answered {m : Message} {ep : Text} {plain : Bytes} {tr : Trace B}
    (hm : Addressed acct card m ep plain)
    (hprep : ∀ now seeds body, ∃ buf, prepareMessage acct now seeds (some card) body = .ok buf)
    {h : Handler} (hh : h = .ping ∨ h = .version ∨ h = .finger)
    (hrun : ReachedRun t acct card m ep h tr) :
    ∃ body, DefaultAnswer plain tr h body ∧ RespondsWith acct card m body tr := by
  refine hm.reached
    (P := fun tr => ∃ body, DefaultAnswer plain tr h body ∧ RespondsWith acct card m body tr)
    (fun now => ?_) hrun
  have hflags : Message.flags { m with body := plain } = 0 := hm.flags
  rcases hh with rfl | rfl | rfl
  · show (respond acct (some card) { m with body := plain } (.ok (some (plain.take 128)))).Safe
      _ _ _ _
    exact safe_respond_body hflags hprep fun tr' hresp => ⟨_, rfl, hresp⟩
  · show (respond acct (some card) { m with body := plain }
      (.ok (some (utf8 "spotlib-rs/0.1.3".toList)))).Safe _ _ _ _
    exact safe_respond_body hflags hprep fun tr' hresp => ⟨_, rfl, hresp⟩
  · refine ⟨trivial, fun signed _ => ?_⟩
    show (respond acct (some card) { m with body := plain } (.ok (some signed))).Safe _ _ _ _
    refine safe_respond_body hflags hprep fun tr' hresp => ⟨signed, ?_, hresp⟩
    exact List.mem_append_left _ (List.mem_append_right _ List.mem_cons_self)

end Runs

/-- Two clients that were built and can decrypt have each other's current card in the cache, and a
query of the one names a default endpoint of the other, at which no query waits.  The query pushes
one request; the default handler's answer to the payload is pushed as one message, which arrives and
is sent to the query if that still waits; and when it reaches the query, the query returns the
answer. -/
theorem default_answered (hB : B.Lawful) {V : Uvarint} (hV : V.Lawful) {C : Ciborium}
    {envA envB : BuildEnv B} {bA bB : ClientBuilder B} {a b : Built B}
    (ha : bA.build envA = .ok a) (hb : bB.build envB = .ok b)
    {cardA cardB : B.Card} (hcardA : a.Current C cardA) (hcardB : b.Current C cardB)
    (hdecA : ∃ key ∈ B.keys a.acct.kc, decryptPurpose ∈ keyPurposes key.1)
    (hdecB : ∃ key ∈ B.keys b.acct.kc, decryptPurpose ∈ keyPurposes key.1)
    {ep : Text} {h : Handler} (hd : AnswersByDefault ep h) {target : Str}
    (htarget : target.chars = localAddr B cardB.selfKey ep)
    {tA tB : Platform} {payload : Bytes} {trA : Trace B} {r : Result Bytes}
    (hrunA : QueryRun tA a.acct cardB target payload trA r) :
    ∃ req, pushed trA = [req] ∧
      ∃ m, carry tB V C (relaySender B cardA.selfKey) req = .ok (.message m) ∧
        (∃ trB, ReachedRun tB b.acct cardA m ep h trB) ∧
        ∀ trB, ReachedRun tB b.acct cardA m ep h trB →
          ∃ body resp, DefaultAnswer payload trB h body ∧ pushed trB = [resp] ∧
            ∀ rewrite : Str → Str, (rewrite resp.sender).len ≤ 256 →
              ∃ m', carry tA V C rewrite resp = .ok (.message m') ∧
                ReachesQuery tA a.acct req.messageId m' ∧
                (⟨.wait req.messageId none, .message m'⟩ ∈ trA → r = .ok body) ∧
                ∃ trA', QueryRun tA a.acct cardB target payload trA' (.ok body) ∧
                  pushed trA' = [req] ∧ ⟨.wait req.messageId none, .message m'⟩ ∈ trA' := by
  obtain ⟨hep, hshort, hcases⟩ := hd.cases
  have hreadyA := hcardA.ready hB ha
  have hreadyB := hcardB.ready hB hb
  have hk : isKeyTarget target.chars = true := by rw [htarget]; rfl
  have hhB : recipientHash target.chars = .ok (keyHash cardB) := by
    rw [htarget]
    exact recipientHash_targetId ep
  have hlen : target.len ≤ 256 := by
    show (utf8 target.chars).length ≤ 256
    rw [htarget, localAddr, utf8_append, List.length_append, length_utf8_targetId]
    have hslash : (utf8 ('/' :: ep)).length = 1 + (utf8 ep).length := by
      rw [← List.singleton_append, utf8_append, List.length_append]
      rfl
    omega
  obtain ⟨tr, rfl, hx⟩ := (queried_of_run hrunA.1).of_known hk hhB hrunA.2
  obtain ⟨now, seeds, buf, id, hbuf, hpushed, m, hm, rfl, hsender, hsenderLen, haddressed⟩ :=
    request_arrives hB hV tB C hreadyA hreadyB hdecB hep htarget hlen hx
  have hseal := prepareMessage_of_ready hB hreadyB hreadyA hdecA
  have hprep : ∀ now seeds body, ∃ buf,
      prepareMessage b.acct now seeds (some cardA) body = .ok buf :=
    fun now seeds body => (hseal now seeds body).imp fun _ => And.left
  refine ⟨_, hpushed, m, hm, exists_reachedRun tB b.acct cardA m ep h seeds, fun trB hrunB => ?_⟩
  obtain ⟨body, hanswer, now', seeds', sealed, hsealed, hpushedB⟩ :=
    haddressed.answered hprep hcases hrunB
  obtain ⟨buf', hbuf', hauthA⟩ := hseal now' seeds' body
  obtain rfl : sealed = buf' := Except.ok.inj (hsealed.symm.trans hbuf')
  refine ⟨body, _, hanswer, hpushedB, fun rewrite hrewrite => ?_⟩
  have hres : answerOf (.ok (some body)) = some (msgFlagResponse, body) := rfl
  obtain ⟨m', hm', hreaches, hreturns, hruns⟩ :=
    response_arrives hV hk hhB hbuf hx hsender hsenderLen hres rfl hauthA hrewrite
  exact ⟨m', hm', hreaches, fun hw => hreturns (List.mem_of_ne_of_mem (by simp) hw), hruns⟩

/-! ### A ping -/

/-- The endpoint `ping` of the client of the key `[0, 9]`. -/
def pingTarget : Str := ⟨targetId plain [0, 9] ++ "/ping".toList, by decide +kernel⟩

/-- A ping that nobody answers. -/
def pingTrace : Trace plain :=
  ⟨.cached hash9, some (plainBuilt 9).st.card⟩ ::
    sentTrace 0 ⟨(), ()⟩
      (request zeroId pingTarget (Plain.write ⟨some [(0, 9)], [(0, 5)], [3]⟩)) none
      (.elapsed true false)

theorem default_answered_pingTrace :
    ∃ req, pushed pingTrace = [req] ∧
      ∃ m, carry .wasm leb128 sampleCiborium (relaySender plain [0, 5]) req = .ok (.message m) ∧
        ∃ trB, ReachedRun .wasm (plainBuilt 9).acct (plainBuilt 5).st.card m "ping".toList
            .ping trB ∧
          ∃ resp, pushed trB = [resp] ∧
            ∃ m', carry .native leb128 sampleCiborium (fun _ => noreply) resp =
                .ok (.message m') ∧
              ∃ trA, QueryRun .native (plainBuilt 5).acct (plainBuilt 9).st.card pingTarget [3]
                trA (.ok [3]) ∧ ⟨.wait req.messageId none, .message m'⟩ ∈ trA := by
  have hbuild5 : (oneKey 5).build plainEnv = .ok (plainBuilt 5) := rfl
  have hbuild9 : (oneKey 9).build plainEnv = .ok (plainBuilt 9) := rfl
  have hcurrent5 : (plainBuilt 5).Current sampleCiborium (plainBuilt 5).st.card :=
    ⟨_, .refl, rfl⟩
  have hcurrent9 : (plainBuilt 9).Current sampleCiborium (plainBuilt 9).st.card :=
    ⟨_, .refl, rfl⟩
  have hdec5 : ∃ key ∈ plain.keys (plainBuilt 5).acct.kc, decryptPurpose ∈ keyPurposes key.1 :=
    ⟨_, List.mem_cons_self, by decide⟩
  have hdec9 : ∃ key ∈ plain.keys (plainBuilt 9).acct.kc, decryptPurpose ∈ keyPurposes key.1 :=
    ⟨_, List.mem_cons_self, by decide⟩
  have hrun : (query .native (plainBuilt 5).acct pingTarget [3]).run.Run pingTrace
      (.error .timeout) :=
    ⟨_, _, rfl, _, _, rfl, _, _, rfl, _, _, rfl, _, _, rfl, _, _, rfl, rfl, rfl⟩
  have hknows : ∀ e ∈ pingTrace, KnowsCard (plainBuilt 9).st.card e := by
    rintro e he
    simp [pingTrace, sentTrace] at he
    rcases he with rfl | rfl | rfl | rfl | rfl | rfl
    · exact fun _ => rfl
    all_goals trivial
  have hping : AnswersByDefault "ping".toList .ping := ⟨rfl, by decide⟩
  obtain ⟨req, hpushed, m, hm, ⟨trB, hrunB⟩, hall⟩ := default_answered plain_lawful
    leb128_lawful hbuild5 hbuild9 hcurrent5 hcurrent9 hdec5 hdec9 hping rfl ⟨hrun, hknows⟩
  obtain ⟨body, resp, rfl, hresp, hback⟩ := hall trB hrunB
  have hnoreply : noreply.len ≤ 256 := by decide
  obtain ⟨m', hm', -, -, trA, hrunA, -, hw⟩ := hback (fun _ => noreply) hnoreply
  exact ⟨req, hpushed, m, hm, trB, hrunB, resp, hresp, m', hm', trA, hrunA, hw⟩

end Spot

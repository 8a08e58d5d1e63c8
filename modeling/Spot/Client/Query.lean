import Spot.Client.State
import Spot.Client.Laws

/-!
# The outcome of a query

`query_authenticated`: the query to a key returns a response, or an error text of the remote side,
only from a reply that is authentic for the card the request was sealed for; the one other error
text that it returns is that of the server in the query for the card.
-/

namespace Spot

variable {B : Bottlers} {t : Platform} {acct : Account B} {target : Str} {payload : Bytes}

/-- The traces and results of `query`. -/
inductive Queried (t : Platform) (acct : Account B) (target : Str) (payload : Bytes) :
    Trace B → Result Bytes → Prop
  | noTarget : target.chars = [] → Queried t acct target payload [] (.error (.invalidTarget []))
  | noHash {e : Error} : isKeyTarget target.chars = true → recipientHash target.chars = .error e →
      Queried t acct target payload [] (.error e)
  | noCard {h : Bytes} {tr : Trace B} {e : Error} : isKeyTarget target.chars = true →
      recipientHash target.chars = .ok h → Found t acct h tr (.error e) →
      Queried t acct target payload tr (.error e)
  | key {tr tr' : Trace B} {card : B.Card} {r : Result Bytes} {h : Bytes} :
      isKeyTarget target.chars = true → recipientHash target.chars = .ok h →
      Found t acct h tr (.ok card) → Exchanged t acct none (some card) target payload tr' r →
      Queried t acct target payload (tr ++ tr') r
  | server {tr : Trace B} {r : Result Bytes} : isKeyTarget target.chars = false →
      Exchanged t acct none none target payload tr r → Queried t acct target payload tr r

theorem safe_query {G : Trace B → Ask B → Prop} {R : Asked (Reply B) → Prop} {tr : Trace B}
    (hG : ∀ tr q, Ask.Quiet q → G tr q)
    (hfind : ∀ h tr' id body, Seals acct none h body →
      G (tr ++ tr') (.push (request id idcardFind body)))
    (hinsert : ∀ h tr' buf card, Exchanged t acct (some h) none idcardFind h tr' (.ok buf) →
      B.fromSigned buf = .ok card → G (tr ++ ⟨.cached h, none⟩ :: tr') (.insert h card))
    (hkey : ∀ tr' id card body, ObtainedFor tr' target card → Seals acct (some card) payload body →
      G (tr ++ tr') (.push (request id target body)))
    (hserver : isKeyTarget target.chars = false → ∀ tr' id body, Seals acct none payload body →
      G (tr ++ tr') (.push (request id target body)))
    {P : Trace B → Result Bytes → Prop}
    (hP : ∀ tr' r, Queried t acct target payload tr' r → P (tr ++ tr') r) :
    (query t acct target payload).run.Safe G R P tr := by
  have hnil : ∀ e : Error, Queried t acct target payload [] (.error e) → P tr (.error e) := by
    intro e he
    have hend := hP [] _ he
    rwa [List.append_nil] at hend
  unfold query
  by_cases htarget : target.chars = []
  · rw [if_pos htarget, Prog.safe_run_throw]
    exact hnil _ (.noTarget htarget)
  rw [if_neg htarget]
  cases hk : isKeyTarget target.chars with
  | false => exact safe_exchange hG (hserver hk) fun tr' r hr => hP tr' r (.server hk hr)
  | true =>
    simp only [if_true, Prog.safe_run_bind]
    refine safe_getIdcardForRecipient hG (fun h _ => hfind h) hinsert
      (fun e he => hnil e (.noHash hk he)) fun h tr' r hh hr => ?_
    cases r with
    | error e => exact hP tr' _ (.noCard hk hh hr)
    | ok card =>
      refine safe_exchange hG (fun tr'' id body hbody => ?_) fun tr'' r hr' => ?_
      · rw [List.append_assoc]
        have hfor : ObtainedFor (tr' ++ tr'') target card :=
          ⟨h, hh, hr.obtained.mono (List.subset_append_left _ _)⟩
        exact hkey _ id card body hfor hbody
      · rw [List.append_assoc]
        exact hP _ r (.key hk hh hr hr')

/-- The runs of a query. -/
theorem queried_of_run {tr : Trace B} {r : Result Bytes}
    (hr : (query t acct target payload).run.Run tr r) : Queried t acct target payload tr r := by
  have hsafe : (query t acct target payload).run.Safe (fun _ _ => True) (fun _ => True)
      (Queried t acct target payload) [] :=
    safe_query (fun _ _ _ => trivial) (fun _ _ _ _ _ => trivial) (fun _ _ _ _ _ _ => trivial)
      (fun _ _ _ _ _ _ => trivial) (fun _ _ _ _ _ => trivial) fun _ _ h => h
  exact (hsafe.run hr fun _ _ => trivial).1

/-! ## What a result says -/

/-- The trace ends with the request sealed for the card of the target, the arrival of `obj` as its
reply, and the reading of the time `now` at which the reply is checked. -/
def RepliedBy (acct : Account B) (card : B.Card) (target : Str) (payload : Bytes) (tr : Trace B)
    (obj : Message) (now : ℤ) : Prop :=
  ∃ tr₁ now₀ seeds body id tr₂, ObtainedFor tr₁ target card ∧
    prepareMessage acct now₀ seeds (some card) payload = .ok body ∧
    tr = tr₁ ++ (sentTrace now₀ seeds (request id target body) none (.message obj) ++
      ⟨.now, now⟩ :: tr₂)

/-- The card of the target was not in the cache, and the server's reply to the query for it is an
error text; the trace is that query, and nothing has been sent to the target. -/
def LookupRefused (acct : Account B) (target : Str) (tr : Trace B) (text : Text) : Prop :=
  ∃ h now₀ seeds body id obj now, recipientHash target.chars = .ok h ∧
    prepareMessage acct now₀ seeds none h = .ok body ∧
    tr = ⟨.cached h, none⟩ :: (sentTrace now₀ seeds (request id idcardFind body) (some h)
      (.message obj) ++ [⟨.now, now⟩]) ∧
    (finishQuery acct now none obj).body = .error (.remote text)

/-- The one message that is sent is the query for the card. -/
theorem LookupRefused.recipient {tr : Trace B} {text : Text}
    (h : LookupRefused acct target tr text) {m : Message} (hm : ⟨.push m, ()⟩ ∈ tr) :
    m.recipient = idcardFind := by
  obtain ⟨h, now₀, seeds, body, id, obj, now, -, -, rfl, -⟩ := h
  simp [sentTrace] at hm
  rw [hm, request]

/-- The query for a card does not empty the cache. -/
theorem finishQuery_none_refresh (now : ℤ) (obj : Message) :
    (finishQuery acct now none obj).refresh = false := by
  have hdecode : (decodeMessage acct now none obj.body).refresh = false := by
    unfold decodeMessage
    split <;> rfl
  unfold finishQuery
  split
  · cases hd : (decodeMessage acct now none obj.body).body <;> simp only [hd, hdecode]
  · rfl

theorem Found.refused {h : Bytes} {tr : Trace B} {text : Text}
    (hr : Found t acct h tr (.error (.remote text))) (hh : recipientHash target.chars = .ok h) :
    LookupRefused acct target tr text := by
  cases hr with
  | @failed tr _ hx =>
    obtain ⟨now, seeds, body, id, obj, now', tr', hbody, rfl, hres⟩ := hx.isReply trivial
    have hw : ⟨.wait id (some h), .message obj⟩ ∈ sentTrace now seeds (request id idcardFind body)
        (some h) (.message obj) ++ ⟨.now, now'⟩ :: tr' :=
      List.mem_append_left _ (by simp [sentTrace, request])
    obtain ⟨now₀, now₁, seeds₀, body₀, id₀, hbody₀, htr, hres₀⟩ := hx.of_wait hw
    rw [finishQuery_none_refresh] at htr
    rw [htr]
    exact ⟨h, now₀, seeds₀, body₀, id₀, obj, now₁, hh, hbody₀, rfl, hres₀.symm⟩

/-- What the message that reaches a query makes of its result. -/
theorem Exchanged.repliedBy {card : B.Card} {tr₁ tr : Trace B} {r : Result Bytes}
    (hx : Exchanged t acct none (some card) target payload tr r)
    (hfor : ObtainedFor tr₁ target card) {id : MessageId} {obj : Message}
    (hw : ⟨.wait id none, .message obj⟩ ∈ tr) :
    ∃ now, RepliedBy acct card target payload (tr₁ ++ tr) obj now ∧
      r = (finishQuery acct now (some card) obj).body ∧
      ((finishQuery acct now (some card) obj).refresh = true →
        ∃ tr', tr = tr' ++ [⟨.refresh, ()⟩]) := by
  obtain ⟨now, now', seeds, body, id', hbody, rfl, rfl⟩ := hx.of_wait hw
  refine ⟨now', ⟨tr₁, now, seeds, body, id', _, hfor, hbody, rfl⟩, rfl, fun hrefresh => ?_⟩
  rw [hrefresh]
  exact ⟨_, List.append_cons ..⟩

/-- Where a response or a remote error of a query to a key comes from. -/
theorem Queried.isReply (hk : isKeyTarget target.chars = true) {tr : Trace B} {r : Result Bytes}
    (hq : Queried t acct target payload tr r) (hreply : IsReply r) :
    (∃ card obj now plain, RepliedBy acct card target payload tr obj now ∧
      obj.flags &&& msgFlagNotBottle = 0 ∧ Authentic acct card now obj.body plain ∧
      Exposes r plain) ∨
    ∃ text, r = .error (.remote text) ∧ LookupRefused acct target tr text := by
  cases hq with
  | noTarget => exact hreply.elim
  | noHash _ hh =>
    obtain rfl := recipientHash_eq_error hh
    exact hreply.elim
  | @noCard h tr e _ hh hf =>
    cases e with
    | remote text => exact .inr ⟨text, rfl, hf.refused hh⟩
    | _ => exact hreply.elim
  | server hk' _ =>
    rw [hk] at hk'
    cases hk'
  | @key tr₁ tr₂ card r h _ hh hf hx =>
    obtain ⟨now, seeds, body, id, obj, now', tr', hbody, rfl, rfl⟩ := hx.isReply hreply
    obtain ⟨hflags, plain, hauth, hexp⟩ := finishQuery_isReply hreply
    have hfor : ObtainedFor tr₁ target card := ⟨h, hh, hf.obtained⟩
    exact .inl ⟨card, obj, now', plain, ⟨tr₁, now, seeds, body, id, tr', hfor, hbody, rfl⟩, hflags,
      hauth, hexp⟩

/-- What the message that reaches a query to a key makes of its result. -/
theorem Queried.repliedBy (hk : isKeyTarget target.chars = true) {tr : Trace B} {r : Result Bytes}
    (hq : Queried t acct target payload tr r) {id : MessageId} {obj : Message}
    (hw : ⟨.wait id none, .message obj⟩ ∈ tr) :
    ∃ card now, RepliedBy acct card target payload tr obj now ∧
      r = (finishQuery acct now (some card) obj).body ∧
      ((finishQuery acct now (some card) obj).refresh = true →
        ∃ tr', tr = tr' ++ [⟨.refresh, ()⟩]) := by
  cases hq with
  | noTarget => cases hw
  | noHash => cases hw
  | noCard _ _ hf => cases hf.wait hw
  | server hk' _ =>
    rw [hk] at hk'
    cases hk'
  | @key tr₁ tr₂ card r h _ hh hf hx =>
    rcases List.mem_append.1 hw with hw | hw
    · cases hf.wait hw
    · obtain ⟨now, hby, hr, hlast⟩ := hx.repliedBy ⟨h, hh, hf.obtained⟩ hw
      refine ⟨card, now, hby, hr, fun hrefresh => ?_⟩
      obtain ⟨tr', rfl⟩ := hlast hrefresh
      exact ⟨tr₁ ++ tr', (List.append_assoc ..).symm⟩

/-- A query to a key returns a response or a remote error only from a reply that has
`msgFlagNotBottle` clear and is authentic for the card of the target, and then exactly what was
opened; or else the server refused to find that card, and only the query for it was sent.  A reply
that is not signed by the owner of the card gives neither, and empties the cache. -/
theorem query_authenticated (hk : isKeyTarget target.chars = true) {tr : Trace B}
    {r : Result Bytes} (hr : (query t acct target payload).run.Run tr r) :
    (IsReply r →
      (∃ card obj now plain, RepliedBy acct card target payload tr obj now ∧
        obj.flags &&& msgFlagNotBottle = 0 ∧ Authentic acct card now obj.body plain ∧
        Exposes r plain) ∨
      ∃ text, r = .error (.remote text) ∧ LookupRefused acct target tr text ∧
        ∀ m, ⟨.push m, ()⟩ ∈ tr → m.recipient = idcardFind) ∧
    ∀ id obj, ⟨.wait id none, .message obj⟩ ∈ tr → ∃ card now,
      RepliedBy acct card target payload tr obj now ∧
      (obj.flags &&& msgFlagNotBottle = 0 → Mismatched acct card now obj.body →
        ¬ IsReply r ∧ ∀ s : Shared B, (s.replay tr).cache = ∅) := by
  have hq := queried_of_run hr
  constructor
  · intro hreply
    rcases hq.isReply hk hreply with hby | ⟨text, htext, hrefused⟩
    · exact .inl hby
    · exact .inr ⟨text, htext, hrefused, fun m hm => hrefused.recipient hm⟩
  intro id obj hw
  obtain ⟨card, now, hby, rfl, hlast⟩ := hq.repliedBy hk hw
  refine ⟨card, now, hby, fun hflags hmis => ?_⟩
  obtain ⟨hrefresh, hno⟩ := finishQuery_mismatched hflags hmis
  obtain ⟨tr', rfl⟩ := hlast hrefresh
  refine ⟨hno, fun s => ?_⟩
  rw [Shared.replay_append]
  rfl

/-! ### A reply, and a refusal -/

open Account

/-- The address `k.AAU`, of the hash `[0, 5]`. -/
def shortTarget : Str := ⟨"k.AAU".toList, by decide⟩

/-- A card that lists one key, for both purposes. -/
def peerCard : plain.Card :=
  { Plain.cardOf [0, 9] 0 with
    subkeys := [{ key := [0, 9], issued := 0, expires := none
                  purposes := [decryptPurpose, signPurpose] }] }

def zeroId : MessageId := List.Vector.replicate 16 0

/-- The payload `[7]`, sealed by the owner of that card for the owner of the key `[0, 5]`. -/
def peerReply : Message :=
  { (default : Message) with body := Plain.write ⟨some [(0, 5)], [(0, 9)], [7]⟩ }

def repliedTrace : Trace plain :=
  ⟨.cached [0, 5], some peerCard⟩ ::
    (sentTrace 0 ⟨(), ()⟩
      (request zeroId shortTarget (Plain.write ⟨some [(0, 9)], [(0, 5)], [3]⟩)) none
      (.message peerReply) ++ [⟨.now, 0⟩])

theorem query_authenticated_repliedTrace :
    ∃ card obj now plain, RepliedBy plainAccount card shortTarget [3] repliedTrace obj now ∧
      obj.flags &&& msgFlagNotBottle = 0 ∧ Authentic plainAccount card now obj.body plain ∧
      Exposes (.ok [7]) plain := by
  have hrun : (query .native plainAccount shortTarget [3]).run.Run repliedTrace (.ok [7]) :=
    ⟨_, _, rfl, _, _, rfl, _, _, rfl, _, _, rfl, _, _, rfl, _, _, rfl, _, _, rfl, rfl, rfl⟩
  rcases (query_authenticated rfl hrun).1 trivial with hreply | ⟨text, htext, -, -⟩
  · exact hreply
  · cases htext

/-- Answers to the programs of a client to which `msg` arrives, when `find` answers the queries for
cards. -/
def outsideAnswers (msg : Message) (find : Bytes → Wait) : (q : Ask plain) → Reply plain q
  | .now => (0 : ℤ)
  | .seeds => ⟨(), ()⟩
  | .uuid => zeroId
  | .cached _ => none
  | .wait _ (some h) => find h
  | .wait _ none => .elapsed true false
  | .receive => msg
  | .takeInQ _ => false
  | .getHandler _ => none
  | .idBin => ([] : Bytes)
  | .handle _ _ => .returned (.ok none)
  | .insert _ _ | .setCache _ _ | .refresh | .push _ | .deliver _ _ _ => ()

/-- The answer of a server that does not know a key. -/
def refusal : Message :=
  { (default : Message) with
    flags := msgFlagError ||| msgFlagNotBottle
    body := utf8 "gone".toList }

def refusedTrace : Trace plain :=
  ⟨.cached [0, 5], none⟩ ::
    (sentTrace 0 ⟨(), ()⟩ (request zeroId idcardFind (Plain.write ⟨none, [(0, 5)], [0, 5]⟩))
      (some [0, 5]) (.message refusal) ++ [⟨.now, 0⟩])

/-- A remote error that no reply to the query itself brought. -/
theorem not_query_authenticated_refusedTrace :
    ¬ ∀ tr r, (query .native plainAccount shortTarget [3]).run.Run tr r → IsReply r →
      ∃ card obj now plain, RepliedBy plainAccount card shortTarget [3] tr obj now ∧
        obj.flags &&& msgFlagNotBottle = 0 ∧ Authentic plainAccount card now obj.body plain ∧
        Exposes r plain := by
  intro hall
  have hrun : (query .native plainAccount shortTarget [3]).run.Run refusedTrace
      (.error (.remote "gone".toList)) :=
    ⟨_, _, rfl, _, _, rfl, _, _, rfl, _, _, rfl, _, _, rfl, _, _, rfl, _, _, rfl, rfl, rfl⟩
  obtain ⟨card, obj, now, plain, ⟨tr₁, now₀, seeds, body, id, tr₂, -, -, htr⟩, -⟩ :=
    hall _ _ hrun trivial
  have hw : ⟨.wait id none, .message obj⟩ ∈ refusedTrace := by
    rw [htr]
    exact List.mem_append_right _ (List.mem_append_left _ (by simp [sentTrace, request]))
  simp [refusedTrace, sentTrace] at hw

end Spot

import Spot.Client.Gate
import Spot.General.Census

/-!
# Clients that answer each other

A network of clients and the messages in flight between them.  The server hands a message in flight
to any client, with the addresses written anew, and the client routes it; what its handlers push
goes in flight again, and the queries for cards go to the server.

`safe_routeMessage` says what processing one message may send, `Net.Bounded` counts the messages
that may still be answered, and `no_storm` draws the conclusion for all runs.
-/

namespace Spot

variable {B : Bottlers}

/-- Whether a message is a response. -/
def Message.isResponse (m : Message) : Bool := m.flags &&& msgFlagResponse == msgFlagResponse

/-- Whether a message is a query for a card. -/
def Message.isLookup (m : Message) : Bool := m.flags == 0 && m.recipient == idcardFind

/-- The messages a question puts in flight. -/
def Ask.emission : Ask B → List Message
  | .push m => if m.isLookup then [] else [m]
  | _ => []

/-- The messages put in flight along a trace. -/
def emissions (tr : Trace B) : List Message := tr.flatMap fun e => e.1.emission

/-- A client of the network. -/
structure Node (B : Bottlers) where
  platform : Platform
  acct : Account B

/-- A message handed to a client, with its processing so far. -/
structure Delivery (B : Bottlers) where
  node : ℕ
  msg : Message
  task : Task (Reply B) Unit

/-- What the threads of each client share, the messages in flight and those handed to clients;
`emitted` lists what was put in flight, with the delivery it came of. -/
structure Net (B : Bottlers) where
  shared : ℕ → Shared B
  flight : List Message
  work : List (Delivery B) := []
  emitted : List (ℕ × Message) := []

/-- What can happen: message `k` in flight is handed to client `i`, or the processing of delivery
`j` goes on. -/
inductive NetEvent (B : Bottlers)
  | deliver (k i : ℕ) (recipient sender : Str)
  | answer (j : ℕ) (o : ∀ q, Reply B q)

namespace Net

/-- Message `m` in flight, at `k`, is handed to the client `n`. -/
def hand (s : Net B) (k i : ℕ) (n : Node B) (msg : Message) : Net B :=
  { s with
    flight := s.flight.eraseIdx k
    work := s.work ++ [⟨i, msg, { prog := routeMessage n.platform n.acct msg }⟩] }

/-- Delivery `j` gets the answer `a` to its question, and goes on as `prog`. -/
def resume (s : Net B) (j : ℕ) (d : Delivery B) (q : Ask B) (a : Reply B q)
    (prog : Action B Unit) : Net B where
  shared := Function.update s.shared d.node ((s.shared d.node).effect q)
  flight := s.flight ++ q.emission
  work := s.work.set j { d with task := ⟨d.task.trace ++ [⟨q, a⟩], prog⟩ }
  emitted := s.emitted ++ q.emission.map (j, ·)

/-- One step. -/
def step (nodes : List (Node B)) (s : Net B) : NetEvent B → Option (Net B)
  | .deliver k i recipient sender =>
    s.flight[k]?.bind fun m => nodes[i]?.map fun n => s.hand k i n { m with recipient, sender }
  | .answer j o =>
    s.work[j]?.bind fun d =>
      match d.task.prog with
      | .ret _ => none
      | .ask q k =>
        let a := (s.shared d.node).answer q (o q)
        some (s.resume j d q a (k a))

end Net

/-- The message is a response to `msg`, marked as an error if and only if the handler failed. -/
structure ResponseTo (msg : Message) (failed : Prop) (resp : Message) : Prop where
  response : resp.isResponse = true
  messageId : resp.messageId = msg.messageId
  recipient : resp.recipient = msg.sender
  notBottle : resp.flags &&& msgFlagNotBottle ≠ 0 ↔ msg.flags &&& msgFlagNotBottle ≠ 0
  error : resp.flags &&& msgFlagError ≠ 0 ↔ failed

/-- The trace so far of processing `msg`: no query waits under its name, a handler is registered
there, the message is opened, unless it is in the clear, and the call of that handler with it ends
with `res`. -/
def Handled (n : Node B) (msg : Message) (tr : Trace B) (res : Except Text (Option Bytes)) :
    Prop :=
  ∃ name h rid m tr₁ tr₂ tr₃ out, routeName msg.recipient.chars = some name ∧
    tr = ⟨.takeInQ name, false⟩ :: ⟨.getHandler name, some h⟩ :: (tr₁ ++ (tr₂ ++ tr₃)) ∧
    (openRequest n.platform n.acct msg).run.Run tr₁ (.ok (rid, m)) ∧ (h.call m).Run tr₂ out ∧
    out.result n.platform = some res

/-- The message is a response to `msg` with the result of the handler it was routed to. -/
def HandlerResponse (n : Node B) (msg : Message) (tr : Trace B) (resp : Message) : Prop :=
  ∃ res, Handled n msg tr res ∧ ResponseTo msg (∃ e, res = .error e) resp

/-- What processing a message may ask after a trace: nothing that puts a message in flight, or one
response to a message that is none itself. -/
def Permits (n : Node B) (msg : Message) (tr : Trace B) (q : Ask B) : Prop :=
  ∀ m ∈ q.emission, msg.isResponse = false ∧ emissions tr = [] ∧ HandlerResponse n msg tr m

/-! ## What processing a message puts in flight -/

theorem emissions_append (tr tr' : Trace B) :
    emissions (tr ++ tr') = emissions tr ++ emissions tr' :=
  List.flatMap_append

theorem emissions_eq_nil {tr : Trace B} : emissions tr = [] ↔ ∀ e ∈ tr, e.1.emission = [] :=
  List.flatMap_eq_nil_iff

theorem emission_of_quiet {q : Ask B} (h : q.Quiet) : q.emission = [] := by
  cases q <;> first | rfl | exact h.elim

theorem emission_push (m : Message) :
    (Ask.push m : Ask B).emission = if m.isLookup then [] else [m] := rfl

section Rules

variable {t : Platform} {acct : Account B} {n : Node B} {msg : Message}
  {R : Asked (Reply B) → Prop} {tr : Trace B}

/-- Opening a message puts nothing in flight, and changes the body only. -/
theorem safe_openRequest_silent :
    (openRequest t acct msg).run.Safe (fun _ q => q.emission = []) R
      (fun _ r => ∀ rid m, r = .ok (rid, m) → ∃ body, m = { msg with body }) tr := by
  refine safe_openRequest (fun _ _ => emission_of_quiet) (fun h _ tr' id body _ => ?_)
    (fun _ _ _ _ _ _ => rfl) ?_ ?_ ?_
  · rw [emission_push, if_pos]
    rfl
  · rintro tr' e rid m ⟨⟩
  · rintro - rid m ⟨⟩
    exact ⟨msg.body, rfl⟩
  · rintro - tr' m card ⟨now, -, -, -, hm⟩ rid m' ⟨⟩
    exact ⟨m.body, hm⟩

/-- A handler puts nothing in flight. -/
theorem safe_call_silent {h : Handler} {m : Message} :
    (h.call m).Safe (fun _ q => q.emission = []) R (fun _ _ => True) tr := by
  cases h with
  | ping | version => exact Prog.safe_pure.2 trivial
  | finger | user f => exact ⟨rfl, fun _ _ => trivial⟩
  | idcardUpdate =>
    show (idcardUpdate m).Safe _ _ _ _
    unfold idcardUpdate
    split
    · trivial
    · split
      · trivial
      · exact ⟨rfl, fun _ _ => trivial⟩
  | packet chan =>
    show (packetHandler chan m).Safe _ _ _ _
    unfold packetHandler
    split
    · trivial
    · exact ⟨rfl, fun _ _ => trivial⟩

theorem Handled.append {res : Except Text (Option Bytes)} (h : Handled n msg tr res)
    (tr' : Trace B) : Handled n msg (tr ++ tr') res := by
  obtain ⟨name, h, rid, m, tr₁, tr₂, tr₃, out, hname, rfl, hopen, hcall, hout⟩ := h
  refine ⟨name, h, rid, m, tr₁, tr₂, tr₃ ++ tr', out, hname, ?_, hopen, hcall, hout⟩
  simp only [List.cons_append, List.append_assoc]

/-- The flags of a response to a message with the flags `w`. -/
theorem response_flags {w flags : UInt64} {failed : Prop}
    (h : flags = msgFlagResponse ∧ ¬ failed ∨
      flags = msgFlagResponse ||| msgFlagError ∧ failed) :
    let f := if w &&& msgFlagNotBottle = 0 then flags else flags ||| msgFlagNotBottle
    f &&& msgFlagResponse = msgFlagResponse ∧
      (f &&& msgFlagNotBottle ≠ 0 ↔ w &&& msgFlagNotBottle ≠ 0) ∧
      (f &&& msgFlagError ≠ 0 ↔ failed) := by
  by_cases hw : w &&& msgFlagNotBottle = 0
  · simp only [if_pos hw]
    rcases h with ⟨rfl, hf⟩ | ⟨rfl, hf⟩
    · exact ⟨by decide, iff_of_false (by decide) (not_not.2 hw), iff_of_false (by decide) hf⟩
    · exact ⟨by decide, iff_of_false (by decide) (not_not.2 hw), iff_of_true (by decide) hf⟩
  · simp only [if_neg hw]
    rcases h with ⟨rfl, hf⟩ | ⟨rfl, hf⟩
    · exact ⟨by decide, iff_of_true (by decide) hw, iff_of_false (by decide) hf⟩
    · exact ⟨by decide, iff_of_true (by decide) hw, iff_of_true (by decide) hf⟩

/-- The response to a message, with the flags for it. -/
theorem responseTo {failed : Prop} {flags : UInt64} {body : Bytes}
    (hflags : flags = msgFlagResponse ∧ ¬ failed ∨
      flags = msgFlagResponse ||| msgFlagError ∧ failed) :
    ResponseTo msg failed
      { messageId := msg.messageId
        flags := if msg.flags &&& msgFlagNotBottle = 0 then flags else flags ||| msgFlagNotBottle
        recipient := msg.sender, sender := noreply, body } := by
  obtain ⟨hresponse, hbottle, herror⟩ := response_flags (w := msg.flags) hflags
  exact ⟨beq_iff_eq.2 hresponse, rfl, rfl, hbottle, herror⟩

/-- A response is no query for a card. -/
theorem ResponseTo.not_isLookup {failed : Prop} {resp : Message}
    (h : ResponseTo msg failed resp) : resp.isLookup = false := by
  have hresp := h.response
  unfold Message.isLookup
  by_contra hl
  rw [Bool.not_eq_false, Bool.and_eq_true, beq_iff_eq] at hl
  rw [Message.isResponse, hl.1] at hresp
  cases hresp

/-- What is pushed in response to a message is permitted, once its handler has been called and
nothing has been put in flight. -/
theorem permits_response {res : Except Text (Option Bytes)} {flags : UInt64} (body : Bytes)
    (hmsg : msg.isResponse = false) (hnone : emissions tr = []) (hres : Handled n msg tr res)
    (hflags : flags = msgFlagResponse ∧ ¬ (∃ e, res = .error e) ∨
      flags = msgFlagResponse ||| msgFlagError ∧ ∃ e, res = .error e) {resp : Message}
    (hresp : resp =
      { messageId := msg.messageId
        flags := if msg.flags &&& msgFlagNotBottle = 0 then flags else flags ||| msgFlagNotBottle
        recipient := msg.sender, sender := noreply, body }) :
    Permits n msg tr (.push resp) := by
  intro m hm
  have hto : ResponseTo msg (∃ e, res = .error e) resp := hresp ▸ responseTo hflags
  rw [emission_push, hto.not_isLookup] at hm
  obtain rfl := List.mem_singleton.1 hm
  exact ⟨hmsg, hnone, res, hres, hto⟩

theorem permits_of_quiet {q : Ask B} (h : q.Quiet) : Permits n msg tr q := by
  intro m hm
  rw [emission_of_quiet h] at hm
  cases hm

theorem safe_sendResponse_permits {rid : Option B.Card} {res : Except Text (Option Bytes)}
    {flags : UInt64} {body bare : Bytes} (hmsg : msg.isResponse = false)
    (hnone : emissions tr = []) (hres : Handled n msg tr res)
    (hflags : flags = msgFlagResponse ∧ ¬ (∃ e, res = .error e) ∨
      flags = msgFlagResponse ||| msgFlagError ∧ ∃ e, res = .error e) :
    (sendResponse n.acct rid { msg with body := bare } flags body).Safe (Permits n msg) R
      (fun _ _ => True) tr := by
  unfold sendResponse
  by_cases hbottle : msg.flags &&& msgFlagNotBottle = 0
  · rw [if_pos hbottle, Prog.safe_bind]
    refine safe_prepare (fun _ _ => permits_of_quiet) fun now seeds => ?_
    cases prepareMessage n.acct now seeds rid body with
    | error e => trivial
    | ok sealed =>
      refine ⟨permits_response sealed hmsg ?_ (hres.append _) hflags ?_, fun _ _ => trivial⟩
      · rw [emissions_append, hnone]
        rfl
      · rw [if_pos hbottle]
  · rw [if_neg hbottle]
    refine ⟨permits_response body hmsg hnone hres hflags ?_, fun _ _ => trivial⟩
    rw [if_neg hbottle]

theorem safe_respond_permits {rid : Option B.Card} {res : Except Text (Option Bytes)}
    {bare : Bytes} (hnone : emissions tr = []) (hres : Handled n msg tr res) :
    (respond n.acct rid { msg with body := bare } res).Safe (Permits n msg) R
      (fun _ _ => True) tr := by
  unfold respond
  split
  · trivial
  · rename_i hresp
    have hmsg : msg.isResponse = false := beq_eq_false_iff_ne.2 hresp
    cases res with
    | error e =>
      exact safe_sendResponse_permits hmsg hnone hres (.inr ⟨rfl, e, rfl⟩)
    | ok body =>
      cases body with
      | none => trivial
      | some body =>
        refine safe_sendResponse_permits hmsg hnone hres (.inl ⟨rfl, ?_⟩)
        rintro ⟨e, ⟨⟩⟩

/-- Running the handler a message is routed to puts at most one message in flight, a response. -/
theorem safe_runHandler_permits {name : Text} {h : Handler}
    (hname : routeName msg.recipient.chars = some name) :
    (runHandler n.platform n.acct msg h).Safe (Permits n msg) R (fun _ _ => True)
      [⟨.takeInQ name, false⟩, ⟨.getHandler name, some h⟩] := by
  rw [runHandler, Prog.safe_bind]
  have silent : ∀ (tr : Trace B) (q : Ask B), q.emission = [] → Permits n msg tr q := by
    intro tr q hq m hm
    rw [hq] at hm
    cases hm
  refine (safe_openRequest_silent.history).mono silent (fun _ => id) ?_
  rintro _ r ⟨hr, tr₁, rfl, hopen, hquiet⟩
  cases r with
  | error e => trivial
  | ok p =>
    obtain ⟨rid, m⟩ := p
    obtain ⟨body, rfl⟩ := hr rid m rfl
    show (runOpened n.platform n.acct rid { msg with body } h).Safe _ _ _ _
    rw [runOpened, Prog.safe_bind]
    refine (safe_call_silent.history).mono silent (fun _ => id) ?_
    rintro _ out ⟨-, tr₂, rfl, hcall, hquiet'⟩
    cases hout : out.result n.platform with
    | none => trivial
    | some res =>
      refine safe_respond_permits ?_
        ⟨name, h, rid, _, tr₁, tr₂, [], out, hname, ?_, hopen, hcall, hout⟩
      · rw [emissions_append, emissions_append, emissions_eq_nil.2 hquiet,
          emissions_eq_nil.2 hquiet']
        rfl
      · rw [List.append_nil, List.append_assoc]
        rfl

/-- Processing a message puts at most one message in flight, a response to it. -/
theorem safe_routeMessage :
    (routeMessage n.platform n.acct msg).Safe (Permits n msg) R (fun _ _ => True) [] := by
  unfold routeMessage
  cases hname : routeName msg.recipient.chars with
  | none => trivial
  | some name =>
    refine ⟨permits_of_quiet trivial, fun taken _ => ?_⟩
    cases taken with
    | true => trivial
    | false =>
      refine ⟨permits_of_quiet trivial, fun h _ => ?_⟩
      cases h with
      | none => trivial
      | some h => exact safe_runHandler_permits hname

end Rules

/-! ## Runs of the network -/

/-- Whether a message may be answered. -/
def Message.isRequest (m : Message) : Bool := !m.isResponse

/-- Whether the processing of a message has put one in flight. -/
def Delivery.spent (d : Delivery B) : Bool := !(emissions d.task.trace).isEmpty

/-- There are at most `n` messages that may be answered, each is answered once at most, and what was
put in flight answers one of them. -/
structure Net.Bounded (nodes : List (Node B)) (n : ℕ) (s : Net B) : Prop where
  requests : s.flight.countP Message.isRequest + s.work.countP (·.msg.isRequest) = n
  spent : s.emitted.length = s.work.countP Delivery.spent
  answers : ∀ d ∈ s.work, d.spent = true → d.msg.isRequest = true
  safe : ∀ d ∈ s.work, ∃ x, nodes[d.node]? = some x ∧
    d.task.prog.Safe (Permits x d.msg) (fun _ => True) (fun _ _ => True) d.task.trace
  emitted : ∀ j resp, (j, resp) ∈ s.emitted → ∃ d x, s.work[j]? = some d ∧
    nodes[d.node]? = some x ∧ HandlerResponse x d.msg d.task.trace resp

section Runs

variable {nodes : List (Node B)} {n : ℕ} {s s' : Net B}

theorem HandlerResponse.append {x : Node B} {msg resp : Message} {tr : Trace B}
    (h : HandlerResponse x msg tr resp) (tr' : Trace B) :
    HandlerResponse x msg (tr ++ tr') resp := by
  obtain ⟨res, hres, hto⟩ := h
  exact ⟨res, hres.append tr', hto⟩

theorem Net.Bounded.hand (h : s.Bounded nodes n) {k i : ℕ} {m msg : Message} {x : Node B}
    (hm : s.flight[k]? = some m) (hx : nodes[i]? = some x)
    (hmsg : msg.isRequest = m.isRequest) : (s.hand k i x msg).Bounded nodes n := by
  constructor
  · have hflight := countP_eraseIdx_add hm Message.isRequest
    let d : Delivery B := ⟨i, msg, { prog := routeMessage x.platform x.acct msg }⟩
    have hshare : share (·.msg.isRequest) d = share Message.isRequest m := by
      rw [share, share, hmsg]
    show (s.flight.eraseIdx k).countP _ + (s.work ++ [_]).countP _ = n
    rw [countP_concat, hshare]
    have hn := h.requests
    omega
  · show s.emitted.length = (s.work ++ [_]).countP _
    rw [countP_concat, h.spent]
    rfl
  · intro d hd hspent
    rcases List.mem_append.1 hd with hd | hd
    · exact h.answers d hd hspent
    · obtain rfl := List.mem_singleton.1 hd
      cases hspent
  · intro d hd
    rcases List.mem_append.1 hd with hd | hd
    · exact h.safe d hd
    · obtain rfl := List.mem_singleton.1 hd
      exact ⟨x, hx, safe_routeMessage⟩
  · intro j resp hresp
    obtain ⟨d, y, hd, hy, hans⟩ := h.emitted j resp hresp
    refine ⟨d, y, ?_, hy, hans⟩
    show (s.work ++ [_])[j]? = some d
    rw [List.getElem?_append_left (List.getElem?_eq_some_iff.1 hd).1, hd]

theorem emissions_concat (tr : Trace B) (q : Ask B) (a : Reply B q) :
    emissions (tr ++ [⟨q, a⟩]) = emissions tr ++ q.emission := by
  rw [emissions_append]
  exact congrArg (emissions tr ++ ·) (List.append_nil _)

/-- A question puts one message in flight, or none. -/
theorem emission_cases (q : Ask B) : q.emission = [] ∨ ∃ m, q.emission = [m] := by
  cases q with
  | push m =>
    rw [emission_push]
    split
    · exact .inl rfl
    · exact .inr ⟨m, rfl⟩
  | _ => exact .inl rfl

/-- One more question of a delivery: it puts nothing in flight, or the first response. -/
theorem spent_resumed {x : Node B} {d : Delivery B} {q : Ask B} (a : Reply B q)
    (p : Action B Unit) (h : Permits x d.msg d.task.trace q) :
    let d' : Delivery B := { d with task := ⟨d.task.trace ++ [⟨q, a⟩], p⟩ }
    q.emission = [] ∧ d'.spent = d.spent ∨
      ∃ m, q.emission = [m] ∧ d.spent = false ∧ d'.spent = true ∧ d.msg.isRequest = true ∧
        m.isRequest = false := by
  intro d'
  have htrace : emissions d'.task.trace = emissions d.task.trace ++ q.emission :=
    emissions_concat ..
  rcases emission_cases q with hnone | ⟨m, hm⟩
  · refine .inl ⟨hnone, ?_⟩
    rw [Delivery.spent, htrace, hnone, List.append_nil, Delivery.spent]
  · obtain ⟨hmsg, hfirst, res, -, hto⟩ := h m (hm ▸ List.mem_cons_self)
    refine .inr ⟨m, hm, ?_, ?_, ?_, ?_⟩
    · rw [Delivery.spent, hfirst]
      rfl
    · rw [Delivery.spent, htrace, hfirst, hm]
      rfl
    · rw [Message.isRequest, hmsg]
      rfl
    · rw [Message.isRequest, hto.response]
      rfl

theorem Net.Bounded.resume (h : s.Bounded nodes n) {j : ℕ} {d : Delivery B} {q : Ask B}
    {a : Reply B q} {k : Reply B q → Action B Unit} (hd : s.work[j]? = some d)
    (hq : d.task.prog = .ask q k) : (s.resume j d q a (k a)).Bounded nodes n := by
  obtain ⟨x, hx, hsafe⟩ := h.safe d (List.mem_of_getElem? hd)
  rw [hq] at hsafe
  obtain ⟨hpermits, hnext⟩ := hsafe
  let d' : Delivery B := { d with task := ⟨d.task.trace ++ [⟨q, a⟩], k a⟩ }
  have hcases := spent_resumed a (k a) hpermits
  have hmem : ∀ e ∈ (s.resume j d q a (k a)).work, e ∈ s.work ∨ e = d' :=
    fun e he => List.mem_or_eq_of_mem_set he
  constructor
  · show (s.flight ++ q.emission).countP _ + (s.work.set j d').countP _ = n
    have hnone : q.emission.countP Message.isRequest = 0 := by
      rcases hcases with ⟨hnone, -⟩ | ⟨m, hm, -, -, -, hres⟩
      · rw [hnone, List.countP_nil]
      · rw [hm, List.countP_singleton, hres]
        rfl
    have hsame := countP_set_of_eq hd (p := (·.msg.isRequest)) (y := d') rfl
    rw [List.countP_append, hnone, Nat.add_zero, hsame]
    exact h.requests
  · show (s.emitted ++ q.emission.map _).length = (s.work.set j d').countP Delivery.spent
    have hadd := countP_set_add hd Delivery.spent d'
    rw [List.length_append, List.length_map, h.spent]
    rcases hcases with ⟨hnone, hsame⟩ | ⟨m, hm, hbefore, hafter, -⟩
    · rw [share, share, hsame] at hadd
      rw [hnone, List.length_nil]
      omega
    · rw [share, share, hbefore, hafter, if_pos rfl, if_neg Bool.false_ne_true] at hadd
      rw [hm, List.length_singleton]
      omega
  · intro e he hspent
    rcases hmem e he with he | rfl
    · exact h.answers e he hspent
    · rcases hcases with ⟨-, hsame⟩ | ⟨m, -, -, -, hmsg, -⟩
      · exact h.answers d (List.mem_of_getElem? hd) (hsame ▸ hspent)
      · exact hmsg
  · intro e he
    rcases hmem e he with he | rfl
    · exact h.safe e he
    · exact ⟨x, hx, hnext a trivial⟩
  · intro i resp hresp
    have hself : (s.resume j d q a (k a)).work[j]? = some d' :=
      List.getElem?_set_self (List.getElem?_eq_some_iff.1 hd).1
    rcases List.mem_append.1 hresp with hresp | hresp
    · obtain ⟨e, y, he, hy, hans⟩ := h.emitted i resp hresp
      by_cases hij : j = i
      · subst hij
        obtain rfl := Option.some.inj (hd.symm.trans he)
        exact ⟨_, y, hself, hy, hans.append _⟩
      · exact ⟨e, y, (List.getElem?_set_ne hij).trans he, hy, hans⟩
    · obtain ⟨m, hm, heq⟩ := List.mem_map.1 hresp
      obtain ⟨rfl, rfl⟩ := Prod.mk.inj heq
      obtain ⟨-, -, hans⟩ := hpermits m hm
      exact ⟨_, x, hself, hx, hans.append _⟩

theorem Net.Bounded.step (h : s.Bounded nodes n) {e : NetEvent B}
    (hs : s.step nodes e = some s') : s'.Bounded nodes n := by
  cases e with
  | deliver k i recipient sender =>
    obtain ⟨m, hm, hs⟩ := Option.bind_eq_some_iff.1 hs
    obtain ⟨x, hx, rfl⟩ := Option.map_eq_some_iff.1 hs
    exact h.hand hm hx rfl
  | answer j o =>
    obtain ⟨d, hd, hs⟩ := Option.bind_eq_some_iff.1 hs
    split at hs
    · cases hs
    · rename_i q k hq
      obtain rfl := Option.some.inj hs
      exact h.resume hd hq

end Runs

/-- In every run of a network, at most as many responses are put in flight as there were messages
that are no responses at the start; and each is a response to a message that was handed to a client,
with the result of the handler that the client has registered for it. -/
theorem no_storm (nodes : List (Node B)) (shared : ℕ → Shared B) (flight : List Message)
    {es : List (NetEvent B)} {s : Net B}
    (hr : run (Net.step nodes) { shared, flight } es = some s) :
    s.emitted.length ≤ flight.countP (fun m => !m.isResponse) ∧
      ∀ j resp, (j, resp) ∈ s.emitted → ∃ d x, s.work[j]? = some d ∧ nodes[d.node]? = some x ∧
        HandlerResponse x d.msg d.task.trace resp := by
  have hstart : Net.Bounded nodes (flight.countP Message.isRequest)
      ({ shared, flight } : Net B) := by
    constructor
    · rfl
    · rfl
    · exact fun d hd => absurd hd List.not_mem_nil
    · exact fun d hd => absurd hd List.not_mem_nil
    · exact fun j resp hresp => absurd hresp List.not_mem_nil
  have hs : s.Bounded nodes (flight.countP Message.isRequest) :=
    run_invariant (fun _ _ _ h hstep => h.step hstep) hstart hr
  refine ⟨?_, hs.emitted⟩
  rw [hs.spent]
  calc s.work.countP Delivery.spent
      ≤ s.work.countP (·.msg.isRequest) := List.countP_mono_left hs.answers
    _ ≤ flight.countP Message.isRequest := hs.requests ▸ Nat.le_add_left _ _

/-! ### Two clients -/

open Account

/-- A ping in the clear, and a response to nothing. -/
def pingFlight : List Message :=
  [{ messageId := List.Vector.replicate 16 7, flags := msgFlagNotBottle
     recipient := ⟨"k.AAU/ping".toList, by decide⟩, sender := ⟨"k.AAY/ping".toList, by decide⟩
     body := [1] },
   { messageId := List.Vector.replicate 16 8, flags := msgFlagNotBottle ||| msgFlagResponse
     recipient := ⟨"k.AAU/ping".toList, by decide⟩, sender := ⟨"k.AAY/ping".toList, by decide⟩
     body := [2] }]

/-- A client whose default handler for pings is registered. -/
def pingShared : Shared plain := { handlers := AList.insert "ping".toList .ping ∅ }

def pingNodes : List (Node plain) := [⟨.native, plainAccount⟩, ⟨.wasm, plainAccount⟩]

/-- The answers of an outside without queries that wait. -/
def idleAnswers : ∀ q : Ask plain, Reply plain q :=
  outsideAnswers default fun _ => .elapsed true false

/-- The ping is handed to one client, whose response comes to an endpoint with the same handler of
the other, and so does the other message. -/
def pingRun : List (NetEvent plain) :=
  [.deliver 0 0 ⟨"k.AAU/ping".toList, by decide⟩ ⟨"k.AAY/ping".toList, by decide⟩,
    .answer 0 idleAnswers, .answer 0 idleAnswers, .answer 0 idleAnswers,
    .deliver 1 1 ⟨"k.AAY/ping".toList, by decide⟩ ⟨"k.AAU/ping".toList, by decide⟩,
    .answer 1 idleAnswers, .answer 1 idleAnswers,
    .deliver 0 0 ⟨"k.AAU/ping".toList, by decide⟩ ⟨"k.AAY/ping".toList, by decide⟩,
    .answer 2 idleAnswers, .answer 2 idleAnswers]

theorem no_storm_pingRun :
    ∃ s, run (Net.step pingNodes) { shared := fun _ => pingShared, flight := pingFlight } pingRun =
        some s ∧ s.flight = [] ∧ s.emitted.length = 1 ∧
      s.emitted.length ≤ pingFlight.countP (fun m => !m.isResponse) := by
  have hr : run (Net.step pingNodes)
      { shared := fun _ => pingShared, flight := pingFlight } pingRun = some _ := rfl
  exact ⟨_, hr, rfl, rfl, (no_storm pingNodes _ pingFlight hr).1⟩

end Spot

import Spot.Client.Query
import Spot.Proto.Rereading

/-!
# What the client enqueues

The functions by which a program sends, `query`, `send_to`, `send_to_with_from` and `send_to` of a
packet connection, and the messages they put into the write queue.  None of them looks at the length
of a name, and the parser at the other end accepts names of at most 256 bytes.  `checked_iff`: in
every run of such a call its messages are accepted, and names that are too long are reported, if and
only if the names of the call are short or it is rejected before its message is enqueued.
-/

namespace Spot

variable {B : Bottlers}

/-- `format!("/{name}")`, if that fits in a string. -/
def endpointPath (name : Text) : Option Str :=
  if h : (utf8 ('/' :: name)).length ≤ isizeMax then some ⟨'/' :: name, h⟩ else none

/-- A call that sends a message; the last one is of the packet connection `name`. -/
inductive ApiCall
  | query (target : Str) (body : Bytes)
  | sendTo (target : Str) (payload : Bytes)
  | sendToWithFrom (target : Str) (payload : Bytes) (sender : Str)
  | packetSendTo (name : Text) (addr : Str) (payload : Bytes)

namespace ApiCall

/-- The program of the call; there is none if its sender does not fit in a string. -/
def program (t : Platform) (acct : Account B) : ApiCall → Option (Action B (Result Unit))
  | query target body => some (Except.map (fun _ => ()) <$> (Spot.query t acct target body).run)
  | sendTo target payload => some (Spot.sendToWithFrom t acct target payload .empty).run
  | sendToWithFrom target payload sender =>
    some (Spot.sendToWithFrom t acct target payload sender).run
  | packetSendTo name addr payload =>
    (endpointPath name).map fun sender => (Spot.sendToWithFrom t acct addr payload sender).run

/-- The address the message of the call goes to. -/
def target : ApiCall → Str
  | query target _ | sendTo target _ | sendToWithFrom target _ _ => target
  | packetSendTo _ addr _ => addr

/-- The endpoint it is sent from, if the caller gives one. -/
def sender : ApiCall → Text
  | query _ _ | sendTo _ _ => []
  | sendToWithFrom _ _ sender => sender.chars
  | packetSendTo name _ _ => '/' :: name

/-- Both names have at most 256 bytes. -/
def ShortNames (c : ApiCall) : Prop := c.target.len ≤ 256 ∧ (utf8 c.sender).length ≤ 256

instance : DecidablePred ShortNames := fun c =>
  inferInstanceAs (Decidable (c.target.len ≤ 256 ∧ (utf8 c.sender).length ≤ 256))

/-- The message is the one that the call is for. -/
def IsFor (c : ApiCall) (req : Message) : Prop := req.recipient = c.target ∧ SentFrom c.sender req

/-- The call gets as far as enqueuing its message. -/
def Enqueues (c : ApiCall) (tr : Trace B) : Prop := ∃ req, ⟨.push req, ()⟩ ∈ tr ∧ c.IsFor req

end ApiCall

/-- The peer's parser gives back the message from its packet. -/
def Accepted (t : Platform) (V : Uvarint) (C : Ciborium) (m : Message) : Prop :=
  ∀ buf isClient, (Packet.message m).encode V C = .ok buf →
    parse t V C buf isClient = .ok (.message m)

/-- All messages that are enqueued are accepted, and a name that is too long is reported instead. -/
def ApiCall.Checked (c : ApiCall) (t : Platform) (V : Uvarint) (C : Ciborium) (tr : Trace B)
    (r : Result Unit) : Prop :=
  (∀ req, ⟨.push req, ()⟩ ∈ tr → Accepted t V C req) ∧
    (¬ c.ShortNames → ¬ c.Enqueues tr ∧ ∃ e, r = .error e)

theorem accepted_iff {t : Platform} {V : Uvarint} (hV : V.Lawful) {C : Ciborium} {m : Message} :
    Accepted t V C m ↔ m.recipient.len ≤ 256 ∧ m.sender.len ≤ 256 := by
  rw [← Message.parse_toBytes_iff t hV]
  constructor
  · intro h
    have hread := h _ true (Packet.encode_message V C m)
    rw [parse_instantMsg] at hread
    exact map_message_inj.1 hread
  · intro h buf isClient hbuf
    rw [Packet.encode_message] at hbuf
    obtain rfl := Except.ok.inj hbuf
    rw [parse_instantMsg, h]
    rfl

/-- The query for a card is always accepted. -/
theorem accepted_find {t : Platform} {V : Uvarint} (hV : V.Lawful) {C : Ciborium} (id : MessageId)
    (body : Bytes) : Accepted t V C (request id idcardFind body) := by
  have hfind : idcardFind.len ≤ 256 := by decide
  exact (accepted_iff hV).2 ⟨hfind, (len_replyAddress id).trans (by decide)⟩

namespace ApiCall

variable {t : Platform} {acct : Account B} {c : ApiCall} {req : Message}

/-- A message of the call is accepted exactly if the names of the call are short. -/
theorem IsFor.accepted_iff {V : Uvarint} (hV : V.Lawful) {C : Ciborium} (h : c.IsFor req) :
    Accepted t V C req ↔ c.ShortNames := by
  obtain ⟨hrcpt, hfrom⟩ := h
  rw [Spot.accepted_iff hV, ShortNames, hrcpt]
  refine and_congr_right fun _ => ?_
  rcases hfrom with ⟨hempty, hreply⟩ | ⟨-, hsender⟩
  · rw [hempty, hreply]
    exact iff_of_true ((len_replyAddress _).trans (by decide)) (Nat.zero_le _)
  · rw [← hsender]
    rfl

/-- What the program of a call may enqueue: queries for cards, and its own message. -/
def MayAsk (c : ApiCall) : Ask B → Prop
  | .push req => (∃ id body, req = request id idcardFind body) ∨ c.IsFor req
  | _ => True

theorem mayAsk_of_quiet {q : Ask B} (hq : q.Quiet) : c.MayAsk q := by
  cases q <;> first | exact trivial | exact hq.elim

theorem safe_query_call {target : Str} {payload : Bytes} {R : Asked (Reply B) → Prop} :
    (Spot.query t acct target payload).run.Safe (fun _ => (query target payload).MayAsk) R
      (fun tr r => ∀ plain, r = .ok plain → (query target payload).Enqueues tr) [] := by
  have hfor : ∀ id body, (query target payload).IsFor (request id target body) :=
    fun id body => ⟨rfl, .inl ⟨rfl, rfl⟩⟩
  refine safe_query (fun _ _ => mayAsk_of_quiet) (fun _ _ id body _ => .inl ⟨id, body, rfl⟩)
    (fun _ _ _ _ _ _ => trivial) (fun _ id _ body _ _ => .inr (hfor id body))
    (fun _ _ id body _ => .inr (hfor id body)) ?_
  rintro tr r hr plain rfl
  -- a response comes after the request
  have hsent : ∀ {rid : Option B.Card} {tr' : Trace B},
      Exchanged t acct none rid target payload tr' (.ok plain) → tr' ⊆ tr →
      (query target payload).Enqueues tr := by
    intro rid tr' hx hsub
    obtain ⟨now, seeds, body, id, obj, now', tr'', -, rfl, -⟩ := hx.isReply trivial
    exact ⟨_, hsub (List.mem_append_left _ (by simp [sentTrace, request])), hfor id body⟩
  cases hr with
  | key _ _ _ hx => exact hsent hx (List.subset_append_right _ _)
  | server _ hx => exact hsent hx (List.Subset.refl _)

theorem safe_send_call {target sender : Str} {payload : Bytes} {R : Asked (Reply B) → Prop}
    (htarget : c.target = target) (hsender : c.sender = sender.chars) :
    (Spot.sendToWithFrom t acct target payload sender).run.Safe (fun _ => c.MayAsk) R
      (fun tr r => r = .ok () → c.Enqueues tr) [] := by
  have hfor : ∀ req : Message, req.recipient = target → SentFrom sender.chars req → c.IsFor req :=
    fun req hrcpt hfrom => ⟨hrcpt.trans htarget.symm, hsender ▸ hfrom⟩
  refine safe_send (fun _ _ => mayAsk_of_quiet) (fun _ _ id body _ => .inl ⟨id, body, rfl⟩)
    (fun _ _ _ _ _ _ => trivial) (fun _ _ req hrcpt hfrom _ _ => .inr (hfor req hrcpt hfrom)) ?_ ?_
  · rintro _ _ ⟨⟩
  · exact fun tr req hrcpt hfrom _ => ⟨req, by simp, hfor req hrcpt hfrom⟩

/-- The program of a call enqueues what it may, and its message before it succeeds. -/
theorem safe_program {p : Action B (Result Unit)} (hp : c.program t acct = some p) :
    p.Safe (fun _ => c.MayAsk) (fun _ => True) (fun tr r => r = .ok () → c.Enqueues tr) [] := by
  cases c with
  | query target body =>
    obtain rfl := Option.some.inj hp
    refine Prog.safe_map.2 (safe_query_call.post fun tr r hr hok => ?_)
    cases r with
    | ok plain => exact hr plain rfl
    | error e => cases hok
  | sendTo target payload =>
    obtain rfl := Option.some.inj hp
    exact safe_send_call rfl rfl
  | sendToWithFrom target payload sender =>
    obtain rfl := Option.some.inj hp
    exact safe_send_call rfl rfl
  | packetSendTo name addr payload =>
    obtain ⟨sender, hsender, rfl⟩ := Option.map_eq_some_iff.1 hp
    refine safe_send_call rfl ?_
    unfold endpointPath at hsender
    split_ifs at hsender
    obtain rfl := Option.some.inj hsender
    rfl

/-- In every run of a call, all its messages are accepted, and names that are too long are reported,
if and only if its names are short when it gets as far as enqueuing its message. -/
theorem checked_iff (t' : Platform) {V : Uvarint} (hV : V.Lawful) (C : Ciborium)
    {p : Action B (Result Unit)} (hp : c.program t acct = some p) {tr : Trace B} {r : Result Unit}
    (hr : p.Run tr r) : c.Checked t' V C tr r ↔ (c.Enqueues tr → c.ShortNames) := by
  have hsafe := safe_program hp
  constructor
  · rintro ⟨haccepted, -⟩ ⟨req, hpush, hfor⟩
    exact (hfor.accepted_iff hV).1 (haccepted req hpush)
  · intro hshort
    refine ⟨fun req hpush => ?_, fun hlong => ?_⟩
    · obtain ⟨id, body, rfl⟩ | hfor := hsafe.asked hr (fun _ _ => trivial) _ hpush
      · exact accepted_find hV id body
      · exact (hfor.accepted_iff hV).2 (hshort ⟨req, hpush, hfor⟩)
    · have hnot : ¬ c.Enqueues tr := fun h => hlong (hshort h)
      cases r with
      | error e => exact ⟨hnot, e, rfl⟩
      | ok u => exact absurd ((hsafe.run hr fun _ _ => trivial).1 rfl) hnot

/-! ### A short name, and a long one -/

open Account

theorem checked_iff_repliedTrace :
    (query shortTarget [3]).Checked .wasm leb128 sampleCiborium repliedTrace (.ok ()) := by
  have hrun : (Except.map (fun _ => ()) <$>
      (Spot.query .native plainAccount shortTarget [3]).run).Run repliedTrace (.ok ()) :=
    ⟨_, _, rfl, _, _, rfl, _, _, rfl, _, _, rfl, _, _, rfl, _, _, rfl, _, _, rfl, rfl, rfl⟩
  exact (checked_iff .wasm leb128_lawful sampleCiborium rfl hrun).2 fun _ => by decide

/-- An address of 302 bytes. -/
def longTarget : Str := ⟨'@' :: '/' :: List.replicate 300 'a', by decide +kernel⟩

/-- The query is sent and never answered. -/
def unansweredTrace : Trace plain :=
  sentTrace 0 ⟨(), ()⟩ (request zeroId longTarget (Plain.write ⟨none, [(0, 5)], []⟩)) none
    (.elapsed true false)

/-- The request to an address that is too long is enqueued. -/
theorem not_checked_longTarget :
    ¬ ∀ (t t' : Platform) (V : Uvarint) (C : Ciborium) (c : ApiCall)
      (p : Action plain (Result Unit)) (tr : Trace plain) (r : Result Unit), V.Lawful →
      c.program t plainAccount = some p → p.Run tr r → c.Checked t' V C tr r := by
  intro hall
  have hrun : (Except.map (fun _ => ()) <$>
      (Spot.query .native plainAccount longTarget []).run).Run unansweredTrace
        (.error .timeout) :=
    ⟨_, _, rfl, _, _, rfl, _, _, rfl, _, _, rfl, _, _, rfl, rfl, rfl⟩
  have haccepted := (hall .native .native leb128 sampleCiborium (.query longTarget []) _ _ _
    leb128_lawful rfl hrun).1 (request zeroId longTarget (Plain.write ⟨none, [(0, 5)], []⟩))
    (by simp [unansweredTrace, sentTrace])
  have hshort : longTarget.len ≤ 256 := ((accepted_iff leb128_lawful).1 haccepted).1
  exact absurd hshort (by decide +kernel)

end ApiCall

end Spot

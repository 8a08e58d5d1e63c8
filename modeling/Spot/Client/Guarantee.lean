import Spot.Client.Handler
import Spot.Client.Query

/-!
# What the programs of a client guarantee

`Allowed` says what may justify, in the trace of one program, each question that matters: a card
goes into the cache because a reply to the query for it brought it, or under its own hash; a sealed
request is sealed for a card of its recipient; a handler is called, and a packet delivered, with
what was authentic for a card of the sender.  `safe_callPrograms` says that all the programs a
client starts keep to it, whatever they are answered.
-/

namespace Spot

variable {B : Bottlers}

/-- A reply to the query for a card brings a card. -/
def Brings (acct : Account B) (obj : Message) (card : B.Card) : Prop :=
  ∃ now buf, (finishQuery acct now none obj).body = .ok buf ∧ B.fromSigned buf = .ok card

/-- The message `m` is a received message, opened. -/
def Received (acct : Account B) (tr : Trace B) (m : Message) : Prop :=
  ∃ msg card, ⟨.receive, msg⟩ ∈ tr ∧ Opened acct tr msg m card

/-- What a program may ask after a trace. -/
def Allowed (acct : Account B) (tr : Trace B) : Ask B → Prop
  | .insert h card => ∃ id obj, ⟨.wait id (some h), .message obj⟩ ∈ tr ∧ Brings acct obj card
  | .setCache h card => h = (B.sha256 card.selfKey).toList
  | .push req => req.flags &&& msgFlagNotBottle = 0 → isKeyTarget req.recipient.chars = true →
    ∃ card payload, ObtainedFor tr req.recipient card ∧ Seals acct (some card) payload req.body
  | .handle _ m => m.isEncrypted = true → Received acct tr m
  | .deliver _ payload sender => ∃ m, Received acct tr m ∧ m.body = payload ∧ m.sender = sender
  | _ => True

/-- What holds of the result of a program: the card is one obtained for the hash or address, and a
response to a query to a key is authentic for such a card. -/
def Ends (acct : Account B) (tr : Trace B) : Done B → Prop
  | .card h r => ∀ card, r = .ok card → Obtained tr h card
  | .cardFor rcv r => ∀ card, r = .ok card → ObtainedFor tr rcv card
  | .reply target r => ∀ plain, isKeyTarget target.chars = true → r = .ok plain →
    ∃ card obj now, ObtainedFor tr target card ∧ Authentic acct card now obj.body plain ∧
      ∃ id, ⟨.wait id none, .message obj⟩ ∈ tr
  | .sent _ | .routed => True

section Rules

variable {t : Platform} {acct : Account B} {R : Asked (Reply B) → Prop} {tr : Trace B}

theorem Message.isEncrypted_iff {m : Message} :
    m.isEncrypted = true ↔ m.flags &&& msgFlagNotBottle = 0 := beq_iff_eq

theorem allowed_of_quiet (tr : Trace B) (q : Ask B) (hq : q.Quiet) : Allowed acct tr q := by
  cases q <;> first | exact trivial | exact hq.elim

theorem allowed_find (tr : Trace B) (id : MessageId) (body : Bytes) :
    Allowed acct tr (.push (request id idcardFind body)) := by
  intro _ hk
  cases hk

theorem allowed_insert {h : Bytes} {tr' : Trace B} {buf : Bytes} {card : B.Card}
    (hx : Exchanged t acct (some h) none idcardFind h tr' (.ok buf))
    (hcard : B.fromSigned buf = .ok card) :
    Allowed acct (tr ++ ⟨.cached h, none⟩ :: tr') (.insert h card) := by
  obtain ⟨now, seeds, body, id, obj, now', tr'', hbody, rfl, hres⟩ := hx.isReply trivial
  refine ⟨id, obj, ?_, now', buf, hres.symm, hcard⟩
  exact List.mem_append_right _ (List.mem_cons_of_mem _
    (List.mem_append_left _ (by simp [sentTrace, request])))

theorem safe_getIdcard_ends (h : Bytes) :
    (getIdcard t acct h).run.Safe (Allowed acct) R (fun tr r => Ends acct tr (.card h r)) tr := by
  refine safe_getIdcard allowed_of_quiet (fun tr' id body _ => allowed_find _ id body)
    (fun tr' buf card => allowed_insert) fun tr' r hr => ?_
  rintro card rfl
  exact hr.obtained.mono (List.subset_append_right _ _)

theorem safe_getIdcardForRecipient_ends (rcv : Str) :
    (getIdcardForRecipient t acct rcv).run.Safe (Allowed acct) R
      (fun tr r => Ends acct tr (.cardFor rcv r)) tr := by
  refine safe_getIdcardForRecipient allowed_of_quiet
    (fun _ _ tr' id body _ => allowed_find _ id body) (fun _ tr' buf card => allowed_insert)
    (fun e _ => ?_) fun h tr' r hh hr => ?_
  · rintro card ⟨⟩
  · rintro card rfl
    exact ⟨h, hh, hr.obtained.mono (List.subset_append_right _ _)⟩

theorem safe_query_ends (target : Str) (body : Bytes) :
    (query t acct target body).run.Safe (Allowed acct) R
      (fun tr r => Ends acct tr (.reply target r)) tr := by
  refine safe_query allowed_of_quiet (fun _ tr' id body _ => allowed_find _ id body)
    (fun _ tr' buf card => allowed_insert) (fun tr' id card body hfor hbody => ?_)
    (fun hk tr' id body _ => ?_) fun tr' r hr => ?_
  · intro _ _
    exact ⟨card, _, hfor.mono (List.subset_append_right _ _), hbody⟩
  · intro _ hk'
    exact absurd (hk.symm.trans hk') Bool.false_ne_true
  · rintro plain hk rfl
    rcases hr.isReply hk trivial with ⟨card, obj, now, plain', hby, -, hauth, hexp⟩ | ⟨_, hr, -⟩
    · obtain ⟨tr₁, now₀, seeds, body, id, tr₂, hfor, -, rfl⟩ := hby
      obtain rfl : plain = plain' := by
        rcases hexp with h | h
        · exact Except.ok.inj h
        · cases h
      refine ⟨card, obj, now, hfor.mono ?_, hauth, id, ?_⟩
      · exact List.subset_append_of_subset_right _ (List.subset_append_left _ _)
      · simp [sentTrace, request]
    · cases hr

theorem safe_sendToWithFrom (target : Str) (payload : Bytes) (sender : Str) :
    (sendToWithFrom t acct target payload sender).run.Safe (Allowed acct) R
      (fun _ _ => True) tr := by
  refine safe_send allowed_of_quiet (fun _ tr' id body _ => allowed_find _ id body)
    (fun _ tr' buf card => allowed_insert) (fun tr' card req hrcpt _ hfor hbody => ?_)
    (fun _ _ => trivial) fun _ _ _ _ => trivial
  intro _ _
  rw [hrcpt]
  exact ⟨card, payload, hfor.mono (List.subset_append_right _ _), hbody⟩

/-! ## Incoming messages -/

theorem Received.mono {tr' : Trace B} {m : Message} (h : Received acct tr m) (hsub : tr ⊆ tr') :
    Received acct tr' m := by
  obtain ⟨msg, card, hmsg, now, hnow, hfor, hauth⟩ := h
  exact ⟨msg, card, hsub hmsg, now, hsub hnow, hfor.mono hsub, hauth⟩

theorem safe_call {h : Handler} {m : Message} (hm : m.isEncrypted = true → Received acct tr m)
    {P : Trace B → Outcome → Prop} (hP : ∀ tr' out, P (tr ++ tr') out) :
    (h.call m).Safe (Allowed acct) R P tr := by
  have hnil : ∀ out, (pure out : Action B Outcome).Safe (Allowed acct) R P tr := by
    intro out
    have hend := hP [] out
    rw [List.append_nil] at hend
    exact Prog.safe_pure.2 hend
  cases h with
  | ping => exact hnil _
  | version => exact hnil _
  | finger => exact ⟨trivial, fun _ _ => hP _ _⟩
  | idcardUpdate =>
    show (idcardUpdate m).Safe _ _ _ _
    unfold idcardUpdate
    split
    · exact hnil _
    · split
      · exact hnil _
      · exact ⟨rfl, fun _ _ => hP _ _⟩
  | packet chan =>
    show (packetHandler chan m).Safe _ _ _ _
    unfold packetHandler
    cases hencrypted : m.isEncrypted with
    | false => exact hnil _
    | true => exact ⟨⟨m, hm hencrypted, rfl, rfl⟩, fun _ _ => hP _ _⟩
  | user f => exact ⟨hm, fun _ _ => hP _ _⟩

theorem safe_runOpened {rid : Option B.Card} {m : Message} {h : Handler}
    (hm : m.isEncrypted = true → Received acct tr m)
    (hresp : ∀ tr' resp, Responds acct rid m resp → Allowed acct (tr ++ tr') (.push resp)) :
    (runOpened t acct rid m h).Safe (Allowed acct) R (fun _ _ => True) tr := by
  rw [runOpened, Prog.safe_bind]
  refine safe_call hm fun tr' out => ?_
  cases out.result t with
  | none => trivial
  | some res =>
    refine safe_respond allowed_of_quiet (fun tr'' resp hr => ?_) fun _ => trivial
    rw [List.append_assoc]
    exact hresp _ resp hr

theorem safe_runHandler {msg : Message} {h : Handler} (hmsg : ⟨.receive, msg⟩ ∈ tr) :
    (runHandler t acct msg h).Safe (Allowed acct) R (fun _ _ => True) tr := by
  rw [runHandler, Prog.safe_bind]
  refine safe_openRequest allowed_of_quiet (fun _ _ tr' id body _ => allowed_find _ id body)
    (fun _ tr' buf card => allowed_insert) (fun _ _ => trivial) (fun hclear => ?_)
    fun hflags tr' m card hopened => ?_
  · refine safe_runOpened (fun henc => absurd (Message.isEncrypted_iff.1 henc) hclear)
      fun tr' resp hr hnb => ?_
    have hset := hr.2
    rw [if_neg hclear] at hset
    exact absurd hnb hset
  · refine safe_runOpened (fun _ => ?_) fun tr'' resp hr _ _ => ?_
    · exact ⟨msg, card, List.mem_append_left _ hmsg, hopened⟩
    · obtain ⟨now, hnow, hfor, hauth, hm⟩ := hopened
      obtain ⟨hrcpt, hseal⟩ := hr
      rw [hm] at hrcpt hseal
      rw [if_pos hflags] at hseal
      obtain ⟨-, body, hbody⟩ := hseal
      refine ⟨card, body, ?_, hbody⟩
      rw [hrcpt]
      exact hfor.mono (List.subset_append_left _ _)

theorem safe_incoming : (incoming t acct).Safe (Allowed acct) R (fun _ _ => True) tr := by
  refine ⟨trivial, fun msg _ => ?_⟩
  show (routeMessage t acct msg).Safe _ _ _ _
  unfold routeMessage
  cases routeName msg.recipient.chars with
  | none => trivial
  | some name =>
    refine ⟨trivial, fun taken _ => ?_⟩
    cases taken with
    | true => trivial
    | false =>
      refine ⟨trivial, fun h _ => ?_⟩
      cases h with
      | none => trivial
      | some h => exact safe_runHandler (by simp)

/-- Every program that a client starts asks what is allowed, and ends as it should. -/
theorem safe_callPrograms (c : Call) :
    ∀ p ∈ callPrograms t acct c, p.Safe (Allowed acct) R (Ends acct) [] := by
  cases c with
  | getIdcard h => exact List.forall_mem_singleton.2 (Prog.safe_map.2 (safe_getIdcard_ends h))
  | getIdcardForRecipient rcv =>
    exact List.forall_mem_singleton.2 (Prog.safe_map.2 (safe_getIdcardForRecipient_ends rcv))
  | query target body =>
    exact List.forall_mem_singleton.2 (Prog.safe_map.2 (safe_query_ends target body))
  | sendTo target payload sender =>
    exact List.forall_mem_singleton.2
      (Prog.safe_map.2 (safe_sendToWithFrom target payload sender))
  | incoming => exact List.forall_mem_singleton.2 (Prog.safe_map.2 safe_incoming)
  | _ => exact List.forall_mem_nil _

end Rules

end Spot

import Spot.Client.Inner

/-!
# The traces of queries

What a query for a card (`Exchanged`, `Found`) asks and how it ends, in the order of the events.
The rules `safe_exchange` and `safe_getIdcard` reduce the safety of a program that makes such a
query to that of what it pushes and inserts, and to what follows.
-/

namespace Spot

variable {B : Bottlers}

/-- A trace of a program of the client. -/
abbrev Trace (B : Bottlers) : Type := List (Asked (Reply B))

/-- The questions that neither change the cache nor send anything. -/
def Ask.Quiet : Ask B → Prop
  | .insert _ _ | .setCache _ _ | .push _ | .handle _ _ | .deliver _ _ _ => False
  | _ => True

/-- The bytes are a body that `prepareMessage` makes of the payload. -/
def Seals (acct : Account B) (rid : Option B.Card) (payload buf : Bytes) : Prop :=
  ∃ now seeds, prepareMessage acct now seeds rid payload = .ok buf

/-- The request that a query pushes. -/
def request (id : MessageId) (target : Str) (body : Bytes) : Message :=
  { messageId := id, flags := 0, recipient := target, sender := replyAddress id, body }

/-- The message is sent from `sender`, or from a reply address of its own where that is empty. -/
def SentFrom (sender : Text) (req : Message) : Prop :=
  sender = [] ∧ req.sender = replyAddress req.messageId ∨ sender ≠ [] ∧ req.sender.chars = sender

/-- The trace of a query up to the end of its wait. -/
def sentTrace (now : ℤ) (seeds : Seeds B) (req : Message) (find : Option Bytes) (wait : Wait) :
    Trace B :=
  [⟨.now, now⟩, ⟨.seeds, seeds⟩, ⟨.uuid, req.messageId⟩, ⟨.push req, ()⟩,
    ⟨.wait req.messageId find, wait⟩]

/-- The traces and results of `exchange`. -/
inductive Exchanged (t : Platform) (acct : Account B) (find : Option Bytes) (rid : Option B.Card)
    (target : Str) (payload : Bytes) : Trace B → Result Bytes → Prop
  | unsealed {now : ℤ} {seeds : Seeds B} {e : Error} :
    prepareMessage acct now seeds rid payload = .error e →
      Exchanged t acct find rid target payload [⟨.now, now⟩, ⟨.seeds, seeds⟩] (.error e)
  | unanswered {now : ℤ} {seeds : Seeds B} {body : Bytes} {id : MessageId} {wait : Wait}
      {e : Error} :
    prepareMessage acct now seeds rid payload = .ok body → wait.result t = .error e →
      Exchanged t acct find rid target payload
        (sentTrace now seeds (request id target body) find wait) (.error e)
  | answered {now now' : ℤ} {seeds : Seeds B} {body : Bytes} {id : MessageId} {obj : Message} :
    prepareMessage acct now seeds rid payload = .ok body →
      Exchanged t acct find rid target payload
        (sentTrace now seeds (request id target body) find (.message obj) ++ ⟨.now, now'⟩ ::
          if (finishQuery acct now' rid obj).refresh then [⟨.refresh, ()⟩] else [])
        (finishQuery acct now' rid obj).body

/-- The traces and results of `getIdcard`. -/
inductive Found (t : Platform) (acct : Account B) (h : Bytes) : Trace B → Result B.Card → Prop
  | cached {card : B.Card} : Found t acct h [⟨.cached h, some card⟩] (.ok card)
  | failed {tr : Trace B} {e : Error} : Exchanged t acct (some h) none idcardFind h tr (.error e) →
      Found t acct h (⟨.cached h, none⟩ :: tr) (.error e)
  | unreadable {tr : Trace B} {buf : Bytes} {e : Text} :
    Exchanged t acct (some h) none idcardFind h tr (.ok buf) → B.fromSigned buf = .error e →
      Found t acct h (⟨.cached h, none⟩ :: tr) (.error (.bottle e))
  | fetched {tr : Trace B} {buf : Bytes} {card : B.Card} :
    Exchanged t acct (some h) none idcardFind h tr (.ok buf) → B.fromSigned buf = .ok card →
      Found t acct h (⟨.cached h, none⟩ :: (tr ++ [⟨.insert h card, ()⟩])) (.ok card)

/-- The card was found in the cache under `h`, or looked up and put there. -/
def Obtained (tr : Trace B) (h : Bytes) (card : B.Card) : Prop :=
  ⟨.cached h, some card⟩ ∈ tr ∨ ⟨.insert h card, ()⟩ ∈ tr

/-- The card was obtained for the owner of an address. -/
def ObtainedFor (tr : Trace B) (rcv : Str) (card : B.Card) : Prop :=
  ∃ h, recipientHash rcv.chars = .ok h ∧ Obtained tr h card

theorem Obtained.mono {tr tr' : Trace B} {h : Bytes} {card : B.Card} (ho : Obtained tr h card)
    (hsub : tr ⊆ tr') : Obtained tr' h card :=
  ho.imp (fun hm => hsub hm) fun hm => hsub hm

theorem ObtainedFor.mono {tr tr' : Trace B} {rcv : Str} {card : B.Card}
    (ho : ObtainedFor tr rcv card) (hsub : tr ⊆ tr') : ObtainedFor tr' rcv card := by
  obtain ⟨h, hh, ho⟩ := ho
  exact ⟨h, hh, ho.mono hsub⟩

theorem Wait.result_eq_ok {t : Platform} {wait : Wait} {obj : Message}
    (h : wait.result t = .ok obj) : wait = .message obj := by
  cases wait with
  | message msg => exact congrArg Wait.message (Except.ok.inj h)
  | elapsed begun closed => cases t <;> cases begun <;> cases closed <;> cases h
  | disconnected closed => cases t <;> cases closed <;> cases h

theorem Wait.not_isReply_result {t : Platform} {wait : Wait} {e : Error}
    (h : wait.result t = .error e) : ¬ IsReply (.error e) := by
  cases wait with
  | message msg => cases h
  | elapsed begun closed => cases t <;> cases begun <;> cases closed <;> cases h <;> exact id
  | disconnected closed => cases t <;> cases closed <;> cases h <;> exact id

theorem not_isReply_prepareMessage {acct : Account B} {now : ℤ} {seeds : Seeds B}
    {rid : Option B.Card} {payload : Bytes} {e : Error}
    (h : prepareMessage acct now seeds rid payload = .error e) : ¬ IsReply (.error e) := by
  obtain ⟨text, rfl⟩ := prepareMessage_eq_error h
  exact id

section Ends

variable {t : Platform} {acct : Account B} {find : Option Bytes} {rid : Option B.Card}
  {target : Str} {payload h : Bytes} {tr : Trace B}

/-- A query waits for a reply to itself only. -/
theorem Exchanged.wait {r : Result Bytes} (hr : Exchanged t acct find rid target payload tr r)
    {id : MessageId} {find' : Option Bytes} {wait : Wait}
    (hw : ⟨.wait id find', wait⟩ ∈ tr) : find' = find := by
  cases hr with
  | unsealed => simp at hw
  | unanswered =>
    simp [sentTrace] at hw
    exact hw.1.2
  | @answered now now' seeds body id' obj hbody =>
    rcases List.mem_append.1 hw with hw | hw
    · simp [sentTrace] at hw
      exact hw.1.2
    · cases hrefresh : (finishQuery acct now' rid obj).refresh <;> simp [hrefresh] at hw

/-- What a query comes to that a message reaches. -/
theorem Exchanged.of_wait {r : Result Bytes} (hr : Exchanged t acct find rid target payload tr r)
    {id : MessageId} {find' : Option Bytes} {obj : Message}
    (hw : ⟨.wait id find', .message obj⟩ ∈ tr) :
    ∃ now now' seeds body id', prepareMessage acct now seeds rid payload = .ok body ∧
      tr = sentTrace now seeds (request id' target body) find (.message obj) ++ ⟨.now, now'⟩ ::
        (if (finishQuery acct now' rid obj).refresh then [⟨.refresh, ()⟩] else []) ∧
      r = (finishQuery acct now' rid obj).body := by
  cases hr with
  | unsealed => simp at hw
  | unanswered _ hwait =>
    simp [sentTrace] at hw
    obtain ⟨-, rfl⟩ := hw
    cases hwait
  | @answered now now' seeds body id' obj' hbody =>
    obtain rfl : obj = obj' := by
      rcases List.mem_append.1 hw with hw | hw
      · simp [sentTrace] at hw
        exact hw.2
      · cases hrefresh : (finishQuery acct now' rid obj').refresh <;> simp [hrefresh] at hw
    exact ⟨now, now', seeds, body, id', hbody, rfl, rfl⟩

/-- A response or a remote error is what the message made of it that the query received. -/
theorem Exchanged.isReply {r : Result Bytes}
    (hr : Exchanged t acct find rid target payload tr r) (hreply : IsReply r) :
    ∃ now seeds body id obj now' tr', prepareMessage acct now seeds rid payload = .ok body ∧
      tr = sentTrace now seeds (request id target body) find (.message obj) ++ ⟨.now, now'⟩ :: tr' ∧
      r = (finishQuery acct now' rid obj).body := by
  cases hr with
  | unsealed hbody => exact absurd hreply (not_isReply_prepareMessage hbody)
  | unanswered _ hwait => exact absurd hreply (Wait.not_isReply_result hwait)
  | answered hbody => exact ⟨_, _, _, _, _, _, _, hbody, rfl, rfl⟩

theorem Found.obtained {card : B.Card} (hr : Found t acct h tr (.ok card)) :
    Obtained tr h card := by
  cases hr with
  | cached => exact .inl List.mem_cons_self
  | fetched => exact .inr (by simp)

theorem Found.wait {r : Result B.Card} (hr : Found t acct h tr r) {id : MessageId}
    {find : Option Bytes} {wait : Wait} (hw : ⟨.wait id find, wait⟩ ∈ tr) : find = some h := by
  cases hr with
  | cached => simp at hw
  | failed hx => exact hx.wait (List.mem_of_ne_of_mem (by simp) hw)
  | unreadable hx _ => exact hx.wait (List.mem_of_ne_of_mem (by simp) hw)
  | fetched hx _ =>
    have hmem := List.mem_of_ne_of_mem (by simp) hw
    rcases List.mem_append.1 hmem with hmem | hmem
    · exact hx.wait hmem
    · simp at hmem

end Ends

section Rules

variable {t : Platform} {acct : Account B} {find : Option Bytes} {rid : Option B.Card}
  {target : Str} {payload h : Bytes} {G : Trace B → Ask B → Prop} {R : Asked (Reply B) → Prop}
  {tr : Trace B}

/-! ## Rules -/

theorem safe_prepare (hG : ∀ tr q, Ask.Quiet q → G tr q) {P : Trace B → Result Bytes → Prop}
    (hP : ∀ now seeds, P (tr ++ [⟨.now, now⟩, ⟨.seeds, seeds⟩])
      (prepareMessage acct now seeds rid payload)) :
    (prepare acct rid payload).run.Safe G R P tr := by
  refine Prog.safe_run_once_bind Ask.now (hG _ _ trivial) fun now _ => ?_
  refine Prog.safe_run_once_bind Ask.seeds (hG _ _ trivial) fun seeds _ => ?_
  rw [List.append_assoc]
  exact hP now seeds

theorem safe_finish (hG : ∀ tr q, Ask.Quiet q → G tr q) {d : Decoded}
    {P : Trace B → Result Bytes → Prop}
    (hP : P (tr ++ if d.refresh then [⟨.refresh, ()⟩] else []) d.body) :
    (d.finish (B := B)).run.Safe G R P tr := by
  unfold Decoded.finish
  cases hd : d.refresh with
  | false =>
    rw [hd] at hP
    simpa using hP
  | true =>
    rw [hd] at hP
    exact Prog.safe_run_once_bind Ask.refresh (hG _ _ trivial) fun _ _ => hP

theorem safe_exchange (hG : ∀ tr q, Ask.Quiet q → G tr q)
    (hpush : ∀ tr' id body, Seals acct rid payload body →
      G (tr ++ tr') (.push (request id target body)))
    {P : Trace B → Result Bytes → Prop}
    (hP : ∀ tr' r, Exchanged t acct find rid target payload tr' r → P (tr ++ tr') r) :
    (exchange t acct find rid target payload).run.Safe G R P tr := by
  rw [exchange, Prog.safe_run_bind]
  refine safe_prepare hG fun now seeds => ?_
  cases hbody : prepareMessage acct now seeds rid payload with
  | error e => exact hP _ _ (.unsealed hbody)
  | ok body =>
    refine Prog.safe_run_once_bind Ask.uuid (hG _ _ trivial) fun id _ => ?_
    rw [List.append_assoc]
    refine Prog.safe_run_once_bind (Ask.push (request id target body))
      (hpush _ id body ⟨now, seeds, hbody⟩) fun _ _ => ?_
    refine Prog.safe_run_once_bind (Ask.wait id find) (hG _ _ trivial) fun wait _ => ?_
    simp only [List.append_assoc, Prog.safe_run_bind, Prog.safe_run_except]
    cases hwait : wait.result t with
    | error e => exact hP _ _ (.unanswered hbody hwait)
    | ok obj =>
      obtain rfl := Wait.result_eq_ok hwait
      refine Prog.safe_run_once_bind Ask.now (hG _ _ trivial) fun now' _ => ?_
      refine safe_finish hG ?_
      simp only [List.append_assoc]
      exact hP _ _ (.answered hbody)

theorem safe_getIdcard (hG : ∀ tr q, Ask.Quiet q → G tr q)
    (hpush : ∀ tr' id body, Seals acct none h body →
      G (tr ++ tr') (.push (request id idcardFind body)))
    (hinsert : ∀ tr' buf card, Exchanged t acct (some h) none idcardFind h tr' (.ok buf) →
      B.fromSigned buf = .ok card → G (tr ++ ⟨.cached h, none⟩ :: tr') (.insert h card))
    {P : Trace B → Result B.Card → Prop}
    (hP : ∀ tr' r, Found t acct h tr' r → P (tr ++ tr') r) :
    (getIdcard t acct h).run.Safe G R P tr := by
  refine Prog.safe_run_once_bind (Ask.cached h) (hG _ _ trivial) fun cached _ => ?_
  cases cached with
  | some card => exact hP _ _ .cached
  | none =>
    rw [Prog.safe_run_bind]
    refine safe_exchange hG (fun tr' id body hbody => ?_) fun tr' r hr => ?_
    · rw [List.append_assoc]
      exact hpush _ id body hbody
    · rw [List.append_assoc]
      cases r with
      | error e => exact hP _ _ (.failed hr)
      | ok buf =>
        simp only [Prog.safe_run_bind, Prog.safe_run_except]
        cases hcard : B.fromSigned buf with
        | error e => exact hP _ _ (.unreadable hr hcard)
        | ok card =>
          refine Prog.safe_run_once_bind (Ask.insert h card) (hinsert tr' buf card hr hcard)
            fun _ _ => ?_
          rw [List.append_assoc]
          exact hP _ _ (.fetched hr hcard)

theorem safe_getIdcardForRecipient {rcv : Str} (hG : ∀ tr q, Ask.Quiet q → G tr q)
    (hpush : ∀ h, recipientHash rcv.chars = .ok h → ∀ tr' id body, Seals acct none h body →
      G (tr ++ tr') (.push (request id idcardFind body)))
    (hinsert : ∀ h tr' buf card, Exchanged t acct (some h) none idcardFind h tr' (.ok buf) →
      B.fromSigned buf = .ok card → G (tr ++ ⟨.cached h, none⟩ :: tr') (.insert h card))
    {P : Trace B → Result B.Card → Prop}
    (herror : ∀ e, recipientHash rcv.chars = .error e → P tr (.error e))
    (hP : ∀ h tr' r, recipientHash rcv.chars = .ok h → Found t acct h tr' r → P (tr ++ tr') r) :
    (getIdcardForRecipient t acct rcv).run.Safe G R P tr := by
  rw [getIdcardForRecipient, Prog.safe_run_bind, Prog.safe_run_except]
  cases hh : recipientHash rcv.chars with
  | error e => exact herror e hh
  | ok h => exact safe_getIdcard hG (hpush h hh) (hinsert h) fun tr' r => hP h tr' r hh

theorem safe_send {sender : Str} (hG : ∀ tr q, Ask.Quiet q → G tr q)
    (hfind : ∀ h tr' id body, Seals acct none h body →
      G (tr ++ tr') (.push (request id idcardFind body)))
    (hinsert : ∀ h tr' buf card, Exchanged t acct (some h) none idcardFind h tr' (.ok buf) →
      B.fromSigned buf = .ok card → G (tr ++ ⟨.cached h, none⟩ :: tr') (.insert h card))
    (hpush : ∀ tr' card req, req.recipient = target → SentFrom sender.chars req →
      ObtainedFor tr' target card → Seals acct (some card) payload req.body →
      G (tr ++ tr') (.push req))
    {P : Trace B → Result Unit → Prop} (herror : ∀ tr' e, P (tr ++ tr') (.error e))
    (hsent : ∀ tr' req, req.recipient = target → SentFrom sender.chars req →
      P (tr ++ tr' ++ [⟨.push req, ()⟩]) (.ok ())) :
    (sendToWithFrom t acct target payload sender).run.Safe G R P tr := by
  have hnil : ∀ e, P tr (.error e) := fun e => by
    have hend := herror [] e
    rwa [List.append_nil] at hend
  rw [sendToWithFrom, Prog.safe_run_bind]
  refine safe_getIdcardForRecipient hG (fun h _ => hfind h) hinsert (fun e _ => hnil e)
    fun h tr' r hh hr => ?_
  cases r with
  | error e => exact herror tr' e
  | ok card =>
    refine Prog.safe_run_bind.2 (safe_prepare hG fun now seeds => ?_)
    rw [List.append_assoc]
    cases hbody : prepareMessage acct now seeds (some card) payload with
    | error e => exact herror _ e
    | ok body =>
      refine Prog.safe_run_once_bind Ask.uuid (hG _ _ trivial) fun id _ => ?_
      rw [List.append_assoc]
      have hstep : ∀ req : Message, req.recipient = target → SentFrom sender.chars req →
          req.body = body →
          (liftM (push B req) : Client B Unit).run.Safe G R P
            (tr ++ (tr' ++ [⟨.now, now⟩, ⟨.seeds, seeds⟩] ++ [⟨.uuid, id⟩])) := by
        rintro req hrcpt hfrom rfl
        refine Prog.safe_run_liftM.2 ⟨?_, fun _ _ => hsent _ req hrcpt hfrom⟩
        refine hpush _ card req hrcpt hfrom ⟨h, hh, hr.obtained.mono ?_⟩ ⟨now, seeds, hbody⟩
        rw [List.append_assoc]
        exact List.subset_append_left _ _
      split
      · rename_i hempty
        exact hstep _ rfl (.inl ⟨hempty, rfl⟩) rfl
      · rename_i hne
        split
        · exact hstep _ rfl (.inr ⟨hne, rfl⟩) rfl
        · exact herror _ _

end Rules

end Spot

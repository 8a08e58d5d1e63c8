import Spot.Client.State

/-!
# Running a handler

Before a handler is run on a message that is encrypted, the card of the sender is obtained and the
body opened against it (`safe_openRequest`, `Opened`); afterwards the response is sealed for the
same card (`safe_respond`).
-/

namespace Spot

variable {B : Bottlers}

/-- The message `m` is `msg` with its body opened, authentic for a card of the sender. -/
def Opened (acct : Account B) (tr : Trace B) (msg m : Message) (card : B.Card) : Prop :=
  ∃ now, ⟨.now, now⟩ ∈ tr ∧ ObtainedFor tr msg.sender card ∧
    Authentic acct card now msg.body m.body ∧ m = { msg with body := m.body }

/-- The message may answer `msg`: sealed if that was encrypted, and marked as clear if not. -/
def Responds (acct : Account B) (rid : Option B.Card) (msg resp : Message) : Prop :=
  resp.recipient = msg.sender ∧
    if msg.flags &&& msgFlagNotBottle = 0 then
      resp.flags &&& msgFlagNotBottle = 0 ∧ ∃ body, Seals acct rid body resp.body
    else resp.flags &&& msgFlagNotBottle ≠ 0

section Rules

variable {t : Platform} {acct : Account B} {msg : Message} {rid : Option B.Card}
  {G : Trace B → Ask B → Prop} {R : Asked (Reply B) → Prop} {tr : Trace B}

theorem safe_openRequest (hG : ∀ tr q, Ask.Quiet q → G tr q)
    (hfind : ∀ h, recipientHash msg.sender.chars = .ok h → ∀ tr' id body, Seals acct none h body →
      G (tr ++ tr') (.push (request id idcardFind body)))
    (hinsert : ∀ h tr' buf card, Exchanged t acct (some h) none idcardFind h tr' (.ok buf) →
      B.fromSigned buf = .ok card → G (tr ++ ⟨.cached h, none⟩ :: tr') (.insert h card))
    {P : Trace B → Result (Option B.Card × Message) → Prop}
    (herror : ∀ tr' e, P (tr ++ tr') (.error e))
    (hclear : msg.flags &&& msgFlagNotBottle ≠ 0 → P tr (.ok (none, msg)))
    (hopened : msg.flags &&& msgFlagNotBottle = 0 → ∀ tr' m card,
      Opened acct (tr ++ tr') msg m card → P (tr ++ tr') (.ok (some card, m))) :
    (openRequest t acct msg).run.Safe G R P tr := by
  unfold openRequest
  by_cases hflags : msg.flags &&& msgFlagNotBottle = 0
  · rw [if_pos hflags, Prog.safe_run_bind]
    refine safe_getIdcardForRecipient hG hfind hinsert (fun e _ => ?_) fun h tr' r hh hr => ?_
    · have hend := herror [] e
      rwa [List.append_nil] at hend
    · cases r with
      | error e => exact herror tr' e
      | ok card =>
        refine Prog.safe_run_once_bind Ask.now (hG _ _ trivial) fun now _ => ?_
        rw [Prog.safe_run_bind]
        refine safe_finish hG ?_
        simp only [List.append_assoc]
        cases hbody : (decodeMessage acct now (some card) msg.body).body with
        | error e => exact herror _ e
        | ok plain =>
          refine hopened hflags _ _ card ⟨now, ?_, ⟨h, hh, hr.obtained.mono ?_⟩,
            decodeMessage_eq_ok.1 hbody, rfl⟩
          · simp
          · simp
  · rw [if_neg hflags, Prog.safe_run_pure]
    exact hclear hflags

theorem safe_sendResponse (hG : ∀ tr q, Ask.Quiet q → G tr q) {flags : UInt64} {body : Bytes}
    (hclear : flags &&& msgFlagNotBottle = 0)
    (hset : (flags ||| msgFlagNotBottle) &&& msgFlagNotBottle ≠ 0)
    (hpush : ∀ tr' resp, Responds acct rid msg resp → G (tr ++ tr') (.push resp))
    {P : Trace B → Unit → Prop} (hP : ∀ tr', P (tr ++ tr') ()) :
    (sendResponse acct rid msg flags body).Safe G R P tr := by
  unfold sendResponse
  by_cases hbottle : msg.flags &&& msgFlagNotBottle = 0
  · rw [if_pos hbottle, Prog.safe_bind]
    refine safe_prepare hG fun now seeds => ?_
    cases hbody : prepareMessage acct now seeds rid body with
    | error e => exact hP _
    | ok sealed =>
      refine ⟨hpush _ _ ⟨rfl, ?_⟩, fun _ _ => ?_⟩
      · rw [if_pos hbottle]
        exact ⟨hclear, body, now, seeds, hbody⟩
      · rw [List.append_assoc]
        exact hP _
  · rw [if_neg hbottle]
    refine ⟨?_, fun _ _ => hP _⟩
    have hresp := hpush [] { messageId := msg.messageId, flags := flags ||| msgFlagNotBottle,
                             recipient := msg.sender, sender := noreply, body }
    rw [List.append_nil] at hresp
    refine hresp ⟨rfl, ?_⟩
    rw [if_neg hbottle]
    exact hset

theorem safe_respond (hG : ∀ tr q, Ask.Quiet q → G tr q) {res : Except Text (Option Bytes)}
    (hpush : ∀ tr' resp, Responds acct rid msg resp → G (tr ++ tr') (.push resp))
    {P : Trace B → Unit → Prop} (hP : ∀ tr', P (tr ++ tr') ()) :
    (respond acct rid msg res).Safe G R P tr := by
  have hnil : P tr () := by
    have hend := hP []
    rwa [List.append_nil] at hend
  unfold respond
  split
  · exact hnil
  · cases res with
    | error e => exact safe_sendResponse hG (by decide) (by decide) hpush hP
    | ok body =>
      cases body with
      | none => exact hnil
      | some body => exact safe_sendResponse hG (by decide) (by decide) hpush hP

end Rules

end Spot

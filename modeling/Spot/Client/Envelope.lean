import Spot.Client.Identity
import Spot.Proto.Message

/-!
# Message bodies

A body to or from the owner of a card is a bottle, encrypted for the one and signed by the other.
`prepareMessage` seals a body and `decodeMessage` opens one; `decodeMessage_eq_ok` says that a body
checked against a card is opened only if it is `Authentic`.
-/

namespace Spot

/-- The random bytes drawn for one bottle. -/
structure Seeds (B : Bottlers) where
  encrypt : B.Seed
  sign : B.Seed

variable {B : Bottlers}

/-- Prepares a message body for sending: encrypted for `rid` when given, always signed. -/
def prepareMessage (acct : Account B) (now : ℤ) (seeds : Seeds B) (rid : Option B.Card)
    (payload : Bytes) : Result Bytes := do
  let bottle := B.newBottle payload
  let bottle ← match rid with
    | none => .ok bottle
    | some rid => do
      let bottle ← wrapBottle (B.encrypt seeds.encrypt (B.keysFor rid decryptPurpose now) bottle)
      wrapBottle (B.bottleUp bottle)
  let bottle ← wrapBottle (B.sign seeds.sign acct.signer bottle)
  wrapBottle (B.toCbor bottle)

/-- Preparing a body fails only in the library. -/
theorem prepareMessage_eq_error {acct : Account B} {now : ℤ} {seeds : Seeds B}
    {rid : Option B.Card} {payload : Bytes} {e : Error}
    (h : prepareMessage acct now seeds rid payload = .error e) : ∃ text, e = .bottle text := by
  have hsign : ∀ b : B.Bottle, (wrapBottle (B.sign seeds.sign acct.signer b) >>= fun b =>
      wrapBottle (B.toCbor b)) = .error e → ∃ text, e = .bottle text := by
    intro b hb
    rcases bind_wrapBottle_eq_error hb with hb | ⟨b, hb⟩
    · exact hb
    · exact wrapBottle_eq_error hb
  cases rid with
  | none => exact hsign _ h
  | some card =>
    have hall : (wrapBottle (B.encrypt seeds.encrypt (B.keysFor card decryptPurpose now)
        (B.newBottle payload)) >>= fun b => wrapBottle (B.bottleUp b) >>= fun b =>
          wrapBottle (B.sign seeds.sign acct.signer b) >>= fun b => wrapBottle (B.toCbor b)) =
        .error e := h
    rcases bind_wrapBottle_eq_error hall with hb | ⟨b, hb⟩
    · exact hb
    rcases bind_wrapBottle_eq_error hb with hb | ⟨b, hb⟩
    · exact hb
    · exact hsign b hb

/-- What decoding a body gives, and whether it empties the card cache. -/
structure Decoded where
  body : Result Bytes
  refresh : Bool := false

/-- Decrypts and verifies a received message body.  When `rid` is given the message must be
encrypted and signed by that identity. -/
def decodeMessage (acct : Account B) (now : ℤ) (rid : Option B.Card) (payload : Bytes) : Decoded :=
  match B.openCbor acct.opener payload with
  | .error e => { body := .error (.bottle e) }
  | .ok (buf, info) =>
    match rid with
    | none => { body := .ok buf }
    | some rid =>
      if B.decryption info = 0 then
        { body := .error (.other "incoming message is not encrypted".toList) }
      else if !signedBy B info rid now then
        { body := .error (.other "incoming message is not signed by sender".toList)
          refresh := true }
      else { body := .ok buf }

/-- A key that may sign for the owner of a card at a time. -/
def SignsFor (B : Bottlers) (card : B.Card) (now : ℤ) (key : Bytes) : Prop :=
  ∃ sub ∈ card.subkeys, sub.key = key ∧ B.hasPurpose sub signPurpose = true ∧
    ∀ exp, sub.expires = some exp → now < exp

/-- The payload is a bottle that opens to `plain` through at least one layer of encryption, with a
verified signature of the owner of the card. -/
def Authentic (acct : Account B) (card : B.Card) (now : ℤ) (payload plain : Bytes) : Prop :=
  ∃ info, B.openCbor acct.opener payload = .ok (plain, info) ∧ B.decryption info ≠ 0 ∧
    ∃ key, SignsFor B card now key ∧ B.signedByPkix info key = true

/-- The payload is a bottle that was encrypted, but not signed by the owner of the card. -/
def Mismatched (acct : Account B) (card : B.Card) (now : ℤ) (payload : Bytes) : Prop :=
  ∃ plain info, B.openCbor acct.opener payload = .ok (plain, info) ∧ B.decryption info ≠ 0 ∧
    ∀ key, SignsFor B card now key → B.signedByPkix info key = false

section

variable {acct : Account B} {card : B.Card} {now : ℤ} {payload plain : Bytes}

theorem unexpired_iff {sub : SubKey} :
    sub.unexpired now = true ↔ ∀ exp, sub.expires = some exp → now < exp := by
  unfold SubKey.unexpired
  cases sub.expires <;> simp

theorem signedBy_iff {info : B.OpenResult} :
    signedBy B info card now = true ↔
      ∃ key, SignsFor B card now key ∧ B.signedByPkix info key = true := by
  simp only [signedBy, List.any_eq_true, Bool.and_eq_true, unexpired_iff, SignsFor]
  constructor
  · rintro ⟨sub, hsub, ⟨hp, he⟩, hs⟩
    exact ⟨sub.key, ⟨sub, hsub, rfl, hp, he⟩, hs⟩
  · rintro ⟨key, ⟨sub, hsub, rfl, hp, he⟩, hs⟩
    exact ⟨sub, hsub, ⟨hp, he⟩, hs⟩

/-- A body checked against a card is opened exactly if it is authentic. -/
theorem decodeMessage_eq_ok :
    (decodeMessage acct now (some card) payload).body = .ok plain ↔
      Authentic acct card now payload plain := by
  unfold decodeMessage Authentic
  simp only [← signedBy_iff]
  cases B.openCbor acct.opener payload with
  | error e => simp
  | ok r =>
    obtain ⟨buf, info⟩ := r
    by_cases hd : B.decryption info = 0
    · simp [hd]
    · cases hs : signedBy B info card now <;> simp [hd, hs]

/-- Decoding empties the cache exactly when a signature does not match. -/
theorem decodeMessage_refresh :
    (decodeMessage acct now (some card) payload).refresh = true ↔
      Mismatched acct card now payload := by
  have hsigned : ∀ info : B.OpenResult, signedBy B info card now = false ↔
      ∀ key, SignsFor B card now key → B.signedByPkix info key = false := by
    intro info
    rw [← Bool.not_eq_true, signedBy_iff]
    simp
  unfold decodeMessage Mismatched
  simp only [← hsigned]
  cases B.openCbor acct.opener payload with
  | error e => simp
  | ok r =>
    obtain ⟨buf, info⟩ := r
    by_cases hd : B.decryption info = 0
    · simp [hd]
    · cases hs : signedBy B info card now <;> simp [hd, hs]

/-- What is authentic is signed by the owner of the card. -/
theorem Authentic.not_mismatched (h : Authentic acct card now payload plain) :
    ¬ Mismatched acct card now payload := by
  obtain ⟨info, hopen, -, key, hkey, hsigned⟩ := h
  rintro ⟨plain', info', hopen', -, hno⟩
  obtain ⟨-, rfl⟩ := Prod.mk.inj (Except.ok.inj (hopen.symm.trans hopen'))
  rw [hno key hkey] at hsigned
  cases hsigned

end

/-! ## Replies -/

/-- What a query makes of the flags and the body of a reply. -/
def conclude (flags : UInt64) (body : Bytes) : Result Bytes :=
  if flags &&& msgFlagError ≠ 0 then .error (.remote (lossy body)) else .ok body

/-- The end of a query, once the reply `obj` has arrived. -/
def finishQuery (acct : Account B) (now : ℤ) (rid : Option B.Card) (obj : Message) : Decoded :=
  if obj.flags &&& msgFlagNotBottle = 0 then
    let d := decodeMessage acct now rid obj.body
    match d.body with
    | .ok body => { d with body := conclude obj.flags body }
    | .error e =>
      { d with body := .error (.other ("failed to decode response: ".toList ++ e.display)) }
  else if rid.isSome then
    { body := .error (.other "remote failed to respond with an encrypted response".toList) }
  else { body := conclude obj.flags obj.body }

/-- A result that is a response or the error text of the remote side, taken from the bytes
`plain`. -/
def Exposes (r : Result Bytes) (plain : Bytes) : Prop :=
  r = .ok plain ∨ r = .error (.remote (lossy plain))

theorem exposes_conclude (flags : UInt64) (body : Bytes) : Exposes (conclude flags body) body := by
  unfold conclude
  split
  · exact .inr rfl
  · exact .inl rfl

/-- Whether a result is a response or an error of the remote side. -/
def IsReply : Result Bytes → Prop
  | .ok _ | .error (.remote _) => True
  | .error _ => False

section

variable {acct : Account B} {card : B.Card} {now : ℤ} {obj : Message}

/-- The reply to an encrypted query counts only if it is authentic. -/
theorem finishQuery_isReply (h : IsReply (finishQuery acct now (some card) obj).body) :
    obj.flags &&& msgFlagNotBottle = 0 ∧ ∃ plain, Authentic acct card now obj.body plain ∧
      Exposes (finishQuery acct now (some card) obj).body plain := by
  unfold finishQuery at h ⊢
  by_cases hf : obj.flags &&& msgFlagNotBottle = 0
  · rw [if_pos hf] at h ⊢
    refine ⟨hf, ?_⟩
    cases hd : (decodeMessage acct now (some card) obj.body).body with
    | error e =>
      simp only [hd] at h
      exact h.elim
    | ok body =>
      refine ⟨body, decodeMessage_eq_ok.1 hd, ?_⟩
      simp only [hd]
      exact exposes_conclude _ _
  · rw [if_neg hf] at h
    exact h.elim

/-- A reply with a wrong signature empties the cache, and is an error. -/
theorem finishQuery_mismatched (hf : obj.flags &&& msgFlagNotBottle = 0)
    (h : Mismatched acct card now obj.body) :
    (finishQuery acct now (some card) obj).refresh = true ∧
      ¬ IsReply (finishQuery acct now (some card) obj).body := by
  have hrefresh := decodeMessage_refresh.2 h
  constructor
  · unfold finishQuery
    rw [if_pos hf]
    cases hd : (decodeMessage acct now (some card) obj.body).body <;> simp only [hd, hrefresh]
  · intro hreply
    obtain ⟨-, plain, hauth, -⟩ := finishQuery_isReply hreply
    exact hauth.not_mismatched h

end

end Spot

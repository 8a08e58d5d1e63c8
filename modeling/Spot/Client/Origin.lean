import Spot.Client.Blob
import Spot.General.Symbolic

/-!
# Where an accepted body comes from

`decodeMessage` asks of a body that some layer of it was encrypted and that some layer was signed by
the sender, each for itself.  Under symbolic cryptography (`Symbolic`) a body that is accepted has
been signed by the sender as it is under the signature (`Traffic.Builds.readable`): in the open, for
some recipient, or as a blob to store.  Whoever sees a body that was signed in the open can encrypt
it, and `origin_iff` says what follows for the origin of accepted bodies.
-/

namespace Spot

variable {B : Bottlers}

/-- Bottles as envelopes, opened layer by layer: every encrypted layer with a key of the keychain,
counting them, and with the signatures of all layers.  Anyone can encrypt a bottle again. -/
structure Symbolic (B : Bottlers) where
  /-- A keychain has the private key of a public key. -/
  Holds : B.Keychain → B.PublicKey → Prop
  /-- The bottle that bytes are, if they are one. -/
  envelope : Bytes → Option (Envelope B.PublicKey Bytes Bytes)
  contents : B.Bottle → Envelope B.PublicKey Bytes Bytes
  contents_newBottle (payload : Bytes) : contents (B.newBottle payload) = .plain payload
  contents_encrypt {seed : B.Seed} {ks : List B.PublicKey} {b b' b'' : B.Bottle} :
    B.encrypt seed ks b = .ok b' → B.bottleUp b' = .ok b'' →
      contents b'' = .encrypted ks (contents b)
  contents_sign {seed : B.Seed} {key : B.PrivateKey} {pkix : Bytes} {b b' : B.Bottle} :
    B.sign seed key b = .ok b' → B.publicPkix key = .ok pkix →
      contents b' = .signed pkix (contents b)
  /-- A signature comes with the public key of the signer. -/
  publicPkix_of_sign {seed : B.Seed} {key : B.PrivateKey} {b b' : B.Bottle} :
    B.sign seed key b = .ok b' → ∃ pkix, B.publicPkix key = .ok pkix
  envelope_toCbor {b : B.Bottle} {buf : Bytes} :
    B.toCbor b = .ok buf → envelope buf = some (contents b)
  envelope_signCard {seed : B.Seed} {key : B.PrivateKey} {pkix : Bytes} {card : B.Card}
    {buf : Bytes} : B.signCard seed key card = .ok buf → B.publicPkix key = .ok pkix →
      ∃ p, envelope buf = some (.signed pkix (.plain p))
  wrap {buf : Bytes} {e : Envelope B.PublicKey Bytes Bytes} (ks : List B.PublicKey) :
    envelope buf = some e → ∃ buf', envelope buf' = some (.encrypted ks e)
  openCbor_eq_ok {kc : B.Keychain} {buf plain : Bytes} {info : B.OpenResult} :
    B.openCbor kc buf = .ok (plain, info) → ∃ e, envelope buf = some e ∧ e.Opens (Holds kc) ∧
      plain = e.payload ∧ B.decryption info = e.layers ∧
      ∀ pkix, B.signedByPkix info pkix = true ↔ pkix ∈ e.signers
  openCbor_ok {kc : B.Keychain} {buf : Bytes} {e : Envelope B.PublicKey Bytes Bytes} :
    envelope buf = some e → e.Opens (Holds kc) → ∃ r, B.openCbor kc buf = .ok r
  getKey_eq_some {kc : B.Keychain} {pkix : Bytes} {key : B.PrivateKey} :
    B.getKey kc pkix = some key → B.publicPkix key = .ok pkix

/-- A run of `prepare_message`. -/
structure Prepared (B : Bottlers) where
  acct : Account B
  now : ℤ
  seeds : Seeds B
  rid : Option B.Card
  payload : Bytes
  buf : Bytes
  buf_eq : prepareMessage acct now seeds rid payload = .ok buf

/-- The signing of a client's own card. -/
structure SignedCard (B : Bottlers) where
  acct : Account B
  seed : B.Seed
  card : B.Card
  buf : Bytes
  buf_eq : B.signCard seed acct.signer card = .ok buf

/-- A run of `build_store_blob` up to the bottle, at the time `now`. -/
structure StoredBlob (B : Bottlers) where
  acct : Account B
  card : B.Card
  value : Bytes
  now : ℤ
  tr : Trace B
  buf : Bytes
  run : (blobBottle acct card value).run.Run (⟨.now, now⟩ :: tr) (.ok buf)

/-- The bottle of the blob has a signature of the key. -/
def StoredBlob.HasSigner (S : Symbolic B) (x : StoredBlob B) (key : Bytes) : Prop :=
  ∃ e, S.envelope x.buf = some e ∧ key ∈ e.signers

/-- What honest clients have signed and shown. -/
structure Traffic (B : Bottlers) where
  bodies : Set (Prepared B)
  cards : Set (SignedCard B)
  blobs : Set (StoredBlob B)

namespace Traffic

/-- The bottles in the traffic; a blob is in the clear in the request to store it. -/
def seen (T : Traffic B) (S : Symbolic B) : Set (Envelope B.PublicKey Bytes Bytes) :=
  {e | (∃ x ∈ T.bodies, S.envelope x.buf = some e) ∨ (∃ x ∈ T.cards, S.envelope x.buf = some e) ∨
    ∃ x ∈ T.blobs, S.envelope x.buf = some e}

/-- The bytes are no bottle, or one that an adversary can build from the traffic. -/
def Builds (T : Traffic B) (S : Symbolic B) (forge : Bytes → Prop) (secret : B.PublicKey → Prop)
    (buf : Bytes) : Prop :=
  ∀ e, S.envelope buf = some e → e.Derives forge secret (T.seen S)

/-- The owner of the card has prepared the payload for the client. -/
def PreparedFor (T : Traffic B) (card : B.Card) (now : ℤ) (acct : Account B) (p : Bytes) : Prop :=
  ∃ x ∈ T.bodies, SignsFor B card now x.acct.signerPkix ∧ x.payload = p ∧
    ∃ rid, x.rid = some rid ∧ rid.selfKey = acct.signerPkix

/-- The owner of the card has signed the payload in the open, as a body without recipient or as a
card. -/
def SignedOpenly (T : Traffic B) (S : Symbolic B) (card : B.Card) (now : ℤ) (p : Bytes) : Prop :=
  (∃ x ∈ T.bodies, SignsFor B card now x.acct.signerPkix ∧ x.payload = p ∧ x.rid = none) ∨
    ∃ x ∈ T.cards, SignsFor B card now x.acct.signerPkix ∧
      S.envelope x.buf = some (.signed x.acct.signerPkix (.plain p))

/-- The owner of the card has sealed the payload for a card with a decryption key that the client
holds. -/
def SealedToKeyOf (T : Traffic B) (S : Symbolic B) (card : B.Card) (now : ℤ) (acct : Account B)
    (p : Bytes) : Prop :=
  ∃ x ∈ T.bodies, SignsFor B card now x.acct.signerPkix ∧ x.payload = p ∧
    ∃ rid, x.rid = some rid ∧ ∃ k ∈ B.keysFor rid decryptPurpose x.now, S.Holds acct.opener k

/-- The owner of the card has stored the payload as a blob, sealed for a card with a decryption key
that the client holds. -/
def StoredToKeyOf (T : Traffic B) (S : Symbolic B) (card : B.Card) (now : ℤ) (acct : Account B)
    (p : Bytes) : Prop :=
  ∃ x ∈ T.blobs, (∃ key, SignsFor B card now key ∧ x.HasSigner S key) ∧ x.value = p ∧
    ∃ k ∈ B.keysFor x.card decryptPurpose x.now, S.Holds acct.opener k

/-- The client, if it has a decryption key, can be given the payload with a signature of the owner
of the card. -/
def Readable (T : Traffic B) (S : Symbolic B) (card : B.Card) (now : ℤ) (acct : Account B)
    (p : Bytes) : Prop :=
  T.SignedOpenly S card now p ∧ (∃ k, S.Holds acct.opener k) ∨ T.SealedToKeyOf S card now acct p ∨
    T.StoredToKeyOf S card now acct p

end Traffic

section Bodies

variable {S : Symbolic B} {acct : Account B} {x : Prepared B}

/-- A body is the payload, encrypted for the decryption keys of the recipient's card if there is
one, and signed. -/
theorem Prepared.envelope_eq (x : Prepared B) :
    S.envelope x.buf = some (.signed x.acct.signerPkix (match x.rid with
      | none => .plain x.payload
      | some rid => .encrypted (B.keysFor rid decryptPurpose x.now) (.plain x.payload))) := by
  obtain ⟨acct, now, seeds, rid, payload, buf, hbuf⟩ := x
  have hkey : B.publicPkix acct.signer = .ok acct.signerPkix := S.getKey_eq_some acct.signer_eq
  have hsign : ∀ b : B.Bottle, (wrapBottle (B.sign seeds.sign acct.signer b) >>= fun b =>
      wrapBottle (B.toCbor b)) = .ok buf →
        S.envelope buf = some (.signed acct.signerPkix (S.contents b)) := by
    intro b hb
    obtain ⟨b', hb', hcbor⟩ := bind_eq_ok hb
    rw [S.envelope_toCbor (wrapBottle_eq_ok.1 hcbor),
      S.contents_sign (wrapBottle_eq_ok.1 hb') hkey]
  cases rid with
  | none =>
    rw [hsign _ hbuf, S.contents_newBottle]
  | some rid =>
    have hall : (wrapBottle (B.encrypt seeds.encrypt (B.keysFor rid decryptPurpose now)
        (B.newBottle payload)) >>= fun b => wrapBottle (B.bottleUp b) >>= fun b =>
          wrapBottle (B.sign seeds.sign acct.signer b) >>= fun b => wrapBottle (B.toCbor b)) =
        .ok buf := hbuf
    obtain ⟨b, hb, hall⟩ := bind_eq_ok hall
    obtain ⟨b', hb', hall⟩ := bind_eq_ok hall
    rw [hsign b' hall, S.contents_encrypt (wrapBottle_eq_ok.1 hb) (wrapBottle_eq_ok.1 hb'),
      S.contents_newBottle]

end Bodies

section Blobs

variable {S : Symbolic B} {e : Envelope B.PublicKey Bytes Bytes}

/-- The loop over the keys puts signatures around the bottle. -/
theorem signEach_around {keys : List B.PrivateKey} {s s' : Signing B} {tr : Trace B}
    (hr : (signEach keys s).Run tr s') (h : e.Around (S.contents s.bottle)) :
    e.Around (S.contents s'.bottle) := by
  induction keys generalizing s tr with
  | nil =>
    obtain ⟨-, rfl⟩ := hr
    exact h
  | cons key keys ih =>
    obtain ⟨seeds, tr', -, hr⟩ := hr
    refine ih hr ?_
    rcases s.sign_cases seeds.sign key with ⟨b, hb, hbottle, -⟩ | ⟨-, hbottle, -⟩
    · obtain ⟨pkix, hpkix⟩ := S.publicPkix_of_sign hb
      rw [hbottle, S.contents_sign hb hpkix]
      exact .signed h
    · rwa [hbottle]

/-- A blob is the value, encrypted for the decryption keys of the card, and signed. -/
theorem StoredBlob.envelope_eq (x : StoredBlob B) : ∃ e, S.envelope x.buf = some e ∧
    Envelope.Around (.encrypted (B.keysFor x.card decryptPurpose x.now) (.plain x.value)) e := by
  obtain ⟨acct, card, value, now, tr, buf, hrun⟩ := x
  obtain ⟨_, tr₁, htr, hrun⟩ := Prog.run_run_once_bind.1 hrun
  obtain ⟨hnow, rfl⟩ := List.cons_eq_cons.1 htr
  obtain rfl := eq_of_heq (Sigma.mk.inj hnow).2
  obtain ⟨seeds, tr₂, -, hrun⟩ := Prog.run_run_once_bind.1 hrun
  obtain ⟨b, hb, hrun⟩ := Prog.run_run_except_bind.1 hrun
  obtain ⟨b', hb', hrun⟩ := Prog.run_run_except_bind.1 hrun
  obtain ⟨tr₃, s, tr₄, -, hsign, hrun⟩ := Prog.run_run_liftM_bind.1 hrun
  have hcbor : B.toCbor s.bottle = .ok buf := by
    by_cases hcount : s.sigCnt = 0
    · rw [if_pos hcount] at hrun
      cases hrun.2
    · rw [if_neg hcount] at hrun
      exact wrapBottle_eq_ok.1 hrun.2
  refine ⟨S.contents s.bottle, S.envelope_toCbor hcbor, signEach_around hsign ?_⟩
  rw [S.contents_encrypt (wrapBottle_eq_ok.1 hb) (wrapBottle_eq_ok.1 hb'), S.contents_newBottle]
  exact .refl

end Blobs

section Origin

variable {S : Symbolic B} {T : Traffic B} {forge : Bytes → Prop} {secret : B.PublicKey → Prop}
  {card : B.Card} {now : ℤ} {acct : Account B} {buf p : Bytes}
  {e : Envelope B.PublicKey Bytes Bytes}

/-- A card is signed in the open. -/
theorem SignedCard.envelope_eq (x : SignedCard B) :
    ∃ p, S.envelope x.buf = some (.signed x.acct.signerPkix (.plain p)) :=
  S.envelope_signCard x.buf_eq (S.getKey_eq_some x.acct.signer_eq)

/-- A bottle that opens, with a layer of encryption and a signature of the owner of the card, is
accepted. -/
theorem accepted_of_envelope {key : Bytes} (he : S.envelope buf = some e)
    (hopen : e.Opens (S.Holds acct.opener)) (hlayers : e.layers ≠ 0) (hkey : key ∈ e.signers)
    (hcard : SignsFor B card now key) :
    (decodeMessage acct now (some card) buf).body = .ok e.payload := by
  obtain ⟨⟨plain, info⟩, hr⟩ := S.openCbor_ok he hopen
  obtain ⟨e', he', -, hplain, hdec, hsigned⟩ := S.openCbor_eq_ok hr
  obtain rfl := Option.some.inj (he.symm.trans he')
  rw [decodeMessage_eq_ok, ← hplain]
  exact ⟨info, hr, hdec ▸ hlayers, key, hcard, (hsigned key).2 hkey⟩

/-! ### What is under a signature -/

section Signed

variable {key : Bytes} {u : Envelope B.PublicKey Bytes Bytes} (hkey : SignsFor B card now key)
  (hopens : u.Opens (S.Holds acct.opener))
include hkey hopens

theorem Prepared.readable {x : Prepared B} (hx : x ∈ T.bodies) (he : S.envelope x.buf = some e)
    (hu : (Envelope.signed key u).Within e) (hheld : ∃ k, S.Holds acct.opener k) :
    T.Readable S card now acct u.payload := by
  rw [x.envelope_eq] at he
  obtain rfl := Option.some.inj he
  cases hrid : x.rid with
  | none =>
    rw [hrid] at hu
    cases hu with
    | refl => exact .inl ⟨.inl ⟨x, hx, hkey, rfl, hrid⟩, hheld⟩
    | signed hin => cases hin
  | some rid =>
    rw [hrid] at hu
    cases hu with
    | refl => exact .inr (.inl ⟨x, hx, hkey, rfl, rid, hrid, hopens.1⟩)
    | signed hin =>
      cases hin with
      | encrypted hin => cases hin

omit hopens in
theorem SignedCard.readable {x : SignedCard B} (hx : x ∈ T.cards) (he : S.envelope x.buf = some e)
    (hu : (Envelope.signed key u).Within e) (hheld : ∃ k, S.Holds acct.opener k) :
    T.Readable S card now acct u.payload := by
  obtain ⟨p, hcard⟩ := x.envelope_eq (S := S)
  obtain rfl := Option.some.inj (hcard.symm.trans he)
  cases hu with
  | refl => exact .inl ⟨.inr ⟨x, hx, hkey, hcard⟩, hheld⟩
  | signed hin => cases hin

theorem StoredBlob.readable {x : StoredBlob B} (hx : x ∈ T.blobs) (he : S.envelope x.buf = some e)
    (hu : (Envelope.signed key u).Within e) : T.Readable S card now acct u.payload := by
  obtain ⟨e', he', haround⟩ := x.envelope_eq (S := S)
  obtain rfl := Option.some.inj (he.symm.trans he')
  have hsigner : x.HasSigner S key := ⟨e, he, Envelope.mem_signers_iff.2 ⟨u, hu⟩⟩
  rcases haround.within_signed hu with hu | hu
  · exact .inr (.inr ⟨x, hx, ⟨key, hkey, hsigner⟩, hu.payload_eq.symm, (hu.opens_iff.1 hopens).1⟩)
  · cases hu with
    | encrypted hu => cases hu

end Signed

/-- What is accepted was signed as it is under the signature: in the open, or sealed for a key that
the client holds. -/
theorem Traffic.Builds.readable (hb : T.Builds S forge secret buf)
    (honest : ∀ key, SignsFor B card now key → ¬ forge key)
    (hp : (decodeMessage acct now (some card) buf).body = .ok p) :
    T.Readable S card now acct p := by
  obtain ⟨info, hopen, hdec, key, hkey, hsigned⟩ := decodeMessage_eq_ok.1 hp
  obtain ⟨e, he, hopens, rfl, hlayers, hsigners⟩ := S.openCbor_eq_ok hopen
  obtain ⟨u, hu⟩ := Envelope.mem_signers_iff.1 ((hsigners key).1 hsigned)
  have hheld := Envelope.exists_held hopens (hlayers ▸ hdec)
  have hunder : u.Opens (S.Holds acct.opener) := hu.opens hopens
  have hpayload : u.payload = e.payload := hu.payload_eq
  rw [← hpayload]
  obtain ⟨e', hseen, hu'⟩ := (hb e he).origin (honest key hkey) hu
  rcases hseen with ⟨x, hx, he'⟩ | ⟨x, hx, he'⟩ | ⟨x, hx, he'⟩
  · exact x.readable hkey hunder hx he' hu' hheld
  · exact x.readable hkey hx he' hu' hheld
  · exact x.readable hkey hunder hx he' hu'

/-- A bottle in the traffic that the client can open, with a layer of encryption and a signature of
the owner of the card, is accepted as it is. -/
theorem exists_builds_of_seen {key : Bytes} (he : S.envelope buf = some e) (hseen : e ∈ T.seen S)
    (hopens : e.Opens (S.Holds acct.opener)) (hlayers : e.layers ≠ 0) (hkey : key ∈ e.signers)
    (hcard : SignsFor B card now key) :
    ∃ buf, T.Builds S forge secret buf ∧
      (decodeMessage acct now (some card) buf).body = .ok e.payload := by
  refine ⟨buf, fun e' he' => ?_, accepted_of_envelope he hopens hlayers hkey hcard⟩
  obtain rfl := Option.some.inj (he.symm.trans he')
  exact .seen hseen

/-- What the client can be given with a signature of the owner of the card, it can be made to
accept. -/
theorem Traffic.Readable.exists_builds (h : T.Readable S card now acct p) :
    ∃ buf, T.Builds S forge secret buf ∧
      (decodeMessage acct now (some card) buf).body = .ok p := by
  rcases h with ⟨hopen, k, hk⟩ | ⟨x, hx, hkey, rfl, rid, hrid, hheld⟩ |
    ⟨x, hx, ⟨key, hkey, e, he, hsigner⟩, rfl, hheld⟩
  · obtain ⟨buf, key, hkey, hbuf, hseen⟩ : ∃ buf key, SignsFor B card now key ∧
        S.envelope buf = some (.signed key (.plain p)) ∧
        Envelope.signed key (.plain p) ∈ T.seen S := by
      rcases hopen with ⟨x, hx, hkey, rfl, hrid⟩ | ⟨x, hx, hkey, he⟩
      · have he := x.envelope_eq (S := S)
        rw [hrid] at he
        exact ⟨x.buf, _, hkey, he, .inl ⟨x, hx, he⟩⟩
      · exact ⟨x.buf, _, hkey, he, .inr (.inl ⟨x, hx, he⟩)⟩
    obtain ⟨buf', hbuf'⟩ := S.wrap [k] hbuf
    refine ⟨buf', fun e he => ?_, ?_⟩
    · obtain rfl := Option.some.inj (hbuf'.symm.trans he)
      exact .wrap [k] (.seen hseen)
    · exact accepted_of_envelope hbuf' ⟨⟨k, List.mem_cons_self, hk⟩, trivial⟩ Nat.one_ne_zero
        List.mem_cons_self hkey
  · have he := x.envelope_eq (S := S)
    rw [hrid] at he
    exact exists_builds_of_seen he (.inl ⟨x, hx, he⟩) ⟨hheld, trivial⟩ Nat.one_ne_zero
      List.mem_cons_self hkey
  · obtain ⟨e', he', haround⟩ := x.envelope_eq (S := S)
    obtain rfl := Option.some.inj (he.symm.trans he')
    have hopens : e.Opens (S.Holds acct.opener) := haround.opens_iff.2 ⟨hheld, trivial⟩
    have hlayers : e.layers ≠ 0 := by
      rw [haround.layers_eq]
      exact Nat.one_ne_zero
    have hseen : e ∈ T.seen S := .inr (.inr ⟨x, hx, he⟩)
    have hpayload : e.payload = x.value := haround.payload_eq
    rw [← hpayload]
    exact exists_builds_of_seen he hseen hopens hlayers hsigner hkey

end Origin

/-! ## A library of envelopes -/

namespace Layered

open Plain

/-- Bytes with a mark before each and one at the end. -/
def writeText : Bytes → Bytes
  | [] => [0]
  | b :: bs => 1 :: b :: writeText bs

def readText : Bytes → Option (Bytes × Bytes)
  | 0 :: rest => some ([], rest)
  | 1 :: b :: rest => (readText rest).map fun r => (b :: r.1, r.2)
  | _ => none

def write : Envelope PublicKey Bytes Bytes → Bytes
  | .plain p => 0 :: p
  | .signed s e => 1 :: (writeText s ++ write e)
  | .encrypted ks e => 2 :: (writeKeys ks ++ write e)

/-- Reads an envelope of at most `n` layers. -/
def read : ℕ → Bytes → Option (Envelope PublicKey Bytes Bytes)
  | _ + 1, 0 :: p => some (.plain p)
  | n + 1, 1 :: rest => (readText rest).bind fun r => (read n r.2).map (.signed r.1)
  | n + 1, 2 :: rest => (readKeys rest).bind fun r => (read n r.2).map (.encrypted r.1)
  | _, _ => none

def envelope (buf : Bytes) : Option (Envelope PublicKey Bytes Bytes) := read buf.length buf

theorem readText_writeText (s rest : Bytes) : readText (writeText s ++ rest) = some (s, rest) := by
  induction s with
  | nil => rfl
  | cons b s ih =>
    show (readText (writeText s ++ rest)).map _ = _
    rw [ih]
    rfl

theorem read_write (e : Envelope PublicKey Bytes Bytes) :
    ∀ n, (write e).length ≤ n → read n (write e) = some e := by
  induction e with
  | plain p =>
    intro n hn
    cases n with
    | zero => cases hn
    | succ n => rfl
  | signed s e ih =>
    intro n hn
    simp only [write, List.length_cons, List.length_append] at hn
    obtain ⟨n, rfl⟩ : ∃ m, n = m + 1 := ⟨n - 1, by omega⟩
    show (readText (writeText s ++ write e)).bind _ = _
    rw [readText_writeText, Option.bind_some, ih n (by omega)]
    rfl
  | encrypted ks e ih =>
    intro n hn
    simp only [write, List.length_cons, List.length_append] at hn
    obtain ⟨n, rfl⟩ : ∃ m, n = m + 1 := ⟨n - 1, by omega⟩
    show (readKeys (writeKeys ks ++ write e)).bind _ = _
    rw [readKeys_writeKeys, Option.bind_some, ih n (by omega)]
    rfl

theorem envelope_write (e : Envelope PublicKey Bytes Bytes) : envelope (write e) = some e :=
  read_write e _ le_rfl

/-- A keychain has the private key of a public key. -/
def Holds (kc : List Plain.Key) (pk : PublicKey) : Prop := ∃ key ∈ kc, publicKey key = pk

instance (kc : List Plain.Key) : DecidablePred (Holds kc) :=
  fun pk => inferInstanceAs (Decidable (∃ key ∈ kc, publicKey key = pk))

/-- Opens all layers of a bottle. -/
def openBottle (kc : List Plain.Key) (buf : Bytes) :
    Except Text (Bytes × Envelope PublicKey Bytes Bytes) :=
  match envelope buf with
  | some e => if e.Opens (Holds kc) then .ok (e.payload, e) else .error "no key".toList
  | none => .error "not a bottle".toList

theorem openBottle_eq_ok {kc : List Plain.Key} {buf : Bytes}
    {r : Bytes × Envelope PublicKey Bytes Bytes} :
    openBottle kc buf = .ok r ↔
      envelope buf = some r.2 ∧ r.2.Opens (Holds kc) ∧ r.1 = r.2.payload := by
  obtain ⟨p, e⟩ := r
  unfold openBottle
  cases envelope buf with
  | none => simp
  | some e' =>
    by_cases hopen : e'.Opens (Holds kc)
    · simp only [if_pos hopen, Except.ok.injEq, Prod.mk.injEq, Option.some.injEq]
      constructor
      · rintro ⟨rfl, rfl⟩
        exact ⟨rfl, hopen, rfl⟩
      · rintro ⟨rfl, -, rfl⟩
        exact ⟨rfl, rfl⟩
    · simp only [if_neg hopen, Option.some.injEq]
      refine iff_of_false nofun ?_
      rintro ⟨rfl, h, -⟩
      exact hopen h

end Layered

open Plain Layered in
/-- The library in which bottles are envelopes. -/
def layered : Bottlers where
  __ := plain
  Bottle := Envelope PublicKey Bytes Bytes
  OpenResult := Envelope PublicKey Bytes Bytes
  signCard _ key card := .ok (write (.signed (toPkix (publicKey key)) (.plain (writeCard card))))
  fromSigned buf := match envelope buf with
    | some (.signed _ (.plain p)) => readCard p
    | _ => .error "not a card".toList
  newBottle payload := .plain payload
  encrypt _ pks b :=
    if pks = [] then .error "no recipient".toList else .ok (.encrypted pks b)
  bottleUp b := .ok b
  sign _ key b := .ok (.signed (toPkix (publicKey key)) b)
  toCbor b := .ok (write b)
  openCbor := Layered.openBottle
  decryption := Envelope.layers
  signedByPkix e pkix := e.signers.contains pkix

open Plain Layered in
/-- The library of envelopes is symbolic. -/
def layeredSymbolic : Symbolic layered where
  Holds := Holds
  envelope := envelope
  contents b := b
  contents_newBottle _ := rfl
  contents_encrypt {seed ks b b' b''} h h' := by
    obtain rfl := Except.ok.inj h'
    by_cases hks : ks = []
    · cases (if_pos hks).symm.trans h
    · exact (Except.ok.inj ((if_neg hks).symm.trans h)).symm
  contents_sign h hkey := by
    obtain rfl := Except.ok.inj h
    obtain rfl := Except.ok.inj hkey
    rfl
  publicPkix_of_sign _ := ⟨_, rfl⟩
  envelope_toCbor h := by
    obtain rfl := Except.ok.inj h
    exact envelope_write _
  envelope_signCard h hkey := by
    obtain rfl := Except.ok.inj h
    obtain rfl := Except.ok.inj hkey
    exact ⟨_, envelope_write _⟩
  wrap ks h := ⟨_, envelope_write _⟩
  openCbor_eq_ok {kc buf plain info} h := by
    obtain ⟨he, hopen, hp⟩ := openBottle_eq_ok.1 h
    exact ⟨info, he, hopen, hp, rfl, fun pkix => List.contains_iff_mem⟩
  openCbor_ok {kc buf e} h hopen := ⟨(e.payload, e), openBottle_eq_ok.2 ⟨h, hopen, rfl⟩⟩
  getKey_eq_some {kc pkix key} h := by
    have hfind : kc.find? (fun key => decide (toPkix (publicKey key) = pkix)) = some key := h
    have hpkix : toPkix (publicKey key) = pkix := by simpa using List.find?_some hfind
    exact congrArg Except.ok hpkix

/-! ### A query, and a body for another client -/

namespace Layered

/-- An adversary without keys of its own. -/
abbrev Outsider (T : Traffic layered) (buf : Bytes) : Prop :=
  T.Builds layeredSymbolic (fun _ => False) (fun _ => False) buf

/-- The owner of a key. -/
def account (b : UInt8) : Account layered where
  kc := [Plain.mk .ecdsa b]
  signerPkix := [0, b]
  opener := [Plain.mk .ecdsa b]
  signer := Plain.mk .ecdsa b
  signer_eq := by
    show List.find? (fun key : Plain.Key => decide (Plain.toPkix (Plain.publicKey key) = [0, b]))
      [Plain.mk .ecdsa b] = some (Plain.mk .ecdsa b)
    exact List.find?_cons_of_pos (decide_eq_true rfl)

/-- The card of the owner of a key, with both purposes. -/
def card (b : UInt8) : layered.Card :=
  { Plain.cardOf [0, b] 0 with
    subkeys := [{ key := [0, b], issued := 0, expires := none,
                  purposes := [signPurpose, decryptPurpose] }] }

/-- The body of a query of the owner of the key 5 that has no recipient. -/
def openQuery : Prepared layered where
  acct := account 5
  now := 0
  seeds := ⟨(), ()⟩
  rid := none
  payload := [7]
  buf := write (.signed [0, 5] (.plain [7]))
  buf_eq := rfl

/-- The same payload for the owner of the key 6. -/
def sealedBody : Prepared layered where
  acct := account 5
  now := 0
  seeds := ⟨(), ()⟩
  rid := some (card 6)
  payload := [7]
  buf := write (.signed [0, 5] (.encrypted [(0, 6)] (.plain [7])))
  buf_eq := rfl

end Layered

namespace Layered

/-- A blob of the owner of the key 5. -/
def ownBlob : StoredBlob layered where
  acct := account 5
  card := card 5
  value := [9]
  now := 0
  tr := [⟨.seeds, ⟨(), ()⟩⟩, ⟨.seeds, ⟨(), ()⟩⟩]
  buf := write (.signed [0, 5] (.encrypted [(0, 5)] (.plain [9])))
  run := ⟨_, _, rfl, _, _, rfl, _, _, rfl, rfl, rfl⟩

/-- All that the owner of the key 5 has sent. -/
def sentByFive : Traffic layered := ⟨{sealedBody}, ∅, {ownBlob}⟩

end Layered

end Spot

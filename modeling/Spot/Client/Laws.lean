import Spot.Client.Identity

/-!
# What the client relies on of the cryptographic library

`Bottlers.Lawful` collects the documented behaviour that results about a whole exchange use: copies
of keys, keychains and cards list what was put in them, sealing works for keys that can do it, and
opening inverts sealing.  `plain` is a library without any secrecy that has this behaviour.
-/

namespace Spot

namespace Bottlers

/-- Two copies of one key. -/
def SameKey (B : Bottlers) (key key' : B.PrivateKey) : Prop :=
  key.1 = key'.1 ∧ B.publicPkix key = B.publicPkix key'

/-- A keychain has a copy of the key. -/
def Holds (B : Bottlers) (kc : B.Keychain) (key : B.PrivateKey) : Prop :=
  ∃ k ∈ B.keys kc, B.SameKey k key

/-- A subkey that exists, without expiry, and is for decryption only if it can do it. -/
def SoundKey (B : Bottlers) (sub : SubKey) : Prop :=
  sub.expires = none ∧ ∃ key : B.PrivateKey, B.publicPkix key = .ok sub.key ∧
    (B.hasPurpose sub decryptPurpose = true → decryptPurpose ∈ keyPurposes key.1)

/-- All subkeys of a card are sound. -/
def Sound (B : Bottlers) (card : B.Card) : Prop := ∀ sub ∈ card.subkeys, B.SoundKey sub

/-- The behaviour of the library. -/
structure Lawful (B : Bottlers) : Prop where
  publicPkix_ecdsa (sk copy : B.Secret .ecdsa) :
    B.ecdsaFromBytes (B.ecdsaToBytes sk) = .ok copy →
      B.publicPkix ⟨.ecdsa, copy⟩ = B.publicPkix ⟨.ecdsa, sk⟩
  publicPkix_ed25519 (sk : B.Secret .ed25519) :
    B.publicPkix ⟨.ed25519, B.ed25519FromBytes (B.ed25519ToBytes sk)⟩ =
      B.publicPkix ⟨.ed25519, sk⟩
  publicPkix_rsa (sk copy : B.Secret .rsa) :
    B.rsaFromPkcs8Der (B.rsaToPkcs8Der sk) = .ok copy →
      B.publicPkix ⟨.rsa, copy⟩ = B.publicPkix ⟨.rsa, sk⟩
  /-- The public form of a key tells its kind. -/
  kind_eq (key key' : B.PrivateKey) (pkix : Bytes) :
    B.publicPkix key = .ok pkix → B.publicPkix key' = .ok pkix → key.1 = key'.1
  keys_newKeychain : B.keys B.newKeychain = []
  holds_addKey (kc kc' : B.Keychain) (key : B.PrivateKey) :
    B.addKey kc key = .ok kc' → ∀ k, B.Holds kc' k ↔ B.Holds kc k ∨ B.SameKey key k
  getKey_eq_some (kc : B.Keychain) (pkix : Bytes) (key : B.PrivateKey) :
    B.getKey kc pkix = some key → key ∈ B.keys kc ∧ B.publicPkix key = .ok pkix
  firstSigner_eq_some (kc : B.Keychain) (key : B.PrivateKey) :
    B.firstSigner kc = some key → key ∈ B.keys kc ∧ signPurpose ∈ keyPurposes key.1
  newCard_eq_ok (key : B.PrivateKey) (now : ℤ) (card : B.Card) :
    B.newCard key now = .ok card → B.publicPkix key = .ok card.selfKey ∧
      ∀ sub ∈ card.subkeys, sub.key = card.selfKey ∧ sub.expires = none ∧
        B.hasPurpose sub decryptPurpose = false
  hasPurpose_nil (sub : SubKey) (p : Text) : sub.purposes = [] → B.hasPurpose sub p = false
  hasPurpose_addPurpose (sub : SubKey) (ps : List Text) (p : Text) :
    B.hasPurpose (B.addPurpose sub ps) p = true ↔ B.hasPurpose sub p = true ∨ p ∈ ps
  key_addPurpose (sub : SubKey) (ps : List Text) : (B.addPurpose sub ps).key = sub.key
  expires_addPurpose (sub : SubKey) (ps : List Text) : (B.addPurpose sub ps).expires = sub.expires
  encrypt_ok (seed : B.Seed) (card : B.Card) (now : ℤ) (b : B.Bottle) : B.Sound card →
    (∃ sub ∈ card.subkeys, B.hasPurpose sub decryptPurpose = true) →
      ∃ b', B.encrypt seed (B.keysFor card decryptPurpose now) b = .ok b'
  bottleUp_ok (b : B.Bottle) : ∃ b', B.bottleUp b = .ok b'
  sign_ok (seed : B.Seed) (key : B.PrivateKey) (b : B.Bottle) :
    signPurpose ∈ keyPurposes key.1 → ∃ b', B.sign seed key b = .ok b'
  toCbor_ok (b : B.Bottle) : ∃ buf, B.toCbor b = .ok buf
  /-- A payload encrypted for the decryption keys of a card, one of which the keychain has, and
  signed: opening it gives the payload back, decrypted, with the signature. -/
  openCbor_sealed (kc : B.Keychain) (card : B.Card) (sub : SubKey) (key signer : B.PrivateKey)
      (pkix payload buf : Bytes) (now : ℤ) (seed seed' : B.Seed) (b b' b'' : B.Bottle) :
    key ∈ B.keys kc → decryptPurpose ∈ keyPurposes key.1 → B.publicPkix key = .ok sub.key →
    sub ∈ card.subkeys → B.hasPurpose sub decryptPurpose = true → sub.expires = none →
    B.encrypt seed (B.keysFor card decryptPurpose now) (B.newBottle payload) = .ok b →
    B.bottleUp b = .ok b' → B.sign seed' signer b' = .ok b'' → B.toCbor b'' = .ok buf →
    B.publicPkix signer = .ok pkix →
      ∃ info, B.openCbor kc buf = .ok (payload, info) ∧ B.decryption info ≠ 0 ∧
        B.signedByPkix info pkix = true

/-- The second bottle is the first one, signed with the keys in their order. -/
def SignedWith (B : Bottlers) : List B.PrivateKey → B.Bottle → B.Bottle → Prop
  | [], b, b' => b = b'
  | key :: keys, b, b'' => ∃ seed b', B.sign seed key b = .ok b' ∧ SignedWith B keys b' b''

/-- Opening a payload encrypted for the decryption keys of a card, one of which the keychain has,
and signed with any keys: it gives the payload back, decrypted, with just these signatures. -/
def OpensSigned (B : Bottlers) : Prop :=
  ∀ (kc : B.Keychain) (card : B.Card) (sub : SubKey) (key : B.PrivateKey)
    (signers : List B.PrivateKey) (payload buf : Bytes) (now : ℤ) (seed : B.Seed)
    (b b' b'' : B.Bottle),
    key ∈ B.keys kc → decryptPurpose ∈ keyPurposes key.1 → B.publicPkix key = .ok sub.key →
    sub ∈ card.subkeys → B.hasPurpose sub decryptPurpose = true → sub.expires = none →
    B.encrypt seed (B.keysFor card decryptPurpose now) (B.newBottle payload) = .ok b →
    B.bottleUp b = .ok b' → B.SignedWith signers b' b'' → B.toCbor b'' = .ok buf →
      ∃ info, B.openCbor kc buf = .ok (payload, info) ∧ B.decryption info ≠ 0 ∧
        ∀ pkix, B.signedByPkix info pkix = true ↔ ∃ key ∈ signers, B.publicPkix key = .ok pkix

end Bottlers

/-! ## A library without secrecy -/

namespace Plain

/-- A public key: a kind and one byte. -/
abbrev PublicKey : Type := UInt8 × UInt8

abbrev Key : Type := (_ : KeyKind) × UInt8

/-- A bottle, in the open: its recipients once it is encrypted, its signers and its payload. -/
structure PlainBottle where
  recipients : Option (List PublicKey)
  signers : List PublicKey
  payload : Bytes

/-- What opening finds. -/
structure Opened where
  decryption : ℕ
  signers : List PublicKey

def kindByte : KeyKind → UInt8
  | .ecdsa => 0 | .ed25519 => 1 | .rsa => 2 | .x25519 => 3 | .mlKem => 4
  | .mlDsa44 => 5 | .mlDsa65 => 6 | .mlDsa87 => 7 | .slhDsa => 8

def publicKey (key : Key) : PublicKey := (kindByte key.1, key.2)

def toPkix (pk : PublicKey) : Bytes := [pk.1, pk.2]

def ofPkix : Bytes → Option PublicKey
  | [a, b] => some (a, b)
  | _ => none

def writeKeys : List PublicKey → Bytes
  | [] => [0]
  | pk :: pks => 1 :: pk.1 :: pk.2 :: writeKeys pks

def readKeys : Bytes → Option (List PublicKey × Bytes)
  | 0 :: rest => some ([], rest)
  | 1 :: a :: b :: rest => (readKeys rest).map fun r => ((a, b) :: r.1, r.2)
  | _ => none

def write (b : PlainBottle) : Bytes :=
  match b.recipients with
  | none => 0 :: (writeKeys b.signers ++ b.payload)
  | some pks => 1 :: (writeKeys pks ++ (writeKeys b.signers ++ b.payload))

def read : Bytes → Option PlainBottle
  | 0 :: rest => (readKeys rest).map fun r => ⟨none, r.1, r.2⟩
  | 1 :: rest => (readKeys rest).bind fun r => (readKeys r.2).map fun r' => ⟨some r.1, r'.1, r'.2⟩
  | _ => none

def openBottle (kc : List Key) (b : PlainBottle) : Except Text (Bytes × Opened) :=
  match b.recipients with
  | none => .ok (b.payload, ⟨0, b.signers⟩)
  | some pks =>
    if kc.any fun key => decide (publicKey key ∈ pks) then .ok (b.payload, ⟨1, b.signers⟩)
    else .error "no key".toList

def hasPurpose (sub : SubKey) (p : Text) : Bool := decide (p ∈ sub.purposes)

/-- A card of one key. -/
def cardOf (pkix : Bytes) (now : ℤ) : IDCard Unit where
  selfKey := pkix
  subkeys := [{ key := pkix, issued := now, expires := none, purposes := [signPurpose] }]
  groups := none
  metadata := none
  rest := ()

/-- What a card is signed as: its own key and the keys of its groups. -/
def writeCard (card : IDCard Unit) : Bytes :=
  card.selfKey ++ match card.groups with
    | none => [0]
    | some gs => 1 :: gs.flatMap Membership.key

def readCard : Bytes → Except Text (IDCard Unit)
  | a :: b :: _ => .ok (cardOf [a, b] 0)
  | _ => .error "not a card".toList

end Plain

open Plain in
/-- The library in which nothing is secret. -/
def plain : Bottlers where
  Secret _ := UInt8
  Rest := Unit
  Keychain := List Key
  PublicKey := PublicKey
  Bottle := PlainBottle
  OpenResult := Opened
  Seed := Unit
  sha256 b := ⟨(b ++ List.replicate 32 0).take 32, by simp⟩
  generate _ := 0
  ecdsaToBytes sk := [sk]
  ecdsaFromBytes b := .ok (b.headD 0)
  ed25519ToBytes sk := [sk]
  ed25519FromBytes b := b.headD 0
  rsaToPkcs8Der sk := [sk]
  rsaFromPkcs8Der b := .ok (b.headD 0)
  publicPkix key := .ok (toPkix (publicKey key))
  newKeychain := []
  addKey kc key := .ok (kc ++ [key])
  keys kc := kc
  getKey kc pkix := kc.find? fun key => decide (toPkix (publicKey key) = pkix)
  firstSigner kc := kc.find? fun key => decide (signPurpose ∈ keyPurposes key.1)
  newCard key now := .ok (cardOf (toPkix (publicKey key)) now)
  signCard _ _ card := .ok (writeCard card)
  fromSigned := readCard
  keysFor card p now :=
    (card.subkeys.filter fun sub => hasPurpose sub p && sub.unexpired now).filterMap (ofPkix ·.key)
  hasPurpose := Plain.hasPurpose
  addPurpose sub ps := { sub with purposes := sub.purposes ++ ps }
  verifyMembership _ := .ok ()
  newBottle payload := ⟨none, [], payload⟩
  encrypt _ pks b :=
    if pks = [] then .error "no recipient".toList else .ok { b with recipients := some pks }
  bottleUp b := .ok b
  sign _ key b := .ok { b with signers := b.signers ++ [publicKey key] }
  toCbor b := .ok (write b)
  openCbor kc buf := match read buf with
    | some b => openBottle kc b
    | none => .error "not a bottle".toList
  decryption := Opened.decryption
  signedByPkix info pkix := decide (pkix ∈ info.signers.map toPkix)

namespace Plain

/-- The key of a kind with the given byte. -/
def mk (kind : KeyKind) (b : UInt8) : plain.PrivateKey := ⟨kind, b⟩

theorem readKeys_writeKeys (pks : List PublicKey) (rest : Bytes) :
    readKeys (writeKeys pks ++ rest) = some (pks, rest) := by
  induction pks with
  | nil => rfl
  | cons pk pks ih =>
    show (readKeys (writeKeys pks ++ rest)).map _ = _
    rw [ih]
    rfl

theorem read_write (b : PlainBottle) : read (write b) = some b := by
  obtain ⟨recipients, signers, payload⟩ := b
  cases recipients with
  | none =>
    show (readKeys (writeKeys signers ++ payload)).map _ = _
    rw [readKeys_writeKeys]
    rfl
  | some pks =>
    show (readKeys (writeKeys pks ++ (writeKeys signers ++ payload))).bind _ = _
    rw [readKeys_writeKeys, Option.bind_some, readKeys_writeKeys]
    rfl

theorem openBottle_of_mem {kc : List Key} {pks signers : List PublicKey} {payload : Bytes}
    {key : Key} (hkc : key ∈ kc) (hmem : publicKey key ∈ pks) :
    openBottle kc ⟨some pks, signers, payload⟩ = .ok (payload, ⟨1, signers⟩) :=
  if_pos (List.any_eq_true.2 ⟨key, hkc, decide_eq_true hmem⟩)

theorem openCbor_write (kc : List Key) (b : PlainBottle) :
    plain.openCbor kc (write b) = openBottle kc b := by
  show (match read (write b) with
    | some b => openBottle kc b
    | none => _) = _
  rw [read_write]

theorem mem_keysFor {card : plain.Card} {sub : SubKey} {pk : PublicKey} {p : Text} {now : ℤ}
    (hs : sub ∈ card.subkeys) (hp : plain.hasPurpose sub p = true) (he : sub.expires = none)
    (hk : sub.key = toPkix pk) : pk ∈ plain.keysFor card p now := by
  refine List.mem_filterMap.2 ⟨sub, List.mem_filter.2 ⟨hs, ?_⟩, by rw [hk]; rfl⟩
  have hexp : sub.unexpired now = true := by rw [SubKey.unexpired, he]; rfl
  rw [hexp, Bool.and_true]
  exact hp

end Plain

open Plain in
/-- The library without secrecy behaves as the client expects. -/
theorem plain_lawful : plain.Lawful where
  publicPkix_ecdsa sk copy h := by
    obtain rfl := Except.ok.inj h
    rfl
  publicPkix_ed25519 _ := rfl
  publicPkix_rsa sk copy h := by
    obtain rfl := Except.ok.inj h
    rfl
  kind_eq key key' pkix h h' := by
    have hpkix : toPkix (publicKey key) = toPkix (publicKey key') :=
      Except.ok.inj (h.trans h'.symm)
    have hbyte : kindByte key.1 = kindByte key'.1 := (List.cons_eq_cons.1 hpkix).1
    revert hbyte
    cases key.1 <;> cases key'.1 <;> decide
  keys_newKeychain := rfl
  holds_addKey kc kc' key h k := by
    obtain rfl := Except.ok.inj h
    constructor
    · rintro ⟨k', hk', hsame⟩
      rcases List.mem_append.1 hk' with hk' | hk'
      · exact .inl ⟨k', hk', hsame⟩
      · exact .inr (List.mem_singleton.1 hk' ▸ hsame)
    · rintro (⟨k', hk', hsame⟩ | hsame)
      · exact ⟨k', List.mem_append_left _ hk', hsame⟩
      · exact ⟨key, List.mem_append_right _ List.mem_cons_self, hsame⟩
  getKey_eq_some kc pkix key h := by
    have hfind : kc.find? (fun key => decide (toPkix (publicKey key) = pkix)) = some key := h
    have hpkix : toPkix (publicKey key) = pkix := by simpa using List.find?_some hfind
    exact ⟨List.mem_of_find?_eq_some hfind, congrArg Except.ok hpkix⟩
  firstSigner_eq_some kc key h := by
    have hfind : kc.find? (fun key => decide (signPurpose ∈ keyPurposes key.1)) = some key := h
    have hsign : signPurpose ∈ keyPurposes key.1 := by simpa using List.find?_some hfind
    exact ⟨List.mem_of_find?_eq_some hfind, hsign⟩
  newCard_eq_ok key now card h := by
    obtain rfl := Except.ok.inj h
    refine ⟨rfl, fun sub hsub => ?_⟩
    obtain rfl := List.mem_singleton.1 hsub
    refine ⟨rfl, rfl, ?_⟩
    show decide (decryptPurpose ∈ [signPurpose]) = false
    decide
  hasPurpose_nil sub p h := by
    show decide (p ∈ sub.purposes) = false
    rw [h]
    rfl
  hasPurpose_addPurpose sub ps p := by
    show decide (p ∈ sub.purposes ++ ps) = true ↔ decide (p ∈ sub.purposes) = true ∨ p ∈ ps
    rw [decide_eq_true_iff, decide_eq_true_iff, List.mem_append]
  key_addPurpose _ _ := rfl
  expires_addPurpose _ _ := rfl
  encrypt_ok seed card now b hsound := by
    rintro ⟨sub, hsub, hp⟩
    obtain ⟨hexp, key, hkey, -⟩ := hsound sub hsub
    have hmem : publicKey key ∈ plain.keysFor card decryptPurpose now :=
      mem_keysFor hsub hp hexp (Except.ok.inj hkey).symm
    exact ⟨_, if_neg (List.ne_nil_of_mem hmem)⟩
  bottleUp_ok b := ⟨b, rfl⟩
  sign_ok _ _ _ _ := ⟨_, rfl⟩
  toCbor_ok _ := ⟨_, rfl⟩
  openCbor_sealed kc card sub key signer pkix payload buf now seed seed' b b' b'' := by
    intro hkc _ hkey hsub hp hexp hb hb' hb'' hbuf hpkix
    have hmem : publicKey key ∈ plain.keysFor card decryptPurpose now :=
      mem_keysFor hsub hp hexp (Except.ok.inj hkey).symm
    obtain rfl := Except.ok.inj ((if_neg (List.ne_nil_of_mem hmem)).symm.trans hb)
    obtain rfl := Except.ok.inj hb'
    obtain rfl := Except.ok.inj hb''
    obtain rfl := Except.ok.inj hbuf
    obtain rfl := Except.ok.inj hpkix
    refine ⟨⟨1, [publicKey signer]⟩, (openCbor_write kc _).trans (openBottle_of_mem hkc hmem),
      Nat.one_ne_zero, ?_⟩
    show decide (toPkix (publicKey signer) ∈ [toPkix (publicKey signer)]) = true
    exact decide_eq_true List.mem_cons_self

open Plain in
theorem plain_signedWith {keys : List Key} {b b' : PlainBottle}
    (h : plain.SignedWith keys b b') : b'.recipients = b.recipients ∧ b'.payload = b.payload ∧
      b'.signers = b.signers ++ keys.map publicKey := by
  induction keys generalizing b with
  | nil =>
    obtain rfl : b = b' := h
    exact ⟨rfl, rfl, (List.append_nil _).symm⟩
  | cons key keys ih =>
    obtain ⟨_, _, hsign, h⟩ := h
    obtain rfl := Except.ok.inj hsign
    obtain ⟨hrecipients, hpayload, hsigners⟩ := ih h
    exact ⟨hrecipients, hpayload, hsigners.trans (List.append_assoc ..)⟩

open Plain in
theorem signedByPkix_map {decryption : ℕ} {pkix : Bytes} (keys : List Key) :
    plain.signedByPkix ⟨decryption, keys.map publicKey⟩ pkix = true ↔
      ∃ key ∈ keys, plain.publicPkix key = .ok pkix := by
  show decide (pkix ∈ (keys.map publicKey).map toPkix) = true ↔ _
  rw [decide_eq_true_iff, List.map_map, List.mem_map]
  exact exists_congr fun key => and_congr_right fun _ => ⟨congrArg Except.ok, Except.ok.inj⟩

open Plain in
theorem plain_opensSigned : plain.OpensSigned := by
  intro kc card sub key signers payload buf now seed b b' b'' hkc _ hkey hsub hp hexp hb hb' hb''
    hbuf
  have hmem : publicKey key ∈ plain.keysFor card decryptPurpose now :=
    mem_keysFor hsub hp hexp (Except.ok.inj hkey).symm
  obtain rfl := Except.ok.inj ((if_neg (List.ne_nil_of_mem hmem)).symm.trans hb)
  obtain rfl := Except.ok.inj hb'
  obtain rfl := Except.ok.inj hbuf
  have hsigned : b'' = PlainBottle.mk (some (plain.keysFor card decryptPurpose now))
      (List.map publicKey signers) payload := by
    obtain ⟨hrecipients, hpayload, hsigners⟩ := plain_signedWith hb''
    cases b''
    exact congr (congr (congrArg PlainBottle.mk hrecipients) hsigners) hpayload
  rw [hsigned]
  refine ⟨⟨1, List.map publicKey signers⟩,
    (openCbor_write kc _).trans (openBottle_of_mem hkc hmem), Nat.one_ne_zero, fun _ => ?_⟩
  exact signedByPkix_map signers

/-- The owner of the key `[0, 5]`. -/
def Account.plainAccount : Account plain where
  kc := [Plain.mk .ecdsa 5]
  signerPkix := [0, 5]
  opener := [Plain.mk .ecdsa 5]
  signer := Plain.mk .ecdsa 5
  signer_eq := rfl

end Spot

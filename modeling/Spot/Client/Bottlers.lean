import Spot.Proto.Types

/-!
# Keys, cards and bottles

The cryptography of the client is a parameter.  `Bottlers` has the types of keys, keychains and
bottles and the functions on them that the client calls; functions that draw random bytes take a
seed, and errors are the texts they are displayed as.  Identity cards and what is on them are plain
records, of which the client reads and changes the fields.
-/

namespace Spot

/-- The kinds of private keys. -/
inductive KeyKind
  | ecdsa | ed25519 | rsa | x25519 | mlKem | mlDsa44 | mlDsa65 | mlDsa87 | slhDsa
  deriving DecidableEq

/-- A key listed on a card, with what it is for; times are Unix seconds. -/
structure SubKey where
  key : Bytes
  issued : ℤ
  expires : Option ℤ
  purposes : List Text
  deriving DecidableEq

/-- A signed membership record of a group. -/
structure Membership where
  subject : Option Bytes
  key : Bytes
  status : Text
  issued : ℤ
  info : Option (List (Str × Str))
  signKey : Option Bytes
  signature : Option Bytes
  deriving DecidableEq

/-- An identity card; `rest` stands for the fields the client leaves alone. -/
structure IDCard (ρ : Type) where
  selfKey : Bytes
  subkeys : List SubKey
  groups : Option (List Membership)
  metadata : Option (List (Str × Str))
  rest : ρ
  deriving DecidableEq

/-- The cryptographic library.  Here `newKeychain` is one keychain, and the order of `keys` is a
function of the keychain; the library's keychains are hash tables, each of which lists its keys in a
random order of its own. -/
structure Bottlers where
  Secret : KeyKind → Type
  Rest : Type
  Keychain : Type
  PublicKey : Type
  Bottle : Type
  OpenResult : Type
  Seed : Type
  sha256 : Bytes → List.Vector UInt8 32
  -- private keys
  generate : Seed → Secret .ecdsa
  ecdsaToBytes : Secret .ecdsa → Bytes
  ecdsaFromBytes : Bytes → Except Text (Secret .ecdsa)
  ed25519ToBytes : Secret .ed25519 → Bytes
  ed25519FromBytes : Bytes → Secret .ed25519
  rsaToPkcs8Der : Secret .rsa → Bytes
  rsaFromPkcs8Der : Bytes → Except Text (Secret .rsa)
  publicPkix : (k : KeyKind) × Secret k → Except Text Bytes
  -- keychains
  newKeychain : Keychain
  addKey : Keychain → (k : KeyKind) × Secret k → Except Text Keychain
  keys : Keychain → List ((k : KeyKind) × Secret k)
  getKey : Keychain → Bytes → Option ((k : KeyKind) × Secret k)
  firstSigner : Keychain → Option ((k : KeyKind) × Secret k)
  -- cards
  newCard : (k : KeyKind) × Secret k → ℤ → Except Text (IDCard Rest)
  signCard : Seed → (k : KeyKind) × Secret k → IDCard Rest → Except Text Bytes
  fromSigned : Bytes → Except Text (IDCard Rest)
  keysFor : IDCard Rest → Text → ℤ → List PublicKey
  hasPurpose : SubKey → Text → Bool
  addPurpose : SubKey → List Text → SubKey
  verifyMembership : Membership → Except Text Unit
  -- bottles
  newBottle : Bytes → Bottle
  encrypt : Seed → List PublicKey → Bottle → Except Text Bottle
  bottleUp : Bottle → Except Text Bottle
  sign : Seed → (k : KeyKind) × Secret k → Bottle → Except Text Bottle
  toCbor : Bottle → Except Text Bytes
  openCbor : Keychain → Bytes → Except Text (Bytes × OpenResult)
  decryption : OpenResult → ℕ
  signedByPkix : OpenResult → Bytes → Bool

namespace Bottlers

/-- A private key of any kind. -/
abbrev PrivateKey (B : Bottlers) : Type := (k : KeyKind) × B.Secret k

/-- A card, as this library makes them. -/
abbrev Card (B : Bottlers) : Type := IDCard B.Rest

end Bottlers

/-- The keys of a client. -/
structure Account (B : Bottlers) where
  kc : B.Keychain
  signerPkix : Bytes
  opener : B.Keychain
  /-- The main signing key. -/
  signer : B.PrivateKey
  signer_eq : B.getKey kc signerPkix = some signer

/-! ## Errors -/

/-- The errors of the client. -/
inductive Error
  | io (e : Text)
  | tls (e : Text)
  | ws (e : Text)
  | proto (e : ProtoError)
  | bottle (e : Text)
  | api (e : Text)
  | timeout
  | closed
  | invalidTarget (target : Text)
  | remote (e : Text)
  | other (e : Text)
  deriving DecidableEq

/-- The text an error of the protocol crate is displayed as. -/
def ProtoError.display : ProtoError → Text
  | emptyBuffer => "empty buffer".toList
  | invalidVersion v p =>
    "invalid packet version ".toList ++ (Nat.repr v.toNat).toList ++ " (packet ".toList ++
      (Nat.repr p.toNat).toList ++ ")".toList
  | unknownPacket p =>
    "failed to parse message: unknown packet id ".toList ++ Nat.toDigits 16 p.toNat
  | truncated => "truncated packet".toList
  | nameTooLong => "cannot read name from packet: too long".toList
  | cbor e => "cbor error: ".toList ++ e
  | bottle e => "bottle error: ".toList ++ e

/-- The text an error is displayed as. -/
def Error.display : Error → Text
  | io e => "io error: ".toList ++ e
  | tls e => "tls error: ".toList ++ e
  | ws e => "websocket error: ".toList ++ e
  | proto e => "protocol error: ".toList ++ e.display
  | bottle e => "crypto error: ".toList ++ e
  | api e => "api error: ".toList ++ e
  | timeout => "operation timed out".toList
  | closed => "client is closed".toList
  | invalidTarget t => "invalid target ".toList ++ t
  | remote e | other e => e

/-- The result of a function of the client. -/
abbrev Result := Except Error

/-- A result of the cryptographic library, with its error wrapped as `?` wraps it. -/
def wrapBottle {α : Type} : Except Text α → Result α
  | .ok a => .ok a
  | .error e => .error (.bottle e)

@[simp] theorem wrapBottle_eq_ok {α : Type} {x : Except Text α} {a : α} :
    wrapBottle x = .ok a ↔ x = .ok a := by
  cases x with
  | ok b => simp [wrapBottle]
  | error e => simp [wrapBottle]

theorem wrapBottle_eq_error {α : Type} {x : Except Text α} {e : Error}
    (h : wrapBottle x = .error e) : ∃ text, e = .bottle text := by
  cases x with
  | ok a => cases h
  | error text => exact ⟨text, (Except.error.inj h).symm⟩

theorem bind_eq_ok {α β : Type} {x : Result α} {f : α → Result β} {b : β}
    (h : (x >>= f) = .ok b) : ∃ a, x = .ok a ∧ f a = .ok b := by
  cases x with
  | ok a => exact ⟨a, rfl, h⟩
  | error e => cases h

theorem bind_wrapBottle_eq_error {α β : Type} {x : Except Text α} {f : α → Result β} {e : Error}
    (h : (wrapBottle x >>= f) = .error e) :
    (∃ text, e = .bottle text) ∨ ∃ a, f a = .error e := by
  cases x with
  | ok a => exact .inr ⟨a, h⟩
  | error text => exact .inl ⟨text, (Except.error.inj h).symm⟩

end Spot

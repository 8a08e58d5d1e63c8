import Spot.Client.Bottlers
import Spot.Proto.Handshake

/-!
# Identity helpers

Copies of private keys, the keys listed on a card, who signed a bottle, and the update of a card's
group memberships from signed records.  `updateGroups` changes the card record by record and may
stop in the middle: `updateGroups_eq` says what it does in terms of the records it applies
(`appliedRecords`) and of the first one that fails (`firstFailure`).
-/

namespace Spot

/-! ## Keys -/

/-- Duplicates a private key through its secret material. -/
def clonePrivateKey (B : Bottlers) : B.PrivateKey → Result B.PrivateKey
  | ⟨.ecdsa, sk⟩ =>
    match B.ecdsaFromBytes (B.ecdsaToBytes sk) with
    | .ok copy => .ok ⟨.ecdsa, copy⟩
    | .error e => .error (.other ("bad ecdsa key: ".toList ++ e))
  | ⟨.ed25519, sk⟩ => .ok ⟨.ed25519, B.ed25519FromBytes (B.ed25519ToBytes sk)⟩
  | ⟨.rsa, sk⟩ =>
    match B.rsaFromPkcs8Der (B.rsaToPkcs8Der sk) with
    | .ok copy => .ok ⟨.rsa, copy⟩
    | .error e => .error (.other ("bad rsa key: ".toList ++ e))
  | _ => .error (.other "unsupported key type for spot client identity".toList)

def decryptPurpose : Text := "decrypt".toList

def signPurpose : Text := "sign".toList

/-- The purposes a key is listed with on a card. -/
def keyPurposes : KeyKind → List Text
  | .ecdsa | .rsa => [decryptPurpose, signPurpose]
  | .ed25519 => [signPurpose]
  | .x25519 | .mlKem => [decryptPurpose]
  | .mlDsa44 | .mlDsa65 | .mlDsa87 => [signPurpose]
  | .slhDsa => [signPurpose]

/-- Adds purposes to the first subkey `pkix` of a list, or a new subkey at its end. -/
def addPurposesTo (B : Bottlers) (pkix : Bytes) (purposes : List Text) (now : ℤ) :
    List SubKey → List SubKey
  | [] => [B.addPurpose { key := pkix, issued := now, expires := none, purposes := [] } purposes]
  | sub :: subs =>
    if sub.key = pkix then B.addPurpose sub purposes :: subs
    else sub :: addPurposesTo B pkix purposes now subs

/-- Adds purposes to the subkey of the card matching `pkix`, creating the entry if needed. -/
def addKeyPurposes (B : Bottlers) (id : B.Card) (pkix : Bytes) (purposes : List Text) (now : ℤ) :
    B.Card :=
  { id with subkeys := addPurposesTo B pkix purposes now id.subkeys }

/-- `add_keychain`, for the keys of the keychain in their order. -/
def addKeys (B : Bottlers) (id : B.Card) (now : ℤ) : List B.PrivateKey → Result B.Card
  | [] => .ok id
  | key :: keys =>
    if keyPurposes key.1 = [] then addKeys B id now keys
    else match B.publicPkix key with
      | .error e => .error (.bottle e)
      | .ok pkix => addKeys B (addKeyPurposes B id pkix (keyPurposes key.1) now) now keys

/-- Adds the keys of a keychain to the card with their detected purposes. -/
def addKeychain (B : Bottlers) (id : B.Card) (kc : B.Keychain) (now : ℤ) : Result B.Card :=
  addKeys B id now (B.keys kc)

/-- Whether a subkey has not expired. -/
def SubKey.unexpired (sub : SubKey) (now : ℤ) : Bool :=
  (sub.expires.map fun exp => decide (now < exp)).getD true

/-- Whether an opened bottle carries a verified signature by a non-expired `sign` subkey of the
card. -/
def signedBy (B : Bottlers) (info : B.OpenResult) (id : B.Card) (now : ℤ) : Bool :=
  id.subkeys.any fun sub =>
    B.hasPurpose sub signPurpose && sub.unexpired now && B.signedByPkix info sub.key

/-! ## Membership records -/

/-- The value of the first entry of a map with the integer key `key`. -/
def getInteger (entries : List (Value × Value)) (key : ℤ) : Option Value :=
  entries.findSome? fun
    | (.integer i, val) => if i = key then some val else none
    | _ => none

def optBytes (entries : List (Value × Value)) (key : ℤ) : Option Bytes :=
  match getInteger entries key with
  | some (.bytes b) => some b
  | _ => none

/-- Inserts an entry in a map kept in the order of its keys, as `BTreeMap` does. -/
def insertInfo (k v : Str) : List (Str × Str) → List (Str × Str)
  | [] => [(k, v)]
  | (k', v') :: rest =>
    if k.bytes < k'.bytes then (k, v) :: (k', v') :: rest
    else if k = k' then (k, v) :: rest
    else (k', v') :: insertInfo k v rest

/-- The texts of a CBOR map. -/
def infoOf (m : List (Value × Value)) : List (Str × Str) :=
  m.foldl (fun out => fun
    | (.text k, .text v) => insertInfo k v out
    | _ => out) []

/-- An integer as an `i64`. -/
def toI64 (i : ℤ) : ℤ := i.bmod (2 ^ 64)

/-- Parses a standalone CBOR membership record, a map with the integer keys 1 to 7. -/
def parseMembership (C : Ciborium) (buf : Bytes) : Result Membership :=
  match C.fromReader buf with
  | .error e => .error (.other ("failed to unmarshal membership: ".toList ++ e))
  | .ok (.map entries) =>
    let info := match getInteger entries 5 with
      | some (.map m) => some (infoOf m)
      | _ => none
    match optBytes entries 2, getInteger entries 3 with
    | none, _ => .error (.other "membership key missing".toList)
    | some key, some (.text t) =>
      .ok { subject := optBytes entries 1
            key
            status := t.chars
            issued := match getInteger entries 4 with
              | some (.integer i) => toI64 i
              | _ => 0
            info
            signKey := optBytes entries 6
            signature := optBytes entries 7 }
    | some _, _ => .error (.other "membership status missing".toList)
  | .ok _ => .error (.other "membership must be a map".toList)

/-- Replaces the first membership of the same group, or adds one at the end. -/
def replaceOrPush (m : Membership) : List Membership → List Membership
  | [] => [m]
  | sub :: subs => if sub.key = m.key then m :: subs else sub :: replaceOrPush m subs

/-- What a verified record about the card's owner does to the card. -/
def applyMembership {ρ : Type} (id : IDCard ρ) (m : Membership) : IDCard ρ :=
  let groups := id.groups.getD []
  if m.status ≠ "valid".toList then
    { id with groups := some (groups.filter fun sub => sub.key ≠ m.key) }
  else { id with groups := some (replaceOrPush { m with subject := none } groups) }

/-- Updates the card's memberships from records, in order, up to the first that fails; returns the
card as it is then. -/
def updateGroups (B : Bottlers) (C : Ciborium) (id : B.Card) : List Bytes → B.Card × Result Unit
  | [] => (id, .ok ())
  | buf :: data =>
    match parseMembership C buf with
    | .error e => (id, .error e)
    | .ok m =>
      if m.subject ≠ some id.selfKey then updateGroups B C id data
      else match B.verifyMembership m with
        | .error e => (id, .error (.other ("failed to verify membership: ".toList ++ e)))
        | .ok () => updateGroups B C (applyMembership id m) data

/-! ### Which records are applied -/

/-- What a record is to the owner of a key: somebody else's, one to apply, or a failure. -/
def readRecord (B : Bottlers) (C : Ciborium) (selfKey : Bytes) (buf : Bytes) :
    Result (Option Membership) :=
  match parseMembership C buf with
  | .error e => .error e
  | .ok m =>
    if m.subject ≠ some selfKey then .ok none
    else match B.verifyMembership m with
      | .error e => .error (.other ("failed to verify membership: ".toList ++ e))
      | .ok () => .ok (some m)

/-- The records applied before the first that fails. -/
def appliedRecords (B : Bottlers) (C : Ciborium) (selfKey : Bytes) : List Bytes → List Membership
  | [] => []
  | buf :: data =>
    match readRecord B C selfKey buf with
    | .error _ => []
    | .ok m => m.toList ++ appliedRecords B C selfKey data

/-- The error of the first record that fails. -/
def firstFailure (B : Bottlers) (C : Ciborium) (selfKey : Bytes) : List Bytes → Option Error
  | [] => none
  | buf :: data =>
    match readRecord B C selfKey buf with
    | .error e => some e
    | .ok _ => firstFailure B C selfKey data

section

variable {B : Bottlers} {C : Ciborium} {id : B.Card}

@[simp] theorem selfKey_applyMembership {ρ : Type} (id : IDCard ρ) (m : Membership) :
    (applyMembership id m).selfKey = id.selfKey := by
  unfold applyMembership
  split <;> rfl

@[simp] theorem subkeys_applyMembership {ρ : Type} (id : IDCard ρ) (m : Membership) :
    (applyMembership id m).subkeys = id.subkeys := by
  unfold applyMembership
  split <;> rfl

/-- A card that a record was applied to has a list of groups. -/
theorem isSome_groups_applyMembership {ρ : Type} (id : IDCard ρ) (m : Membership) :
    (applyMembership id m).groups.isSome = true := by
  unfold applyMembership
  split <;> rfl

theorem updateGroups_cons (buf : Bytes) (data : List Bytes) :
    updateGroups B C id (buf :: data) =
      match readRecord B C id.selfKey buf with
      | .error e => (id, .error e)
      | .ok m => updateGroups B C (m.toList.foldl applyMembership id) data := by
  rw [updateGroups, readRecord]
  cases parseMembership C buf with
  | error e => rfl
  | ok m =>
    by_cases hm : m.subject ≠ some id.selfKey
    · simp only [if_pos hm]
      rfl
    · simp only [if_neg hm]
      cases B.verifyMembership m <;> rfl

/-- The update applies the records before the first that fails, and reports that one. -/
theorem updateGroups_eq (data : List Bytes) :
    updateGroups B C id data =
      ((appliedRecords B C id.selfKey data).foldl applyMembership id,
        match firstFailure B C id.selfKey data with
        | none => .ok ()
        | some e => .error e) := by
  induction data generalizing id with
  | nil => rfl
  | cons buf data ih =>
    rw [updateGroups_cons, appliedRecords, firstFailure]
    cases readRecord B C id.selfKey buf with
    | error e => rfl
    | ok m =>
      have hself : (m.toList.foldl applyMembership id).selfKey = id.selfKey := by
        cases m <;> simp
      simp only [List.foldl_append]
      rw [ih, hself]

end

end Spot

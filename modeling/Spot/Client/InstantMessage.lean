import Mathlib.Data.List.AList
import Spot.Client.Identity
import Spot.General.Symbolic
import Spot.Proto.Message

/-!
# Messages in bottles

An `InstantMessage` is a bottle with the fields of a message in its header, where flags of zero and
empty names are left out, or the binary form that messages have on the wire.  What opening finds in
the header under any layers of encryption and signatures is a property of the library
(`BottleLib.KeepsInnermost`); `decode_bottle` says that then the message comes back.
-/

namespace Spot

/-- A value in the header of a bottle; `other` stands for the kinds that are not read. -/
inductive HeaderValue
  | bytes (b : Bytes)
  | integer (i : ℤ)
  | text (s : Str)
  | other

/-- The header of a bottle. -/
abbrev Header : Type := AList fun _ : Text => HeaderValue

/-- What opening a bottle finds: the header of the innermost bottle, the number of decryptions, and
who signed. -/
structure OpenResult where
  last : Header
  decryption : ℕ
  signatures : List Bytes

/-- A message with metadata, content and cryptographic information. -/
structure InstantMessage where
  id : MessageId := List.Vector.replicate 16 0
  flags : UInt64 := 0
  recipient : Str := .empty
  sender : Str := .empty
  body : Bytes := []
  encrypted : Bool := false
  signedBy : List Bytes := []

/-- An integer as a `u64`. -/
def toU64 (i : ℤ) : UInt64 := UInt64.ofNat (i % 2 ^ 64).toNat

/-- Sixteen bytes of an id, the first ones from a header. -/
def idOf (v : Bytes) : MessageId :=
  ⟨v.take 16 ++ List.replicate (16 - v.length) 0, by
    rw [List.length_append, List.length_take, List.length_replicate]
    omega⟩

namespace InstantMessage

/-- Extracts a message from an opened bottle, its payload and the result of opening it. -/
def decode (buf : Bytes) (res : OpenResult) : Result InstantMessage :=
  match res.last.lookup "mid".toList with
  | some (.bytes v) =>
    .ok { id := idOf v
          flags := match res.last.lookup "flg".toList with
            | some (.integer i) => toU64 i
            | _ => 0
          recipient := match res.last.lookup "dst".toList with
            | some (.text s) => s
            | _ => .empty
          sender := match res.last.lookup "rto".toList with
            | some (.text s) => s
            | _ => .empty
          body := buf
          encrypted := decide (0 < res.decryption)
          signedBy := res.signatures }
  | _ => .error (.other "invalid message, message ID is missing".toList)

/-- The header that carries the metadata of a message. -/
def header (m : InstantMessage) : Header :=
  let h := AList.insert "mid".toList (HeaderValue.bytes m.id.toList) ∅
  let h := if m.flags ≠ 0 then h.insert "flg".toList (.integer (toI64 m.flags.toNat)) else h
  let h := if m.recipient.chars ≠ [] then h.insert "dst".toList (.text m.recipient) else h
  if m.sender.chars ≠ [] then h.insert "rto".toList (.text m.sender) else h

/-- The binary form. -/
def toBytes (V : Uvarint) (m : InstantMessage) : Bytes :=
  m.id.toList ++ V.append m.flags ++ V.append (UInt64.ofNat m.recipient.len) ++ m.recipient.bytes ++
    V.append (UInt64.ofNat m.sender.len) ++ m.sender.bytes ++ m.body

/-- Reads the id and the flags from a buffer into a message, which keeps the id if the flags cannot
be read; `varintError` is the text of the error then. -/
def readHeader (V : Uvarint) (varintError : Bytes → Text) (im : InstantMessage) (buf : Bytes) :
    InstantMessage × Result ℕ :=
  if h : buf.length < 16 then (im, .error (.other "truncated instant message".toList))
  else
    let im := { im with id := ⟨buf.take 16, length_take_id h⟩ }
    match V.read (buf.drop 16) with
    | none => (im, .error (.other ("bad flags varint: ".toList ++ varintError (buf.drop 16))))
    | some (flags, n) => ({ im with flags }, .ok (16 + n))

/-- The message of the protocol with the same fields. -/
def message (m : InstantMessage) : Message where
  messageId := m.id
  flags := m.flags
  recipient := m.recipient
  sender := m.sender
  body := m.body

end InstantMessage

/-! ## Layers -/

/-- The part of the cryptographic library that puts layers on a bottle with a header and opens them;
errors are the texts they are displayed as. -/
structure BottleLib where
  PublicKey : Type
  PrivateKey : Type
  Keychain : Type
  Seed : Type
  Bottle : Type
  /-- What a bottle is written as. -/
  Wire : Type
  publicPkix : PrivateKey → Bytes
  /-- The keychain has the private key for a public one. -/
  Holds : Keychain → PublicKey → Prop
  /-- A new bottle, with a header that was filled in. -/
  newBottle : Header → Bytes → Bottle
  encrypt : Seed → List PublicKey → Bottle → Except Text Bottle
  bottleUp : Bottle → Except Text Bottle
  sign : Seed → PrivateKey → Bottle → Except Text Bottle
  toCbor : Bottle → Except Text Wire
  openCbor : Keychain → Wire → Except Text (Bytes × OpenResult)

/-- Something that is done to a bottle. -/
inductive Layer (L : BottleLib)
  | encrypt (seed : L.Seed) (keys : List L.PublicKey)
  | bottleUp
  | sign (seed : L.Seed) (key : L.PrivateKey)

namespace Layer

variable {L : BottleLib}

def apply : Layer L → L.Bottle → Except Text L.Bottle
  | encrypt seed keys, b => L.encrypt seed keys b
  | bottleUp, b => L.bottleUp b
  | sign seed key, b => L.sign seed key b

/-- Puts layers on a bottle, one after the other. -/
def applyAll : List (Layer L) → L.Bottle → Except Text L.Bottle
  | [], b => .ok b
  | l :: ls, b => l.apply b >>= applyAll ls

/-- Some layer is one of encryption. -/
def Encrypted (ls : List (Layer L)) : Prop := ∃ seed keys, encrypt seed keys ∈ ls

/-- Some layer is the signature of the signer. -/
def SignedBy (ls : List (Layer L)) (signer : Bytes) : Prop :=
  ∃ seed key, sign seed key ∈ ls ∧ L.publicPkix key = signer

/-- The keychain has a key for every layer of encryption. -/
def Opened (kc : L.Keychain) (ls : List (Layer L)) : Prop :=
  ∀ seed keys, encrypt seed keys ∈ ls → ∃ k ∈ keys, L.Holds kc k

end Layer

/-- The behaviour of the library: whatever layers are put on a bottle, opening them gives its
payload and its header back, says whether something was encrypted, and lists the signers. -/
def BottleLib.KeepsInnermost (L : BottleLib) : Prop :=
  ∀ (header : Header) (payload : Bytes) (ls : List (Layer L)) (b : L.Bottle) (wire : L.Wire)
    (kc : L.Keychain), Layer.applyAll ls (L.newBottle header payload) = .ok b →
    L.toCbor b = .ok wire → Layer.Opened kc ls →
      ∃ res, L.openCbor kc wire = .ok (payload, res) ∧ res.last = header ∧
        (0 < res.decryption ↔ Layer.Encrypted ls) ∧
        ∀ signer, signer ∈ res.signatures ↔ Layer.SignedBy ls signer

/-- The bottle of a message, ready for encryption and signing. -/
def InstantMessage.bottle (L : BottleLib) (m : InstantMessage) : L.Bottle :=
  L.newBottle m.header m.body

/-! ## The header of a message -/

section Header

variable {m : InstantMessage}

theorem lookup_insert_if {c : Prop} [Decidable c] {k k' : Text} {v : HeaderValue} {h : Header} :
    AList.lookup k (if c then h.insert k' v else h) =
      if k = k' ∧ c then some v else h.lookup k := by
  by_cases hc : c
  · rw [if_pos hc]
    by_cases hk : k = k'
    · rw [if_pos ⟨hk, hc⟩, hk, AList.lookup_insert]
    · rw [if_neg fun h => hk h.1, AList.lookup_insert_ne hk]
  · rw [if_neg hc, if_neg fun h => hc h.2]

theorem header_mid : m.header.lookup "mid".toList = some (.bytes m.id.toList) := by
  have hflg : "mid".toList ≠ "flg".toList := by decide
  have hdst : "mid".toList ≠ "dst".toList := by decide
  have hrto : "mid".toList ≠ "rto".toList := by decide
  simp only [InstantMessage.header, lookup_insert_if, hflg, hdst, hrto, false_and, if_false,
    AList.lookup_insert]

theorem header_flg : m.header.lookup "flg".toList =
    if m.flags ≠ 0 then some (.integer (toI64 m.flags.toNat)) else none := by
  have hmid : "flg".toList ≠ "mid".toList := by decide
  have hdst : "flg".toList ≠ "dst".toList := by decide
  have hrto : "flg".toList ≠ "rto".toList := by decide
  simp only [InstantMessage.header, lookup_insert_if, hdst, hrto, false_and, if_false, true_and,
    AList.lookup_insert_ne hmid, AList.lookup_empty]

theorem header_dst : m.header.lookup "dst".toList =
    if m.recipient.chars ≠ [] then some (.text m.recipient) else none := by
  have hmid : "dst".toList ≠ "mid".toList := by decide
  have hflg : "dst".toList ≠ "flg".toList := by decide
  have hrto : "dst".toList ≠ "rto".toList := by decide
  simp only [InstantMessage.header, lookup_insert_if, hflg, hrto, false_and, if_false, true_and,
    AList.lookup_insert_ne hmid, AList.lookup_empty]

theorem header_rto : m.header.lookup "rto".toList =
    if m.sender.chars ≠ [] then some (.text m.sender) else none := by
  have hmid : "rto".toList ≠ "mid".toList := by decide
  have hflg : "rto".toList ≠ "flg".toList := by decide
  have hdst : "rto".toList ≠ "dst".toList := by decide
  simp only [InstantMessage.header, lookup_insert_if, hflg, hdst, false_and, if_false, true_and,
    AList.lookup_insert_ne hmid, AList.lookup_empty]

/-- Flags come back from the signed integer they are written as. -/
theorem toU64_toI64 (n : UInt64) : toU64 (toI64 n.toNat) = n := by
  have hlt := n.toNat_lt
  have hmod : toI64 n.toNat % (2 ^ 64 : ℕ) = n.toNat := by
    rw [toI64, Int.bmod_emod]
    omega
  have hcast : toI64 n.toNat % 2 ^ 64 = n.toNat := hmod
  rw [toU64, hcast, Int.toNat_natCast, UInt64.ofNat_toNat]

theorem idOf_toList (id : MessageId) : idOf id.toList = id := by
  obtain ⟨l, hl⟩ := id
  refine Subtype.ext ?_
  show l.take 16 ++ List.replicate (16 - l.length) 0 = l
  rw [hl, List.take_of_length_le (by omega), Nat.sub_self, List.replicate_zero, List.append_nil]

theorem Str.eq_empty {s : Str} (h : s.chars = []) : s = .empty := Str.ext h

/-- A header gives back the message it was made from, whatever the payload is. -/
theorem decode_header {res : OpenResult} (h : res.last = m.header) (buf : Bytes) :
    InstantMessage.decode buf res =
      .ok { m with body := buf, encrypted := decide (0 < res.decryption)
                   signedBy := res.signatures } := by
  have hflags : (match if m.flags ≠ 0 then some (HeaderValue.integer (toI64 m.flags.toNat))
      else none with
      | some (.integer i) => toU64 i
      | _ => 0) = m.flags := by
    by_cases hz : m.flags = 0
    · simp [hz]
    · simp [hz, toU64_toI64]
  have hname : ∀ s : Str, (match if s.chars ≠ [] then some (HeaderValue.text s) else none with
      | some (.text s) => s
      | _ => .empty) = s := by
    intro s
    by_cases he : s.chars = []
    · rw [Str.eq_empty he]
      rfl
    · simp [he]
  unfold InstantMessage.decode
  rw [h, header_mid, header_flg, header_dst, header_rto]
  simp only [idOf_toList, hflags, hname]

end Header

/-- What is read from the binary form: the id, and the flags up to the length of the recipient. -/
theorem readHeader_toBytes {V : Uvarint} (hV : V.Lawful) (varintError : Bytes → Text)
    (im m : InstantMessage) :
    im.readHeader V varintError (m.toBytes V) =
      ({ im with id := m.id, flags := m.flags }, .ok (16 + (V.append m.flags).length)) := by
  obtain ⟨id, hid⟩ : ∃ id, m.id.toList = id := ⟨_, rfl⟩
  have hlen : id.length = 16 := by rw [← hid, List.Vector.toList_length]
  have hbuf : m.toBytes V = id ++ (V.append m.flags ++ (V.append (UInt64.ofNat m.recipient.len) ++
      (m.recipient.bytes ++ (V.append (UInt64.ofNat m.sender.len) ++
        (m.sender.bytes ++ m.body))))) := by
    simp only [InstantMessage.toBytes, hid, List.append_assoc]
  have hge : ¬ (m.toBytes V).length < 16 := by
    rw [hbuf, List.length_append, hlen]
    omega
  have htake : (m.toBytes V).take 16 = id := by rw [hbuf, ← hlen, List.take_left]
  have hdrop : (m.toBytes V).drop 16 = V.append m.flags ++
      (V.append (UInt64.ofNat m.recipient.len) ++ (m.recipient.bytes ++
        (V.append (UInt64.ofNat m.sender.len) ++ (m.sender.bytes ++ m.body)))) := by
    rw [hbuf, ← hlen, List.drop_left]
  have hsame : ∀ h, (⟨(m.toBytes V).take 16, h⟩ : MessageId) = m.id := fun _ =>
    Subtype.ext (htake.trans hid.symm)
  unfold InstantMessage.readHeader
  rw [dif_neg hge, hdrop, hV.read_append]
  simp only [hsame]

/-- What stands at the offset that is returned. -/
theorem drop_toBytes (V : Uvarint) (m : InstantMessage) :
    (m.toBytes V).drop (16 + (V.append m.flags).length) =
      V.append (UInt64.ofNat m.recipient.len) ++ (m.recipient.bytes ++
        (V.append (UInt64.ofNat m.sender.len) ++ (m.sender.bytes ++ m.body))) := by
  have hlen : 16 + (V.append m.flags).length = (m.id.toList ++ V.append m.flags).length := by
    rw [List.length_append, List.Vector.toList_length]
  rw [hlen]
  simp only [InstantMessage.toBytes, List.append_assoc]
  rw [← List.append_assoc m.id.toList, List.drop_left]

/-- A message comes back from its bottle under any layers, with whether it was encrypted and who
signed it; and its binary form is that of the protocol, of which the first fields can be read. -/
theorem decode_bottle {L : BottleLib} (hL : L.KeepsInnermost) {V : Uvarint} (hV : V.Lawful)
    (m : InstantMessage) :
    (∀ (ls : List (Layer L)) b wire kc, Layer.applyAll ls (m.bottle L) = .ok b →
      L.toCbor b = .ok wire → Layer.Opened kc ls → ∃ buf res m',
        L.openCbor kc wire = .ok (buf, res) ∧
        InstantMessage.decode buf res = .ok m' ∧ m'.id = m.id ∧ m'.flags = m.flags ∧
        m'.recipient = m.recipient ∧ m'.sender = m.sender ∧ m'.body = m.body ∧
        (m'.encrypted = true ↔ Layer.Encrypted ls) ∧
        ∀ signer, signer ∈ m'.signedBy ↔ Layer.SignedBy ls signer) ∧
    m.toBytes V = m.message.toBytes V ∧
    ∀ varintError (im : InstantMessage), ∃ n,
      im.readHeader V varintError (m.toBytes V) =
        ({ im with id := m.id, flags := m.flags }, .ok n) ∧
      (m.toBytes V).drop n = V.append (UInt64.ofNat m.recipient.len) ++ (m.recipient.bytes ++
        (V.append (UInt64.ofNat m.sender.len) ++ (m.sender.bytes ++ m.body))) := by
  refine ⟨fun ls b wire kc hb hwire hkc => ?_, rfl, fun varintError im =>
    ⟨_, readHeader_toBytes hV varintError im m, drop_toBytes V m⟩⟩
  obtain ⟨res, hopen, hlast, hdec, hsigned⟩ := hL m.header m.body ls b wire kc hb hwire hkc
  refine ⟨m.body, res, _, hopen, decode_header hlast m.body, rfl, rfl, rfl, rfl, rfl, ?_, hsigned⟩
  rw [← hdec]
  exact decide_eq_true_iff

/-! ### A library without secrecy -/

/-- A bottle with a header, in the open. -/
structure OpenBottle where
  header : Header
  payload : Bytes

/-- What opening finds under the layers, with the keys in `kc`. -/
def openEnvelope (kc : List UInt8) (b : Envelope UInt8 UInt8 OpenBottle) :
    Except Text (Bytes × OpenResult) :=
  if b.Opens (· ∈ kc) then
    .ok (b.payload.payload, ⟨b.payload.header, b.layers, b.signers.map fun key => [key]⟩)
  else .error "no key".toList

theorem openEnvelope_of_opens {kc : List UInt8} {b : Envelope UInt8 UInt8 OpenBottle}
    (h : b.Opens (· ∈ kc)) :
    openEnvelope kc b =
      .ok (b.payload.payload, ⟨b.payload.header, b.layers, b.signers.map fun key => [key]⟩) :=
  if_pos h

/-- The library in which layers are only put down; keys are single bytes. -/
def plainBottles : BottleLib where
  PublicKey := UInt8
  PrivateKey := UInt8
  Keychain := List UInt8
  Seed := Unit
  Bottle := Envelope UInt8 UInt8 OpenBottle
  Wire := Envelope UInt8 UInt8 OpenBottle
  publicPkix key := [key]
  Holds kc k := k ∈ kc
  newBottle header payload := .plain ⟨header, payload⟩
  encrypt _ keys b :=
    if keys = [] then .error "no recipient".toList else .ok (.encrypted keys b)
  bottleUp b := .ok b
  sign _ key b := .ok (.signed key b)
  toCbor b := .ok b
  openCbor := openEnvelope

/-- The second envelope has the payload of the first, and what the layers put on it. -/
structure Adds (ls : List (Layer plainBottles)) (b b' : Envelope UInt8 UInt8 OpenBottle) :
    Prop where
  payload : b'.payload = b.payload
  opens : ∀ kc : List UInt8, Layer.Opened kc ls → b.Opens (· ∈ kc) → b'.Opens (· ∈ kc)
  layers : 0 < b'.layers ↔ 0 < b.layers ∨ Layer.Encrypted ls
  signers : ∀ signer, (∃ key ∈ b'.signers, [key] = signer) ↔
    (∃ key ∈ b.signers, [key] = signer) ∨ Layer.SignedBy ls signer

theorem Adds.nil (b : Envelope UInt8 UInt8 OpenBottle) : Adds [] b b := by
  refine ⟨rfl, fun _ _ => id, ?_, fun signer => ?_⟩
  · simp [Layer.Encrypted]
  · simp [Layer.SignedBy]

theorem Adds.cons {l : Layer plainBottles} {ls : List (Layer plainBottles)}
    {b b' b'' : Envelope UInt8 UInt8 OpenBottle} (h : Adds [l] b b') (h' : Adds ls b' b'') :
    Adds (l :: ls) b b'' := by
  refine ⟨h'.payload.trans h.payload, fun kc hkc ho => ?_, ?_, fun signer => ?_⟩
  · refine h'.opens kc (fun seed keys hmem => hkc seed keys (List.mem_cons_of_mem _ hmem)) ?_
    refine h.opens kc (fun seed keys hmem => hkc seed keys ?_) ho
    rw [List.mem_singleton.1 hmem]
    exact List.mem_cons_self
  · rw [h'.layers, h.layers, or_assoc]
    simp only [Layer.Encrypted, List.mem_cons, List.not_mem_nil, or_false, exists_or]
  · rw [h'.signers, h.signers, or_assoc]
    simp only [Layer.SignedBy, List.mem_cons, List.not_mem_nil, or_false, or_and_right, exists_or]

/-- What a layer adds. -/
theorem adds_apply {l : Layer plainBottles} {b b' : Envelope UInt8 UInt8 OpenBottle}
    (h : l.apply b = .ok b') : Adds [l] b b' := by
  cases l with
  | encrypt seed keys =>
    have hkeys : keys ≠ [] := by
      rintro rfl
      cases h
    obtain rfl := Except.ok.inj ((if_neg hkeys).symm.trans h)
    refine ⟨rfl, fun kc hkc ho => ⟨hkc seed keys (List.mem_singleton_self _), ho⟩, ?_, fun s => ?_⟩
    · have hmem : Layer.Encrypted [Layer.encrypt (L := plainBottles) seed keys] :=
        ⟨seed, keys, List.mem_singleton_self _⟩
      simp [Envelope.layers, hmem]
    · simp [Layer.SignedBy, Envelope.signers]
  | bottleUp =>
    obtain rfl := Except.ok.inj h
    refine ⟨rfl, fun _ _ => id, ?_, fun s => ?_⟩
    · simp [Layer.Encrypted]
    · simp [Layer.SignedBy]
  | sign seed key =>
    obtain rfl := Except.ok.inj h
    refine ⟨rfl, fun _ _ => id, ?_, fun s => ?_⟩
    · simp [Layer.Encrypted, Envelope.layers]
    · have hsigned : Layer.SignedBy [Layer.sign (L := plainBottles) seed key] s ↔ [key] = s := by
        constructor
        · rintro ⟨seed', key', hmem, hs⟩
          obtain ⟨-, rfl⟩ := Layer.sign.inj (List.mem_singleton.1 hmem)
          exact hs
        · exact fun hs => ⟨seed, key, List.mem_singleton_self _, hs⟩
      have hcons : (∃ k ∈ (key : UInt8) :: b.signers, [k] = s) ↔
          [key] = s ∨ ∃ k ∈ b.signers, [k] = s := List.exists_mem_cons_iff ..
      rw [hsigned]
      exact hcons.trans Or.comm

theorem adds_applyAll {ls : List (Layer plainBottles)} {b b' : Envelope UInt8 UInt8 OpenBottle}
    (h : Layer.applyAll ls b = .ok b') : Adds ls b b' := by
  induction ls generalizing b with
  | nil =>
    obtain rfl := Except.ok.inj h
    exact Adds.nil b
  | cons l ls ih =>
    change (l.apply b >>= Layer.applyAll ls) = .ok b' at h
    cases hl : l.apply b with
    | error e =>
      rw [hl] at h
      cases h
    | ok b₁ =>
      rw [hl] at h
      exact (adds_apply hl).cons (ih h)

theorem plainBottles_keepsInnermost : plainBottles.KeepsInnermost := by
  intro header payload ls b wire kc hb hwire hkc
  obtain rfl := Except.ok.inj hwire
  have hadds : Adds ls (.plain ⟨header, payload⟩) b := adds_applyAll hb
  have hopen := openEnvelope_of_opens (hadds.opens kc hkc trivial)
  rw [hadds.payload] at hopen
  refine ⟨_, hopen, rfl, ?_, fun signer => ?_⟩
  · rw [hadds.layers]
    simp [Envelope.layers]
  · rw [List.mem_map, hadds.signers]
    simp [Envelope.signers]

/-- A message with the top bit of the flags set, without a recipient. -/
def flaggedMessage : InstantMessage where
  flags := UInt64.ofNat (2 ^ 63 + 4)
  sender := ⟨"/a".toList, by decide⟩
  body := [7]

/-- A signature with the key 1, an encryption for the key 2, and a signature with the key 3. -/
def threeLayers : List (Layer plainBottles) :=
  [.sign () (1 : UInt8), .bottleUp, .encrypt () [(2 : UInt8)], .sign () (3 : UInt8)]

/-- The message comes back from under these layers. -/
theorem decode_bottle_flagged :
    ∃ wire buf res m', Layer.applyAll threeLayers (flaggedMessage.bottle plainBottles) = .ok wire ∧
      plainBottles.openCbor [(2 : UInt8)] wire = .ok (buf, res) ∧
      InstantMessage.decode buf res = .ok m' ∧ m'.flags = UInt64.ofNat (2 ^ 63 + 4) ∧
      m'.recipient = .empty ∧ m'.encrypted = true := by
  have hopened : Layer.Opened [(2 : UInt8)] threeLayers := by
    intro seed keys hmem
    have hlayer : Layer.encrypt seed keys = Layer.encrypt () [(2 : UInt8)] := by
      simpa [threeLayers] using hmem
    obtain ⟨-, rfl⟩ := Layer.encrypt.inj hlayer
    exact ⟨(2 : UInt8), List.mem_singleton_self _, List.mem_singleton_self _⟩
  obtain ⟨buf, res, m', hopen, hdecode, -, hflags, hrecipient, -, -, henc, -⟩ :=
    (decode_bottle plainBottles_keepsInnermost leb128_lawful flaggedMessage).1 threeLayers _ _
      [(2 : UInt8)] rfl rfl hopened
  exact ⟨_, buf, res, m', rfl, hopen, hdecode, hflags, hrecipient,
    henc.2 ⟨(), [(2 : UInt8)], by simp [threeLayers]⟩⟩

end Spot

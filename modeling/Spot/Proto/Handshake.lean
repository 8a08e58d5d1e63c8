import Spot.Proto.Types

/-!
# Handshake packets

The handshake request (server to client) and response (client to server) are CBOR maps.  CBOR
itself is a parameter: `Ciborium` is the pair of the writer and the reader the crate calls, and
`Ciborium.ReadsBack v` says that the reader returns the value `v` from the bytes the writer made
of it.  `HandshakeRequest.ofMap_toMap` and `HandshakeResponse.ofMap_toMap` are the round trips of
the fields through the map.
-/

namespace Spot

/-- A CBOR value. -/
inductive Value
  | integer (i : ℤ)
  | bytes (b : Bytes)
  | float (bits : UInt64)
  | text (s : Str)
  | bool (b : Bool)
  | null
  | tag (n : UInt64) (v : Value)
  | array (items : List Value)
  | map (entries : List (Value × Value))

/-- The CBOR writer and reader, with the texts of their errors. -/
structure Ciborium where
  intoWriter : Value → Except Text Bytes
  fromReader : Bytes → Except Text Value

/-- What was written for `v` is read back as `v`. -/
def Ciborium.ReadsBack (C : Ciborium) (v : Value) : Prop :=
  ∀ b, C.intoWriter v = .ok b → C.fromReader b = .ok v

/-- Writes a value, wrapping the error. -/
def toCbor (C : Ciborium) (v : Value) : ProtoResult Bytes :=
  match C.intoWriter v with
  | .ok b => .ok b
  | .error e => .error (.err (.cbor e))

theorem toCbor_eq_ok {C : Ciborium} {v : Value} {b : Bytes} :
    toCbor C v = .ok b ↔ C.intoWriter v = .ok b := by
  unfold toCbor
  cases C.intoWriter v with
  | ok b' => simp
  | error e => simp

/-! ## Keys -/

namespace Key

def rdy : Str := ⟨"rdy".toList, by decide⟩
def srv : Str := ⟨"srv".toList, by decide⟩
def cid : Str := ⟨"cid".toList, by decide⟩
def rnd : Str := ⟨"rnd".toList, by decide⟩
def grp : Str := ⟨"grp".toList, by decide⟩
def id : Str := ⟨"id".toList, by decide⟩
def key : Str := ⟨"key".toList, by decide⟩
def sig : Str := ⟨"sig".toList, by decide⟩

end Key

/-! ## Requests -/

/-- A handshake request, sent by the server to start or to complete the handshake. -/
@[ext] structure HandshakeRequest where
  ready : Bool := false
  serverCode : Str := Str.empty
  clientId : Str := Str.empty
  nonce : Bytes := []
  groups : Option (List Bytes) := none
  raw : Option Bytes := none
  deriving DecidableEq

namespace HandshakeRequest

/-- The CBOR map of a request. -/
def toMap (req : HandshakeRequest) : List (Value × Value) :=
  (if req.ready then [(.text Key.rdy, .bool true)] else []) ++
  [(.text Key.srv, .text req.serverCode),
   (.text Key.cid, .text req.clientId),
   (.text Key.rnd, .bytes req.nonce),
   (.text Key.grp, match req.groups with
     | none => .null
     | some g => .array (g.map .bytes))]

/-- The bytes among the items of an array. -/
def bytesItems (items : List Value) : List Bytes :=
  items.filterMap fun
    | .bytes b => some b
    | _ => none

/-- What one entry of the map sets; entries of another key or type are ignored. -/
def setEntry (req : HandshakeRequest) : Value × Value → HandshakeRequest
  | (.text key, .bool b) => if key = Key.rdy then { req with ready := b } else req
  | (.text key, .text s) =>
    if key = Key.srv then { req with serverCode := s }
    else if key = Key.cid then { req with clientId := s }
    else req
  | (.text key, .bytes b) => if key = Key.rnd then { req with nonce := b } else req
  | (.text key, .array items) =>
    if key = Key.grp then { req with groups := some (bytesItems items) } else req
  | _ => req

/-- The request of a CBOR map, read from the bytes `buf`. -/
def ofMap (buf : Bytes) (map : List (Value × Value)) : HandshakeRequest :=
  map.foldl setEntry { raw := some buf }

/-- Serializes the request. -/
def toCbor (C : Ciborium) (req : HandshakeRequest) : ProtoResult Bytes :=
  Spot.toCbor C (.map req.toMap)

/-- Parses a request, remembering the bytes it was parsed from. -/
def fromCbor (C : Ciborium) (buf : Bytes) : ProtoResult HandshakeRequest :=
  match C.fromReader buf with
  | .error e => .error (.err (.cbor e))
  | .ok (.map map) => .ok (ofMap buf map)
  | .ok _ => .error (.err (.cbor "handshake request must be a map".toList))

@[simp] theorem bytesItems_map (g : List Bytes) : bytesItems (g.map .bytes) = g := by
  rw [bytesItems, List.filterMap_map]
  exact List.filterMap_some

/-- The fields come back from the map they were written to. -/
theorem ofMap_toMap (buf : Bytes) (req : HandshakeRequest) :
    ofMap buf req.toMap = { req with raw := some buf } := by
  obtain ⟨ready, serverCode, clientId, nonce, groups, raw⟩ := req
  cases ready <;> cases groups <;>
    simp [ofMap, toMap, setEntry, Key.rdy, Key.srv, Key.cid, Key.rnd, Key.grp]

theorem fromCbor_toCbor {C : Ciborium} {req : HandshakeRequest} {buf : Bytes}
    (hC : C.ReadsBack (.map req.toMap)) (h : req.toCbor C = .ok buf) :
    fromCbor C buf = .ok { req with raw := some buf } := by
  rw [fromCbor, hC buf (toCbor_eq_ok.1 h)]
  simp only [ofMap_toMap]

end HandshakeRequest

/-! ## Responses -/

/-- A handshake response: the client's signed ID card, its public key and its signature. -/
@[ext] structure HandshakeResponse where
  id : Bytes := []
  key : Bytes := []
  sig : Bytes := []
  deriving DecidableEq

namespace HandshakeResponse

/-- The CBOR map of a response; an empty id is written as null. -/
def toMap (res : HandshakeResponse) : List (Value × Value) :=
  [(.text Key.id, if res.id = [] then .null else .bytes res.id),
   (.text Key.key, .bytes res.key),
   (.text Key.sig, .bytes res.sig)]

/-- What one entry of the map sets. -/
def setEntry (res : HandshakeResponse) : Value × Value → HandshakeResponse
  | (.text key, .bytes b) =>
    if key = Key.id then { res with id := b }
    else if key = Key.key then { res with key := b }
    else if key = Key.sig then { res with sig := b }
    else res
  | _ => res

/-- The response of a CBOR map. -/
def ofMap (map : List (Value × Value)) : HandshakeResponse := map.foldl setEntry {}

/-- Serializes the response. -/
def toCbor (C : Ciborium) (res : HandshakeResponse) : ProtoResult Bytes :=
  Spot.toCbor C (.map res.toMap)

/-- Parses a response. -/
def fromCbor (C : Ciborium) (buf : Bytes) : ProtoResult HandshakeResponse :=
  match C.fromReader buf with
  | .error e => .error (.err (.cbor e))
  | .ok (.map map) => .ok (ofMap map)
  | .ok _ => .error (.err (.cbor "handshake response must be a map".toList))

/-- The fields come back from the map they were written to, an empty id through null. -/
theorem ofMap_toMap (res : HandshakeResponse) : ofMap res.toMap = res := by
  obtain ⟨id, key, sig⟩ := res
  by_cases h : id = [] <;> simp [ofMap, toMap, setEntry, h, Key.id, Key.key, Key.sig]

theorem fromCbor_toCbor {C : Ciborium} {res : HandshakeResponse} {buf : Bytes}
    (hC : C.ReadsBack (.map res.toMap)) (h : res.toCbor C = .ok buf) :
    fromCbor C buf = .ok res := by
  rw [fromCbor, hC buf (toCbor_eq_ok.1 h)]
  simp only [ofMap_toMap]

end HandshakeResponse

end Spot

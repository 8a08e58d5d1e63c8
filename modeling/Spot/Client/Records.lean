import Spot.Client.Identity
import Spot.General.Entries

/-!
# Records in CBOR maps

Handshake packets and membership records are CBOR maps.  The readers of the packets go through the
entries and let later ones overwrite earlier ones (`HandshakeRequest.ofMap_eq`,
`HandshakeResponse.ofMap_eq`); that of membership records looks for the first entry of each key.
All three pass over what they do not know, so a record may be written in another order and with more
entries (`records_alike`).
-/

namespace Spot

/-! ## Fields -/

namespace Value

def bool? : Value → Option Bool
  | bool b => some b
  | _ => none

def text? : Value → Option Str
  | text s => some s
  | _ => none

def bytes? : Value → Option Bytes
  | bytes b => some b
  | _ => none

/-- The byte strings of an array. -/
def items? : Value → Option (List Bytes)
  | array items => some (HandshakeRequest.bytesItems items)
  | _ => none

end Value

/-- What an entry with the text key says, if its value has the type that `g` reads. -/
def fieldAt {α : Type} (key : Str) (g : Value → Option α) : Value × Value → Option α
  | (.text k, v) => if k = key then g v else none
  | _ => none

theorem fst_of_fieldAt {α : Type} {key : Str} {g : Value → Option α} {e : Value × Value}
    (h : (fieldAt key g e).isSome = true) : e.1 = .text key := by
  unfold fieldAt at h
  split at h
  · split_ifs at h with hk
    · rw [hk]
    · cases h
  · cases h

namespace HandshakeRequest

variable (req : HandshakeRequest) (e : Value × Value)

/-- What one entry does to each field. -/
theorem setEntry_fields :
    (req.setEntry e).ready = (fieldAt Key.rdy Value.bool? e).getD req.ready ∧
      (req.setEntry e).serverCode = (fieldAt Key.srv Value.text? e).getD req.serverCode ∧
      (req.setEntry e).clientId = (fieldAt Key.cid Value.text? e).getD req.clientId ∧
      (req.setEntry e).nonce = (fieldAt Key.rnd Value.bytes? e).getD req.nonce ∧
      (req.setEntry e).groups = ((fieldAt Key.grp Value.items? e).map some).getD req.groups ∧
      (req.setEntry e).raw = req.raw := by
  obtain ⟨k, v⟩ := e
  have hkeys : Key.srv ≠ Key.cid := by decide
  cases k with
  | text key =>
    cases v with
    | text s =>
      simp only [setEntry, fieldAt, Value.bool?, Value.text?, Value.bytes?, Value.items?]
      by_cases hsrv : key = Key.srv
      · subst hsrv
        simp [hkeys]
      · by_cases hcid : key = Key.cid <;> simp [hsrv, hcid, hkeys.symm]
    | bool b =>
      simp only [setEntry, fieldAt, Value.bool?, Value.text?, Value.bytes?, Value.items?]
      split_ifs <;> simp
    | bytes b =>
      simp only [setEntry, fieldAt, Value.bool?, Value.text?, Value.bytes?, Value.items?]
      split_ifs <;> simp
    | array items =>
      simp only [setEntry, fieldAt, Value.bool?, Value.text?, Value.bytes?, Value.items?]
      split_ifs <;> simp
    | integer | float | null | tag | map =>
      simp [setEntry, fieldAt, Value.bool?, Value.text?, Value.bytes?, Value.items?]
  | _ => exact ⟨rfl, rfl, rfl, rfl, rfl, rfl⟩

/-- The request of a map: each field is what the last entry with its key and a value of its type
says. -/
theorem ofMap_eq (buf : Bytes) (map : List (Value × Value)) :
    ofMap buf map =
      { ready := (lastOf (fieldAt Key.rdy Value.bool?) map).getD false
        serverCode := (lastOf (fieldAt Key.srv Value.text?) map).getD Str.empty
        clientId := (lastOf (fieldAt Key.cid Value.text?) map).getD Str.empty
        nonce := (lastOf (fieldAt Key.rnd Value.bytes?) map).getD []
        groups := lastOf (fieldAt Key.grp Value.items?) map
        raw := some buf } := by
  have hgroups : (lastOf (fun e => (fieldAt Key.grp Value.items? e).map some) map).getD none =
      lastOf (fieldAt Key.grp Value.items?) map := by
    rw [lastOf_map]
    cases lastOf (fieldAt Key.grp Value.items?) map <;> rfl
  have hraw : (map.foldl setEntry { raw := some buf }).raw = some buf := by
    have hfield := foldl_field (f := fun _ => none) (g := raw)
      (fun r e => (setEntry_fields r e).2.2.2.2.2) { raw := some buf } map
    rw [hfield]
    simp [lastOf]
  ext1
  · exact foldl_field (g := ready) (fun r e => (setEntry_fields r e).1) _ _
  · exact foldl_field (g := serverCode) (fun r e => (setEntry_fields r e).2.1) _ _
  · exact foldl_field (g := clientId) (fun r e => (setEntry_fields r e).2.2.1) _ _
  · exact foldl_field (g := nonce) (fun r e => (setEntry_fields r e).2.2.2.1) _ _
  · rw [← hgroups]
    exact foldl_field (g := groups) (fun r e => (setEntry_fields r e).2.2.2.2.1) _ _
  · exact hraw

end HandshakeRequest

namespace HandshakeResponse

/-- What one entry does to each field. -/
theorem setEntry_fields (res : HandshakeResponse) (e : Value × Value) :
    (res.setEntry e).id = (fieldAt Key.id Value.bytes? e).getD res.id ∧
      (res.setEntry e).key = (fieldAt Key.key Value.bytes? e).getD res.key ∧
      (res.setEntry e).sig = (fieldAt Key.sig Value.bytes? e).getD res.sig := by
  obtain ⟨k, v⟩ := e
  have hkey : Key.id ≠ Key.key := by decide
  have hsig : Key.id ≠ Key.sig := by decide
  have hkeysig : Key.key ≠ Key.sig := by decide
  cases k with
  | text key =>
    cases v with
    | bytes b =>
      simp only [setEntry, fieldAt, Value.bytes?]
      by_cases hid : key = Key.id
      · subst hid
        simp [hkey, hsig]
      · by_cases hkey' : key = Key.key
        · subst hkey'
          simp [hid, hkeysig]
        · by_cases hsig' : key = Key.sig <;> simp [hid, hkey', hsig', hsig.symm, hkeysig.symm]
    | integer | float | text | bool | null | tag | array | map =>
      simp [setEntry, fieldAt, Value.bytes?]
  | _ => exact ⟨rfl, rfl, rfl⟩

/-- The response of a map. -/
theorem ofMap_eq (map : List (Value × Value)) :
    ofMap map =
      { id := (lastOf (fieldAt Key.id Value.bytes?) map).getD []
        key := (lastOf (fieldAt Key.key Value.bytes?) map).getD []
        sig := (lastOf (fieldAt Key.sig Value.bytes?) map).getD [] } := by
  ext1
  · exact foldl_field (g := HandshakeResponse.id) (fun r e => (setEntry_fields r e).1) _ _
  · exact foldl_field (g := HandshakeResponse.key) (fun r e => (setEntry_fields r e).2.1) _ _
  · exact foldl_field (g := HandshakeResponse.sig) (fun r e => (setEntry_fields r e).2.2) _ _

end HandshakeResponse

/-! ## Order and other entries -/

/-- The keys that the reader of a request knows. -/
def HandshakeRequest.Knows (k : Value) : Prop :=
  ∃ key ∈ [Key.rdy, Key.srv, Key.cid, Key.rnd, Key.grp], k = .text key

def HandshakeResponse.Knows (k : Value) : Prop :=
  ∃ key ∈ [Key.id, Key.key, Key.sig], k = .text key

def Membership.Knows (k : Value) : Prop := ∃ i : ℤ, 1 ≤ i ∧ i ≤ 7 ∧ k = .integer i

theorem HandshakeRequest.ofMap_alike {map map' : List (Value × Value)}
    (h : Alike HandshakeRequest.Knows map map') (buf : Bytes) : ofMap buf map = ofMap buf map' := by
  have hknows : ∀ key ∈ [Key.rdy, Key.srv, Key.cid, Key.rnd, Key.grp], Knows (.text key) :=
    fun key hkey => ⟨key, hkey, rfl⟩
  rw [ofMap_eq, ofMap_eq, h.lastOf_eq (hknows Key.rdy (by simp)) fun _ => fst_of_fieldAt,
    h.lastOf_eq (hknows Key.srv (by simp)) fun _ => fst_of_fieldAt,
    h.lastOf_eq (hknows Key.cid (by simp)) fun _ => fst_of_fieldAt,
    h.lastOf_eq (hknows Key.rnd (by simp)) fun _ => fst_of_fieldAt,
    h.lastOf_eq (hknows Key.grp (by simp)) fun _ => fst_of_fieldAt]

theorem HandshakeResponse.ofMap_alike {map map' : List (Value × Value)}
    (h : Alike HandshakeResponse.Knows map map') : ofMap map = ofMap map' := by
  have hknows : ∀ key ∈ [Key.id, Key.key, Key.sig], Knows (.text key) :=
    fun key hkey => ⟨key, hkey, rfl⟩
  rw [ofMap_eq, ofMap_eq, h.lastOf_eq (hknows Key.id (by simp)) fun _ => fst_of_fieldAt,
    h.lastOf_eq (hknows Key.key (by simp)) fun _ => fst_of_fieldAt,
    h.lastOf_eq (hknows Key.sig (by simp)) fun _ => fst_of_fieldAt]

theorem getInteger_alike {entries entries' : List (Value × Value)}
    (h : Alike Membership.Knows entries entries') {i : ℤ} (hlo : 1 ≤ i) (hhi : i ≤ 7) :
    getInteger entries i = getInteger entries' i := by
  refine h.findSome?_eq (k := .integer i) ⟨i, hlo, hhi, rfl⟩ fun e he => ?_
  split at he
  · rename_i j val
    split_ifs at he with hj
    · rw [hj]
    · cases he
  · cases he

/-- Whether a record can be read, and what it says, does not depend on the order of its entries if
no key is there twice, nor on entries of keys that the reader does not know. -/
theorem records_alike {C : Ciborium} {buf buf' : Bytes} {map map' : List (Value × Value)}
    (h : C.fromReader buf = .ok (.map map)) (h' : C.fromReader buf' = .ok (.map map')) :
    (Alike HandshakeRequest.Knows map map' → ∃ req, HandshakeRequest.fromCbor C buf = .ok req ∧
      HandshakeRequest.fromCbor C buf' = .ok { req with raw := some buf' }) ∧
    (Alike HandshakeResponse.Knows map map' →
      HandshakeResponse.fromCbor C buf = HandshakeResponse.fromCbor C buf') ∧
    (Alike Membership.Knows map map' → parseMembership C buf = parseMembership C buf') := by
  refine ⟨fun halike => ?_, fun halike => ?_, fun halike => ?_⟩
  · refine ⟨HandshakeRequest.ofMap buf map, ?_, ?_⟩
    · rw [HandshakeRequest.fromCbor, h]
    · rw [HandshakeRequest.fromCbor, h']
      show Except.ok (HandshakeRequest.ofMap buf' map') = _
      rw [← HandshakeRequest.ofMap_alike halike, HandshakeRequest.ofMap_eq,
        HandshakeRequest.ofMap_eq]
  · rw [HandshakeResponse.fromCbor, HandshakeResponse.fromCbor, h, h']
    exact congrArg Except.ok (HandshakeResponse.ofMap_alike halike)
  · have hget : ∀ i, 1 ≤ i → i ≤ 7 → getInteger map i = getInteger map' i :=
      fun i hlo hhi => getInteger_alike halike hlo hhi
    simp only [parseMembership, h, h', optBytes, hget 1 (by decide) (by decide),
      hget 2 (by decide) (by decide), hget 3 (by decide) (by decide),
      hget 4 (by decide) (by decide), hget 5 (by decide) (by decide),
      hget 6 (by decide) (by decide), hget 7 (by decide) (by decide)]

/-- CBOR as it is read from two spellings of a request. -/
def twoSpellings : Ciborium where
  intoWriter _ := .error "unused".toList
  fromReader b :=
    if b = [0] then .ok (.map [(.text Key.cid, .text Key.id), (.text Key.rnd, .bytes [7])])
    else .ok (.map [(.text Key.rnd, .bytes [7]), (.null, .null), (.text Key.cid, .text Key.id)])

theorem records_alike_twoSpellings :
    ∃ req, HandshakeRequest.fromCbor twoSpellings [0] = .ok req ∧
      HandshakeRequest.fromCbor twoSpellings [1] = .ok { req with raw := some [1] } := by
  refine (records_alike (C := twoSpellings) rfl rfl).1 ⟨fun
    | (.text _, _) => true
    | _ => false, ?_, ?_, ?_⟩
  · rintro ⟨k, v⟩ hk ⟨key, -, rfl⟩
    cases hk
  · simp [Key.cid, Key.rnd]
  · exact List.Perm.swap _ _ []

end Spot

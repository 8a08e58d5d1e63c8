import Spot.Client.Bottlers

/-!
# Server discovery

The reply of the platform's `Spot:connect` endpoint: the hosts to dial, and how many connections to
keep.  The JSON reader is a parameter (`SerdeJson`); `parseHosts` is what the client makes of the
value it reads.
-/

namespace Spot

/-- A JSON number; what a float is worth plays no part. -/
inductive JsonNumber
  | posInt (n : UInt64)
  | negInt (n : ℤ)
  | float (text : Text)

/-- A JSON value. -/
inductive Json
  | null
  | bool (b : Bool)
  | number (n : JsonNumber)
  | string (s : Text)
  | array (items : List Json)
  | object (entries : List (Text × Json))

/-- The JSON reader. -/
structure SerdeJson where
  fromSlice : Bytes → Except Text Json

namespace Json

/-- `v[key]`, which is null where there is no such entry. -/
def index (v : Json) (key : String) : Json :=
  match v with
  | object entries => (entries.lookup key.toList).getD null
  | _ => null

def asStr : Json → Option Text
  | string s => some s
  | _ => none

def asArray : Json → Option (List Json)
  | array items => some items
  | _ => none

def asU64 : Json → Option UInt64
  | number (.posInt n) => some n
  | _ => none

end Json

/-- Parses the response into the host list and the minimum recommended connection count. -/
def parseHosts (J : SerdeJson) (status : UInt16) (body : Bytes) : Result (List Text × UInt32) :=
  if status ≠ 200 then
    .error (.api ("Spot:connect returned status ".toList ++ (Nat.repr status.toNat).toList))
  else match J.fromSlice body with
    | .error e => .error (.api e)
    | .ok v =>
      if (v.index "result").asStr ≠ some "success".toList then
        .error (.api ((v.index "error").asStr.getD "unknown api error".toList))
      else
        let data := v.index "data"
        let hosts := ((data.index "hosts").asArray.map fun a => a.filterMap Json.asStr).getD []
        let minConn := ((data.index "min_conn").asU64.getD 0).toUInt32
        .ok (hosts, minConn)

/-- What an HTTP request yields: an error, or a status and a body. -/
abbrev HttpReply := Except Text (UInt16 × Bytes)

/-- The list of available servers and the minimum connection count, from the reply. -/
def getHosts (J : SerdeJson) : HttpReply → Result (List Text × UInt32)
  | .error e => .error (.api e)
  | .ok (status, body) => parseHosts J status body

/-- The hosts that are dialled, of those in a reply. -/
def dialled (hosts : List Text) : List Text := hosts.take 10

/-- The connections to keep: all of them by default, and never more than there are hosts. -/
def clampMinConn (hosts : List Text) (minConn : UInt32) : UInt32 :=
  if minConn = 0 ∨ UInt32.ofNat hosts.length < minConn then UInt32.ofNat hosts.length else minConn

theorem dialled_eq_nil {hosts : List Text} : dialled hosts = [] ↔ hosts = [] := by
  unfold dialled
  rw [List.take_eq_nil_iff]
  simp

theorem length_dialled (hosts : List Text) : (dialled hosts).length ≤ 10 :=
  List.length_take_le _ _

/-- At least one connection is kept, unless there is no host. -/
theorem clampMinConn_pos {hosts : List Text} {minConn : UInt32} :
    0 < clampMinConn (dialled hosts) minConn ↔ hosts ≠ [] := by
  have hlen := length_dialled hosts
  have hpos : 0 < UInt32.ofNat (dialled hosts).length ↔ 0 < (dialled hosts).length := by
    rw [UInt32.lt_iff_toNat_lt, UInt32.toNat_ofNat_of_lt' (lt_of_le_of_lt hlen (by decide))]
    exact Iff.rfl
  have hnil : 0 < (dialled hosts).length ↔ hosts ≠ [] := by
    rw [List.length_pos_iff, Ne, dialled_eq_nil]
  rw [← hnil, ← hpos, clampMinConn]
  split
  · exact Iff.rfl
  · rename_i hno
    obtain ⟨hne, hle⟩ := not_or.1 hno
    have hmin : 0 < minConn := UInt32.pos_iff_ne_zero.2 hne
    exact ⟨fun _ => UInt32.lt_of_lt_of_le hmin (UInt32.not_lt.1 hle), fun _ => hmin⟩

/-! ## Two replies -/

/-- A successful reply that names one host, twice. -/
def oneHostReply : Bytes :=
  utf8 "\x7b\"result\":\"success\",\"data\":\x7b\"hosts\":[\"a\",\"a\"]\x7d\x7d".toList

/-- A successful reply that names no host. -/
def noHostReply : Bytes := utf8 "\x7b\"result\":\"success\"\x7d".toList

/-- JSON as it is read from those two. -/
def sampleSerde : SerdeJson where
  fromSlice b :=
    let success := ("result".toList, Json.string "success".toList)
    let host := Json.string "a".toList
    if b = oneHostReply then
      .ok (.object [success, ("data".toList, .object [("hosts".toList, .array [host, host])])])
    else if b = noHostReply then .ok (.object [success])
    else .error "expected value".toList

end Spot

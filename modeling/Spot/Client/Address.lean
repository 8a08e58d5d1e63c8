import Spot.Client.Bottlers
import Spot.Proto.Encoding

/-!
# Addresses

A client is addressed as `k.` and the base64url form of the hash of its key; what follows a slash
names an endpoint or, for the answer to a query, the query's id.  `recipientHash_targetId` and
`routeName_append` say that the parts come back from an address, `uuidString_injective` and
`slash_notMem_uuidString` that distinct queries have distinct names.
-/

namespace Spot

/-! ## Query ids -/

def hexDigit (n : ℕ) : Char := "0123456789abcdef".toList.getD n '0'

/-- `{byte:02x}`. -/
def hexByte (b : UInt8) : Text := [hexDigit (b.toNat / 16), hexDigit (b.toNat % 16)]

/-- The canonical form of the bytes of an id from the `i`-th on. -/
def uuidFrom : ℕ → Bytes → Text
  | _, [] => []
  | i, byte :: b =>
    (if i = 4 ∨ i = 6 ∨ i = 8 ∨ i = 10 then ['-'] else []) ++ (hexByte byte ++ uuidFrom (i + 1) b)

/-- Formats an id in its canonical hyphenated lowercase form. -/
def uuidString (b : MessageId) : Text := uuidFrom 0 b.toList

theorem hexDigit_props : ∀ m < 16, ∀ n < 16,
    (hexDigit m = hexDigit n → m = n) ∧ (hexDigit m).toNat < 128 ∧ hexDigit m ≠ '/' := by
  decide +kernel

theorem hexByte_injective {a b : UInt8} (h : hexByte a = hexByte b) : a = b := by
  have ha := a.toNat_lt
  have hb := b.toNat_lt
  obtain ⟨h₁, h₂⟩ := List.cons_eq_cons.1 h
  have hq := (hexDigit_props (a.toNat / 16) (by omega) (b.toNat / 16) (by omega)).1 h₁
  have hr := (hexDigit_props (a.toNat % 16) (by omega) (b.toNat % 16) (by omega)).1
    (List.cons_eq_cons.1 h₂).1
  exact UInt8.toNat_inj.1 (by omega)

theorem mem_hexByte {b : UInt8} {c : Char} (h : c ∈ hexByte b) : c.toNat < 128 ∧ c ≠ '/' := by
  have hb := b.toNat_lt
  rcases List.mem_cons.1 h with rfl | h
  · exact (hexDigit_props _ (by omega) 0 (by decide)).2
  · obtain rfl := List.mem_singleton.1 h
    exact (hexDigit_props _ (by omega) 0 (by decide)).2

theorem mem_uuidFrom {i : ℕ} {b : Bytes} {c : Char} (h : c ∈ uuidFrom i b) :
    c.toNat < 128 ∧ c ≠ '/' := by
  induction b generalizing i with
  | nil => cases h
  | cons byte b ih =>
    rw [uuidFrom] at h
    rcases List.mem_append.1 h with h | h
    · split at h
      · obtain rfl := List.mem_singleton.1 h
        decide
      · cases h
    · rcases List.mem_append.1 h with h | h
      · exact mem_hexByte h
      · exact ih h

theorem length_uuidFrom_le (i : ℕ) (b : Bytes) : (uuidFrom i b).length ≤ 3 * b.length := by
  induction b generalizing i with
  | nil => exact le_rfl
  | cons byte b ih =>
    have h := ih (i + 1)
    have hdash : (if i = 4 ∨ i = 6 ∨ i = 8 ∨ i = 10 then ['-'] else []).length ≤ 1 := by
      split <;> simp
    simp only [uuidFrom, List.length_append, hexByte, List.length_cons, List.length_nil]
    omega

theorem uuidFrom_injective {i : ℕ} {a b : Bytes} (hlen : a.length = b.length)
    (h : uuidFrom i a = uuidFrom i b) : a = b := by
  induction a generalizing i b with
  | nil => exact (List.length_eq_zero_iff.1 hlen.symm).symm
  | cons x a ih =>
    cases b with
    | nil => cases hlen
    | cons y b =>
      rw [uuidFrom, uuidFrom] at h
      obtain ⟨hx, hrest⟩ := List.append_inj (List.append_cancel_left h) rfl
      rw [hexByte_injective hx, ih (Nat.succ.inj hlen) hrest]

/-- Distinct ids have distinct names. -/
theorem uuidString_injective {a b : MessageId} (h : uuidString a = uuidString b) : a = b :=
  Subtype.ext (uuidFrom_injective (a.2.trans b.2.symm) h)

theorem slash_notMem_uuidString (b : MessageId) : '/' ∉ uuidString b :=
  fun h => (mem_uuidFrom h).2 rfl

theorem length_uuidString_le (b : MessageId) : (uuidString b).length ≤ 48 := by
  have h := length_uuidFrom_le 0 b.toList
  rwa [b.toList_length] at h

theorem length_utf8_uuidString_le (b : MessageId) : (utf8 (uuidString b)).length ≤ 48 := by
  have hascii : ∀ c ∈ uuidString b, c.toNat < 128 := fun c hc => (mem_uuidFrom hc).1
  rw [length_utf8_of_ascii hascii]
  exact length_uuidString_le b

/-- `/` and the id: the sender of a query. -/
def replyAddress (id : MessageId) : Str where
  chars := '/' :: uuidString id
  size_le := by
    have h := length_utf8_uuidString_le id
    have hs : (utf8 ['/']).length = 1 := rfl
    rw [← List.singleton_append, utf8_append, List.length_append, hs]
    unfold isizeMax
    omega

theorem len_replyAddress (id : MessageId) : (replyAddress id).len ≤ 49 := by
  have h := length_utf8_uuidString_le id
  show (utf8 (['/'] ++ uuidString id)).length ≤ 49
  rw [utf8_append, List.length_append]
  have hs : (utf8 ['/']).length = 1 := rfl
  omega

/-! ## Names -/

/-- What a recipient names: what is between its first slash and its second one, or its end. -/
def routeName (rcv : Text) : Option Text := (after? '/' rcv).map (before '/')

theorem routeName_append {addr name : Text} (ha : '/' ∉ addr) (hn : '/' ∉ name) :
    routeName (addr ++ '/' :: name) = some name := by
  rw [routeName, after?_append_cons ha, Option.map_some, before_of_notMem hn]

/-! ## Key addresses -/

/-- The address of the owner of a key: `k.` and its hash. -/
def targetId (B : Bottlers) (selfKey : Bytes) : Text :=
  'k' :: '.' :: base64urlEncode (B.sha256 selfKey).toList

/-- The key hash of a recipient `k.<hash>`, with or without a name. -/
def recipientHash (rcv : Text) : Result Bytes :=
  let rcv := before '/' rcv
  let parts := split '.' rcv
  if parts.length < 2 ∨ parts.headD [] ≠ ['k'] then .error (.invalidTarget rcv)
  else match base64urlDecode (parts.getLastD []) with
    | some h => .ok h
    | none => .error (.invalidTarget rcv)

/-- An address that is not of a key is an invalid target. -/
theorem recipientHash_eq_error {rcv : Text} {e : Error} (h : recipientHash rcv = .error e) :
    e = .invalidTarget (before '/' rcv) := by
  unfold recipientHash at h
  simp only at h
  split at h
  · exact (Except.error.inj h).symm
  · split at h
    · cases h
    · exact (Except.error.inj h).symm

theorem slash_notMem_key {rest : Text} (h : '/' ∉ rest) : '/' ∉ 'k' :: '.' :: rest := by
  intro hm
  rcases List.mem_cons.1 hm with hm | hm
  · cases hm
  rcases List.mem_cons.1 hm with hm | hm
  · cases hm
  · exact h hm

/-- The hash comes back if it is the last part between dots. -/
theorem recipientHash_of_last {rcv rest : Text} {h : Bytes}
    (hbefore : before '/' rcv = 'k' :: '.' :: rest)
    (hlast : (split '.' rest).getLast? = some (base64urlEncode h)) : recipientHash rcv = .ok h := by
  have hk : '.' ∉ ['k'] := by decide
  have hsplit : split '.' ('k' :: '.' :: rest) = ['k'] :: split '.' rest := split_append_cons hk
  obtain ⟨p, ps, hps⟩ := List.exists_cons_of_ne_nil (split_ne_nil '.' rest)
  have hparts : (['k'] :: split '.' rest).getLastD [] = base64urlEncode h := by
    rw [List.getLastD_eq_getLast?, hps, List.getLast?_cons_cons, ← hps, hlast]
    rfl
  rw [recipientHash, hbefore, hsplit]
  simp only [hparts, base64urlDecode_encode]
  rw [if_neg]
  simp [hps]

/-- It is the only part if there is no server id. -/
theorem recipientHash_of_before {rcv : Text} {h : Bytes}
    (hbefore : before '/' rcv = 'k' :: '.' :: base64urlEncode h) : recipientHash rcv = .ok h := by
  refine recipientHash_of_last hbefore ?_
  rw [split_of_notMem (dot_notMem_base64url h)]
  rfl

section

variable {B : Bottlers} {selfKey : Bytes}

theorem slash_notMem_targetId : '/' ∉ targetId B selfKey :=
  slash_notMem_key (slash_notMem_base64url _)

/-- The hash comes back from an address with a name. -/
theorem recipientHash_targetId (name : Text) :
    recipientHash (targetId B selfKey ++ '/' :: name) = .ok (B.sha256 selfKey).toList :=
  recipientHash_of_before (before_append_cons slash_notMem_targetId)

theorem length_utf8_targetId : (utf8 (targetId B selfKey)).length = 45 := by
  rw [length_utf8_of_ascii]
  · rw [targetId, List.length_cons, List.length_cons, length_base64urlEncode,
      List.Vector.toList_length]
    rfl
  · intro c hc
    rcases List.mem_cons.1 hc with rfl | hc
    · decide
    rcases List.mem_cons.1 hc with rfl | hc
    · decide
    · exact (base64urlEncode_chars hc).1

end

end Spot

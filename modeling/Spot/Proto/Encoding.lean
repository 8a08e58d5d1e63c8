import Spot.General.Split
import Spot.Proto.Types

/-!
# Base64url

Base64 with the url-safe alphabet and without padding, as key hashes are written in addresses.
Encoding works on pieces of three bytes and decoding on pieces of four characters;
`decodeChunk_encodeChunk` is the round trip of a piece, `base64urlDecode_encode` of a whole string.
-/

namespace Spot

def b64url : Text :=
  "ABCDEFGHIJKLMNOPQRSTUVWXYZabcdefghijklmnopqrstuvwxyz0123456789-_".toList

def b64Char (i : ℕ) : Char := b64url.getD i 'A'

/-- The characters a piece of at most three bytes is written as. -/
def encodeChunk (chunk : Bytes) : Text :=
  let b0 := (chunk.getD 0 0).toNat
  let b1 := (chunk.getD 1 0).toNat
  let b2 := (chunk.getD 2 0).toNat
  let n := b0 <<< 16 ||| b1 <<< 8 ||| b2
  [b64Char (n >>> 18 &&& 63), b64Char (n >>> 12 &&& 63)] ++
    (if 1 < chunk.length then [b64Char (n >>> 6 &&& 63)] else []) ++
    (if 2 < chunk.length then [b64Char (n &&& 63)] else [])

/-- Encodes bytes as url-safe base64 without padding. -/
def base64urlEncode (data : Bytes) : Text := (chunks 3 data).flatMap encodeChunk

/-- The value of a character. -/
def val (c : UInt8) : Option ℕ :=
  if 65 ≤ c ∧ c ≤ 90 then some (c.toNat - 65)
  else if 97 ≤ c ∧ c ≤ 122 then some (c.toNat - 97 + 26)
  else if 48 ≤ c ∧ c ≤ 57 then some (c.toNat - 48 + 52)
  else if c = 45 then some 62
  else if c = 95 then some 63
  else none

/-- The bits of a piece of at most four characters, from the `i`-th on, set in `n`. -/
def chunkBits : ℕ → ℕ → Bytes → Option ℕ
  | _, n, [] => some n
  | i, n, c :: cs => (val c).bind fun v => chunkBits (i + 1) (n ||| v <<< (18 - 6 * i)) cs

/-- The bytes of a piece of at most four characters. -/
def decodeChunk (chunk : Bytes) : Option Bytes :=
  (chunkBits 0 0 chunk).map fun n =>
    [UInt8.ofNat (n >>> 16)] ++
      (if 2 < chunk.length then [UInt8.ofNat (n >>> 8)] else []) ++
      (if 3 < chunk.length then [UInt8.ofNat n] else [])

/-- The bytes of all pieces, if each has some. -/
def decodeChunks : List Bytes → Option Bytes
  | [] => some []
  | chunk :: cs => (decodeChunk chunk).bind fun b => (decodeChunks cs).map (b ++ ·)

/-- Decodes url-safe base64 without padding. -/
def base64urlDecode (s : Text) : Option Bytes :=
  if (utf8 s).length % 4 = 1 then none else decodeChunks (chunks 4 (utf8 s))

/-! ## One piece -/

theorem b64Char_props : ∀ i < 64, (b64Char i).toNat < 128 ∧ b64Char i ≠ '.' ∧ b64Char i ≠ '/' ∧
    val (UInt8.ofNat (b64Char i).toNat) = some i := by
  decide +kernel

theorem and_63_lt (n : ℕ) : n &&& 63 < 64 := Nat.lt_succ_of_le Nat.and_le_right

theorem shiftLeft_or (x : ℕ) {k y : ℕ} (h : y < 2 ^ k) : x <<< k ||| y = x * 2 ^ k + y := by
  rw [← Nat.shiftLeft_add_eq_or_of_lt h, Nat.shiftLeft_eq]

theorem or_or {a b c : ℕ} (hb : b < 2 ^ 8) (hc : c < 2 ^ 8) :
    a <<< 16 ||| b <<< 8 ||| c = a * 65536 + b * 256 + c := by
  have hbc : b * 2 ^ 8 + c < 2 ^ 16 := by omega
  rw [Nat.or_assoc, shiftLeft_or b hc, shiftLeft_or a hbc]
  omega

theorem mem_encodeChunk {chunk : Bytes} {c : Char} (h : c ∈ encodeChunk chunk) :
    ∃ i < 64, c = b64Char i := by
  simp only [encodeChunk, List.mem_append, List.mem_cons, List.not_mem_nil, or_false] at h
  rcases h with ((h | h) | h) | h
  · exact ⟨_, and_63_lt _, h⟩
  · exact ⟨_, and_63_lt _, h⟩
  · split at h
    · exact ⟨_, and_63_lt _, List.mem_singleton.1 h⟩
    · cases h
  · split at h
    · exact ⟨_, and_63_lt _, List.mem_singleton.1 h⟩
    · cases h

theorem mem_base64urlEncode {data : Bytes} {c : Char} (h : c ∈ base64urlEncode data) :
    ∃ i < 64, c = b64Char i := by
  obtain ⟨chunk, -, hc⟩ := List.mem_flatMap.1 h
  exact mem_encodeChunk hc

/-- The encoding is ASCII, without dots or slashes. -/
theorem base64urlEncode_chars {data : Bytes} {c : Char} (h : c ∈ base64urlEncode data) :
    c.toNat < 128 ∧ c ≠ '.' ∧ c ≠ '/' := by
  obtain ⟨i, hi, rfl⟩ := mem_base64urlEncode h
  obtain ⟨h₁, h₂, h₃, -⟩ := b64Char_props i hi
  exact ⟨h₁, h₂, h₃⟩

theorem slash_notMem_base64url (data : Bytes) : '/' ∉ base64urlEncode data :=
  fun h => (base64urlEncode_chars h).2.2 rfl

theorem dot_notMem_base64url (data : Bytes) : '.' ∉ base64urlEncode data :=
  fun h => (base64urlEncode_chars h).2.1 rfl

/-- The byte of the `i`-th character. -/
def b64Byte (i : ℕ) : UInt8 := UInt8.ofNat (b64Char i).toNat

theorem val_b64Byte {i : ℕ} (h : i < 64) : val (b64Byte i) = some i := (b64Char_props i h).2.2.2

theorem utf8_encodeChunk (chunk : Bytes) :
    utf8 (encodeChunk chunk) = (encodeChunk chunk).map fun c => UInt8.ofNat c.toNat := by
  apply utf8_of_ascii
  intro c hc
  obtain ⟨i, hi, rfl⟩ := mem_encodeChunk hc
  exact (b64Char_props i hi).1

/-- The bits of two, three or four characters. -/
theorem chunkBits_two {i j : ℕ} (hi : i < 64) (hj : j < 64) :
    chunkBits 0 0 [b64Byte i, b64Byte j] = some (i * 2 ^ 18 + j * 2 ^ 12) := by
  have h : j * 2 ^ 12 < 2 ^ 18 := by omega
  simp only [chunkBits, val_b64Byte hi, val_b64Byte hj, Option.bind_some, Nat.zero_or]
  rw [Nat.shiftLeft_eq j, shiftLeft_or i h]

theorem chunkBits_three {i j k : ℕ} (hi : i < 64) (hj : j < 64) (hk : k < 64) :
    chunkBits 0 0 [b64Byte i, b64Byte j, b64Byte k] =
      some (i * 2 ^ 18 + (j * 2 ^ 12 + k * 2 ^ 6)) := by
  have h₁ : k * 2 ^ 6 < 2 ^ 12 := by omega
  have h₂ : j * 2 ^ 12 + k * 2 ^ 6 < 2 ^ 18 := by omega
  simp only [chunkBits, val_b64Byte hi, val_b64Byte hj, val_b64Byte hk, Option.bind_some,
    Nat.zero_or]
  rw [Nat.or_assoc, Nat.shiftLeft_eq k, shiftLeft_or j h₁, shiftLeft_or i h₂]

theorem chunkBits_four {i j k l : ℕ} (hi : i < 64) (hj : j < 64) (hk : k < 64) (hl : l < 64) :
    chunkBits 0 0 [b64Byte i, b64Byte j, b64Byte k, b64Byte l] =
      some (i * 2 ^ 18 + (j * 2 ^ 12 + (k * 2 ^ 6 + l))) := by
  have h₁ : l < 2 ^ 6 := by omega
  have h₂ : k * 2 ^ 6 + l < 2 ^ 12 := by omega
  have h₃ : j * 2 ^ 12 + (k * 2 ^ 6 + l) < 2 ^ 18 := by omega
  simp only [chunkBits, val_b64Byte hi, val_b64Byte hj, val_b64Byte hk, val_b64Byte hl,
    Option.bind_some, Nat.zero_or]
  rw [Nat.or_assoc, Nat.or_assoc, show 18 - 6 * (0 + 1 + 1 + 1) = 0 from rfl, Nat.shiftLeft_zero,
    shiftLeft_or k h₁, shiftLeft_or j h₂, shiftLeft_or i h₃]

theorem and_63 (n : ℕ) : n &&& 63 = n % 64 := Nat.and_two_pow_sub_one_eq_mod n 6

theorem ofNat_of_eq {n : ℕ} {a : UInt8} (h : n = a.toNat) : UInt8.ofNat n = a := by
  rw [h, UInt8.ofNat_toNat]

/-- A byte is its number, whatever is above. -/
theorem ofNat_of_mod_eq {n : ℕ} {a : UInt8} (h : n % 256 = a.toNat) : UInt8.ofNat n = a := by
  apply UInt8.toNat_inj.1
  rw [UInt8.toNat_ofNat', h]

/-- A piece of one, two or three bytes comes back from its characters. -/
theorem decodeChunk_encodeChunk {chunk : Bytes} (h₀ : chunk ≠ []) (h : chunk.length ≤ 3) :
    decodeChunk (utf8 (encodeChunk chunk)) = some chunk := by
  rw [utf8_encodeChunk]
  match chunk, h₀, h with
  | [a], _, _ =>
    have ha := a.toNat_lt
    have hn := or_or (a := a.toNat) (b := 0) (c := 0) (by decide) (by decide)
    show (chunkBits 0 0 [b64Byte _, b64Byte _]).map _ = _
    rw [chunkBits_two (and_63_lt _) (and_63_lt _)]
    show some [UInt8.ofNat _] = _
    rw [ofNat_of_eq (a := a)]
    simp only [List.getD_cons_zero, List.getD_cons_succ, List.getD_nil, UInt8.toNat_zero, hn,
      and_63, Nat.shiftRight_eq_div_pow]
    omega
  | [a, b], _, _ =>
    have ha := a.toNat_lt
    have hb := b.toNat_lt
    have hn := or_or (a := a.toNat) (b := b.toNat) (c := 0) hb (by decide)
    show (chunkBits 0 0 [b64Byte _, b64Byte _, b64Byte _]).map _ = _
    rw [chunkBits_three (and_63_lt _) (and_63_lt _) (and_63_lt _)]
    show some [UInt8.ofNat _, UInt8.ofNat _] = _
    simp only [List.getD_cons_zero, List.getD_cons_succ, List.getD_nil, UInt8.toNat_zero, hn,
      and_63, Nat.shiftRight_eq_div_pow]
    rw [ofNat_of_eq (a := a) (by omega), ofNat_of_mod_eq (a := b) (by omega)]
  | [a, b, c], _, _ =>
    have ha := a.toNat_lt
    have hb := b.toNat_lt
    have hc := c.toNat_lt
    have hn := or_or (a := a.toNat) (b := b.toNat) (c := c.toNat) hb hc
    show (chunkBits 0 0 [b64Byte _, b64Byte _, b64Byte _, b64Byte _]).map _ = _
    rw [chunkBits_four (and_63_lt _) (and_63_lt _) (and_63_lt _) (and_63_lt _)]
    show some [UInt8.ofNat _, UInt8.ofNat _, UInt8.ofNat _] = _
    simp only [List.getD_cons_zero, List.getD_cons_succ, hn, and_63,
      Nat.shiftRight_eq_div_pow]
    rw [ofNat_of_eq (a := a) (by omega), ofNat_of_mod_eq (a := b) (by omega),
      ofNat_of_mod_eq (a := c) (by omega)]
  | _ :: _ :: _ :: _ :: _, _, h =>
    simp only [List.length_cons] at h
    omega

/-! ## Whole strings -/

theorem length_encodeChunk_of_full {chunk : Bytes} (h : chunk.length = 3) :
    (encodeChunk chunk).length = 4 := by
  simp [encodeChunk, h]

theorem base64urlEncode_append {p : Bytes} (hp : p.length = 3) (data : Bytes) :
    base64urlEncode (p ++ data) = encodeChunk p ++ base64urlEncode data := by
  rw [base64urlEncode, chunks_append (by decide) hp, List.flatMap_cons]
  rfl

theorem base64urlEncode_of_length_le {data : Bytes} (h₀ : data ≠ []) (h : data.length ≤ 3) :
    base64urlEncode data = encodeChunk data := by
  rw [base64urlEncode, chunks_of_length_le h₀ h, List.flatMap_cons, List.flatMap_nil,
    List.append_nil]

theorem length_encodeChunk_of_last {chunk : Bytes} (h₀ : chunk ≠ []) (h : chunk.length < 3) :
    (encodeChunk chunk).length = chunk.length + 1 := by
  match chunk, h₀, h with
  | [_], _, _ => rfl
  | [_, _], _, _ => rfl
  | _ :: _ :: _ :: _, _, h =>
    simp only [List.length_cons] at h
    omega

theorem utf8_base64urlEncode (data : Bytes) :
    (utf8 (base64urlEncode data)).length = (base64urlEncode data).length :=
  length_utf8_of_ascii fun _ hc => (base64urlEncode_chars hc).1

/-- Every three bytes take four characters, and a rest of one or two bytes one more than it has. -/
theorem length_base64urlEncode (data : Bytes) :
    (base64urlEncode data).length =
      4 * (data.length / 3) + (if data.length % 3 = 0 then 0 else data.length % 3 + 1) := by
  induction data using chunks_induction (n := 3) (by decide) with
  | nil => rfl
  | last l h₀ h =>
    have hpos := List.length_pos_iff.2 h₀
    rw [base64urlEncode_of_length_le h₀ h.le, length_encodeChunk_of_last h₀ h,
      Nat.div_eq_of_lt h, Nat.mod_eq_of_lt h, if_neg (Nat.ne_of_gt hpos)]
    omega
  | cons p l hp ih =>
    rw [base64urlEncode_append hp, List.length_append, length_encodeChunk_of_full hp, ih,
      List.length_append, hp, Nat.add_div_left _ (by decide), Nat.add_mod_left]
    omega

theorem decodeChunks_encode (data : Bytes) :
    decodeChunks (chunks 4 (utf8 (base64urlEncode data))) = some data := by
  induction data using chunks_induction (n := 3) (by decide) with
  | nil => rfl
  | last l h₀ h =>
    rw [base64urlEncode_of_length_le h₀ h.le, chunks_of_length_le, decodeChunks, decodeChunks,
      decodeChunk_encodeChunk h₀ h.le, Option.bind_some, Option.map_some, List.append_nil]
    · rw [utf8_encodeChunk]
      simp [encodeChunk]
    · rw [utf8_encodeChunk, List.length_map, length_encodeChunk_of_last h₀ h]
      omega
  | cons p l hp ih =>
    have hp₀ : p ≠ [] := by
      rintro rfl
      cases hp
    have hlen : (utf8 (encodeChunk p)).length = 4 := by
      rw [utf8_encodeChunk, List.length_map, length_encodeChunk_of_full hp]
    rw [base64urlEncode_append hp, utf8_append, chunks_append (by decide) hlen, decodeChunks,
      decodeChunk_encodeChunk hp₀ hp.le, Option.bind_some, ih, Option.map_some]

/-- What was encoded is decoded. -/
theorem base64urlDecode_encode (data : Bytes) :
    base64urlDecode (base64urlEncode data) = some data := by
  have h : ¬ (utf8 (base64urlEncode data)).length % 4 = 1 := by
    rw [utf8_base64urlEncode, length_base64urlEncode]
    split <;> omega
  rw [base64urlDecode, if_neg h, decodeChunks_encode]

end Spot

import Mathlib.Data.List.ModifyLast
import Spot.General.Bits
import Spot.Proto.Encoding

/-!
# What base64url accepts

Three bytes and four characters have the same bits, so that both loops of the codec regroup them:
`base64urlEncode_eq` says that the encoder is the encoding of RFC 4648, and
`base64urlDecode_eq_some` that the decoder takes the bytes out of the bits of all characters and
drops the rest, less than a character.  It accepts every text of the alphabet except those with one
character too many (`isSome_base64urlDecode`), and more than one text for the same bytes: the one
that is their encoding is that whose rest is zero (`base64urlEncode_eq_iff`).  `base64url_codec`
sums this up, with the rest as the unused low bits of the last character.
-/

namespace Spot

/-! ## Pieces -/

/-- The word that a piece of bytes is put in, from the left. -/
def chunkWord (chunk : Bytes) : ℕ :=
  (chunk.getD 0 0).toNat <<< 16 ||| (chunk.getD 1 0).toNat <<< 8 ||| (chunk.getD 2 0).toNat

theorem bits_chunkWord {chunk : Bytes} (h : chunk.length ≤ 3) :
    byteBits chunk ++ List.replicate (24 - 8 * chunk.length) false = bits 24 (chunkWord chunk) := by
  match chunk, h with
  | [], _ => rfl
  | [a], _ =>
    have hn := or_or (a := a.toNat) (b := 0) (c := 0) (by decide) (by decide)
    show byteBits [a] ++ List.replicate 16 false = bits 24 (a.toNat <<< 16 ||| 0 <<< 8 ||| 0)
    rw [hn, byteBits_singleton, ← bits_zero, bits_append_bits (by decide)]
    rfl
  | [a, b], _ =>
    have hb := b.toNat_lt
    have hn := or_or (a := a.toNat) (b := b.toNat) (c := 0) hb (by decide)
    show byteBits [a, b] ++ List.replicate 8 false =
      bits 24 (a.toNat <<< 16 ||| b.toNat <<< 8 ||| 0)
    rw [hn, byteBits_cons, byteBits_singleton, ← bits_zero, List.append_assoc,
      bits_append_bits (by decide), bits_append_bits (by omega), add_assoc]
    rfl
  | [a, b, c], _ =>
    have hb := b.toNat_lt
    have hc := c.toNat_lt
    have hn := or_or (a := a.toNat) (b := b.toNat) (c := c.toNat) hb hc
    show byteBits [a, b, c] ++ [] =
      bits 24 (a.toNat <<< 16 ||| b.toNat <<< 8 ||| c.toNat)
    rw [hn, byteBits_cons, byteBits_cons, byteBits_singleton, List.append_nil,
      bits_append_bits hc, bits_append_bits (by omega), add_assoc]
    rfl
  | _ :: _ :: _ :: _ :: _, h =>
    simp only [List.length_cons] at h
    omega

theorem bits_and_63 (n : ℕ) : bits 6 (n &&& 63) = bits 6 n := by
  rw [and_63]
  exact bits_congr (Nat.mod_mod n (2 ^ 6))

/-- The four digits of a word. -/
def wordDigits (n : ℕ) : List ℕ := [n >>> 18 &&& 63, n >>> 12 &&& 63, n >>> 6 &&& 63, n &&& 63]

theorem ungroup_wordDigits (n : ℕ) : ungroup 6 (wordDigits n) = bits 24 n := by
  have h₁ : n / 2 ^ 12 / 2 ^ 6 = n / 2 ^ 18 := Nat.div_div_eq_div_mul n _ _
  have h₂ : n / 2 ^ 6 / 2 ^ 6 = n / 2 ^ 12 := Nat.div_div_eq_div_mul n _ _
  simp only [wordDigits, ungroup_cons, ungroup_nil, bits_and_63, Nat.shiftRight_eq_div_pow,
    List.append_nil]
  rw [bits_add 18 6, bits_add 12 6, bits_add 6 6, h₂, h₁, List.append_assoc, List.append_assoc]

theorem lt_of_mem_wordDigits {n m : ℕ} (h : m ∈ wordDigits n) : m < 64 := by
  simp only [wordDigits, List.mem_cons, List.not_mem_nil, or_false] at h
  rcases h with rfl | rfl | rfl | rfl <;> exact and_63_lt _

/-- The characters of a piece are those of the first digits of its word. -/
theorem encodeChunk_eq_map {chunk : Bytes} (h₀ : chunk ≠ []) (h : chunk.length ≤ 3) :
    encodeChunk chunk = ((wordDigits (chunkWord chunk)).take (chunk.length + 1)).map b64Char := by
  match chunk, h₀, h with
  | [_], _, _ => simp [encodeChunk, wordDigits, chunkWord]
  | [_, _], _, _ => simp [encodeChunk, wordDigits, chunkWord]
  | [_, _, _], _, _ => simp [encodeChunk, wordDigits, chunkWord]
  | _ :: _ :: _ :: _ :: _, _, h =>
    simp only [List.length_cons] at h
    omega

/-- A piece of three bytes is written as its digits, one of one or two bytes as those of its bits
filled up with zeros. -/
theorem encodeChunk_eq {chunk : Bytes} (h₀ : chunk ≠ []) (h : chunk.length ≤ 3) :
    encodeChunk chunk = rfc4648 6 b64Char chunk := by
  have hpos := List.length_pos_iff.2 h₀
  have hlen : chunk.length + 1 ≤ (wordDigits (chunkWord chunk)).length := by
    simp only [wordDigits, List.length_cons, List.length_nil]
    omega
  have hlt : ∀ m ∈ (wordDigits (chunkWord chunk)).take (chunk.length + 1), m < 2 ^ 6 :=
    fun m hm => lt_of_mem_wordDigits (List.mem_of_mem_take hm)
  have hzeros : 6 * (chunk.length + 1) - 8 * chunk.length ≤ 24 - 8 * chunk.length := by omega
  have hbits : ungroup 6 ((wordDigits (chunkWord chunk)).take (chunk.length + 1)) =
      byteBits chunk ++
        List.replicate (6 * (chunk.length + 1) - 8 * chunk.length) false := by
    rw [ungroup_take hlen, ungroup_wordDigits, ← bits_chunkWord h, List.take_append,
      List.take_replicate, List.take_of_length_le, length_byteBits, Nat.min_eq_left hzeros]
    rw [length_byteBits]
    omega
  rw [encodeChunk_eq_map h₀ h, rfc4648, group_eq_of_ungroup (by decide) hlt _ hbits]
  omega

/-- The encoder is that of RFC 4648. -/
theorem base64urlEncode_eq (data : Bytes) : base64urlEncode data = rfc4648 6 b64Char data := by
  induction data using chunks_induction (n := 3) (by decide) with
  | nil => rfl
  | last l h₀ h => rw [base64urlEncode_of_length_le h₀ h.le, encodeChunk_eq h₀ h.le]
  | cons p l hp ih =>
    have hp₀ : p ≠ [] := by
      rintro rfl
      cases hp
    have hbits : 6 ∣ (byteBits p).length := by
      rw [length_byteBits, hp]
      decide
    rw [base64urlEncode_append hp, encodeChunk_eq hp₀ hp.le, ih, rfc4648, rfc4648, rfc4648,
      byteBits_append, group_append (by decide) hbits, List.map_append]

/-! ## Decoding -/

theorem val_byte : ∀ n < 256, ∀ v ∈ val (UInt8.ofNat n), v < 64 ∧ UInt8.ofNat n = b64Byte v := by
  decide +kernel

/-- Only the characters of the alphabet have a value. -/
theorem val_eq_some_iff {c : UInt8} {v : ℕ} : val c = some v ↔ v < 64 ∧ c = b64Byte v := by
  constructor
  · intro h
    have hc := val_byte c.toNat c.toNat_lt v
    rw [UInt8.ofNat_toNat] at hc
    exact hc h
  · rintro ⟨hv, rfl⟩
    exact val_b64Byte hv

/-- The word of a piece of two, three or four characters has their bits, from the left. -/
theorem exists_chunkBits {vs : List ℕ} (h₂ : 2 ≤ vs.length) (h₄ : vs.length ≤ 4)
    (hlt : ∀ v ∈ vs, v < 64) : ∃ n, chunkBits 0 0 (vs.map b64Byte) = some n ∧
      ungroup 6 vs ++ List.replicate (24 - 6 * vs.length) false = bits 24 n := by
  match vs, h₂, h₄ with
  | [i, j], _, _ =>
    have hi : i < 64 := hlt i (by simp)
    have hj : j < 64 := hlt j (by simp)
    refine ⟨_, chunkBits_two hi hj, ?_⟩
    show bits 6 i ++ (bits 6 j ++ []) ++ List.replicate 12 false = _
    rw [← bits_zero, List.append_nil, List.append_assoc, bits_append_bits (by decide),
      bits_append_bits (by omega), add_zero]
  | [i, j, k], _, _ =>
    have hi : i < 64 := hlt i (by simp)
    have hj : j < 64 := hlt j (by simp)
    have hk : k < 64 := hlt k (by simp)
    refine ⟨_, chunkBits_three hi hj hk, ?_⟩
    show bits 6 i ++ (bits 6 j ++ (bits 6 k ++ [])) ++ List.replicate 6 false = _
    rw [← bits_zero, List.append_nil, List.append_assoc, List.append_assoc,
      bits_append_bits (by decide), bits_append_bits (by omega), bits_append_bits (by omega),
      add_zero]
  | [i, j, k, l], _, _ =>
    have hi : i < 64 := hlt i (by simp)
    have hj : j < 64 := hlt j (by simp)
    have hk : k < 64 := hlt k (by simp)
    have hl : l < 64 := hlt l (by simp)
    refine ⟨_, chunkBits_four hi hj hk hl, ?_⟩
    show bits 6 i ++ (bits 6 j ++ (bits 6 k ++ (bits 6 l ++ []))) ++ [] = _
    rw [List.append_nil, List.append_nil, bits_append_bits hl, bits_append_bits (by omega),
      bits_append_bits (by omega)]
  | _ :: _ :: _ :: _ :: _ :: _, _, h =>
    simp only [List.length_cons] at h
    omega

/-- The three bytes of a word. -/
def wordBytes (n : ℕ) : Bytes := [UInt8.ofNat (n >>> 16), UInt8.ofNat (n >>> 8), UInt8.ofNat n]

theorem byteBits_wordBytes (n : ℕ) : byteBits (wordBytes n) = bits 24 n := by
  have h : n / 2 ^ 8 / 2 ^ 8 = n / 2 ^ 16 := Nat.div_div_eq_div_mul n _ _
  have hcons (a : ℕ) (d : Bytes) : byteBits (UInt8.ofNat a :: d) = bits 8 a ++ byteBits d := by
    rw [← List.singleton_append, byteBits_append, byteBits_ofNat]
  rw [wordBytes, hcons, hcons, hcons, byteBits_nil, List.append_nil, Nat.shiftRight_eq_div_pow,
    Nat.shiftRight_eq_div_pow, bits_add 16 8, bits_add 8 8, h, List.append_assoc]

/-- The bytes of a piece are the first of its word, one less than it has characters. -/
theorem decodeChunk_eq {chunk : Bytes} (h₂ : 2 ≤ chunk.length) (h₄ : chunk.length ≤ 4) :
    decodeChunk chunk =
      (chunkBits 0 0 chunk).map fun n => (wordBytes n).take (chunk.length - 1) := by
  match chunk, h₂, h₄ with
  | [_, _], _, _ => rfl
  | [_, _, _], _, _ => rfl
  | [_, _, _, _], _, _ => rfl
  | _ :: _ :: _ :: _ :: _ :: _, _, h =>
    simp only [List.length_cons] at h
    omega

/-- The bytes are taken out of the bits of all characters, and a rest is dropped that is shorter
than a character. -/
theorem exists_decodeChunk {vs : List ℕ} (h₂ : 2 ≤ vs.length) (h₄ : vs.length ≤ 4)
    (hlt : ∀ v ∈ vs, v < 64) : ∃ d rest, decodeChunk (vs.map b64Byte) = some d ∧
      ungroup 6 vs = byteBits d ++ rest ∧ rest.length + 2 * vs.length = 8 := by
  obtain ⟨n, hn, hbits⟩ := exists_chunkBits h₂ h₄ hlt
  have hlen : (vs.map b64Byte).length = vs.length := List.length_map _
  have hd : byteBits ((wordBytes n).take (vs.length - 1)) =
      (bits 24 n).take (8 * (vs.length - 1)) := by
    rw [byteBits_take, byteBits_wordBytes]
    show _ ≤ 3
    omega
  refine ⟨(wordBytes n).take (vs.length - 1), (ungroup 6 vs).drop (8 * (vs.length - 1)), ?_, ?_, ?_⟩
  · rw [decodeChunk_eq (by rwa [hlen]) (by rwa [hlen]), hn, hlen]
    rfl
  · have htake : (ungroup 6 vs).take (8 * (vs.length - 1)) =
        (bits 24 n).take (8 * (vs.length - 1)) := by
      rw [← hbits, List.take_append_of_le_length]
      rw [length_ungroup]
      omega
    rw [hd, ← htake, List.take_append_drop]
  · rw [List.length_drop, length_ungroup]
    omega

/-- The same for whole texts. -/
theorem exists_decodeChunks {vs : List ℕ} (hmod : vs.length % 4 ≠ 1) (hlt : ∀ v ∈ vs, v < 64) :
    ∃ d rest, decodeChunks (chunks 4 (vs.map b64Byte)) = some d ∧
      ungroup 6 vs = byteBits d ++ rest ∧ rest.length < 6 := by
  induction vs using chunks_induction (n := 4) (by decide) with
  | nil => exact ⟨[], [], rfl, rfl, by decide⟩
  | last l h₀ h =>
    have hpos := List.length_pos_iff.2 h₀
    rw [Nat.mod_eq_of_lt h] at hmod
    obtain ⟨d, rest, hd, hbits, hrest⟩ := exists_decodeChunk (by omega) h.le hlt
    refine ⟨d, rest, ?_, hbits, by omega⟩
    rw [chunks_of_length_le, decodeChunks, hd, decodeChunks, Option.bind_some, Option.map_some,
      List.append_nil]
    · simpa using h₀
    · rw [List.length_map]
      exact h.le
  | cons p l hp ih =>
    rw [List.length_append, hp, Nat.add_mod_left] at hmod
    have hltp : ∀ v ∈ p, v < 64 := fun v hv => hlt v (List.mem_append_left l hv)
    have hltl : ∀ v ∈ l, v < 64 := fun v hv => hlt v (List.mem_append_right p hv)
    obtain ⟨d, rest, hd, hbits, hrest⟩ := ih hmod hltl
    obtain ⟨e, rest', he, hbits', hrest'⟩ := exists_decodeChunk (by omega) hp.le hltp
    obtain rfl : rest' = [] := List.length_eq_zero_iff.1 (by omega)
    refine ⟨e ++ d, rest, ?_, ?_, hrest⟩
    · rw [List.map_append, chunks_append (by decide) (by rw [List.length_map, hp]), decodeChunks,
        he, hd, Option.bind_some, Option.map_some]
    · rw [ungroup_append, hbits, hbits', List.append_nil, byteBits_append, List.append_assoc]

/-- Only digits have bits. -/
theorem exists_digits_of_chunkBits {i n m : ℕ} {chunk : Bytes} (h : chunkBits i n chunk = some m) :
    ∃ vs : List ℕ, chunk = vs.map b64Byte ∧ ∀ v ∈ vs, v < 64 := by
  induction chunk generalizing i n with
  | nil => exact ⟨[], rfl, by simp⟩
  | cons c cs ih =>
    obtain ⟨v, hv, hrest⟩ := Option.bind_eq_some_iff.1 h
    obtain ⟨hlt, rfl⟩ := val_eq_some_iff.1 hv
    obtain ⟨vs, rfl, hvs⟩ := ih hrest
    exact ⟨v :: vs, rfl, List.forall_mem_cons.2 ⟨hlt, hvs⟩⟩

theorem exists_digits_of_decodeChunks {l d : Bytes} (h : decodeChunks (chunks 4 l) = some d) :
    ∃ vs : List ℕ, l = vs.map b64Byte ∧ ∀ v ∈ vs, v < 64 := by
  induction l using chunks_induction (n := 4) (by decide) generalizing d with
  | nil => exact ⟨[], rfl, by simp⟩
  | last l h₀ hl =>
    rw [chunks_of_length_le h₀ hl.le] at h
    obtain ⟨e, he, -⟩ := Option.bind_eq_some_iff.1 h
    obtain ⟨n, hn, -⟩ := Option.map_eq_some_iff.1 he
    exact exists_digits_of_chunkBits hn
  | cons p l hp ih =>
    rw [chunks_append (by decide) hp] at h
    obtain ⟨e, he, h⟩ := Option.bind_eq_some_iff.1 h
    obtain ⟨n, hn, -⟩ := Option.map_eq_some_iff.1 he
    obtain ⟨d', hd', -⟩ := Option.map_eq_some_iff.1 h
    obtain ⟨vs, rfl, hvs⟩ := exists_digits_of_chunkBits hn
    obtain ⟨ws, rfl, hws⟩ := ih hd'
    exact ⟨vs ++ ws, List.map_append.symm, List.forall_mem_append.2 ⟨hvs, hws⟩⟩

/-! ## Texts -/

theorem utf8_map_b64Char {vs : List ℕ} (h : ∀ v ∈ vs, v < 64) :
    utf8 (vs.map b64Char) = vs.map b64Byte := by
  rw [utf8_of_ascii, List.map_map]
  · rfl
  · intro c hc
    obtain ⟨v, hv, rfl⟩ := List.mem_map.1 hc
    exact (b64Char_props v (h v hv)).1

/-- The bytes of a text are those of characters of the alphabet when it is made of these. -/
theorem utf8_eq_map_iff {s : Text} {vs : List ℕ} (h : ∀ v ∈ vs, v < 64) :
    utf8 s = vs.map b64Byte ↔ s = vs.map b64Char := by
  rw [← utf8_map_b64Char h]
  constructor
  · intro hs
    rw [← lossy_utf8 s, hs, lossy_utf8]
  · exact congrArg utf8

/-- What is decoded: a text of the alphabet that has no character too many, from whose bits a rest
is dropped that is shorter than a character. -/
theorem base64urlDecode_eq_some {s : Text} {d : Bytes} : base64urlDecode s = some d ↔
    ∃ vs : List ℕ, s = vs.map b64Char ∧ (∀ v ∈ vs, v < 64) ∧ vs.length % 4 ≠ 1 ∧
      ∃ rest, ungroup 6 vs = byteBits d ++ rest ∧ rest.length < 6 := by
  have hlen {vs : List ℕ} (h : utf8 s = vs.map b64Byte) : (utf8 s).length = vs.length := by
    rw [h, List.length_map]
  constructor
  · intro h
    unfold base64urlDecode at h
    split at h
    · cases h
    · next hmod =>
      obtain ⟨vs, hs, hlt⟩ := exists_digits_of_decodeChunks h
      rw [hlen hs] at hmod
      obtain ⟨d', rest, hd, hbits⟩ := exists_decodeChunks hmod hlt
      rw [hs, hd] at h
      obtain rfl := Option.some.inj h
      exact ⟨vs, (utf8_eq_map_iff hlt).1 hs, hlt, hmod, rest, hbits⟩
  · rintro ⟨vs, hs, hlt, hmod, rest, hbits, hrest⟩
    have hs := (utf8_eq_map_iff hlt).2 hs
    obtain ⟨d', rest', hd, hbits', hrest'⟩ := exists_decodeChunks hmod hlt
    obtain ⟨rfl, -⟩ := byteBits_append_injective (r := rest) (s := rest') (by omega) (by omega)
      (hbits.symm.trans hbits')
    rw [base64urlDecode, hlen hs, if_neg hmod, hs, hd]

/-- What consists of symbols is written with digits. -/
theorem exists_digits_iff {β : Type} {symbol : ℕ → β} {l : List β} :
    (∀ c ∈ l, ∃ v < 64, c = symbol v) ↔
      ∃ vs : List ℕ, l = vs.map symbol ∧ ∀ v ∈ vs, v < 64 := by
  constructor
  · intro h
    induction l with
    | nil => exact ⟨[], rfl, by simp⟩
    | cons c l ih =>
      rw [List.forall_mem_cons] at h
      obtain ⟨v, hv, rfl⟩ := h.1
      obtain ⟨vs, rfl, hvs⟩ := ih h.2
      exact ⟨v :: vs, rfl, List.forall_mem_cons.2 ⟨hv, hvs⟩⟩
  · rintro ⟨vs, rfl, hlt⟩ c hc
    obtain ⟨v, hv, rfl⟩ := List.mem_map.1 hc
    exact ⟨v, hlt v hv, rfl⟩

/-- Accepted are the digits that do not have one too many. -/
theorem isSome_base64urlDecode_digits (s : Text) : (base64urlDecode s).isSome ↔
    ∃ vs : List ℕ, s = vs.map b64Char ∧ (∀ v ∈ vs, v < 64) ∧ vs.length % 4 ≠ 1 := by
  rw [Option.isSome_iff_exists]
  constructor
  · rintro ⟨d, hd⟩
    obtain ⟨vs, hs, hlt, hmod, -⟩ := base64urlDecode_eq_some.1 hd
    exact ⟨vs, hs, hlt, hmod⟩
  · rintro ⟨vs, hs, hlt, hmod⟩
    obtain ⟨d, rest, -, hbits⟩ := exists_decodeChunks hmod hlt
    exact ⟨d, base64urlDecode_eq_some.2 ⟨vs, hs, hlt, hmod, rest, hbits⟩⟩

/-- The accepted texts are those of the alphabet that do not have one character too many. -/
theorem isSome_base64urlDecode (s : Text) : (base64urlDecode s).isSome ↔
    (∀ c ∈ s, ∃ v < 64, c = b64Char v) ∧ s.length % 4 ≠ 1 := by
  rw [isSome_base64urlDecode_digits, exists_digits_iff]
  constructor
  · rintro ⟨vs, rfl, hlt, hmod⟩
    exact ⟨⟨vs, rfl, hlt⟩, by rwa [List.length_map]⟩
  · rintro ⟨⟨vs, rfl, hlt⟩, hmod⟩
    exact ⟨vs, rfl, hlt, by rwa [List.length_map] at hmod⟩

theorem b64Char_injective {v w : ℕ} (hv : v < 64) (hw : w < 64) (h : b64Char v = b64Char w) :
    v = w := by
  have hval := (b64Char_props v hv).2.2.2
  rw [h, (b64Char_props w hw).2.2.2] at hval
  exact (Option.some.inj hval).symm

theorem map_b64Char_injective {vs ws : List ℕ} (hv : ∀ v ∈ vs, v < 64) (hw : ∀ w ∈ ws, w < 64)
    (h : vs.map b64Char = ws.map b64Char) : vs = ws := by
  induction vs generalizing ws with
  | nil => exact (List.map_eq_nil_iff.1 h.symm).symm
  | cons v vs ih =>
    cases ws with
    | nil => cases h
    | cons w ws =>
      rw [List.forall_mem_cons] at hv hw
      obtain ⟨hc, hcs⟩ := List.cons_eq_cons.1 h
      rw [b64Char_injective hv.1 hw.1 hc, ih hv.2 hw.2 hcs]

section

variable {vs : List ℕ} {d : Bytes} {rest : List Bool}

/-- A text is the encoding of its bytes when the bits dropped are zero. -/
theorem base64urlEncode_eq_iff (hlt : ∀ v ∈ vs, v < 64) (hbits : ungroup 6 vs = byteBits d ++ rest)
    (hrest : rest.length < 6) :
    vs.map b64Char = base64urlEncode d ↔ rest = List.replicate rest.length false := by
  rw [base64urlEncode_eq]
  constructor
  · intro h
    have hgroup : ∀ w ∈ group 6 (byteBits d), w < 64 := fun w hw =>
      lt_of_mem_group (by decide) hw
    have hvs := map_b64Char_injective hlt hgroup h
    rw [hvs, ungroup_group (by decide)] at hbits
    rw [← List.append_cancel_left hbits, List.length_replicate]
  · intro h
    rw [h] at hbits
    rw [rfc4648, group_eq_of_ungroup (by decide) hlt hrest hbits]

end

/-! ## The codec -/

/-- The number that a character of the alphabet stands for. -/
def charValue (c : Char) : ℕ := b64url.idxOf c

/-- How many low bits of the last of so many characters are not used. -/
def unusedBits (n : ℕ) : ℕ := if n % 4 = 2 then 4 else if n % 4 = 3 then 2 else 0

/-- The character whose value has its `k` low bits cleared. -/
def clearLow (k : ℕ) (c : Char) : Char := b64Char (charValue c >>> k <<< k)

/-- The text with the unused bits of its last character cleared. -/
def clearUnused (s : Text) : Text := s.modifyLast (clearLow (unusedBits (utf8 s).length))

/-- The texts differ in their last characters, and there in the `k` low bits only. -/
def DifferInLow (k : ℕ) (s s' : Text) : Prop :=
  ∃ init c c', s = init ++ [c] ∧ s' = init ++ [c'] ∧ c ≠ c' ∧ charValue c >>> k = charValue c' >>> k

theorem charValue_b64Char : ∀ v < 64, charValue (b64Char v) = v := by
  decide +kernel

theorem b64url_eq : b64url = (List.range 64).map b64Char := by
  decide +kernel

theorem utf8_b64url : utf8 b64url = (List.range 64).map b64Byte := by
  rw [b64url_eq, utf8_map_b64Char fun v hv => List.mem_range.1 hv]

theorem b64Char_mem {v : ℕ} (h : v < 64) : b64Char v ∈ b64url := by
  rw [b64url_eq]
  exact List.mem_map_of_mem (List.mem_range.2 h)

/-- The accepted texts, by their bytes. -/
theorem isSome_base64urlDecode_bytes (s : Text) : (base64urlDecode s).isSome ↔
    (∀ b ∈ utf8 s, b ∈ utf8 b64url) ∧ (utf8 s).length % 4 ≠ 1 := by
  have hbyte {b : UInt8} : b ∈ utf8 b64url ↔ ∃ v < 64, b = b64Byte v := by
    rw [utf8_b64url, List.mem_map]
    simp only [List.mem_range, eq_comm]
  simp only [hbyte]
  rw [isSome_base64urlDecode_digits, exists_digits_iff]
  constructor
  · rintro ⟨vs, rfl, hlt, hmod⟩
    rw [utf8_map_b64Char hlt, List.length_map]
    exact ⟨⟨vs, rfl, hlt⟩, hmod⟩
  · rintro ⟨⟨vs, hs, hlt⟩, hmod⟩
    rw [hs, List.length_map] at hmod
    exact ⟨vs, (utf8_eq_map_iff hlt).1 hs, hlt, hmod⟩

theorem unusedBits_eq {n m r : ℕ} (h : 6 * n = 8 * m + r) (hr : r < 6) : unusedBits n = r := by
  have hmod : r % 8 = 6 * (n % 4) % 8 := by omega
  unfold unusedBits
  split_ifs with h₂ h₃
  · omega
  · omega
  · obtain h₀ | h₁ : n % 4 = 0 ∨ n % 4 = 1 := by omega
    · omega
    · rw [h₁] at hmod
      omega

theorem clear_lt {v : ℕ} (h : v < 64) (k : ℕ) : v >>> k <<< k < 64 := by
  rw [Nat.shiftLeft_eq, Nat.shiftRight_eq_div_pow]
  exact (Nat.div_mul_le_self v _).trans_lt h

/-- What an accepted text is made of: nothing, or some digits and a last one, which without its
unused bits ends the encoding of what is decoded. -/
theorem base64urlDecode_cases {s : Text} {d : Bytes} (h : base64urlDecode s = some d) :
    s = [] ∧ d = [] ∨
      ∃ vs : List ℕ, ∃ v < 64, s = vs.map b64Char ++ [b64Char v] ∧
        base64urlEncode d = vs.map b64Char ++
          [b64Char (v >>> unusedBits (utf8 s).length <<< unusedBits (utf8 s).length)] := by
  obtain ⟨ws, rfl, hlt, -, rest, hbits, hrest⟩ := base64urlDecode_eq_some.1 h
  have hlen := congrArg List.length hbits
  rw [length_ungroup, List.length_append, length_byteBits] at hlen
  rcases List.eq_nil_or_concat' ws with rfl | ⟨vs, v, rfl⟩
  · exact .inl ⟨rfl, List.length_eq_zero_iff.1 (by simp only [List.length_nil] at hlen; omega)⟩
  · have hunused := unusedBits_eq hlen hrest
    rw [utf8_map_b64Char hlt, List.length_map, hunused]
    refine .inr ⟨vs, v, hlt v (by simp), by simp, ?_⟩
    have hclear := ungroup_clear_last hbits hrest.le
    have hlt' : ∀ w ∈ vs ++ [v >>> rest.length <<< rest.length], w < 2 ^ 6 := by
      intro w hw
      rcases List.mem_append.1 hw with hw | hw
      · exact hlt w (List.mem_append_left _ hw)
      · rw [List.mem_singleton.1 hw]
        exact clear_lt (hlt v (by simp)) _
    rw [base64urlEncode_eq, rfc4648, group_eq_of_ungroup (by decide) hlt' hrest hclear,
      List.map_append, List.map_singleton]

theorem base64urlEncode_of_decode {s : Text} {d : Bytes} (h : base64urlDecode s = some d) :
    base64urlEncode d = clearUnused s := by
  rcases base64urlDecode_cases h with ⟨rfl, rfl⟩ | ⟨vs, v, hv, hs, henc⟩
  · rfl
  · rw [henc, clearUnused]
    generalize unusedBits (utf8 s).length = k
    rw [hs, List.modifyLast_concat, clearLow, charValue_b64Char v hv]

theorem differInLow_of_decode {s : Text} {d : Bytes} (h : base64urlDecode s = some d)
    (hne : s ≠ base64urlEncode d) :
    DifferInLow (unusedBits (utf8 s).length) s (base64urlEncode d) := by
  rcases base64urlDecode_cases h with ⟨rfl, rfl⟩ | ⟨vs, v, hv, hs, henc⟩
  · exact absurd rfl hne
  · refine ⟨_, _, _, hs, henc, fun hc => hne ?_, ?_⟩
    · rw [henc, ← hc]
      exact hs
    · rw [charValue_b64Char v hv, charValue_b64Char _ (clear_lt hv _), Nat.shiftLeft_shiftRight]

/-- The encoder is that of RFC 4648 without padding, with four characters for three bytes, rounded
up, and what it wrote is decoded.  Accepted are the texts of the alphabet that do not have one
character too many.  What is decoded is encoded as the text with its unused bits cleared, so that
texts other than encodings differ from one in these bits only. -/
theorem base64url_codec :
    (∀ d : Bytes, base64urlDecode (base64urlEncode d) = some d ∧
      (base64urlEncode d).length = (4 * d.length + 2) / 3 ∧ (∀ c ∈ base64urlEncode d, c ∈ b64url) ∧
      base64urlEncode d = rfc4648 6 b64Char d) ∧
    (∀ s : Text, (base64urlDecode s).isSome ↔
      (∀ b ∈ utf8 s, b ∈ utf8 b64url) ∧ (utf8 s).length % 4 ≠ 1) ∧
    ∀ (s : Text) (d : Bytes), base64urlDecode s = some d →
      base64urlEncode d = clearUnused s ∧
        (s ≠ base64urlEncode d →
          DifferInLow (unusedBits (utf8 s).length) s (base64urlEncode d)) := by
  refine ⟨fun d => ⟨base64urlDecode_encode d, ?_, fun c hc => ?_, base64urlEncode_eq d⟩,
    isSome_base64urlDecode_bytes, fun s d h => ⟨base64urlEncode_of_decode h,
      differInLow_of_decode h⟩⟩
  · rw [length_base64urlEncode]
    split_ifs <;> omega
  · obtain ⟨v, hv, rfl⟩ := mem_base64urlEncode hc
    exact b64Char_mem hv

/-- A text with an unused bit set. -/
theorem base64url_codec_overhang :
    base64urlEncode [0xfb, 0xff] = clearUnused "-_9".toList ∧
      DifferInLow (unusedBits (utf8 "-_9".toList).length) "-_9".toList
        (base64urlEncode [0xfb, 0xff]) := by
  obtain ⟨hclear, hdiffer⟩ := base64url_codec.2.2 "-_9".toList [0xfb, 0xff] (by decide)
  exact ⟨hclear, hdiffer (by decide)⟩

end Spot

import Mathlib.Tactic.Common
import Mathlib.Order.Nat

/-!
# UTF-8

`utf8 s` is the UTF-8 form of the text `s` (a list of Unicode scalar values).  `lossy b` reads any
byte string as a text the way Rust's `String::from_utf8_lossy` does: well formed sequences give
their character, and each maximal proper prefix of a well formed sequence, or else each single byte
that starts none, gives one U+FFFD.

* `lossy_utf8`: reading back the bytes of a text gives the text;
* `length_utf8_lossy_le`: a replaced text is at most three times as long as the bytes it was read
  from.
-/

namespace Spot

/-- The UTF-8 bytes of a text. -/
def utf8 (s : List Char) : List UInt8 := s.flatMap String.utf8EncodeChar

@[simp] theorem utf8_nil : utf8 [] = [] := rfl

@[simp] theorem utf8_cons (c : Char) (s : List Char) :
    utf8 (c :: s) = String.utf8EncodeChar c ++ utf8 s := rfl

@[simp] theorem utf8_append (s t : List Char) : utf8 (s ++ t) = utf8 s ++ utf8 t :=
  List.flatMap_append

/-- The UTF-8 form of an ASCII text has one byte for each character. -/
theorem utf8_of_ascii {s : List Char} (h : ∀ c ∈ s, c.toNat < 128) :
    utf8 s = s.map fun c => UInt8.ofNat c.toNat := by
  induction s with
  | nil => rfl
  | cons c s ih =>
    have hc : c.val.toNat ≤ 127 := Nat.le_of_lt_succ (h c List.mem_cons_self)
    rw [utf8_cons, List.map_cons, ih fun d hd => h d (List.mem_cons_of_mem c hd)]
    simp only [String.utf8EncodeChar, if_pos hc]
    rfl

theorem length_utf8_of_ascii {s : List Char} (h : ∀ c ∈ s, c.toNat < 128) :
    (utf8 s).length = s.length := by
  rw [utf8_of_ascii h, List.length_map]

/-- A character that is not ASCII has a byte that is not. -/
theorem mem_utf8EncodeChar {c : Char} (h : 128 ≤ c.toNat) :
    UInt8.ofNat (c.toNat % 64 + 128) ∈ String.utf8EncodeChar c := by
  have hc : ¬ c.val.toNat ≤ 127 := Nat.not_le_of_lt h
  simp only [String.utf8EncodeChar, if_neg hc]
  split_ifs <;> simp

/-- A text is ASCII when its bytes are. -/
theorem ascii_of_utf8 {s : List Char} (h : ∀ b ∈ utf8 s, b.toNat < 128) {c : Char} (hc : c ∈ s) :
    c.toNat < 128 := by
  by_contra hge
  have hlt := h _ (List.mem_flatMap.2 ⟨c, hc, mem_utf8EncodeChar (not_lt.1 hge)⟩)
  rw [UInt8.toNat_ofNat'] at hlt
  omega

/-- All bytes of a character that is not ASCII are not. -/
theorem le_of_mem_utf8EncodeChar {c : Char} (h : 128 ≤ c.toNat) {b : UInt8}
    (hb : b ∈ String.utf8EncodeChar c) : 128 ≤ b.toNat := by
  have hc : ¬ c.val.toNat ≤ 127 := Nat.not_le_of_lt h
  have hbyte : ∀ n, 128 ≤ n → n < 256 → 128 ≤ (UInt8.ofNat n).toNat := by
    intro n hn hn'
    rw [UInt8.toNat_ofNat', Nat.mod_eq_of_lt hn']
    exact hn
  simp only [String.utf8EncodeChar, if_neg hc] at hb
  split_ifs at hb <;> simp only [List.mem_cons, List.not_mem_nil, or_false] at hb <;>
    rcases hb with rfl | rfl | rfl | rfl <;> exact hbyte _ (by omega) (by omega)

/-- A text has the byte of an ASCII character only if it has that character. -/
theorem ascii_mem_utf8 {a : Char} (ha : a.toNat < 128) {s : List Char} :
    UInt8.ofNat a.toNat ∈ utf8 s ↔ a ∈ s := by
  have hbyte : (UInt8.ofNat a.toNat).toNat = a.toNat := by
    rw [UInt8.toNat_ofNat', Nat.mod_eq_of_lt (by omega)]
  have hchar : ∀ {c : Char}, c.toNat < 128 →
      String.utf8EncodeChar c = [UInt8.ofNat c.toNat] := by
    intro c hc
    have hsingle := utf8_of_ascii (s := [c]) (by simpa using hc)
    rwa [utf8_cons, utf8_nil, List.append_nil] at hsingle
  constructor
  · intro h
    obtain ⟨c, hc, hmem⟩ := List.mem_flatMap.1 h
    have hlt : c.toNat < 128 := by
      by_contra hge
      have hle := le_of_mem_utf8EncodeChar (not_lt.1 hge) hmem
      omega
    rw [hchar hlt, List.mem_singleton] at hmem
    have hnat : a.toNat = c.toNat := by
      rw [← hbyte, hmem, UInt8.toNat_ofNat', Nat.mod_eq_of_lt (by omega)]
    rwa [Char.toNat_inj.1 hnat]
  · intro h
    refine List.mem_flatMap.2 ⟨a, h, ?_⟩
    rw [hchar ha]
    exact List.mem_singleton_self _

/-! ## Lossy reading -/

/-- A continuation byte. -/
def isCont (x : UInt8) : Bool := x &&& 192 = 128

/-- The second bytes that may follow the first byte `b` of a sequence of three. -/
def isSecond3 (b x : UInt8) : Bool :=
  if b = 0xE0 then 0xA0 ≤ x && x ≤ 0xBF
  else if b = 0xED then 0x80 ≤ x && x ≤ 0x9F
  else 0x80 ≤ x && x ≤ 0xBF

/-- The second bytes that may follow the first byte `b` of a sequence of four. -/
def isSecond4 (b x : UInt8) : Bool :=
  if b = 0xF0 then 0x90 ≤ x && x ≤ 0xBF
  else if b = 0xF4 then 0x80 ≤ x && x ≤ 0x8F
  else 0x80 ≤ x && x ≤ 0xBF

/-- The character of a well formed sequence of two bytes. -/
def char2 (b x : UInt8) : Char := Char.ofNat (b.toNat % 32 * 64 + x.toNat % 64)

/-- The character of a well formed sequence of three bytes. -/
def char3 (b x y : UInt8) : Char :=
  Char.ofNat (b.toNat % 16 * 4096 + x.toNat % 64 * 64 + y.toNat % 64)

/-- The character of a well formed sequence of four bytes. -/
def char4 (b x y z : UInt8) : Char :=
  Char.ofNat (b.toNat % 8 * 262144 + x.toNat % 64 * 4096 + y.toNat % 64 * 64 + z.toNat % 64)

/-- U+FFFD, put in the place of what is not well formed. -/
def replacement : Char := Char.ofNat 0xFFFD

/-- The text read from a byte string, with U+FFFD for each piece that is not well formed. -/
def lossy : List UInt8 → List Char
  | [] => []
  | b :: l =>
    if b < 0x80 then Char.ofNat b.toNat :: lossy l
    else if 0xC2 ≤ b ∧ b ≤ 0xDF then
      match l with
      | [] => [replacement]
      | x :: l' =>
        if isCont x then char2 b x :: lossy l' else replacement :: lossy (x :: l')
    else if 0xE0 ≤ b ∧ b ≤ 0xEF then
      match l with
      | [] => [replacement]
      | x :: l' =>
        if isSecond3 b x then
          match l' with
          | [] => [replacement]
          | y :: l'' =>
            if isCont y then char3 b x y :: lossy l'' else replacement :: lossy (y :: l'')
        else replacement :: lossy (x :: l')
    else if 0xF0 ≤ b ∧ b ≤ 0xF4 then
      match l with
      | [] => [replacement]
      | x :: l' =>
        if isSecond4 b x then
          match l' with
          | [] => [replacement]
          | y :: l'' =>
            if isCont y then
              match l'' with
              | [] => [replacement]
              | z :: l''' =>
                if isCont z then char4 b x y z :: lossy l''' else replacement :: lossy (z :: l''')
            else replacement :: lossy (y :: l'')
        else replacement :: lossy (x :: l')
    else replacement :: lossy l

example : lossy [0x61, 0xC3, 0xA9, 0xFF, 0xE2, 0x82, 0x41] =
    ['a', 'é', replacement, replacement, 'A'] := by decide

/-! ### Reading back the bytes of a character -/

theorem toNat_byte {n : ℕ} (h : n < 256) : (UInt8.ofNat n).toNat = n := by
  rw [UInt8.toNat_ofNat']
  exact Nat.mod_eq_of_lt h

theorem isCont_byte (n : ℕ) : isCont (UInt8.ofNat (n % 64 + 128)) = true := by
  have h : ∀ k : Fin 64, isCont (UInt8.ofNat (k.val + 128)) = true := by decide
  exact h ⟨n % 64, Nat.mod_lt _ (by decide)⟩

theorem char_cases (c : Char) :
    c.val.toNat < 0xD800 ∨ (0xDFFF < c.val.toNat ∧ c.val.toNat < 0x110000) := c.valid

theorem isSecond3_byte {v : ℕ} (h₁ : 2047 < v) (h₂ : v ≤ 65535) (hv : v < 0xD800 ∨ 0xDFFF < v) :
    isSecond3 (UInt8.ofNat (v / 4096 % 16 + 224)) (UInt8.ofNat (v / 64 % 64 + 128)) = true := by
  have hb := toNat_byte (n := v / 4096 % 16 + 224) (by omega)
  have hx := toNat_byte (n := v / 64 % 64 + 128) (by omega)
  simp only [isSecond3, ← UInt8.toNat_inj, UInt8.le_iff_toNat_le, hb, hx, UInt8.reduceToNat]
  split_ifs <;> simp only [Bool.and_eq_true, decide_eq_true_eq] <;> omega

theorem isSecond4_byte {v : ℕ} (h₁ : 65535 < v) (h₂ : v < 0x110000) :
    isSecond4 (UInt8.ofNat (v / 262144 % 8 + 240)) (UInt8.ofNat (v / 4096 % 64 + 128)) = true := by
  have hb := toNat_byte (n := v / 262144 % 8 + 240) (by omega)
  have hx := toNat_byte (n := v / 4096 % 64 + 128) (by omega)
  simp only [isSecond4, ← UInt8.toNat_inj, UInt8.le_iff_toNat_le, hb, hx, UInt8.reduceToNat]
  split_ifs <;> simp only [Bool.and_eq_true, decide_eq_true_eq] <;> omega

/-- The bytes of a character, wherever they stand, are read as that character. -/
theorem lossy_utf8EncodeChar (c : Char) (l : List UInt8) :
    lossy (String.utf8EncodeChar c ++ l) = c :: lossy l := by
  have hc := char_cases c
  have hv : Char.ofNat c.val.toNat = c := Char.ofNat_toNat c
  unfold String.utf8EncodeChar
  generalize c.val.toNat = v at hc hv
  dsimp only
  split_ifs with h₁ h₂ h₃
  · have hb := toNat_byte (n := v) (by omega)
    have h : UInt8.ofNat v < 0x80 := by
      simp only [UInt8.lt_iff_toNat_lt, hb, UInt8.reduceToNat]
      omega
    rw [List.singleton_append, lossy.eq_def]
    dsimp only
    rw [if_pos h, hb, hv]
  · have hb := toNat_byte (n := v / 64 % 32 + 192) (by omega)
    have hx := toNat_byte (n := v % 64 + 128) (by omega)
    have h : ¬ UInt8.ofNat (v / 64 % 32 + 192) < 0x80 ∧ 0xC2 ≤ UInt8.ofNat (v / 64 % 32 + 192) ∧
        UInt8.ofNat (v / 64 % 32 + 192) ≤ 0xDF := by
      simp only [UInt8.lt_iff_toNat_lt, UInt8.le_iff_toNat_le, hb, UInt8.reduceToNat]
      omega
    have e : (v / 64 % 32 + 192) % 32 * 64 + (v % 64 + 128) % 64 = v := by omega
    rw [List.cons_append, List.singleton_append, lossy.eq_def]
    dsimp only
    rw [if_neg h.1, if_pos h.2]
    simp only [isCont_byte, if_true, char2, hb, hx, e, hv]
  · have hb := toNat_byte (n := v / 4096 % 16 + 224) (by omega)
    have hx := toNat_byte (n := v / 64 % 64 + 128) (by omega)
    have hy := toNat_byte (n := v % 64 + 128) (by omega)
    have h : ¬ UInt8.ofNat (v / 4096 % 16 + 224) < 0x80 ∧
        ¬ (0xC2 ≤ UInt8.ofNat (v / 4096 % 16 + 224) ∧ UInt8.ofNat (v / 4096 % 16 + 224) ≤ 0xDF) ∧
        (0xE0 ≤ UInt8.ofNat (v / 4096 % 16 + 224) ∧ UInt8.ofNat (v / 4096 % 16 + 224) ≤ 0xEF) := by
      simp only [UInt8.lt_iff_toNat_lt, UInt8.le_iff_toNat_le, hb, UInt8.reduceToNat]
      omega
    have e : (v / 4096 % 16 + 224) % 16 * 4096 + (v / 64 % 64 + 128) % 64 * 64 +
        (v % 64 + 128) % 64 = v := by omega
    rw [List.cons_append, List.cons_append, List.singleton_append, lossy.eq_def]
    dsimp only
    rw [if_neg h.1, if_neg h.2.1, if_pos h.2.2]
    simp only [isSecond3_byte (v := v) (by omega) (by omega) (by omega), isCont_byte, if_true,
      char3, hb, hx, hy, e, hv]
  · have hb := toNat_byte (n := v / 262144 % 8 + 240) (by omega)
    have hx := toNat_byte (n := v / 4096 % 64 + 128) (by omega)
    have hy := toNat_byte (n := v / 64 % 64 + 128) (by omega)
    have hz := toNat_byte (n := v % 64 + 128) (by omega)
    have h : ¬ UInt8.ofNat (v / 262144 % 8 + 240) < 0x80 ∧
        ¬ (0xC2 ≤ UInt8.ofNat (v / 262144 % 8 + 240) ∧
          UInt8.ofNat (v / 262144 % 8 + 240) ≤ 0xDF) ∧
        ¬ (0xE0 ≤ UInt8.ofNat (v / 262144 % 8 + 240) ∧
          UInt8.ofNat (v / 262144 % 8 + 240) ≤ 0xEF) ∧
        (0xF0 ≤ UInt8.ofNat (v / 262144 % 8 + 240) ∧
          UInt8.ofNat (v / 262144 % 8 + 240) ≤ 0xF4) := by
      simp only [UInt8.lt_iff_toNat_lt, UInt8.le_iff_toNat_le, hb, UInt8.reduceToNat]
      omega
    have e : (v / 262144 % 8 + 240) % 8 * 262144 + (v / 4096 % 64 + 128) % 64 * 4096 +
        (v / 64 % 64 + 128) % 64 * 64 + (v % 64 + 128) % 64 = v := by omega
    rw [List.cons_append, List.cons_append, List.cons_append, List.singleton_append, lossy.eq_def]
    dsimp only
    rw [if_neg h.1, if_neg h.2.1, if_neg h.2.2.1, if_pos h.2.2.2]
    simp only [isSecond4_byte (v := v) (by omega) (by omega), isCont_byte, if_true,
      char4, hb, hx, hy, hz, e, hv]

/-- Reading back the bytes of a text gives the text. -/
theorem lossy_utf8 (s : List Char) : lossy (utf8 s) = s := by
  induction s with
  | nil => rfl
  | cons c s ih => rw [utf8_cons, lossy_utf8EncodeChar, ih]

/-! ### How long a replaced text can be -/

theorem length_utf8_cons_le (c : Char) (s : List Char) :
    (utf8 (c :: s)).length ≤ 4 + (utf8 s).length := by
  rw [utf8_cons, List.length_append, String.length_utf8EncodeChar]
  have := Char.utf8Size_le_four c
  omega

theorem length_utf8_replacement_cons (s : List Char) :
    (utf8 (replacement :: s)).length = 3 + (utf8 s).length := by
  rw [utf8_cons, List.length_append]
  rfl

theorem length_utf8_ascii_cons {b : UInt8} (h : b < 0x80) (s : List Char) :
    (utf8 (Char.ofNat b.toNat :: s)).length = 1 + (utf8 s).length := by
  have hb : ∀ k : Fin 128, (String.utf8EncodeChar (Char.ofNat k.val)).length = 1 := by decide
  rw [utf8_cons, List.length_append, hb ⟨b.toNat, UInt8.lt_iff_toNat_lt.1 h⟩]

/-- A replaced text is at most three times as long as the bytes it was read from. -/
theorem length_utf8_lossy_le (l : List UInt8) : (utf8 (lossy l)).length ≤ 3 * l.length := by
  fun_induction lossy l with
  | case1 => simp
  | case2 b l h ih =>
    rw [length_utf8_ascii_cons h, List.length_cons]
    omega
  | case4 | case8 | case14 =>
    -- a character of at least two bytes
    refine le_trans (length_utf8_cons_le _ _) ?_
    simp only [List.length_cons]
    omega
  | _ =>
    -- a replacement stands for at least one byte
    simp only [length_utf8_replacement_cons, utf8_nil, List.length_cons, List.length_nil] at *
    omega

end Spot

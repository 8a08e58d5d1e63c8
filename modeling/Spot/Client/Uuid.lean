import Mathlib.Data.List.GetD
import Spot.Client.Address

/-!
# Ids of queries

An id is made of sixteen random bytes, of which the version and the variant overwrite six bits.
`uuid_exact`: the texts of such ids are those that have the canonical form of a version 4 UUID, and
two draws give the same text only if they agree in the other 122 bits.
-/

namespace Spot

/-- `uuid_v4`, from the random bytes. -/
def uuidV4Of (b : MessageId) : MessageId :=
  (b.set 6 (b.get 6 &&& 0x0f ||| 0x40)).set 8 (b.get 8 &&& 0x3f ||| 0x80)

/-- A group of `n` hexadecimal digits. -/
def HexGroup (n : ℕ) (g : Text) : Prop := g.length = n ∧ ∀ c ∈ g, c ∈ "0123456789abcdef".toList

/-- The canonical form of a version 4 UUID. -/
def CanonicalV4 (s : Text) : Prop :=
  ∃ g₁ g₂ g₃ g₄ g₅, s = g₁ ++ '-' :: (g₂ ++ '-' :: (g₃ ++ '-' :: (g₄ ++ '-' :: g₅))) ∧
    HexGroup 8 g₁ ∧ HexGroup 4 g₂ ∧ HexGroup 4 g₃ ∧ HexGroup 4 g₄ ∧ HexGroup 12 g₅ ∧
    g₃.head? = some '4' ∧ ∃ c ∈ "89ab".toList, g₄.head? = some c

/-- The draws agree in the bits that are kept. -/
def SameFreeBits (b b' : MessageId) : Prop :=
  ∀ i : Fin 16, if i = 6 then (b.get i).toNat % 16 = (b'.get i).toNat % 16
    else if i = 8 then (b.get i).toNat % 64 = (b'.get i).toNat % 64
    else b.get i = b'.get i

/-! ## Groups of digits -/

/-- The digits of bytes. -/
def hexText (b : Bytes) : Text := b.flatMap hexByte

theorem hexText_cons (x : UInt8) (b : Bytes) : hexText (x :: b) = hexByte x ++ hexText b :=
  List.flatMap_cons

theorem exists_hexDigit {c : Char} (hc : c ∈ "0123456789abcdef".toList) :
    ∃ v < 16, c = hexDigit v := by
  obtain ⟨v, hv, rfl⟩ := List.getElem_of_mem hc
  exact ⟨v, hv, (List.getD_eq_getElem _ _ hv).symm⟩

theorem hexDigit_mem {v : ℕ} (hv : v < 16) : hexDigit v ∈ "0123456789abcdef".toList := by
  have hlt : v < "0123456789abcdef".toList.length := hv
  rw [hexDigit, List.getD_eq_getElem _ _ hlt]
  exact List.getElem_mem hlt

theorem exists_hexByte {c c' : Char} (hc : c ∈ "0123456789abcdef".toList)
    (hc' : c' ∈ "0123456789abcdef".toList) : ∃ x, hexByte x = [c, c'] := by
  obtain ⟨v, hv, rfl⟩ := exists_hexDigit hc
  obtain ⟨v', hv', rfl⟩ := exists_hexDigit hc'
  refine ⟨UInt8.ofNat (16 * v + v'), ?_⟩
  have hx : (UInt8.ofNat (16 * v + v')).toNat = 16 * v + v' :=
    UInt8.toNat_ofNat_of_lt' (by show 16 * v + v' < 256; omega)
  rw [hexByte, hx, show (16 * v + v') / 16 = v by omega, show (16 * v + v') % 16 = v' by omega]

/-- Bytes give a group of twice as many digits. -/
theorem hexGroup_hexText {n : ℕ} {b : Bytes} (h : 2 * b.length = n) : HexGroup n (hexText b) := by
  subst h
  induction b with
  | nil => exact ⟨rfl, fun c hc => absurd hc List.not_mem_nil⟩
  | cons x b ih =>
    have hx := x.toNat_lt
    obtain ⟨hlen, hall⟩ := ih
    refine ⟨?_, fun c hc => ?_⟩
    · rw [hexText_cons, List.length_append, hlen, List.length_cons]
      show 2 + _ = _
      omega
    · rw [hexText_cons] at hc
      rcases List.mem_append.1 hc with hc | hc
      · rcases List.mem_cons.1 hc with rfl | hc
        · exact hexDigit_mem (by omega)
        · obtain rfl := List.mem_singleton.1 hc
          exact hexDigit_mem (by omega)
      · exact hall c hc

/-- A group with an even number of digits is that of bytes. -/
theorem HexGroup.exists_bytes {n : ℕ} {g : Text} (h : HexGroup (2 * n) g) :
    ∃ b : Bytes, b.length = n ∧ g = hexText b := by
  induction n generalizing g with
  | zero =>
    obtain rfl := List.length_eq_zero_iff.1 h.1
    exact ⟨[], rfl, rfl⟩
  | succ n ih =>
    obtain ⟨hlen, hall⟩ := h
    match g, hlen, hall with
    | c :: c' :: g, hlen, hall =>
      obtain ⟨x, hx⟩ := exists_hexByte (hall c (by simp)) (hall c' (by simp))
      obtain ⟨b, hb, rfl⟩ := ih (g := g)
        ⟨by simpa [Nat.mul_succ] using hlen, fun d hd => hall d (by simp [hd])⟩
      refine ⟨x :: b, by rw [List.length_cons, hb], ?_⟩
      rw [hexText_cons, hx]
      rfl

/-! ## Version and variant -/

theorem toNat_version (x : UInt8) : (x &&& 0x0f ||| 0x40).toNat = 64 + x.toNat % 16 := by
  have hnat : ∀ n < 256, n &&& 0x0f ||| 0x40 = 64 + n % 16 := by decide +kernel
  rw [UInt8.toNat_or, UInt8.toNat_and]
  exact hnat _ x.toNat_lt

theorem toNat_variant (x : UInt8) : (x &&& 0x3f ||| 0x80).toNat = 128 + x.toNat % 64 := by
  have hnat : ∀ n < 256, n &&& 0x3f ||| 0x80 = 128 + n % 64 := by decide +kernel
  rw [UInt8.toNat_or, UInt8.toNat_and]
  exact hnat _ x.toNat_lt

/-- The first digit of a byte is that of its upper half. -/
theorem version_iff {x : UInt8} : hexDigit (x.toNat / 16) = '4' ↔ x &&& 0x0f ||| 0x40 = x := by
  have hx := x.toNat_lt
  have hdigit : ∀ v < 16, hexDigit v = '4' ↔ v = 4 := by decide +kernel
  rw [hdigit _ (by omega), ← UInt8.toNat_inj, toNat_version]
  omega

theorem variant_iff {x : UInt8} :
    hexDigit (x.toNat / 16) ∈ "89ab".toList ↔ x &&& 0x3f ||| 0x80 = x := by
  have hx := x.toNat_lt
  have hdigit : ∀ v < 16, hexDigit v ∈ "89ab".toList ↔ 8 ≤ v ∧ v < 12 := by
    decide +kernel
  rw [hdigit _ (by omega), ← UInt8.toNat_inj, toNat_variant]
  omega

/-- The overwritten bytes are as they should be. -/
def IsV4 (b : MessageId) : Prop :=
  b.get 6 &&& 0x0f ||| 0x40 = b.get 6 ∧ b.get 8 &&& 0x3f ||| 0x80 = b.get 8

theorem get_uuidV4Of (b : MessageId) (i : Fin 16) : (uuidV4Of b).get i =
    if i = 6 then b.get 6 &&& 0x0f ||| 0x40
    else if i = 8 then b.get 8 &&& 0x3f ||| 0x80
    else b.get i := by
  unfold uuidV4Of
  by_cases h8 : i = 8
  · subst h8
    rw [List.Vector.get_set_same]
    rfl
  · rw [List.Vector.get_set_of_ne (Ne.symm h8), if_neg h8]
    by_cases h6 : i = 6
    · subst h6
      rw [List.Vector.get_set_same, if_pos rfl]
    · rw [List.Vector.get_set_of_ne (Ne.symm h6), if_neg h6]

theorem isV4_uuidV4Of (b : MessageId) : IsV4 (uuidV4Of b) := by
  constructor
  · rw [get_uuidV4Of, if_pos rfl, ← UInt8.toNat_inj, toNat_version, toNat_version]
    omega
  · rw [get_uuidV4Of, if_neg (by decide), if_pos rfl, ← UInt8.toNat_inj, toNat_variant,
      toNat_variant]
    omega

theorem uuidV4Of_eq_self {b : MessageId} (h : IsV4 b) : uuidV4Of b = b := by
  refine List.Vector.ext fun i => ?_
  rw [get_uuidV4Of]
  split_ifs with h6 h8
  · rw [h6, h.1]
  · rw [h8, h.2]
  · rfl

theorem uuidV4Of_inj {b b' : MessageId} : uuidV4Of b = uuidV4Of b' ↔ SameFreeBits b b' := by
  have hext : uuidV4Of b = uuidV4Of b' ↔ ∀ i, (uuidV4Of b).get i = (uuidV4Of b').get i :=
    ⟨fun h i => by rw [h], List.Vector.ext⟩
  rw [hext, SameFreeBits]
  refine forall_congr' fun i => ?_
  rw [get_uuidV4Of, get_uuidV4Of]
  split_ifs with h6 h8
  · rw [h6, ← UInt8.toNat_inj, toNat_version, toNat_version]
    omega
  · rw [h8, ← UInt8.toNat_inj, toNat_variant, toNat_variant]
    omega
  · exact Iff.rfl

/-! ## Texts -/

/-- The sixteen bytes of an id, in the groups in which they are written. -/
theorem exists_groups (b : MessageId) : ∃ b₁ b₂ b₃ b₄ b₅ : Bytes, b₁.length = 4 ∧ b₂.length = 2 ∧
    b₃.length = 2 ∧ b₄.length = 2 ∧ b₅.length = 6 ∧
    b.toList = b₁ ++ (b₂ ++ (b₃ ++ (b₄ ++ b₅))) := by
  have hlen := b.toList_length
  refine ⟨b.toList.take 4, (b.toList.drop 4).take 2, ((b.toList.drop 4).drop 2).take 2,
    (((b.toList.drop 4).drop 2).drop 2).take 2, (((b.toList.drop 4).drop 2).drop 2).drop 2,
    ?_, ?_, ?_, ?_, ?_, ?_⟩
  iterate 5 simp [hlen]
  simp only [List.take_append_drop]

theorem uuidFrom_append (i : ℕ) (a b : Bytes) :
    uuidFrom i (a ++ b) = uuidFrom i a ++ uuidFrom (i + a.length) b := by
  induction a generalizing i with
  | nil => rfl
  | cons x a ih =>
    rw [List.cons_append, uuidFrom, uuidFrom, ih, List.length_cons, List.append_assoc,
      List.append_assoc, Nat.add_right_comm, Nat.add_assoc]

/-- No hyphen stands within a group. -/
theorem uuidFrom_plain {i : ℕ} {b : Bytes}
    (h : ∀ j, i ≤ j → j < i + b.length → ¬ (j = 4 ∨ j = 6 ∨ j = 8 ∨ j = 10)) :
    uuidFrom i b = hexText b := by
  induction b generalizing i with
  | nil => rfl
  | cons x b ih =>
    rw [List.length_cons] at h
    rw [uuidFrom, if_neg (h i le_rfl (by omega)), hexText_cons,
      ih fun j hj hlt => h j (by omega) (by omega)]
    rfl

theorem uuidFrom_dashed {i : ℕ} {b : Bytes} (hb : b ≠ [])
    (hi : i = 4 ∨ i = 6 ∨ i = 8 ∨ i = 10)
    (h : ∀ j, i < j → j < i + b.length → ¬ (j = 4 ∨ j = 6 ∨ j = 8 ∨ j = 10)) :
    uuidFrom i b = '-' :: hexText b := by
  obtain ⟨x, b, rfl⟩ := List.exists_cons_of_ne_nil hb
  rw [List.length_cons] at h
  rw [uuidFrom, if_pos hi, hexText_cons, uuidFrom_plain fun j hj hlt => h j (by omega) (by omega)]
  rfl

theorem uuidFrom_groups {b₁ b₂ b₃ b₄ b₅ : Bytes} (h₁ : b₁.length = 4) (h₂ : b₂.length = 2)
    (h₃ : b₃.length = 2) (h₄ : b₄.length = 2) (h₅ : b₅.length = 6) :
    uuidFrom 0 (b₁ ++ (b₂ ++ (b₃ ++ (b₄ ++ b₅)))) =
      hexText b₁ ++ '-' :: (hexText b₂ ++ '-' :: (hexText b₃ ++ '-' :: (hexText b₄ ++
        '-' :: hexText b₅))) := by
  have hne : ∀ {b : Bytes} {n : ℕ}, b.length = n + 1 → b ≠ [] := fun h => by
    rintro rfl
    cases h
  rw [uuidFrom_append, uuidFrom_append, uuidFrom_append, uuidFrom_append, h₁, h₂, h₃, h₄,
    uuidFrom_plain (by omega), uuidFrom_dashed (hne h₂) (by omega) (by omega),
    uuidFrom_dashed (hne h₃) (by omega) (by omega),
    uuidFrom_dashed (hne h₄) (by omega) (by omega),
    uuidFrom_dashed (hne h₅) (by omega) (by omega)]
  rfl

theorem get_of_toList {b : MessageId} {p q : Bytes} {x : UInt8} {i : Fin 16}
    (h : b.toList = p ++ x :: q) (hi : p.length = i) : b.get i = x := by
  rw [List.Vector.get_eq_get_toList, List.get_eq_getElem]
  simp only [h]
  rw [List.getElem_append_right (by simp [hi])]
  simp [hi]

/-- Version and variant are the first digits of the third and of the fourth group. -/
theorem isV4_iff {b : MessageId} {b₁ b₂ b₃ b₄ b₅ : Bytes} (h₁ : b₁.length = 4)
    (h₂ : b₂.length = 2) (h₃ : b₃.length = 2) (h₄ : b₄.length = 2)
    (hb : b.toList = b₁ ++ (b₂ ++ (b₃ ++ (b₄ ++ b₅)))) :
    IsV4 b ↔ (hexText b₃).head? = some '4' ∧
      ∃ c ∈ "89ab".toList, (hexText b₄).head? = some c := by
  obtain ⟨x, y, rfl⟩ := List.length_eq_two.1 h₃
  obtain ⟨z, w, rfl⟩ := List.length_eq_two.1 h₄
  have h6 : b.get 6 = x := by
    refine get_of_toList (p := b₁ ++ b₂) (q := y :: ([z, w] ++ b₅)) ?_ ?_
    · rw [hb, List.append_assoc]
      rfl
    · rw [List.length_append, h₁, h₂]
      rfl
  have h8 : b.get 8 = z := by
    refine get_of_toList (p := b₁ ++ (b₂ ++ [x, y])) (q := w :: b₅) ?_ ?_
    · rw [hb, List.append_assoc, List.append_assoc]
      rfl
    · rw [List.length_append, List.length_append, h₁, h₂]
      rfl
  have hx : (hexText [x, y]).head? = some (hexDigit (x.toNat / 16)) := rfl
  have hz : (hexText [z, w]).head? = some (hexDigit (z.toNat / 16)) := rfl
  rw [IsV4, h6, h8, ← version_iff, ← variant_iff, hx, hz, Option.some.injEq]
  exact and_congr_right fun _ =>
    ⟨fun h => ⟨_, h, rfl⟩, fun ⟨c, hc, heq⟩ => Option.some.inj heq ▸ hc⟩

/-- The texts of ids whose version and variant are as they should be are the canonical ones. -/
theorem canonicalV4_iff {s : Text} : CanonicalV4 s ↔ ∃ b, IsV4 b ∧ uuidString b = s := by
  constructor
  · rintro ⟨g₁, g₂, g₃, g₄, g₅, rfl, hg₁, hg₂, hg₃, hg₄, hg₅, hversion, hvariant⟩
    obtain ⟨b₁, h₁, rfl⟩ := hg₁.exists_bytes (n := 4)
    obtain ⟨b₂, h₂, rfl⟩ := hg₂.exists_bytes (n := 2)
    obtain ⟨b₃, h₃, rfl⟩ := hg₃.exists_bytes (n := 2)
    obtain ⟨b₄, h₄, rfl⟩ := hg₄.exists_bytes (n := 2)
    obtain ⟨b₅, h₅, rfl⟩ := hg₅.exists_bytes (n := 6)
    have hlen : (b₁ ++ (b₂ ++ (b₃ ++ (b₄ ++ b₅)))).length = 16 := by
      simp only [List.length_append, h₁, h₂, h₃, h₄, h₅]
    exact ⟨⟨_, hlen⟩, (isV4_iff h₁ h₂ h₃ h₄ rfl).2 ⟨hversion, hvariant⟩,
      uuidFrom_groups h₁ h₂ h₃ h₄ h₅⟩
  · rintro ⟨b, hv, rfl⟩
    obtain ⟨b₁, b₂, b₃, b₄, b₅, h₁, h₂, h₃, h₄, h₅, hb⟩ := exists_groups b
    obtain ⟨hversion, hvariant⟩ := (isV4_iff h₁ h₂ h₃ h₄ hb).1 hv
    refine ⟨hexText b₁, hexText b₂, hexText b₃, hexText b₄, hexText b₅, ?_,
      hexGroup_hexText (by rw [h₁]), hexGroup_hexText (by rw [h₂]), hexGroup_hexText (by rw [h₃]),
      hexGroup_hexText (by rw [h₄]), hexGroup_hexText (by rw [h₅]), hversion, hvariant⟩
    rw [uuidString, hb, uuidFrom_groups h₁ h₂ h₃ h₄ h₅]

/-- The ids that are made have exactly the texts in canonical form, and two draws give the same text
exactly if they agree in the bits that are kept. -/
theorem uuid_exact :
    (∀ s, (∃ b, uuidString (uuidV4Of b) = s) ↔ CanonicalV4 s) ∧
    ∀ b b', uuidString (uuidV4Of b) = uuidString (uuidV4Of b') ↔ SameFreeBits b b' := by
  refine ⟨fun s => ?_, fun b b' => ?_⟩
  · rw [canonicalV4_iff]
    constructor
    · rintro ⟨b, rfl⟩
      exact ⟨uuidV4Of b, isV4_uuidV4Of b, rfl⟩
    · rintro ⟨b, hb, rfl⟩
      exact ⟨b, by rw [uuidV4Of_eq_self hb]⟩
  · rw [← uuidV4Of_inj]
    exact ⟨uuidString_injective, fun h => by rw [h]⟩

end Spot

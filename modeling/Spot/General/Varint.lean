import Mathlib.Algebra.Group.Nat.Defs
import Mathlib.Tactic.Common

/-!
# Unsigned varints

`Uvarint` is a pair of an encoder of 64-bit numbers and a decoder that reports how many bytes it
consumed; `Uvarint.Lawful` says what a format built on such a pair relies on.  `leb128` is the
usual one: seven payload bits a byte, lowest first, the top bit set on every byte but the last, at
most ten bytes, and `leb128_lawful` is its lawfulness.
-/

namespace Spot

/-- An encoder and a decoder of 64-bit numbers; the decoder returns the number and the count of
bytes it consumed. -/
structure Uvarint where
  append : UInt64 → List UInt8
  read : List UInt8 → Option (UInt64 × ℕ)

/-- The decoder inverts the encoder whatever follows, and consumes at least one and at most all of
the bytes it is given. -/
structure Uvarint.Lawful (V : Uvarint) : Prop where
  read_append : ∀ v rest, V.read (V.append v ++ rest) = some (v, (V.append v).length)
  read_pos : ∀ {buf v n}, V.read buf = some (v, n) → 0 < n
  read_le : ∀ {buf v n}, V.read buf = some (v, n) → n ≤ buf.length

/-! ## LEB128 -/

/-- The groups of seven bits of `v`, in at most `k + 1` bytes. -/
def putGroups : ℕ → ℕ → List UInt8
  | 0, v => [UInt8.ofNat v]
  | k + 1, v =>
    if v < 128 then [UInt8.ofNat v] else UInt8.ofNat (v % 128 + 128) :: putGroups k (v / 128)

/-- Reads at most `k + 1` groups; the last possible byte may only be 0 or 1. -/
def getGroups : ℕ → List UInt8 → Option (ℕ × ℕ)
  | _, [] => none
  | 0, b :: _ => if b.toNat < 2 then some (b.toNat, 1) else none
  | k + 1, b :: l =>
    if b.toNat < 128 then some (b.toNat, 1)
    else (getGroups k l).map fun p => (b.toNat % 128 + 128 * p.1, p.2 + 1)

/-- The base-128 varint of at most ten bytes. -/
def leb128 : Uvarint where
  append v := putGroups 9 v.toNat
  read buf := (getGroups 9 buf).map fun p => (UInt64.ofNat p.1, p.2)

theorem getGroups_putGroups (rest : List UInt8) : ∀ (k v : ℕ), v < 2 * 128 ^ k →
    getGroups k (putGroups k v ++ rest) = some (v, (putGroups k v).length)
  | 0, v, h => by
    have hv : v < 2 := by simpa using h
    have hb : (UInt8.ofNat v).toNat = v := by
      rw [UInt8.toNat_ofNat']
      omega
    rw [putGroups, List.singleton_append, getGroups, hb, if_pos hv]
    rfl
  | k + 1, v, h => by
    by_cases hv : v < 128
    · have hb : (UInt8.ofNat v).toNat = v := by
        rw [UInt8.toNat_ofNat']
        omega
      rw [putGroups, if_pos hv, List.singleton_append, getGroups, hb, if_pos hv]
      rfl
    · have hb : (UInt8.ofNat (v % 128 + 128)).toNat = v % 128 + 128 := by
        rw [UInt8.toNat_ofNat']
        omega
      have hd : v / 128 < 2 * 128 ^ k := by
        rw [Nat.div_lt_iff_lt_mul (by decide), Nat.mul_assoc, ← Nat.pow_succ]
        exact h
      have hmod : (v % 128 + 128) % 128 + 128 * (v / 128) = v := by omega
      rw [putGroups, if_neg hv, List.cons_append, getGroups, hb, if_neg (by omega),
        getGroups_putGroups rest k _ hd, Option.map_some, hmod, List.length_cons]

theorem getGroups_bounds : ∀ {k : ℕ} {l : List UInt8} {p : ℕ × ℕ}, getGroups k l = some p →
    0 < p.2 ∧ p.2 ≤ l.length
  | 0, [], _, h => by simp [getGroups] at h
  | 0, b :: l, p, h => by
    rw [getGroups] at h
    split_ifs at h
    obtain rfl := Option.some.inj h
    simp
  | k + 1, [], _, h => by simp [getGroups] at h
  | k + 1, b :: l, p, h => by
    rw [getGroups] at h
    split_ifs at h
    · obtain rfl := Option.some.inj h
      simp
    · obtain ⟨q, hq, rfl⟩ := Option.map_eq_some_iff.1 h
      have := getGroups_bounds hq
      simp only [List.length_cons]
      omega

/-- LEB128 is a lawful varint. -/
theorem leb128_lawful : leb128.Lawful where
  read_append v rest := by
    have h : v.toNat < 2 * 128 ^ 9 := Nat.lt_of_lt_of_le v.toNat_lt (by decide)
    simp only [leb128, getGroups_putGroups rest 9 _ h, Option.map_some, UInt64.ofNat_toNat]
  read_pos h := by
    obtain ⟨p, hp, e⟩ := Option.map_eq_some_iff.1 h
    obtain ⟨-, rfl⟩ := Prod.mk.inj e
    exact (getGroups_bounds hp).1
  read_le h := by
    obtain ⟨p, hp, e⟩ := Option.map_eq_some_iff.1 h
    obtain ⟨-, rfl⟩ := Prod.mk.inj e
    exact (getGroups_bounds hp).2

end Spot

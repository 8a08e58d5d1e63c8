import Mathlib.Data.Nat.ModEq
import Mathlib.Tactic.Ring
import Spot.General.Split

/-!
# Regrouping bits

A list of bits is read with the most significant bit first.  `group k` cuts it into digits of `k`
bits, the last one filled up with zeros on the right, and `ungroup k` writes digits of `k` bits one
after the other.  `ungroup_group` and `group_ungroup` say how far these are inverse, and
`ungroup_eq_iff` which digits a list followed by zeros is cut into: the encodings that write bytes
with an alphabet of `2 ^ k` symbols are instances.
-/

namespace Spot

/-- The `w` low bits of a number. -/
def bits : ℕ → ℕ → List Bool
  | 0, _ => []
  | w + 1, n => n.testBit w :: bits w n

/-- The number that bits are the notation of. -/
def num : List Bool → ℕ
  | [] => 0
  | b :: l => b.toNat * 2 ^ l.length + num l

/-! ## Numbers -/

@[simp] theorem length_bits (w n : ℕ) : (bits w n).length = w := by
  induction w with
  | zero => rfl
  | succ w ih => rw [bits, List.length_cons, ih]

theorem num_lt (l : List Bool) : num l < 2 ^ l.length := by
  induction l with
  | nil => decide
  | cons b l ih =>
    have hb : b.toNat * 2 ^ l.length ≤ 1 * 2 ^ l.length := Nat.mul_le_mul_right _ b.toNat_le
    rw [num, List.length_cons, pow_succ]
    omega

/-- Bits of one length are determined by their number. -/
theorem num_injective {l r : List Bool} (hlen : l.length = r.length) (h : num l = num r) :
    l = r := by
  induction l generalizing r with
  | nil => exact (List.length_eq_zero_iff.1 hlen.symm).symm
  | cons a l ih =>
    cases r with
    | nil => cases hlen
    | cons b r =>
      have hlen' : l.length = r.length := Nat.succ.inj hlen
      have hl := num_lt l
      have hr := num_lt r
      rw [num, num, hlen'] at h
      rw [hlen'] at hl
      have hab : a = b := by
        cases a <;> cases b <;> simp only [Bool.toNat_true, Bool.toNat_false] at h
        · rfl
        · omega
        · omega
        · rfl
      subst hab
      rw [ih hlen' (Nat.add_left_cancel h)]

@[simp] theorem num_bits (w n : ℕ) : num (bits w n) = n % 2 ^ w := by
  induction w with
  | zero => rw [pow_zero, Nat.mod_one]; rfl
  | succ w ih =>
    rw [bits, num, length_bits, ih, Nat.toNat_testBit, Nat.mod_pow_succ, add_comm, mul_comm]

theorem bits_num (l : List Bool) : bits l.length (num l) = l :=
  num_injective (length_bits _ _) ((num_bits _ _).trans (Nat.mod_eq_of_lt (num_lt l)))

theorem num_append (l r : List Bool) : num (l ++ r) = num l * 2 ^ r.length + num r := by
  induction l with
  | nil => rw [num, zero_mul, zero_add]; rfl
  | cons b l ih =>
    rw [List.cons_append, num, num, ih, List.length_append, pow_add]
    ring

/-- The low bits do not depend on the ones above. -/
theorem bits_congr {w m n : ℕ} (h : m % 2 ^ w = n % 2 ^ w) : bits w m = bits w n := by
  apply num_injective
  · rw [length_bits, length_bits]
  · rw [num_bits, num_bits, h]

/-- The bits of a number are those above a position and those below. -/
theorem bits_add (v w n : ℕ) : bits (v + w) n = bits v (n / 2 ^ w) ++ bits w n := by
  apply num_injective
  · rw [List.length_append, length_bits, length_bits, length_bits]
  · rw [num_append, num_bits, num_bits, num_bits, length_bits, add_comm v, pow_add, Nat.mod_mul]
    ring

/-- Bits put one after the other are those of one number. -/
theorem bits_append_bits {w n : ℕ} (hn : n < 2 ^ w) (v m : ℕ) :
    bits v m ++ bits w n = bits (v + w) (m * 2 ^ w + n) := by
  have hdiv : (m * 2 ^ w + n) / 2 ^ w = m := by
    rw [mul_comm, Nat.mul_add_div (Nat.two_pow_pos w), Nat.div_eq_of_lt hn, add_zero]
  have hmod : (m * 2 ^ w + n) % 2 ^ w = n % 2 ^ w := Nat.mul_add_mod' m _ n
  rw [bits_add, hdiv, bits_congr hmod]

@[simp] theorem bits_zero (w : ℕ) : bits w 0 = List.replicate w false := by
  induction w with
  | zero => rfl
  | succ w ih => rw [bits, ih, Nat.zero_testBit, List.replicate_succ]

/-- Bits are all zero when their number is. -/
theorem num_eq_zero_iff {l : List Bool} : num l = 0 ↔ l = List.replicate l.length false := by
  constructor
  · intro h
    have hl := bits_num l
    rw [h, bits_zero] at hl
    exact hl.symm
  · intro h
    rw [h, ← bits_zero, num_bits, Nat.zero_mod]

/-- Zeros on the right shift the number. -/
theorem bits_shift (l : List Bool) (j : ℕ) :
    bits (l.length + j) (num l * 2 ^ j) = l ++ List.replicate j false := by
  have hlow : bits j (num l * 2 ^ j) = bits j 0 :=
    bits_congr (by rw [Nat.mul_mod_left, Nat.zero_mod])
  rw [bits_add, Nat.mul_div_cancel _ (Nat.two_pow_pos j), bits_num, hlow, bits_zero]

/-! ## Digits -/

/-- The digits of `k` bits of a list, the last filled up with zeros. -/
def group (k : ℕ) (l : List Bool) : List ℕ :=
  (chunks k l).map fun p => num p * 2 ^ (k - p.length)

/-- Digits of `k` bits, written one after the other. -/
def ungroup (k : ℕ) (ns : List ℕ) : List Bool := ns.flatMap (bits k)

/-- How many zeros the last digit of a list of `n` bits is filled up with. -/
def pad (k n : ℕ) : ℕ := (k - n % k) % k

section

variable {k : ℕ}

@[simp] theorem group_nil : group k [] = [] := rfl

@[simp] theorem ungroup_nil : ungroup k [] = [] := rfl

@[simp] theorem ungroup_cons (n : ℕ) (ns : List ℕ) :
    ungroup k (n :: ns) = bits k n ++ ungroup k ns := List.flatMap_cons

@[simp] theorem ungroup_append (ms ns : List ℕ) :
    ungroup k (ms ++ ns) = ungroup k ms ++ ungroup k ns := List.flatMap_append

@[simp] theorem length_ungroup (ns : List ℕ) : (ungroup k ns).length = k * ns.length := by
  induction ns with
  | nil => rfl
  | cons n ns ih =>
    rw [ungroup_cons, List.length_append, length_bits, ih, List.length_cons]
    ring

theorem ungroup_take {m : ℕ} {ns : List ℕ} (hm : m ≤ ns.length) :
    ungroup k (ns.take m) = (ungroup k ns).take (k * m) := by
  have hlen : (ungroup k (ns.take m)).length = k * m := by
    rw [length_ungroup, List.length_take_of_le hm]
  conv_rhs => rw [← List.take_append_drop m ns, ungroup_append, List.take_left' hlen]

theorem ungroup_replicate_zero (m : ℕ) :
    ungroup k (List.replicate m 0) = List.replicate (k * m) false := by
  induction m with
  | zero => rfl
  | succ m ih =>
    rw [List.replicate_succ, ungroup_cons, ih, bits_zero, List.replicate_append_replicate]
    congr 1
    ring

theorem pad_lt (hk : 0 < k) (n : ℕ) : pad k n < k := Nat.mod_lt _ hk

/-- Filling up makes whole digits. -/
theorem dvd_add_pad (hk : 0 < k) (n : ℕ) : k ∣ n + pad k n := by
  have hle := (Nat.mod_lt n hk).le
  rw [pad, Nat.dvd_iff_mod_eq_zero, Nat.add_mod_mod, Nat.add_mod, Nat.add_mod_mod,
    Nat.add_sub_cancel' hle, Nat.mod_self]

/-- Whatever makes whole digits is filling up and whole digits. -/
theorem exists_eq_pad_add (hk : 0 < k) {n r : ℕ} (h : k ∣ n + r) : ∃ m, r = pad k n + k * m := by
  have hpad := pad_lt hk n
  have hmod : r ≡ pad k n [MOD k] := by
    apply Nat.ModEq.add_left_cancel' n
    exact (Nat.modEq_zero_iff_dvd.2 h).trans (Nat.modEq_zero_iff_dvd.2 (dvd_add_pad hk n)).symm
  refine ⟨r / k, ?_⟩
  have hr : r % k = pad k n := Eq.trans hmod (Nat.mod_eq_of_lt hpad)
  rw [← hr, Nat.mod_add_div]

theorem group_append_of_length (hk : 0 < k) {p : List Bool} (hp : p.length = k) (l : List Bool) :
    group k (p ++ l) = num p :: group k l := by
  rw [group, chunks_append hk hp, List.map_cons, hp, Nat.sub_self, pow_zero, mul_one]
  rfl

theorem group_of_length_le {l : List Bool} (h₀ : l ≠ []) (h : l.length ≤ k) :
    group k l = [num l * 2 ^ (k - l.length)] := by
  rw [group, chunks_of_length_le h₀ h, List.map_singleton]

theorem lt_of_mem_group (hk : 0 < k) {l : List Bool} {n : ℕ} (h : n ∈ group k l) : n < 2 ^ k := by
  induction l using chunks_induction hk with
  | nil => cases h
  | last l h₀ hl =>
    rw [group_of_length_le h₀ hl.le, List.mem_singleton] at h
    have hpow : 2 ^ l.length * 2 ^ (k - l.length) = 2 ^ k := by
      rw [← pow_add, Nat.add_sub_cancel' hl.le]
    rw [h, ← hpow]
    exact Nat.mul_lt_mul_of_pos_right (num_lt l) (Nat.two_pow_pos _)
  | cons p l hp ih =>
    rw [group_append_of_length hk hp] at h
    rcases List.mem_cons.1 h with rfl | h
    · exact hp ▸ num_lt p
    · exact ih h

/-- Written out, the digits of a list are the list and what the last was filled up with. -/
theorem ungroup_group (hk : 0 < k) (l : List Bool) :
    ungroup k (group k l) = l ++ List.replicate (pad k l.length) false := by
  induction l using chunks_induction hk with
  | nil => simp [pad]
  | last l h₀ h =>
    have hpos := List.length_pos_iff.2 h₀
    have hpad : pad k l.length = k - l.length := by
      rw [pad, Nat.mod_eq_of_lt h, Nat.mod_eq_of_lt (by omega)]
    have hbits := bits_shift l (k - l.length)
    rw [Nat.add_sub_cancel' h.le] at hbits
    rw [group_of_length_le h₀ h.le, ungroup_cons, ungroup_nil, List.append_nil, hbits, hpad]
  | cons p l hp ih =>
    have hpad : pad k (p ++ l).length = pad k l.length := by
      rw [pad, pad, List.length_append, hp, Nat.add_mod_left]
    have hbits := bits_num p
    rw [hp] at hbits
    rw [group_append_of_length hk hp, ungroup_cons, hbits, ih, hpad, List.append_assoc]

/-- Digits are the digits of what they are written as. -/
theorem group_ungroup (hk : 0 < k) {ns : List ℕ} (h : ∀ n ∈ ns, n < 2 ^ k) :
    group k (ungroup k ns) = ns := by
  induction ns with
  | nil => rfl
  | cons n ns ih =>
    rw [List.forall_mem_cons] at h
    rw [ungroup_cons, group_append_of_length hk (length_bits k n), num_bits, Nat.mod_eq_of_lt h.1,
      ih h.2]

theorem ungroup_injective (hk : 0 < k) {ms ns : List ℕ} (hm : ∀ n ∈ ms, n < 2 ^ k)
    (hn : ∀ n ∈ ns, n < 2 ^ k) (h : ungroup k ms = ungroup k ns) : ms = ns := by
  rw [← group_ungroup hk hm, h, group_ungroup hk hn]

/-- Digits are written as a list and zeros when they are the digits of the list and zeros. -/
theorem ungroup_eq_iff (hk : 0 < k) {ns : List ℕ} (hns : ∀ n ∈ ns, n < 2 ^ k) {l : List Bool}
    {r : ℕ} : ungroup k ns = l ++ List.replicate r false ↔
      ∃ m, ns = group k l ++ List.replicate m 0 ∧ r = pad k l.length + k * m := by
  have hzeros (m : ℕ) : ungroup k (group k l ++ List.replicate m 0) =
      l ++ List.replicate (pad k l.length + k * m) false := by
    rw [ungroup_append, ungroup_group hk, ungroup_replicate_zero, List.append_assoc,
      List.replicate_append_replicate]
  constructor
  · intro h
    have hlen := congrArg List.length h
    rw [length_ungroup, List.length_append, List.length_replicate] at hlen
    obtain ⟨m, hm⟩ := exists_eq_pad_add hk (Dvd.intro _ hlen)
    refine ⟨m, ungroup_injective hk hns ?_ ?_, hm⟩
    · intro n hn
      rcases List.mem_append.1 hn with hn | hn
      · exact lt_of_mem_group hk hn
      · rw [List.eq_of_mem_replicate hn]
        exact Nat.two_pow_pos k
    · rw [h, hzeros, hm]
  · rintro ⟨m, rfl, rfl⟩
    exact hzeros m

/-- Written out, digits that end in less than a digit of zeros are those of what comes before. -/
theorem group_eq_of_ungroup (hk : 0 < k) {ns : List ℕ} (hns : ∀ n ∈ ns, n < 2 ^ k) {l : List Bool}
    {r : ℕ} (hr : r < k) (h : ungroup k ns = l ++ List.replicate r false) : group k l = ns := by
  obtain ⟨m, hm, hrm⟩ := (ungroup_eq_iff hk hns).1 h
  obtain rfl : m = 0 := by
    by_contra hpos
    have hle := Nat.le_mul_of_pos_right k (Nat.pos_of_ne_zero hpos)
    omega
  rw [hm, List.replicate_zero, List.append_nil]

/-- The digits after whole digits are those of the rest. -/
theorem group_append (hk : 0 < k) {l : List Bool} (hl : k ∣ l.length) (r : List Bool) :
    group k (l ++ r) = group k l ++ group k r := by
  have hpad : pad k l.length = 0 := by
    rw [pad, Nat.mod_eq_zero_of_dvd hl, Nat.sub_zero, Nat.mod_self]
  refine group_eq_of_ungroup hk ?_ (pad_lt hk r.length) ?_
  · intro n hn
    rcases List.mem_append.1 hn with hn | hn
    · exact lt_of_mem_group hk hn
    · exact lt_of_mem_group hk hn
  · rw [ungroup_append, ungroup_group hk, ungroup_group hk, hpad, List.replicate_zero,
      List.append_nil, List.append_assoc]

/-- Of digits whose bits are cut apart within the last one, that digit is cut. -/
theorem ungroup_concat_eq_append {v : ℕ} {vs : List ℕ} {l rest : List Bool}
    (h : ungroup k (vs ++ [v]) = l ++ rest) (hrest : rest.length ≤ k) :
    l = ungroup k vs ++ bits (k - rest.length) (v / 2 ^ rest.length) ∧
      rest = bits rest.length v := by
  have hsplit : bits k v = bits (k - rest.length) (v / 2 ^ rest.length) ++ bits rest.length v := by
    rw [← bits_add, Nat.sub_add_cancel hrest]
  rw [ungroup_append, ungroup_cons, ungroup_nil, List.append_nil, hsplit, ← List.append_assoc] at h
  obtain ⟨hl, hr⟩ := List.append_inj' h (length_bits _ _)
  exact ⟨hl.symm, hr.symm⟩

/-- With zeros after the cut, the last digit is the one without its low bits. -/
theorem ungroup_clear_last {v : ℕ} {vs : List ℕ} {l rest : List Bool}
    (h : ungroup k (vs ++ [v]) = l ++ rest) (hrest : rest.length ≤ k) :
    ungroup k (vs ++ [v >>> rest.length <<< rest.length]) =
      l ++ List.replicate rest.length false := by
  obtain ⟨hl, -⟩ := ungroup_concat_eq_append h hrest
  have hlow := bits_append_bits (Nat.two_pow_pos rest.length) (k - rest.length)
    (v / 2 ^ rest.length)
  rw [bits_zero, Nat.sub_add_cancel hrest, add_zero, ← Nat.shiftLeft_eq] at hlow
  rw [hl, Nat.shiftRight_eq_div_pow, ungroup_append, ungroup_cons, ungroup_nil, List.append_nil,
    List.append_assoc, hlow]

end

/-! ## Bytes -/

/-- The bits of bytes. -/
def byteBits (d : List UInt8) : List Bool := ungroup 8 (d.map UInt8.toNat)

@[simp] theorem byteBits_nil : byteBits [] = [] := rfl

@[simp] theorem byteBits_append (d e : List UInt8) :
    byteBits (d ++ e) = byteBits d ++ byteBits e := by
  rw [byteBits, List.map_append, ungroup_append]
  rfl

theorem byteBits_cons (a : UInt8) (d : List UInt8) :
    byteBits (a :: d) = bits 8 a.toNat ++ byteBits d := ungroup_cons _ _

theorem byteBits_singleton (a : UInt8) : byteBits [a] = bits 8 a.toNat := List.append_nil _

/-- The bits of a byte are the low ones of the number it is made of. -/
theorem byteBits_ofNat (n : ℕ) : byteBits [UInt8.ofNat n] = bits 8 n := by
  rw [byteBits_singleton, UInt8.toNat_ofNat']
  exact bits_congr (Nat.mod_mod n (2 ^ 8))

theorem byteBits_take {m : ℕ} {d : List UInt8} (hm : m ≤ d.length) :
    byteBits (d.take m) = (byteBits d).take (8 * m) := by
  rw [byteBits, List.map_take, ungroup_take]
  · rfl
  · rwa [List.length_map]

@[simp] theorem length_byteBits (d : List UInt8) : (byteBits d).length = 8 * d.length := by
  rw [byteBits, length_ungroup, List.length_map]

theorem byteBits_injective {d e : List UInt8} (h : byteBits d = byteBits e) : d = e := by
  have hlt (d : List UInt8) : ∀ n ∈ d.map UInt8.toNat, n < 2 ^ 8 := by
    intro n hn
    obtain ⟨a, -, rfl⟩ := List.mem_map.1 hn
    exact a.toNat_lt
  have hmap := ungroup_injective (by decide) (hlt d) (hlt e) h
  exact (List.map_inj_right fun _ _ => UInt8.toNat_inj.1).1 hmap

/-- Bits are in one way bytes and a rest shorter than a byte. -/
theorem byteBits_append_injective {d e : List UInt8} {r s : List Bool} (hr : r.length < 8)
    (hs : s.length < 8) (h : byteBits d ++ r = byteBits e ++ s) : d = e ∧ r = s := by
  have hlen := congrArg List.length h
  rw [List.length_append, List.length_append, length_byteBits, length_byteBits] at hlen
  have hd : (byteBits d).length = (byteBits e).length := by
    rw [length_byteBits, length_byteBits]
    omega
  obtain ⟨hbytes, hrest⟩ := List.append_inj h hd
  exact ⟨byteBits_injective hbytes, hrest⟩

/-- RFC 4648: the bits of bytes in digits of `k` bits, each written as a symbol, without padding. -/
def rfc4648 (k : ℕ) (symbol : ℕ → Char) (d : List UInt8) : List Char :=
  (group k (byteBits d)).map symbol

end Spot

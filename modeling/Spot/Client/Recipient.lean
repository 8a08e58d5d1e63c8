import Spot.Client.Inner
import Spot.Proto.Base64

/-!
# Which recipients are accepted

A recipient is a key address if it is `k.` and the encoding of a hash, with or without the id of a
server in between.  `recipientHash` reads the part after the last dot of whatever begins with `k.`
(`recipientHash_eq_ok`), and neither its length nor the bits it does not use: what it accepts beyond
key addresses is the subject of `recipientHash_exact_iff`.
-/

namespace Spot

/-- The part before the first slash is the address of the hash of a key. -/
def RealAddress (rcv : Text) (h : Bytes) : Prop :=
  h.length = 32 ∧ (before '/' rcv = 'k' :: '.' :: base64urlEncode h ∨
    ∃ serverId, before '/' rcv = 'k' :: '.' :: serverId ++ '.' :: base64urlEncode h)

/-- There are at least two parts between dots, and the first is `k`. -/
def KeyShaped (rcv : Text) : Prop :=
  2 ≤ (split '.' (before '/' rcv)).length ∧ (split '.' (before '/' rcv)).headD [] = ['k']

/-- The part after the last dot. -/
def lastPart (rcv : Text) : Text := (split '.' (before '/' rcv)).getLastD []

/-- Characters of the alphabet, and not one too many. -/
def Base64Text (s : Text) : Prop := (∀ c ∈ s, ∃ v < 64, c = b64Char v) ∧ s.length % 4 ≠ 1

/-- As many characters as a hash has, the last without the two bits that are not used. -/
def CanonicalHash (s : Text) : Prop :=
  s.length = 43 ∧ ∃ v < 16, s.getLast? = some (b64Char (4 * v))

/-! ## Parts -/

theorem recipientHash_eq_ok {rcv : Text} {h : Bytes} :
    recipientHash rcv = .ok h ↔ KeyShaped rcv ∧ base64urlDecode (lastPart rcv) = some h := by
  unfold recipientHash KeyShaped lastPart
  simp only
  split
  · next hshape =>
    constructor
    · intro hok
      cases hok
    · rintro ⟨⟨hlen, hhead⟩, -⟩
      rcases hshape with hlen' | hhead'
      · omega
      · exact absurd hhead hhead'
  · next hshape =>
    rw [not_or, not_lt, ne_eq, not_not] at hshape
    rw [and_iff_right hshape]
    cases base64urlDecode ((split '.' (before '/' rcv)).getLastD []) <;> simp

/-- What has the shape of a key address is `k.` and the last part, with or without something
before it. -/
theorem before_of_keyShaped {rcv : Text} (h : KeyShaped rcv) :
    before '/' rcv = 'k' :: '.' :: lastPart rcv ∨
      ∃ serverId, before '/' rcv = 'k' :: '.' :: serverId ++ '.' :: lastPart rcv := by
  obtain ⟨hlen, hhead⟩ := h
  have hk : '.' ∉ ['k'] := by decide
  have hdot : '.' ∈ before '/' rcv := by
    by_contra hnone
    rw [split_of_notMem hnone] at hlen
    rw [List.length_singleton] at hlen
    omega
  obtain ⟨p, rest, hrcv, hp⟩ := List.eq_append_cons_of_mem hdot
  obtain rfl : p = ['k'] := by
    rw [hrcv, split_append_cons hp] at hhead
    exact hhead
  have hlast : lastPart rcv = (split '.' rest).getLastD [] := by
    obtain ⟨q, qs, hqs⟩ := List.exists_cons_of_ne_nil (split_ne_nil '.' rest)
    rw [lastPart, hrcv, split_append_cons hk, hqs, List.getLastD_cons, List.getLastD_cons,
      List.getLastD_cons]
  rw [hrcv, hlast]
  by_cases hrest : '.' ∈ rest
  · obtain ⟨sid, q, -, hsplit, hparts⟩ := exists_split_eq_append hrest
    right
    refine ⟨sid, ?_⟩
    rw [hparts, List.getLastD_concat, hsplit]
    rfl
  · left
    rw [split_of_notMem hrest]
    rfl

/-- Key addresses are accepted, as those of their hashes. -/
theorem RealAddress.recipientHash {rcv : Text} {h : Bytes} (hr : RealAddress rcv h) :
    recipientHash rcv = .ok h := by
  rcases hr.2 with hrcv | ⟨sid, hrcv⟩
  · exact recipientHash_of_before hrcv
  · refine recipientHash_of_last hrcv ?_
    show (split '.' (sid ++ '.' :: base64urlEncode h)).getLast? = _
    rw [split_append, split_of_notMem (dot_notMem_base64url h), List.getLast?_concat]

theorem lastPart_of_before {rcv p q : Text} (h : before '/' rcv = p ++ '.' :: q) (hq : '.' ∉ q) :
    lastPart rcv = q := by
  rw [lastPart, h, split_append, split_of_notMem hq, List.getLastD_concat]

/-- Something accepted is a key address if its last part is the encoding of a hash. -/
theorem realAddress_iff {rcv : Text} {h : Bytes} (hok : recipientHash rcv = .ok h) :
    RealAddress rcv h ↔ h.length = 32 ∧ lastPart rcv = base64urlEncode h := by
  have hdot := dot_notMem_base64url h
  constructor
  · intro hr
    refine ⟨hr.1, ?_⟩
    rcases hr.2 with hrcv | ⟨sid, hrcv⟩
    · exact lastPart_of_before (p := ['k']) hrcv hdot
    · exact lastPart_of_before (p := 'k' :: '.' :: sid) hrcv hdot
  · rintro ⟨hlen, hlast⟩
    rw [RealAddress, ← hlast]
    exact ⟨hlen, before_of_keyShaped (recipientHash_eq_ok.1 hok).1⟩

/-! ## What is decoded -/

/-- A text decodes to a hash and is its encoding when it has as many characters as a hash and the
bits it does not use are zero. -/
theorem canonicalHash_iff {s : Text} {h : Bytes} (hs : base64urlDecode s = some h) :
    (h.length = 32 ∧ s = base64urlEncode h) ↔ CanonicalHash s := by
  obtain ⟨vs, rfl, hlt, hmod, rest, hbits, hrest⟩ := base64urlDecode_eq_some.1 hs
  have hlen := congrArg List.length hbits
  rw [length_ungroup, List.length_append, length_byteBits] at hlen
  rw [base64urlEncode_eq_iff hlt hbits hrest, CanonicalHash, List.length_map]
  have hcount : h.length = 32 ↔ vs.length = 43 := by omega
  rw [hcount]
  refine and_congr_right fun h43 => ?_
  have hvs : vs ≠ [] := by
    rintro rfl
    cases h43
  obtain ⟨init, v, rfl⟩ := (List.eq_nil_or_concat' vs).resolve_left hvs
  have hv : v < 64 := hlt v (by simp)
  have hr : rest.length = 2 := by omega
  have hlast := (ungroup_concat_eq_append hbits hrest.le).2
  rw [hr] at hlast
  rw [hr, hlast, ← bits_zero, List.map_append, List.map_singleton, List.getLast?_concat]
  constructor
  · intro hzero
    have hnum := congrArg num hzero
    rw [num_bits, num_bits] at hnum
    refine ⟨v / 4, by omega, ?_⟩
    rw [show 4 * (v / 4) = v by omega]
  · rintro ⟨w, hw, hchar⟩
    obtain rfl := b64Char_injective hv (by omega) (Option.some.inj hchar)
    exact bits_congr (by omega)

/-! ## Exactness -/

/-- Accepted are only key addresses, and others are refused before any card is looked up, exactly if
the last part of whatever has the shape of a key address and can be decoded is as long as the hash
of a key and does not set the bits it does not use. -/
theorem recipientHash_exact_iff (t : Platform) (acct : Account B) (rcv : Str) :
    ((∀ h, recipientHash rcv.chars = .ok h → RealAddress rcv.chars h) ∧
      ((¬ ∃ h, RealAddress rcv.chars h) →
        recipientHash rcv.chars = .error (.invalidTarget (before '/' rcv.chars)) ∧
        getIdcardForRecipient t acct rcv = throw (.invalidTarget (before '/' rcv.chars)))) ↔
      (KeyShaped rcv.chars → Base64Text (lastPart rcv.chars) →
        CanonicalHash (lastPart rcv.chars)) := by
  constructor
  · rintro ⟨hreal, -⟩ hshape htext
    obtain ⟨h, hh⟩ := Option.isSome_iff_exists.1 ((isSome_base64urlDecode _).2 htext)
    have hok := recipientHash_eq_ok.2 ⟨hshape, hh⟩
    exact (canonicalHash_iff hh).1 ((realAddress_iff hok).1 (hreal h hok))
  · intro hcanon
    have hreal : ∀ h, recipientHash rcv.chars = .ok h → RealAddress rcv.chars h := by
      intro h hok
      obtain ⟨hshape, hh⟩ := recipientHash_eq_ok.1 hok
      have htext := (isSome_base64urlDecode _).1 (Option.isSome_of_eq_some hh)
      exact (realAddress_iff hok).2 ((canonicalHash_iff hh).2 (hcanon hshape htext))
    refine ⟨hreal, fun hnone => ?_⟩
    cases hrcv : recipientHash rcv.chars with
    | ok h => exact absurd ⟨h, hreal h hrcv⟩ hnone
    | error e =>
      obtain rfl := recipientHash_eq_error hrcv
      refine ⟨rfl, ?_⟩
      rw [getIdcardForRecipient, hrcv]
      rfl

/-- Nothing at all, after the dot, is accepted. -/
theorem recipientHash_empty :
    ¬ ∀ rcv h, recipientHash rcv = .ok h → RealAddress rcv h := by
  intro hall
  have h := (hall "k.".toList [] rfl).1
  cases h

end Spot

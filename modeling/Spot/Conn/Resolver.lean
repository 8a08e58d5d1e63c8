import Spot.Client.Bottlers
import Spot.General.Bits
import Spot.General.Prog

/-!
# The resolver

The hostnames of servers under `g-dns.net` are the base32 forms of their addresses.  The decoder
shifts symbols into a word it never masks, and takes the upper bits out as bytes: `Window.Holds`
says which of the bits read are still in the word, `holds_step` that a symbol adds its five, and
`base32Decode_eq_some_iff` what is accepted.  Up to letter case this is the encoding of RFC 4648,
except that sixteen bytes may be followed by one more symbol, if it is zero.  `lookupHost` decodes
such hostnames and asks the system about all others.
-/

namespace Spot

/-! ## Base32 -/

/-- The value of a symbol, of either case. -/
def symbolValue (c : UInt8) : Option ℕ :=
  if 65 ≤ c ∧ c ≤ 90 then some (c.toNat - 65)
  else if 97 ≤ c ∧ c ≤ 122 then some (c.toNat - 97)
  else if 50 ≤ c ∧ c ≤ 55 then some (c.toNat - 50 + 26)
  else none

/-- What the decoder keeps: a `u32`, how many of its low bits are still to be output, and the
bytes output. -/
structure Window where
  bits : ℕ
  nbits : ℕ
  out : Bytes

/-- A symbol is shifted in, and the eight bits above the last ones are output if there are. -/
def base32Step (w : Window) (v : ℕ) : Window :=
  let bits := w.bits <<< 5 % 2 ^ 32 ||| v
  let nbits := w.nbits + 5
  if 8 ≤ nbits then ⟨bits, nbits - 8, w.out ++ [UInt8.ofNat (bits >>> (nbits - 8))]⟩
  else ⟨bits, nbits, w.out⟩

def base32Loop : Window → Bytes → Option Window
  | w, [] => some w
  | w, c :: s => (symbolValue c).bind fun v => base32Loop (base32Step w v) s

/-- Decodes base32, of either case and without padding. -/
def base32Decode (s : Text) : Option Bytes :=
  (base32Loop ⟨0, 0, []⟩ (utf8 s)).bind fun w =>
    -- leftover bits must be zero padding
    if w.bits &&& (1 <<< w.nbits - 1) ≠ 0 then none else some w.out

/-- An IP address, by its octets. -/
inductive IpAddr
  | v4 (octets : List.Vector UInt8 4)
  | v6 (octets : List.Vector UInt8 16)
  deriving DecidableEq

def IpAddr.octets : IpAddr → Bytes
  | v4 o => o.toList
  | v6 o => o.toList

/-- Decodes a base32-encoded address. -/
def decodeBase32Ip (encoded : Text) : Option IpAddr :=
  (base32Decode encoded).bind fun data =>
    if h : data.length = 4 then some (.v4 ⟨data, h⟩)
    else if h : data.length = 16 then some (.v6 ⟨data, h⟩)
    else none

/-! ## What the decoder has read -/

/-- The bits read are those output and the last ones of the word. -/
structure Window.Holds (w : Window) (l : List Bool) : Prop where
  read : byteBits w.out ++ Spot.bits w.nbits w.bits = l
  short : w.nbits < 8

theorem holds_nil : Window.Holds ⟨0, 0, []⟩ [] := ⟨rfl, by decide⟩

/-- Shifting a symbol in puts its bits after the low bits of the word, which is wide enough. -/
theorem bits_shift_in {n b v : ℕ} (hn : n < 8) (hv : v < 32) :
    bits (n + 5) (b <<< 5 % 2 ^ 32 ||| v) = bits n b ++ bits 5 v := by
  have hshift : b <<< 5 % 2 ^ 32 = (b % 2 ^ 27) <<< 5 := by
    rw [Nat.shiftLeft_eq, Nat.shiftLeft_eq]
    omega
  have hword : (b % 2 ^ 27) <<< 5 ||| v = b % 2 ^ 27 * 2 ^ 5 + v := by
    rw [← Nat.shiftLeft_add_eq_or_of_lt hv, Nat.shiftLeft_eq]
  have hlow : b % 2 ^ 27 % 2 ^ n = b % 2 ^ n :=
    Nat.mod_mod_of_dvd b (pow_dvd_pow 2 (by omega))
  rw [hshift, hword, ← bits_append_bits hv, bits_congr hlow]

/-- A symbol adds its five bits. -/
theorem holds_step {w : Window} {l : List Bool} (h : w.Holds l) {v : ℕ} (hv : v < 32) :
    (base32Step w v).Holds (l ++ bits 5 v) := by
  have hread := bits_shift_in (b := w.bits) h.short hv
  have hshort := h.short
  rw [← h.read, List.append_assoc, ← hread]
  unfold base32Step
  simp only
  split
  · next hfull =>
    refine ⟨?_, by show w.nbits + 5 - 8 < 8; omega⟩
    have hsplit : w.nbits + 5 = 8 + (w.nbits + 5 - 8) := by omega
    rw [byteBits_append, byteBits_ofNat, Nat.shiftRight_eq_div_pow, List.append_assoc, ← bits_add,
      ← hsplit]
  · next hfree => exact ⟨rfl, not_le.1 hfree⟩

theorem symbolValue_lt {c : UInt8} {v : ℕ} (h : symbolValue c = some v) :
    v < 32 ∧ c.toNat < 128 := by
  unfold symbolValue at h
  simp only [UInt8.le_iff_toNat_le, UInt8.reduceToNat] at h
  split_ifs at h <;> cases h <;> omega

/-- The decoder reads symbols only, and has read their bits. -/
theorem base32Loop_eq_some {w w' : Window} {l : List Bool} (hw : w.Holds l) {s : Bytes}
    (h : base32Loop w s = some w') :
    ∃ vs, List.Forall₂ (fun c v => symbolValue c = some v) s vs ∧ w'.Holds (l ++ ungroup 5 vs) := by
  induction s generalizing w l with
  | nil =>
    obtain rfl := Option.some.inj h
    refine ⟨[], .nil, ?_⟩
    rwa [ungroup_nil, List.append_nil]
  | cons c s ih =>
    obtain ⟨v, hv, h⟩ := Option.bind_eq_some_iff.1 h
    obtain ⟨vs, hvs, hend⟩ := ih (holds_step hw (symbolValue_lt hv).1) h
    refine ⟨v :: vs, .cons hv hvs, ?_⟩
    rwa [ungroup_cons, ← List.append_assoc]

/-- Symbols are all read. -/
theorem exists_base32Loop (w : Window) {s : Bytes} {vs : List ℕ}
    (h : List.Forall₂ (fun c v => symbolValue c = some v) s vs) :
    ∃ w', base32Loop w s = some w' := by
  induction h generalizing w with
  | nil => exact ⟨w, rfl⟩
  | cons hv _ ih =>
    obtain ⟨w', hw'⟩ := ih (base32Step w _)
    exact ⟨w', Option.bind_eq_some_iff.2 ⟨_, hv, hw'⟩⟩

/-- The last bits of the word are zero when masking them gives zero. -/
theorem mask_eq_zero_iff (b n : ℕ) :
    b &&& (1 <<< n - 1) = 0 ↔ bits n b = List.replicate n false := by
  have h := num_eq_zero_iff (l := bits n b)
  rw [length_bits, num_bits] at h
  rw [Nat.one_shiftLeft, Nat.and_two_pow_sub_one_eq_mod, h]

/-- What is decoded: symbols whose bits are those of the bytes, followed by less than eight
zeros. -/
theorem base32Decode_eq_some {s : Text} {d : Bytes} : base32Decode s = some d ↔
    ∃ vs, List.Forall₂ (fun c v => symbolValue c = some v) (utf8 s) vs ∧
      ∃ r < 8, ungroup 5 vs = byteBits d ++ List.replicate r false := by
  constructor
  · intro h
    obtain ⟨w, hw, h⟩ := Option.bind_eq_some_iff.1 h
    obtain ⟨vs, hvs, hend⟩ := base32Loop_eq_some holds_nil hw
    split at h
    · cases h
    · next hzero =>
      obtain rfl := Option.some.inj h
      refine ⟨vs, hvs, w.nbits, hend.short, ?_⟩
      rw [← (mask_eq_zero_iff _ _).1 (not_not.1 hzero), hend.read]
      rfl
  · rintro ⟨vs, hvs, r, hr, hbits⟩
    obtain ⟨w, hw⟩ := exists_base32Loop ⟨0, 0, []⟩ hvs
    obtain ⟨vs', hvs', hend⟩ := base32Loop_eq_some holds_nil hw
    obtain rfl : vs' = vs := by
      refine List.right_unique_forall₂' ?_ hvs' hvs
      intro c v v' hv hv'
      exact Option.some.inj (hv.symm.trans hv')
    have hread := hend.read
    rw [List.nil_append, hbits] at hread
    have hlast : (bits w.nbits w.bits).length < 8 := by
      rw [length_bits]
      exact hend.short
    obtain ⟨hout, hrest⟩ := byteBits_append_injective hlast (by rwa [List.length_replicate]) hread
    have hzero : w.bits &&& (1 <<< w.nbits - 1) = 0 := by
      have hn := congrArg List.length hrest
      rw [length_bits, List.length_replicate] at hn
      rw [mask_eq_zero_iff, hn, ← hrest, hn]
    refine Option.bind_eq_some_iff.2 ⟨w, hw, ?_⟩
    rw [if_neg (not_not.2 hzero), hout]

/-! ## Letters -/

/-- `to_ascii_lowercase`. -/
def toAsciiLowercase (s : Text) : Text := s.map Char.toLower

/-- `to_ascii_uppercase`. -/
def toAsciiUppercase (s : Text) : Text := s.map Char.toUpper

def base32Alphabet : Text := "ABCDEFGHIJKLMNOPQRSTUVWXYZ234567".toList

def base32Symbol (v : ℕ) : Char := base32Alphabet.getD v 'A'

/-- The base32 encoding of RFC 4648, without padding. -/
def base32 (d : Bytes) : Text := rfc4648 5 base32Symbol d

theorem toUpper_eq_iff : ∀ n < 128, ∀ v < 32,
    (Char.ofNat n).toUpper = base32Symbol v ↔ symbolValue (UInt8.ofNat n) = some v := by
  decide +kernel

theorem ascii_letters : ∀ n < 128, (Char.ofNat n).toLower.toUpper = (Char.ofNat n).toUpper ∧
    (Char.ofNat n).toLower.toNat < 128 ∧
    ((Char.ofNat n).toLower = '-' ↔ Char.ofNat n = '-') := by
  decide +kernel

theorem base32Symbol_props : ∀ v < 32, (base32Symbol v).toNat < 128 ∧ base32Symbol v ≠ '-' := by
  decide +kernel

/-- Letters that are not ASCII have no case here. -/
theorem toLower_of_le {c : Char} (h : 128 ≤ c.toNat) : c.toLower = c := by
  unfold Char.toLower
  rw [dif_neg]
  rintro ⟨-, hz⟩
  have hz : c.toNat ≤ 90 := hz
  omega

theorem toUpper_of_le {c : Char} (h : 128 ≤ c.toNat) : c.toUpper = c := by
  unfold Char.toUpper
  rw [dif_neg]
  rintro ⟨-, hz⟩
  have hz : c.toNat ≤ 122 := hz
  omega

theorem toUpper_toLower (c : Char) : c.toLower.toUpper = c.toUpper := by
  by_cases h : c.toNat < 128
  · have hc := (ascii_letters c.toNat h).1
    rwa [Char.ofNat_toNat] at hc
  · rw [toLower_of_le (not_lt.1 h)]

theorem toLower_eq_dash {c : Char} : c.toLower = '-' ↔ c = '-' := by
  by_cases h : c.toNat < 128
  · have hc := (ascii_letters c.toNat h).2.2
    rwa [Char.ofNat_toNat] at hc
  · rw [toLower_of_le (not_lt.1 h)]

/-- A letter is the symbol of a number, up to case, when its byte is read as that number. -/
theorem toUpper_eq_symbol_iff {c : Char} {v : ℕ} (hv : v < 32) :
    c.toUpper = base32Symbol v ↔ c.toNat < 128 ∧ symbolValue (UInt8.ofNat c.toNat) = some v := by
  by_cases h : c.toNat < 128
  · have hc := toUpper_eq_iff c.toNat h v hv
    rw [Char.ofNat_toNat] at hc
    rw [hc, and_iff_right h]
  · rw [toUpper_of_le (not_lt.1 h)]
    constructor
    · rintro rfl
      exact absurd (base32Symbol_props v hv).1 h
    · exact fun hc => absurd hc.1 h

/-- A text is written with the symbols of numbers when it is letter by letter. -/
theorem toAsciiUppercase_eq_iff {s : Text} {vs : List ℕ} :
    (toAsciiUppercase s = vs.map base32Symbol ∧ ∀ v ∈ vs, v < 32) ↔
      List.Forall₂ (fun c v => v < 32 ∧ c.toUpper = base32Symbol v) s vs := by
  induction s generalizing vs with
  | nil => cases vs <;> simp [toAsciiUppercase]
  | cons c s ih =>
    cases vs with
    | nil => simp [toAsciiUppercase]
    | cons v vs =>
      rw [List.forall₂_cons, ← ih, toAsciiUppercase, List.map_cons, List.map_cons,
        List.cons_eq_cons, List.forall_mem_cons, toAsciiUppercase]
      tauto

/-- The bytes of a text are read as numbers when it is written with their symbols, in any case. -/
theorem symbols_iff {s : Text} {vs : List ℕ} :
    List.Forall₂ (fun c v => symbolValue c = some v) (utf8 s) vs ↔
      toAsciiUppercase s = vs.map base32Symbol ∧ ∀ v ∈ vs, v < 32 := by
  rw [toAsciiUppercase_eq_iff]
  constructor
  · intro h
    have hbytes : ∀ b ∈ utf8 s, b.toNat < 128 :=
      ((List.forall₂_and_left _ _).1 (h.imp fun _ _ hv => ⟨(symbolValue_lt hv).2, hv⟩)).1
    have hascii : ∀ c ∈ s, c.toNat < 128 := fun c hc => ascii_of_utf8 hbytes hc
    rw [utf8_of_ascii hascii, List.forall₂_map_left_iff] at h
    refine ((List.forall₂_and_left _ _).2 ⟨hascii, h⟩).imp fun c v hc => ?_
    have hv := (symbolValue_lt hc.2).1
    exact ⟨hv, (toUpper_eq_symbol_iff hv).2 hc⟩
  · intro h
    have hsym := h.imp fun c v hc => (toUpper_eq_symbol_iff hc.1).1 hc.2
    obtain ⟨hascii, hvs⟩ := (List.forall₂_and_left _ _).1 hsym
    rwa [utf8_of_ascii hascii, List.forall₂_map_left_iff]

/-! ## What is accepted -/

/-- Decoded are the encodings, in any case, followed by symbols of zeros as long as all that is
filled up is less than a byte. -/
theorem base32Decode_eq_some_iff {s : Text} {d : Bytes} : base32Decode s = some d ↔
    ∃ m, toAsciiUppercase s = base32 d ++ List.replicate m 'A' ∧
      pad 5 (8 * d.length) + 5 * m < 8 := by
  have hsymbols (m : ℕ) : base32 d ++ List.replicate m 'A' =
      (group 5 (byteBits d) ++ List.replicate m 0).map base32Symbol := by
    rw [List.map_append, List.map_replicate]
    rfl
  rw [base32Decode_eq_some]
  constructor
  · rintro ⟨vs, hvs, r, hr, hbits⟩
    obtain ⟨hupper, hlt⟩ := symbols_iff.1 hvs
    obtain ⟨m, rfl, rfl⟩ := (ungroup_eq_iff (by decide) hlt).1 hbits
    rw [length_byteBits] at hr
    exact ⟨m, hupper.trans (hsymbols m).symm, hr⟩
  · rintro ⟨m, hupper, hr⟩
    have hlt : ∀ v ∈ group 5 (byteBits d) ++ List.replicate m 0, v < 32 := by
      intro v hv
      rcases List.mem_append.1 hv with hv | hv
      · exact lt_of_mem_group (by decide) hv
      · rw [List.eq_of_mem_replicate hv]
        decide
    refine ⟨_, symbols_iff.2 ⟨hupper.trans (hsymbols m), hlt⟩, _, hr, ?_⟩
    rw [ungroup_eq_iff (by decide) hlt]
    exact ⟨m, rfl, by rw [length_byteBits]⟩

/-- The encoding of an address. -/
def IpAddr.base32 (ip : IpAddr) : Text := Spot.base32 ip.octets

theorem decodeBase32Ip_eq_some {s : Text} {ip : IpAddr} :
    decodeBase32Ip s = some ip ↔ base32Decode s = some ip.octets := by
  constructor
  · intro h
    obtain ⟨data, hdata, h⟩ := Option.bind_eq_some_iff.1 h
    rw [hdata]
    split at h
    · cases h
      rfl
    · split at h
      · cases h
        rfl
      · cases h
  · intro h
    refine Option.bind_eq_some_iff.2 ⟨_, h, ?_⟩
    cases ip with
    | v4 o => rw [dif_pos (show (IpAddr.v4 o).octets.length = 4 from o.2)]; rfl
    | v6 o =>
      have h6 : (IpAddr.v6 o).octets.length = 16 := o.2
      rw [dif_neg (by rw [h6]; decide), dif_pos h6]
      rfl

/-- The encodings of addresses are accepted, in any case, and those of sixteen octets also with one
more symbol of zeros. -/
theorem decodeBase32Ip_iff {s : Text} {ip : IpAddr} : decodeBase32Ip s = some ip ↔
    toAsciiUppercase s = ip.base32 ∨
      ∃ o, ip = .v6 o ∧ toAsciiUppercase s = ip.base32 ++ ['A'] := by
  rw [decodeBase32Ip_eq_some, base32Decode_eq_some_iff]
  cases ip with
  | v4 o =>
    have hlen : pad 5 (8 * (IpAddr.v4 o).octets.length) = 3 := by
      rw [show (IpAddr.v4 o).octets.length = 4 from o.2]
      rfl
    rw [hlen]
    constructor
    · rintro ⟨m, hm, h⟩
      obtain rfl : m = 0 := by omega
      exact .inl (hm.trans (List.append_nil _))
    · rintro (h | ⟨_, h, -⟩)
      · exact ⟨0, h.trans (List.append_nil _).symm, by decide⟩
      · cases h
  | v6 o =>
    have hlen : pad 5 (8 * (IpAddr.v6 o).octets.length) = 2 := by
      rw [show (IpAddr.v6 o).octets.length = 16 from o.2]
      rfl
    rw [hlen]
    constructor
    · rintro ⟨m, hm, h⟩
      obtain rfl | rfl : m = 0 ∨ m = 1 := by omega
      · exact .inl (hm.trans (List.append_nil _))
      · exact .inr ⟨o, rfl, hm⟩
    · rintro (h | ⟨_, -, h⟩)
      · exact ⟨0, h.trans (List.append_nil _).symm, by decide⟩
      · exact ⟨1, h, by decide⟩

/-- Accepted are exactly the encodings of addresses, in any case, unless the text is one of sixteen
octets with one more symbol of zeros. -/
theorem decodeBase32Ip_exact_iff (s : Text) :
    (∀ ip, decodeBase32Ip s = some ip ↔ toAsciiUppercase s = ip.base32) ↔
      ¬ ∃ o : List.Vector UInt8 16, toAsciiUppercase s = base32 o.toList ++ ['A'] := by
  constructor
  · rintro h ⟨o, ho⟩
    have hip := (h (.v6 o)).1 (decodeBase32Ip_iff.2 (.inr ⟨o, rfl, ho⟩))
    have hlen := congrArg List.length (ho.symm.trans hip)
    rw [List.length_append] at hlen
    exact absurd hlen (Nat.succ_ne_self _)
  · intro h ip
    rw [decodeBase32Ip_iff]
    constructor
    · rintro (hip | ⟨o, rfl, ho⟩)
      · exact hip
      · exact absurd ⟨o, ho⟩ h
    · exact .inl

/-- Twenty-seven symbols of zeros are read as the unspecified address. -/
theorem decodeBase32Ip_not_exact : ¬ ∀ s ip,
    decodeBase32Ip s = some ip ↔ toAsciiUppercase s = ip.base32 := by
  intro h
  have hs := (h (List.replicate 27 'A') (.v6 (List.Vector.replicate 16 0))).1 (by decide +kernel)
  exact absurd hs (by decide +kernel)

/-! ## Hostnames -/

/-- A socket address. -/
structure SocketAddr where
  ip : IpAddr
  port : UInt16
  flowinfo : UInt32
  scopeId : UInt32
  deriving DecidableEq

/-- `SocketAddr::new`. -/
def SocketAddr.new (port : UInt16) (ip : IpAddr) : SocketAddr := ⟨ip, port, 0, 0⟩

/-- What the system's resolver says of a host and a port. -/
abbrev ToSocketAddrs (_ : Text × UInt16) : Type := Except Text (List SocketAddr)

/-- `strip_suffix`. -/
def stripSuffix (suffix s : Text) : Option Text :=
  if suffix <:+ s then some (s.take (s.length - suffix.length)) else none

def gdnsSuffix : Text := ".g-dns.net".toList

/-- Resolves a hostname, decoding those of `g-dns.net` and asking the system about all others. -/
def lookupHost (host : Text) (port : UInt16) : Prog ToSocketAddrs (Result (List SocketAddr)) :=
  let system := .ask (host, port) fun found => .ret (found.mapError .io)
  match stripSuffix gdnsSuffix (toAsciiLowercase host) with
  | some encoded =>
    let out := (split '-' encoded).filterMap fun part =>
      if part = [] then none else (decodeBase32Ip part).map (SocketAddr.new port)
    if out ≠ [] then .ret (.ok out)
    else system -- no valid addresses were decoded
  | none => system

theorem stripSuffix_append (suffix s : Text) : stripSuffix suffix (s ++ suffix) = some s := by
  rw [stripSuffix, if_pos (List.suffix_append s suffix), List.length_append, Nat.add_sub_cancel,
    List.take_left]

theorem toAsciiLowercase_append (s t : Text) :
    toAsciiLowercase (s ++ t) = toAsciiLowercase s ++ toAsciiLowercase t := List.map_append

/-- The decoder does not depend on the case of letters. -/
theorem decodeBase32Ip_lowercase (s : Text) :
    decodeBase32Ip (toAsciiLowercase s) = decodeBase32Ip s := by
  have hupper : toAsciiUppercase (toAsciiLowercase s) = toAsciiUppercase s := by
    rw [toAsciiUppercase, toAsciiUppercase, toAsciiLowercase, List.map_map]
    exact List.map_congr_left fun c _ => toUpper_toLower c
  ext ip
  rw [decodeBase32Ip_iff, decodeBase32Ip_iff, hupper]

theorem decodeBase32Ip_base32 (ip : IpAddr) : decodeBase32Ip ip.base32 = some ip := by
  have hupper : ∀ v < 32, (base32Symbol v).toUpper = base32Symbol v := by decide +kernel
  refine decodeBase32Ip_iff.2 (.inl ?_)
  show toAsciiUppercase ((group 5 (byteBits ip.octets)).map base32Symbol) = _
  rw [toAsciiUppercase, List.map_map]
  exact List.map_congr_left fun v hv => hupper v (lt_of_mem_group (by decide) hv)

/-- The addresses of a hostname are those of its parts. -/
theorem lookupHost_of_suffix {host encoded : Text} (port : UInt16)
    (h : toAsciiLowercase host = toAsciiLowercase (encoded ++ gdnsSuffix)) :
    let out := ((split '-' encoded).filterMap decodeBase32Ip).map (SocketAddr.new port)
    lookupHost host port =
      if out ≠ [] then .ret (.ok out)
      else .ask (host, port) fun found => .ret (found.mapError .io) := by
  have hstrip :
      stripSuffix gdnsSuffix (toAsciiLowercase host) = some (toAsciiLowercase encoded) := by
    rw [h, toAsciiLowercase_append]
    exact stripSuffix_append gdnsSuffix _
  have hpart (part : Text) : (if part = [] then none
      else (decodeBase32Ip part).map (SocketAddr.new port)) =
      (decodeBase32Ip part).map (SocketAddr.new port) := by
    split
    · next hempty => rw [hempty]; rfl
    · rfl
  have hout : ((split '-' (toAsciiLowercase encoded)).filterMap fun part =>
      if part = [] then none else (decodeBase32Ip part).map (SocketAddr.new port)) =
      ((split '-' encoded).filterMap decodeBase32Ip).map (SocketAddr.new port) := by
    rw [toAsciiLowercase, split_map fun _ => toLower_eq_dash, List.filterMap_map,
      List.map_filterMap]
    apply List.filterMap_congr
    intro part _
    rw [Function.comp, hpart]
    exact congrArg _ (decodeBase32Ip_lowercase part)
  show lookupHost host port = _
  rw [lookupHost, hstrip]
  simp only [hout]

/-- A part of a hostname that is no address. -/
structure Junk where
  text : Text
  no_dash : '-' ∉ text
  undecodable : text = [] ∨ decodeBase32Ip text = none

/-- What stands between two dashes of a hostname. -/
def partText : IpAddr ⊕ Junk → Text
  | .inl ip => ip.base32
  | .inr junk => junk.text

/-- The addresses among parts. -/
def addresses (parts : List (IpAddr ⊕ Junk)) : List IpAddr := parts.filterMap Sum.getLeft?

/-- The parts joined by dashes, under `g-dns.net`. -/
def hostname (parts : List (IpAddr ⊕ Junk)) : Text :=
  ['-'].intercalate (parts.map partText) ++ gdnsSuffix

theorem dash_notMem_partText (part : IpAddr ⊕ Junk) : '-' ∉ partText part := by
  cases part with
  | inl ip =>
    intro h
    obtain ⟨v, hv, hdash⟩ := List.mem_map.1 h
    exact (base32Symbol_props v (lt_of_mem_group (by decide) hv)).2 hdash
  | inr junk => exact junk.no_dash

theorem decodeBase32Ip_partText (part : IpAddr ⊕ Junk) :
    decodeBase32Ip (partText part) = part.getLeft? := by
  cases part with
  | inl ip => exact decodeBase32Ip_base32 ip
  | inr junk =>
    rcases junk.undecodable with h | h
    · show decodeBase32Ip junk.text = none
      rw [h]
      rfl
    · exact h

/-- Hostnames with an address among their parts are resolved to these, in any case and without the
system, and all others by the system. -/
theorem lookupHost_local_or_system (host : Text) (port : UInt16) :
    (∀ parts, addresses parts ≠ [] → toAsciiLowercase host = toAsciiLowercase (hostname parts) →
      lookupHost host port = .ret (.ok ((addresses parts).map (SocketAddr.new port)))) ∧
    ((¬ gdnsSuffix <:+ toAsciiLowercase host ∨
        ∃ encoded, toAsciiLowercase host = toAsciiLowercase (encoded ++ gdnsSuffix) ∧
          ∀ part ∈ split '-' encoded, decodeBase32Ip part = none) →
      lookupHost host port = .ask (host, port) fun found => .ret (found.mapError .io)) := by
  constructor
  · intro parts hne hhost
    have hparts : parts.map partText ≠ [] := by
      rintro h
      rw [List.map_eq_nil_iff.1 h] at hne
      exact hne rfl
    have hdash : ∀ p ∈ parts.map partText, '-' ∉ p := by
      intro p hp
      obtain ⟨part, -, rfl⟩ := List.mem_map.1 hp
      exact dash_notMem_partText part
    have haddrs : (split '-' (['-'].intercalate (parts.map partText))).filterMap decodeBase32Ip =
        addresses parts := by
      rw [split_intercalate hparts hdash, List.filterMap_map]
      exact List.filterMap_congr fun part _ => decodeBase32Ip_partText part
    rw [lookupHost_of_suffix port hhost, haddrs, if_pos]
    rwa [ne_eq, List.map_eq_nil_iff]
  · rintro (hsuffix | ⟨encoded, hhost, hnone⟩)
    · have hstrip : stripSuffix gdnsSuffix (toAsciiLowercase host) = none := if_neg hsuffix
      rw [lookupHost, hstrip]
    · have haddrs : (split '-' encoded).filterMap decodeBase32Ip = [] :=
        List.filterMap_eq_nil_iff.2 hnone
      rw [lookupHost_of_suffix port hhost, haddrs]
      rfl

def loopback4 : IpAddr := .v4 (127 ::ᵥ 0 ::ᵥ 0 ::ᵥ 1 ::ᵥ .nil)

def loopback6 : IpAddr := .v6 ⟨List.replicate 15 0 ++ [1], rfl⟩

/-- The loopback addresses in an upper-case domain, and a host of another domain. -/
theorem lookupHost_loopback :
    lookupHost "P4AAAAI-aaaaaaaaaaaaaaaaaaaaaaaaae--x.G-DNS.NET".toList 443 =
      .ret (.ok [.new 443 loopback4, .new 443 loopback6]) ∧
    lookupHost "example.net".toList 443 =
      .ask ("example.net".toList, 443) fun found => .ret (found.mapError .io) :=
  ⟨(lookupHost_local_or_system _ 443).1
    [.inl loopback4, .inl loopback6, .inr ⟨[], by decide, .inl rfl⟩,
      .inr ⟨['x'], by decide, .inr (by decide +kernel)⟩]
    (by decide) (by decide +kernel),
  (lookupHost_local_or_system _ 443).2 (.inl (by decide +kernel))⟩

end Spot

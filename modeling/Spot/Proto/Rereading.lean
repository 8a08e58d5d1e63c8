import Spot.Proto.Grammar

/-!
# Reading a message again

Two questions about a second reading of a message.  Does the other build read the same bytes the
same way: `usize` has 32 bits on `wasm32`, where the cast of a length drops the high half of it.
And is a message that was read still read once it is written again: its names were replaced by
their lossy readings after their length had been checked.

* `parse_builds_agree_iff`: the two builds agree except on lengths that the cast brings back under
  the limit (`CutLength`);
* `Message.survives_iff`: a message survives if the lossy readings of its names are still short
  (`ReadsShort`).
-/

namespace Spot

/-! ## The other build -/

/-- `q` starts with a length that only the cast to 32 bits brings under the limit. -/
def WideLength (V : Uvarint) (q : Bytes) : Prop :=
  ∃ v q' x, q = v ++ q' ∧ V.Reads v q' x ∧ 256 < x.toNat ∧ asUsize .wasm x ≤ 256

/-- The recipient's length is wide, and what follows the bytes that the cast leaves of it is not
refused for the sender's length; or the recipient is well formed and the sender's length is wide. -/
def CutLength (V : Uvarint) (buf : Bytes) : Prop :=
  ∃ q id flags, AfterFlags V buf q id flags ∧
    ((WideLength V q ∧ ¬ ∃ r q', NameThen .wasm V q r q' ∧ LongName .wasm V q') ∨
      ∃ r q', NameThen .native V q r q' ∧ WideLength V q')

section Builds

variable {V : Uvarint} {buf q q' : Bytes}

theorem asUsize_wasm_of_le {x : UInt64} (h : x.toNat ≤ 256) : asUsize .wasm x = x.toNat :=
  Nat.mod_eq_of_lt (lt_of_le_of_lt h (by decide))

/-- Where no length is wide the two builds take the same name. -/
theorem takeName_builds (hV : V.Consumes) (h : ¬ WideLength V q) :
    takeName .native V q = takeName .wasm V q := by
  cases hq : takeVarint V q with
  | error e => rw [takeName_of_error hq, takeName_of_error hq]
  | ok p =>
    obtain ⟨x, rest⟩ := p
    obtain ⟨v, hv, hr⟩ := (takeVarint_ok_iff hV).1 hq
    rw [takeName_eq hq, takeName_eq hq]
    by_cases hx : x.toNat ≤ 256
    · simp only [asUsize_native, asUsize_wasm_of_le hx]
    · have hwasm : 256 < asUsize .wasm x := by
        by_contra hle
        exact h ⟨v, rest, x, hv, hr, not_le.1 hx, not_lt.1 hle⟩
      rw [asUsize_native, dif_pos (not_le.1 hx), dif_pos hwasm]

/-- Where a length is wide, the native build refuses it and the other does not. -/
theorem takeName_of_wideLength (hV : V.Consumes) (h : WideLength V q) :
    takeName .native V q = .error .nameTooLong ∧ takeName .wasm V q ≠ .error .nameTooLong := by
  obtain ⟨v, q', x, hq, hr, hx, hle⟩ := h
  have hlong : LongName .native V q := ⟨v, q', x.toNat, hq, ⟨x, hr, asUsize_native x⟩, hx⟩
  refine ⟨(takeName_long_iff hV).2 hlong, ?_⟩
  rw [takeName_eq ((takeVarint_ok_iff hV).2 ⟨v, hq, hr⟩), dif_neg (not_lt.2 hle)]
  split_ifs <;> simp

/-- Where the cast cuts a length, the native build refuses the message for that length and the
other does not. -/
theorem takeMessage_of_cutLength (hV : V.Consumes) (h : CutLength V buf) :
    takeMessage .native V buf = .error .nameTooLong ∧
      takeMessage .wasm V buf ≠ .error .nameTooLong := by
  obtain ⟨q, id, flags, hbuf, ⟨hq, hno⟩ | ⟨r, q', hr, hq'⟩⟩ := h
  · obtain ⟨hlong, hne⟩ := takeName_of_wideLength hV hq
    rw [takeMessage_eq hV hbuf, takeMessage_eq hV hbuf, hlong]
    refine ⟨rfl, fun h => ?_⟩
    cases hr : takeName .wasm V q with
    | error e =>
      rw [hr] at h
      obtain rfl := Except.error.inj h
      exact hne hr
    | ok p =>
      simp only [hr, Except.bind] at h
      cases hs : takeName .wasm V p.2 with
      | error e =>
        rw [hs] at h
        obtain rfl := Except.error.inj h
        exact hno ⟨p.1, p.2, (takeName_ok_iff hV).1 hr, (takeName_long_iff hV).1 hs⟩
      | ok s => simp [hs] at h
  · have hnative := (takeName_ok_iff hV).2 hr
    have hwasm := hnative
    have hq : ¬ WideLength V q := fun hq => by
      rw [(takeName_of_wideLength hV hq).1] at hnative
      cases hnative
    rw [takeName_builds hV hq] at hwasm
    obtain ⟨hlong, hne⟩ := takeName_of_wideLength hV hq'
    rw [takeMessage_eq hV hbuf, takeMessage_eq hV hbuf, hnative, hwasm]
    simp only [Except.bind, hlong, true_and]
    intro h
    cases hs : takeName .wasm V q' with
    | error e =>
      rw [hs] at h
      obtain rfl := Except.error.inj h
      exact hne hs
    | ok s => simp [hs] at h

/-- Elsewhere the two builds take the message apart in the same way. -/
theorem takeMessage_builds (hV : V.Consumes) (h : ¬ CutLength V buf) :
    takeMessage .native V buf = takeMessage .wasm V buf := by
  obtain hnone | ⟨q, id, flags, hbuf⟩ := takeMessage_flags hV buf
  · rw [hnone, hnone]
  rw [takeMessage_eq hV hbuf, takeMessage_eq hV hbuf]
  by_cases hq : WideLength V q
  · -- the browser's build has to go on to a sender that it refuses
    obtain ⟨r, q', hr, hs⟩ : ∃ r q', NameThen .wasm V q r q' ∧ LongName .wasm V q' := by
      by_contra hno
      exact h ⟨q, id, flags, hbuf, .inl ⟨hq, hno⟩⟩
    rw [(takeName_of_wideLength hV hq).1, (takeName_ok_iff hV).2 hr]
    simp only [Except.bind, (takeName_long_iff hV).2 hs]
  · rw [← takeName_builds hV hq]
    cases hr : takeName .native V q with
    | error e => rfl
    | ok p =>
      have hq' : ¬ WideLength V p.2 := fun hwide =>
        h ⟨q, id, flags, hbuf, .inr ⟨p.1, p.2, (takeName_ok_iff hV).1 hr, hwide⟩⟩
      simp only [Except.bind, takeName_builds hV hq']

theorem Message.parse_builds_iff (hV : V.Consumes) :
    Message.parse .native V buf = Message.parse .wasm V buf ↔ ¬ CutLength V buf := by
  constructor
  · intro h hcut
    obtain ⟨hnative, hwasm⟩ := takeMessage_of_cutLength hV hcut
    rw [takeMessage_long_iff hV, ← Message.parse_long_iff hV] at hnative
    rw [Ne, takeMessage_long_iff hV, ← Message.parse_long_iff hV] at hwasm
    exact hwasm (h ▸ hnative)
  · intro h
    rw [Message.parse_eq hV, Message.parse_eq hV, takeMessage_builds hV h]

end Builds

/-- The first byte of an instant message is its type. -/
theorem versionAndPacket_eq_instantMsg {v : UInt8} (h : versionAndPacket v = (0, instantMsg)) :
    v = instantMsg := by
  obtain ⟨hvers, hpkt⟩ := Prod.mk.inj h
  have hhigh : v.toNat / 16 % 16 = 0 := by
    have hnat := congrArg UInt8.toNat hvers
    rw [UInt8.toNat_and, UInt8.toNat_shiftRight] at hnat
    rw [← Nat.and_two_pow_sub_one_eq_mod _ 4, ← Nat.shiftRight_eq_div_pow _ 4]
    exact hnat
  have hlow : v.toNat % 16 = 2 := by
    have hnat := congrArg UInt8.toNat hpkt
    rw [UInt8.toNat_and] at hnat
    rw [← Nat.and_two_pow_sub_one_eq_mod v.toNat 4]
    exact hnat
  have hlt := v.toNat_lt
  exact UInt8.toNat_inj.1 (show v.toNat = 2 by omega)

/-- Only instant messages depend on the build. -/
theorem parse_of_ne_instantMsg (t t' : Platform) (V : Uvarint) (C : Ciborium) {buf : Bytes}
    (h : ∀ payload, buf ≠ instantMsg :: payload) (isClient : Bool) :
    parse t V C buf isClient = parse t' V C buf isClient := by
  cases buf with
  | nil => rfl
  | cons v payload =>
    have hne : versionAndPacket v ≠ (0, instantMsg) := fun hv => by
      obtain rfl := versionAndPacket_eq_instantMsg hv
      exact h payload rfl
    cases hv : versionAndPacket v with
    | mk vers pkt =>
      rw [hv] at hne
      simp only [parse, hv]
      by_cases hvers : vers ≠ 0
      · rw [if_pos hvers, if_pos hvers]
      · rw [not_not] at hvers
        subst hvers
        have hpkt : pkt ≠ instantMsg := fun e => hne (e ▸ rfl)
        rw [if_neg hpkt, if_neg hpkt]

theorem map_message_inj {a b : ProtoResult Message} :
    a.map Packet.message = b.map Packet.message ↔ a = b := by
  cases a <;> cases b <;> simp [Except.map]

/-- The two builds read the packet in the same way; where the first defect of a message is the
length of a name, both say so. -/
def BuildsAgree (V : Uvarint) (C : Ciborium) (buf : Bytes) (isClient : Bool) : Prop :=
  parse .native V C buf isClient = parse .wasm V C buf isClient ∧
    ∀ payload, buf = instantMsg :: payload → LongNameFirst .native V payload →
      ∀ t, parse t V C buf isClient = .error (.err .nameTooLong)

/-- A length that the cast to 32 bits brings under the limit is all that sets the builds apart. -/
theorem parse_builds_agree_iff {V : Uvarint} (hV : V.Consumes) (C : Ciborium) (buf : Bytes)
    (isClient : Bool) : BuildsAgree V C buf isClient ↔
      ∀ payload, buf = instantMsg :: payload → ¬ CutLength V payload := by
  constructor
  · rintro ⟨h, -⟩ payload rfl
    rw [parse_instantMsg, parse_instantMsg, map_message_inj] at h
    exact (Message.parse_builds_iff hV).1 h
  · intro h
    by_cases hbuf : ∃ payload, buf = instantMsg :: payload
    · obtain ⟨payload, rfl⟩ := hbuf
      have hsame := (Message.parse_builds_iff hV).2 (h payload rfl)
      refine ⟨by rw [parse_instantMsg, parse_instantMsg, hsame], fun payload' e hlong t => ?_⟩
      obtain rfl := (List.cons.inj e).2
      have hnative := (Message.parse_long_iff hV).2 hlong
      have ht : Message.parse t V payload = .error (.err .nameTooLong) := by
        cases t with
        | native => exact hnative
        | wasm => rwa [← hsame]
      rw [parse_instantMsg, ht]
      rfl
    · have hne : ∀ payload, buf ≠ instantMsg :: payload := fun payload e => hbuf ⟨payload, e⟩
      exact ⟨parse_of_ne_instantMsg _ _ V C hne isClient, fun payload e => absurd e (hne payload)⟩

/-- A message whose recipient's length is `2 ^ 32`, which the cast to 32 bits makes 0. -/
def wideWire : Bytes := List.replicate 16 0 ++ [0, 0x80, 0x80, 0x80, 0x80, 0x10, 0]

def wideRead : Message where
  messageId := List.Vector.replicate 16 0
  flags := 0
  recipient := .empty
  sender := .empty
  body := []

theorem parse_wideWire :
    parse .native leb128 sampleCiborium (instantMsg :: wideWire) true =
        .error (.err .nameTooLong) ∧
      parse .wasm leb128 sampleCiborium (instantMsg :: wideWire) true =
        .ok (.message wideRead) := by
  constructor <;> rfl

/-- The browser's build accepts a message that the native one refuses. -/
theorem not_parse_builds_agree :
    ¬ ∀ (V : Uvarint) (C : Ciborium) (buf : Bytes) (isClient : Bool), V.Lawful →
      BuildsAgree V C buf isClient := by
  intro h
  have hsame := (h leb128 sampleCiborium (instantMsg :: wideWire) true leb128_lawful).1
  rw [parse_wideWire.1, parse_wideWire.2] at hsame
  cases hsame

/-- On an ordinary message they agree, so no length in it is cut. -/
theorem parse_builds_agree_iff_sampleWire : ¬ CutLength leb128 sampleWire := by
  have hread : BuildsAgree leb128 sampleCiborium (instantMsg :: sampleWire) true := by
    refine ⟨rfl, fun payload e hlong => ?_⟩
    obtain rfl := (List.cons.inj e).2
    have herror := (Message.parse_long_iff leb128_lawful.consumes).2 hlong
    cases herror
  exact (parse_builds_agree_iff leb128_lawful.consumes _ _ _).1 hread sampleWire rfl

/-! ## What was read, written again -/

namespace Message

variable {V : Uvarint} {buf : Bytes} {m : Message}

theorem length_toStr_le (r : RawName) : r.toStr.len ≤ 768 :=
  (length_utf8_lossy_le r.1).trans (by have := r.2; omega)

/-- A message is read back from its own bytes if and only if its names are short. -/
theorem parse_toBytes_iff (t : Platform) (hV : V.Lawful) :
    parse t V (m.toBytes V) = .ok m ↔ m.recipient.len ≤ 256 ∧ m.sender.len ≤ 256 := by
  refine ⟨fun h => ?_, fun h => parse_toBytes t hV h.1 h.2⟩
  -- names that were read are short enough for either build
  obtain ⟨raw, -, rfl⟩ := (parse_ok_iff hV.consumes).1 h
  have hfit : ∀ r : RawName, r.toStr.FitsIn t := fun r =>
    lt_of_le_of_lt (length_toStr_le r) (by cases t <;> decide)
  by_contra hshort
  rw [not_and_or, not_le, not_le] at hshort
  rw [parse_toBytes_long hV (hfit raw.recipient) (hfit raw.sender) hshort] at h
  cases h

/-- The lossy readings of the names in `buf` have at most 256 bytes themselves. -/
def ReadsShort (t : Platform) (V : Uvarint) (buf : Bytes) : Prop :=
  ∀ raw : RawMessage, raw.Spells t V buf →
    (utf8 (lossy raw.recipient.1)).length ≤ 256 ∧ (utf8 (lossy raw.sender.1)).length ≤ 256

/-- A message is read back from its own bytes, and so is one that is sent to its sender. -/
def Survives (t : Platform) (V : Uvarint) (m : Message) : Prop :=
  parse t V (m.toBytes V) = .ok m ∧
    ∀ resp : Message, resp.recipient = m.sender → resp.sender.len ≤ 256 →
      parse t V (resp.toBytes V) = .ok resp

/-- What is read from `buf` survives if and only if its names are still short after their lossy
reading. -/
theorem survives_iff (t : Platform) (hV : V.Lawful) (buf : Bytes) :
    (∀ m, parse t V buf = .ok m → m.Survives t V) ↔ ReadsShort t V buf := by
  constructor
  · intro h raw hraw
    have hread := (parse_ok_iff hV.consumes).2 ⟨raw, hraw, rfl⟩
    exact (parse_toBytes_iff t hV).1 (h _ hread).1
  · intro h m hm
    obtain ⟨raw, hraw, rfl⟩ := (parse_ok_iff hV.consumes).1 hm
    have hshort := h raw hraw
    refine ⟨(parse_toBytes_iff t hV).2 hshort, fun resp hresp hsender => ?_⟩
    exact (parse_toBytes_iff t hV).2 ⟨by rw [hresp]; exact hshort.2, hsender⟩

/-- A message whose recipient is 100 bytes that no UTF-8 text holds. -/
def invalidWire : Bytes :=
  List.replicate 16 0 ++ ([0] ++ ([100] ++ (List.replicate 100 0xFF ++ ([0] ++ []))))

def invalidRaw : RawMessage where
  messageId := List.Vector.replicate 16 0
  flags := 0
  recipient := ⟨List.replicate 100 0xFF, by decide⟩
  sender := ⟨[], by decide⟩
  body := []

theorem invalidRaw_spells (t : Platform) : invalidRaw.Spells t leb128 invalidWire := by
  have h100 : asUsize t 100 = 100 := by cases t <;> rfl
  have h0 : asUsize t 0 = 0 := by cases t <;> rfl
  exact ⟨_, _, ⟨[0], rfl, rfl⟩, ⟨[100], rfl, 100, rfl, h100⟩, [0], rfl, 0, rfl, h0⟩

theorem length_utf8_lossy_invalid (n : ℕ) :
    (utf8 (lossy (List.replicate n 0xFF))).length = 3 * n := by
  induction n with
  | zero => rfl
  | succ n ih =>
    have hcons : lossy (List.replicate (n + 1) 0xFF) =
        replacement :: lossy (List.replicate n 0xFF) := by
      rw [List.replicate_succ, lossy.eq_def]
      rfl
    rw [hcons, length_utf8_replacement_cons, ih]
    omega

theorem length_toStr_invalid : invalidRaw.toMessage.recipient.len = 300 :=
  length_utf8_lossy_invalid 100

/-- Its recipient is read as 300 bytes, which no parser accepts. -/
theorem not_survives :
    ¬ ∀ (t : Platform) (V : Uvarint) (buf : Bytes) (m : Message), V.Lawful →
      parse t V buf = .ok m → parse t V (m.toBytes V) = .ok m := by
  intro h
  have hread : parse .native leb128 invalidWire = .ok invalidRaw.toMessage :=
    (parse_ok_iff leb128_lawful.consumes).2 ⟨invalidRaw, invalidRaw_spells .native, rfl⟩
  have hshort := (parse_toBytes_iff .native leb128_lawful).1
    (h .native leb128 invalidWire _ leb128_lawful hread)
  rw [length_toStr_invalid] at hshort
  omega

/-- A message with one such byte in its sender survives. -/
theorem survives_sampleRead : sampleRead.Survives .native leb128 := by
  have hshort : ReadsShort .native leb128 sampleWire := by
    intro raw hraw
    have hread := (parse_ok_iff leb128_lawful.consumes).2 ⟨raw, hraw, rfl⟩
    have hsample : parse .native leb128 sampleWire = .ok sampleRead := rfl
    obtain ⟨-, -, hr, hs, -⟩ := Message.mk.inj (Except.ok.inj (hread.symm.trans hsample))
    have hr' := congrArg Str.len hr
    have hs' := congrArg Str.len hs
    exact ⟨hr'.le.trans (by decide), hs'.le.trans (by decide)⟩
  exact (survives_iff .native leb128_lawful sampleWire).2 hshort sampleRead rfl

end Message

end Spot

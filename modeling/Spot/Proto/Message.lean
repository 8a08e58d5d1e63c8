import Spot.General.Varint
import Spot.Proto.Types

/-!
# Instant messages

The binary form of a message: 16 bytes of id, the flags as a varint, the recipient and the sender
each with its length in front, then the body up to the end of the packet.  `Message.parse` moves a
cursor over the buffer; each of its steps has a lemma saying what it reads when the cursor stands
before the bytes that `Message.toBytes` wrote (`readVarint_append`, `readName_append`), which gives
`Message.parse_toBytes`.
-/

namespace Spot

/-- A response message that must not trigger further responses. -/
def msgFlagResponse : UInt64 := (1 : UInt64) <<< 0

/-- The message body contains an error string. -/
def msgFlagError : UInt64 := (1 : UInt64) <<< 1

/-- The body is not an encrypted bottle. -/
def msgFlagNotBottle : UInt64 := (1 : UInt64) <<< 2

/-- An instant message exchanged between hosts. -/
@[ext] structure Message where
  messageId : MessageId
  flags : UInt64
  recipient : Str
  sender : Str
  body : Bytes
  deriving DecidableEq

instance : Inhabited Message := ⟨⟨List.Vector.replicate 16 0, 0, .empty, .empty, []⟩⟩

/-- Reads a varint at the cursor; returns it and the cursor after it. -/
def readVarint (V : Uvarint) (buf : Bytes) (pos : ℕ) : ProtoResult (UInt64 × ℕ) :=
  if buf.length < pos then .error .panic
  else match V.read (buf.drop pos) with
    | none => .error (.err .truncated)
    | some (v, n) => .ok (v, pos + n)

/-- Reads a name with its length in front, at most 256 bytes long. -/
def readName (t : Platform) (V : Uvarint) (buf : Bytes) (pos : ℕ) : ProtoResult (Str × ℕ) := do
  let (v, pos) ← readVarint V buf pos
  let ln := v.toNat % 2 ^ t.usizeBits
  if h : 256 < ln then .error (.err .nameTooLong)
  -- the subtraction `buf.len() - *pos` and the slice `buf[*pos..*pos + ln]`
  else if buf.length < pos then .error .panic
  else if buf.length - pos < ln then .error (.err .truncated)
  else
    let s := Str.ofLossy ((buf.drop pos).take ln)
      ((List.length_take_le _ _).trans (Nat.le_of_not_lt h))
    .ok (s, pos + ln)

namespace Message

/-- The binary form, without the leading packet type byte. -/
def toBytes (V : Uvarint) (m : Message) : Bytes :=
  m.messageId.toList ++ V.append m.flags ++
    V.append (UInt64.ofNat m.recipient.len) ++ m.recipient.bytes ++
    V.append (UInt64.ofNat m.sender.len) ++ m.sender.bytes ++ m.body

/-- Decodes a message from its binary form. -/
def parse (t : Platform) (V : Uvarint) (buf : Bytes) : ProtoResult Message :=
  if h : buf.length < 16 then .error (.err .truncated)
  else do
    let messageId : MessageId := ⟨buf.take 16, List.length_take_of_le (Nat.le_of_not_lt h)⟩
    let (flags, pos) ← readVarint V buf 16
    let (recipient, pos) ← readName t V buf pos
    let (sender, pos) ← readName t V buf pos
    if buf.length < pos then .error .panic
    else .ok { messageId, flags, recipient, sender, body := buf.drop pos }

/-- Whether the body must be a bottle. -/
def isEncrypted (m : Message) : Bool := m.flags &&& msgFlagNotBottle == 0

end Message

/-! ## Reading at the cursor what was written there -/

section Cursor

variable {t : Platform} {V : Uvarint} {p r : Bytes}

/-- A name with its length in front. -/
def named (V : Uvarint) (s : Str) : Bytes := V.append (UInt64.ofNat s.len) ++ s.bytes

theorem readVarint_append (hV : V.Lawful) (v : UInt64) :
    readVarint V (p ++ (V.append v ++ r)) p.length =
      .ok (v, (p ++ V.append v).length) := by
  have h : ¬ (p ++ (V.append v ++ r)).length < p.length := by
    rw [List.length_append]
    omega
  rw [readVarint, if_neg h, List.drop_left, hV.read_append, List.length_append]

theorem readName_append (hV : V.Lawful) {s : Str} (hs : s.len ≤ 256) :
    readName t V (p ++ (named V s ++ r)) p.length =
      .ok (s, (p ++ named V s).length) := by
  have hln : (UInt64.ofNat s.len).toNat % 2 ^ t.usizeBits = s.len := by
    rw [s.toNat_ofNat_len]
    refine Nat.mod_eq_of_lt (lt_of_le_of_lt hs ?_)
    cases t <;> decide
  have hpos : (p ++ named V s).length = (p ++ V.append (UInt64.ofNat s.len)).length + s.len := by
    simp only [named, Str.len, List.length_append]
    omega
  have hbuf : (p ++ (named V s ++ r)).length = (p ++ named V s).length + r.length := by
    rw [← List.append_assoc, List.length_append]
  have htake : ((p ++ (named V s ++ r)).drop
      (p ++ V.append (UInt64.ofNat s.len)).length).take s.len = s.bytes := by
    rw [named, List.append_assoc, ← List.append_assoc p, List.drop_left, Str.len, List.take_left]
  have hread : readVarint V (p ++ (named V s ++ r)) p.length =
      .ok (UInt64.ofNat s.len, (p ++ V.append (UInt64.ofNat s.len)).length) := by
    rw [named, List.append_assoc, readVarint_append hV]
  unfold readName
  rw [hread]
  simp only [bind, Except.bind, hln]
  rw [dif_neg (by omega), if_neg (by omega), if_neg (by omega), hpos]
  congr 2
  apply Str.ext
  show lossy _ = s.chars
  rw [htake, s.lossy_bytes]

/-- A name of more than 256 bytes is refused, whatever follows it. -/
theorem readName_long (hV : V.Lawful) {s : Str} (hs : 256 < s.len) (hfit : s.FitsIn t) :
    readName t V (p ++ (named V s ++ r)) p.length = .error (.err .nameTooLong) := by
  have hln : (UInt64.ofNat s.len).toNat % 2 ^ t.usizeBits = s.len := by
    rw [s.toNat_ofNat_len]
    refine Nat.mod_eq_of_lt (lt_trans hfit ?_)
    cases t <;> decide
  unfold readName
  rw [named, List.append_assoc, readVarint_append hV]
  simp only [bind, Except.bind, hln]
  rw [dif_pos hs]

end Cursor

/-! ## Round trip -/

namespace Message

variable {V : Uvarint} {m : Message}

/-- The id and the flags of a message. -/
def header (V : Uvarint) (m : Message) : Bytes := m.messageId.toList ++ V.append m.flags

/-- The binary form, cut the way the cursor meets it. -/
theorem toBytes_eq (V : Uvarint) (m : Message) : m.toBytes V =
    m.header V ++ (named V m.recipient ++ (named V m.sender ++ m.body)) := by
  simp only [toBytes, header, named, List.append_assoc]

/-- What `parse` does on the bytes of a message once it has read the id and the flags. -/
theorem parse_toBytes_eq (t : Platform) (hV : V.Lawful) (m : Message) :
    parse t V (m.toBytes V) =
      (readName t V (m.toBytes V) (m.header V).length).bind fun p =>
        (readName t V (m.toBytes V) p.2).bind fun q =>
          if (m.toBytes V).length < q.2 then .error .panic
          else .ok { m with recipient := p.1, sender := q.1, body := (m.toBytes V).drop q.2 } := by
  have hlen : ¬ (m.toBytes V).length < 16 := by
    rw [toBytes_eq, header, List.append_assoc, List.length_append, m.messageId.toList_length]
    omega
  have hid : (⟨(m.toBytes V).take 16, List.length_take_of_le (Nat.le_of_not_lt hlen)⟩ : MessageId) =
      m.messageId := by
    apply Subtype.ext
    show (m.toBytes V).take 16 = m.messageId.toList
    rw [toBytes_eq, header, List.append_assoc, List.take_left' m.messageId.toList_length]
  have hflags : readVarint V (m.toBytes V) 16 = .ok (m.flags, (m.header V).length) := by
    rw [toBytes_eq, header, List.append_assoc]
    have h := readVarint_append (p := m.messageId.toList)
      (r := named V m.recipient ++ (named V m.sender ++ m.body)) hV m.flags
    rwa [m.messageId.toList_length] at h
  unfold parse
  rw [dif_neg hlen, hflags]
  simp only [bind, Except.bind, hid]

theorem readName_recipient (t : Platform) (hV : V.Lawful) (h : m.recipient.len ≤ 256) :
    readName t V (m.toBytes V) (m.header V).length =
      .ok (m.recipient, (m.header V ++ named V m.recipient).length) := by
  rw [toBytes_eq]
  exact readName_append hV h

/-- A message with short names is read back from its own bytes. -/
theorem parse_toBytes (t : Platform) (hV : V.Lawful) (hr : m.recipient.len ≤ 256)
    (hs : m.sender.len ≤ 256) : parse t V (m.toBytes V) = .ok m := by
  have hsend : readName t V (m.toBytes V) (m.header V ++ named V m.recipient).length =
      .ok (m.sender, (m.header V ++ named V m.recipient ++ named V m.sender).length) := by
    rw [toBytes_eq, ← List.append_assoc]
    exact readName_append hV hs
  have hbytes : m.toBytes V =
      (m.header V ++ named V m.recipient ++ named V m.sender) ++ m.body := by
    rw [toBytes_eq, ← List.append_assoc, ← List.append_assoc]
  have hlen : ¬ (m.toBytes V).length <
      (m.header V ++ named V m.recipient ++ named V m.sender).length := by
    rw [hbytes, List.length_append, not_lt]
    exact Nat.le_add_right _ _
  rw [parse_toBytes_eq t hV, readName_recipient t hV hr]
  simp only [Except.bind]
  rw [hsend]
  simp only
  rw [if_neg hlen, hbytes, List.drop_left]

/-- A message with a name of more than 256 bytes is refused when read back. -/
theorem parse_toBytes_long {t : Platform} (hV : V.Lawful) (hr : m.recipient.FitsIn t)
    (hs : m.sender.FitsIn t) (h : 256 < m.recipient.len ∨ 256 < m.sender.len) :
    parse t V (m.toBytes V) = .error (.err .nameTooLong) := by
  rw [parse_toBytes_eq t hV]
  by_cases hle : m.recipient.len ≤ 256
  · have hlong : 256 < m.sender.len := h.resolve_left (not_lt.2 hle)
    rw [readName_recipient t hV hle, toBytes_eq, ← List.append_assoc]
    simp only [Except.bind]
    rw [readName_long hV hlong hs]
  · rw [toBytes_eq, readName_long hV (not_le.1 hle) hr]
    rfl

end Message

end Spot

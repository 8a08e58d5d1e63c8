import Spot.Proto.Packet

/-!
# The grammar of instant messages

`Message.parse` moves a cursor over the whole buffer.  `takeMessage` is the same reader on the bytes
that are left, without a cursor, and keeps the names as they stand on the wire; the two agree, and
no index is ever out of range, because the cursor never leaves the buffer (`Before`).  What
`takeMessage` accepts is a shape of the input, `RawMessage.Spells`.

* `Message.parse_eq`: the cursor and the bytes that are left;
* `takeMessage_ok_iff`, `takeMessage_long_iff`: the inputs accepted, and those refused for the
  length of a name;
* `Message.parse_grammar`: on a 64-bit target, `Message.parse` accepts exactly its grammar.
-/

namespace Spot

/-- What the format relies on when it reads a varint that it did not write itself. -/
structure Uvarint.Consumes (V : Uvarint) : Prop where
  read_pos : ∀ {buf v n}, V.read buf = some (v, n) → 0 < n
  read_le : ∀ {buf v n}, V.read buf = some (v, n) → n ≤ buf.length

theorem Uvarint.Lawful.consumes {V : Uvarint} (hV : V.Lawful) : V.Consumes :=
  ⟨hV.read_pos, hV.read_le⟩

/-- `v`, in front of `q`, is a varint that the decoder accepts with the value `x`. -/
def Uvarint.Reads (V : Uvarint) (v q : Bytes) (x : UInt64) : Prop :=
  V.read (v ++ q) = some (x, v.length)

/-- The cast `as usize` of a 64-bit number. -/
def asUsize (t : Platform) (x : UInt64) : ℕ := x.toNat % 2 ^ t.usizeBits

@[simp] theorem asUsize_native (x : UInt64) : asUsize .native x = x.toNat :=
  Nat.mod_eq_of_lt x.toNat_lt

/-- A name as it stands on the wire, within the limit of the format. -/
abbrev RawName := { r : Bytes // r.length ≤ 256 }

/-- The string such a name is read as. -/
def RawName.toStr (r : RawName) : Str := Str.ofLossy r.1 r.2

/-- A message as it stands on the wire. -/
structure RawMessage where
  messageId : MessageId
  flags : UInt64
  recipient : RawName
  sender : RawName
  body : Bytes

/-- The message that is read from it. -/
def RawMessage.toMessage (raw : RawMessage) : Message where
  messageId := raw.messageId
  flags := raw.flags
  recipient := raw.recipient.toStr
  sender := raw.sender.toStr
  body := raw.body

/-! ## Reading without a cursor -/

/-- Takes a varint off the front of the bytes that are left. -/
def takeVarint (V : Uvarint) (q : Bytes) : Except ProtoError (UInt64 × Bytes) :=
  match V.read q with
  | none => .error .truncated
  | some (x, n) => .ok (x, q.drop n)

/-- Takes a name off the front of the bytes that are left. -/
def takeName (t : Platform) (V : Uvarint) (q : Bytes) : Except ProtoError (RawName × Bytes) := do
  let (x, q) ← takeVarint V q
  let ln := asUsize t x
  if h : 256 < ln then .error .nameTooLong
  else if q.length < ln then .error .truncated
  else .ok (⟨q.take ln, (List.length_take_le _ _).trans (Nat.le_of_not_lt h)⟩, q.drop ln)

/-- Takes a message apart. -/
def takeMessage (t : Platform) (V : Uvarint) (buf : Bytes) : Except ProtoError RawMessage :=
  if h : buf.length < 16 then .error .truncated
  else do
    let messageId : MessageId := ⟨buf.take 16, length_take_id h⟩
    let (flags, q) ← takeVarint V (buf.drop 16)
    let (recipient, q) ← takeName t V q
    let (sender, body) ← takeName t V q
    .ok { messageId, flags, recipient, sender, body }

/-! ## The cursor stays within the buffer -/

/-- The cursor is within the buffer and `q` is what is left after it. -/
structure Before (buf : Bytes) (pos : ℕ) (q : Bytes) : Prop where
  le : pos ≤ buf.length
  drop_eq : buf.drop pos = q

/-- The two readers fail with the same error, or return results that `R` relates. -/
inductive Agree (R : α → β → Prop) : Except ProtoError α → ProtoResult β → Prop
  | error (e : ProtoError) : Agree R (.error e) (.error (.err e))
  | ok {x : α} {y : β} (h : R x y) : Agree R (.ok x) (.ok y)

/-- A value read with the cursor behind it, and the same value with the bytes that are left. -/
def SameStep (buf : Bytes) (f : α → β) (x : α × Bytes) (y : β × ℕ) : Prop :=
  f x.1 = y.1 ∧ Before buf y.2 x.2

section Cursor

variable {t : Platform} {V : Uvarint} {buf q : Bytes} {pos : ℕ}

theorem Before.length (h : Before buf pos q) : q.length = buf.length - pos := by
  rw [← h.drop_eq, List.length_drop]

/-- Moving the cursor over bytes that are there. -/
theorem Before.advance (h : Before buf pos q) {n : ℕ} (hn : n ≤ q.length) :
    Before buf (pos + n) (q.drop n) := by
  have hle := h.le
  have hlen := h.length
  exact ⟨by omega, by rw [← h.drop_eq, List.drop_drop]⟩

theorem Agree.bind {R : α → β → Prop} {S : γ → δ → Prop} {a : Except ProtoError α}
    {b : ProtoResult β} {k : α → Except ProtoError γ} {k' : β → ProtoResult δ}
    (h : Agree R a b) (hk : ∀ x y, R x y → Agree S (k x) (k' y)) :
    Agree S (a >>= k) (b >>= k') := by
  cases h with
  | error e => exact .error e
  | ok h => exact hk _ _ h

theorem agree_readVarint (hV : V.Consumes) (h : Before buf pos q) :
    Agree (SameStep buf id) (takeVarint V q) (readVarint V buf pos) := by
  unfold takeVarint readVarint
  rw [if_neg (not_lt.2 h.le), h.drop_eq]
  cases hr : V.read q with
  | none => exact .error _
  | some p => exact .ok ⟨rfl, h.advance (hV.read_le hr)⟩

theorem agree_readName (hV : V.Consumes) (h : Before buf pos q) :
    Agree (SameStep buf RawName.toStr) (takeName t V q) (readName t V buf pos) := by
  refine (agree_readVarint hV h).bind ?_
  rintro ⟨x, q'⟩ ⟨-, pos'⟩ ⟨rfl, h'⟩
  have hlen : q'.length = buf.length - pos' := h'.length
  dsimp only [id_eq, asUsize]
  by_cases hlong : 256 < x.toNat % 2 ^ t.usizeBits
  · rw [dif_pos hlong, dif_pos hlong]
    exact .error _
  · rw [dif_neg hlong, dif_neg hlong, if_neg (not_lt.2 h'.le), ← hlen]
    by_cases hcut : q'.length < x.toNat % 2 ^ t.usizeBits
    · rw [if_pos hcut, if_pos hcut]
      exact .error _
    · rw [if_neg hcut, if_neg hcut]
      refine .ok ⟨?_, h'.advance (not_lt.1 hcut)⟩
      simp only [RawName.toStr, h'.drop_eq]

/-- The reader with a cursor is the one without, and never panics. -/
theorem agree_parse (hV : V.Consumes) :
    Agree (fun raw m => raw.toMessage = m) (takeMessage t V buf) (Message.parse t V buf) := by
  unfold takeMessage Message.parse
  by_cases h : buf.length < 16
  · rw [dif_pos h, dif_pos h]
    exact .error _
  · rw [dif_neg h, dif_neg h]
    refine (agree_readVarint hV ⟨not_lt.1 h, rfl⟩).bind ?_
    rintro ⟨flags, q₁⟩ ⟨-, pos₁⟩ ⟨rfl, h₁⟩
    refine (agree_readName hV h₁).bind ?_
    rintro ⟨recipient, q₂⟩ ⟨-, pos₂⟩ ⟨rfl, h₂⟩
    refine (agree_readName hV h₂).bind ?_
    rintro ⟨sender, q₃⟩ ⟨-, pos₃⟩ ⟨rfl, h₃⟩
    dsimp only
    rw [if_neg (not_lt.2 h₃.le), h₃.drop_eq]
    exact .ok rfl

/-- The result with a cursor, from the one without. -/
theorem Message.parse_eq (hV : V.Consumes) : Message.parse t V buf =
    ((takeMessage t V buf).map RawMessage.toMessage).mapError Fault.err := by
  have h : Agree (fun raw m => raw.toMessage = m) (takeMessage t V buf) (Message.parse t V buf) :=
    agree_parse hV
  generalize takeMessage t V buf = a at h ⊢
  generalize Message.parse t V buf = b at h ⊢
  cases h with
  | error e => rfl
  | ok h =>
    subst h
    rfl

end Cursor

/-! ## The shape of what is accepted -/

/-- `v`, in front of `q`, is a varint that is cast to the length `n`. -/
def IsLength (t : Platform) (V : Uvarint) (v q : Bytes) (n : ℕ) : Prop :=
  ∃ x, V.Reads v q x ∧ asUsize t x = n

/-- `q` starts with the name `r` and its length, and goes on with `q'`. -/
def NameThen (t : Platform) (V : Uvarint) (q : Bytes) (r : RawName) (q' : Bytes) : Prop :=
  ∃ v, q = v ++ (r.1 ++ q') ∧ IsLength t V v (r.1 ++ q') r.1.length

/-- `q` starts with the length of a name over the limit of the format. -/
def LongName (t : Platform) (V : Uvarint) (q : Bytes) : Prop :=
  ∃ v q' n, q = v ++ q' ∧ IsLength t V v q' n ∧ 256 < n

/-- `q` is what is left of `buf` after the id and the flags. -/
def AfterFlags (V : Uvarint) (buf q : Bytes) (id : MessageId) (flags : UInt64) : Prop :=
  ∃ v, buf = id.toList ++ (v ++ q) ∧ V.Reads v q flags

/-- The bytes of a message. -/
def RawMessage.Spells (t : Platform) (V : Uvarint) (raw : RawMessage) (buf : Bytes) : Prop :=
  ∃ q q', AfterFlags V buf q raw.messageId raw.flags ∧ NameThen t V q raw.recipient q' ∧
    NameThen t V q' raw.sender raw.body

/-- The first defect met in `buf` is the length of a name, the recipient's or the sender's. -/
def LongNameFirst (t : Platform) (V : Uvarint) (buf : Bytes) : Prop :=
  ∃ q id flags, AfterFlags V buf q id flags ∧
    (LongName t V q ∨ ∃ r q', NameThen t V q r q' ∧ LongName t V q')

section Shape

variable {t : Platform} {V : Uvarint} {buf q q' : Bytes} {x : UInt64} {r : RawName}

theorem takeVarint_ok_iff (hV : V.Consumes) :
    takeVarint V q = .ok (x, q') ↔ ∃ v, q = v ++ q' ∧ V.Reads v q' x := by
  constructor
  · intro h
    unfold takeVarint at h
    cases hr : V.read q with
    | none => simp [hr] at h
    | some p =>
      obtain ⟨y, n⟩ := p
      simp only [hr, Except.ok.injEq, Prod.mk.injEq] at h
      obtain ⟨rfl, rfl⟩ := h
      have hn : (q.take n).length = n := List.length_take_of_le (hV.read_le hr)
      refine ⟨q.take n, (List.take_append_drop n q).symm, ?_⟩
      rw [Uvarint.Reads, List.take_append_drop, hn, hr]
  · rintro ⟨v, rfl, hr⟩
    unfold takeVarint
    rw [hr]
    simp only [List.drop_left]

theorem takeVarint_error {e : ProtoError} (h : takeVarint V q = .error e) : e = .truncated := by
  unfold takeVarint at h
  cases hr : V.read q with
  | none => simpa [hr] using h.symm
  | some p => simp [hr] at h

/-- What taking a name comes to once its length is read. -/
theorem takeName_eq (h : takeVarint V q = .ok (x, q')) : takeName t V q =
    if h : 256 < asUsize t x then .error .nameTooLong
    else if q'.length < asUsize t x then .error .truncated
    else .ok (⟨q'.take (asUsize t x), (List.length_take_le _ _).trans (Nat.le_of_not_lt h)⟩,
      q'.drop (asUsize t x)) := by
  unfold takeName
  rw [h]
  rfl

theorem takeName_of_error {e : ProtoError} (h : takeVarint V q = .error e) :
    takeName t V q = .error e := by
  unfold takeName
  rw [h]
  rfl

/-- The three outcomes of taking a name. -/
theorem takeName_cases (hV : V.Consumes) (t : Platform) (q : Bytes) :
    takeName t V q = .error .truncated ∨ (takeName t V q = .error .nameTooLong ∧ LongName t V q) ∨
      ∃ r q', takeName t V q = .ok (r, q') ∧ NameThen t V q r q' := by
  cases hq : takeVarint V q with
  | error e =>
    obtain rfl := takeVarint_error hq
    exact .inl (takeName_of_error hq)
  | ok p =>
    obtain ⟨x, rest⟩ := p
    obtain ⟨v, hv, hr⟩ := (takeVarint_ok_iff hV).1 hq
    rw [takeName_eq hq]
    by_cases hlong : 256 < asUsize t x
    · rw [dif_pos hlong]
      exact .inr (.inl ⟨rfl, v, rest, _, hv, ⟨x, hr, rfl⟩, hlong⟩)
    · rw [dif_neg hlong]
      by_cases hcut : rest.length < asUsize t x
      · rw [if_pos hcut]
        exact .inl rfl
      · rw [if_neg hcut]
        refine .inr (.inr ⟨_, _, rfl, v, ?_⟩)
        have hlen : (rest.take (asUsize t x)).length = asUsize t x :=
          List.length_take_of_le (not_lt.1 hcut)
        rw [List.take_append_drop]
        exact ⟨hv, x, hr, hlen.symm⟩

theorem takeName_ok_iff (hV : V.Consumes) :
    takeName t V q = .ok (r, q') ↔ NameThen t V q r q' := by
  constructor
  · intro h
    obtain hq | ⟨hq, -⟩ | ⟨r₁, q₁, hq, hthen⟩ := takeName_cases hV t q
    · simp [hq] at h
    · simp [hq] at h
    · rw [hq, Except.ok.injEq, Prod.mk.injEq] at h
      obtain ⟨rfl, rfl⟩ := h
      exact hthen
  · rintro ⟨v, hq, x, hr, hx⟩
    have hle := r.2
    rw [takeName_eq ((takeVarint_ok_iff hV).2 ⟨v, hq, hr⟩), dif_neg (by omega), if_neg]
    · simp only [hx, List.take_left, List.drop_left]
    · rw [hx, List.length_append]
      omega

theorem takeName_long_iff (hV : V.Consumes) :
    takeName t V q = .error .nameTooLong ↔ LongName t V q := by
  constructor
  · intro h
    obtain hq | ⟨-, hlong⟩ | ⟨r₁, q₁, hq, -⟩ := takeName_cases hV t q
    · simp [hq] at h
    · exact hlong
    · simp [hq] at h
  · rintro ⟨v, q', n, hq, ⟨x, hr, rfl⟩, hn⟩
    rw [takeName_eq ((takeVarint_ok_iff hV).2 ⟨v, hq, hr⟩), dif_pos hn]

/-- What taking a message apart comes to once its id and flags are read. -/
theorem takeMessage_eq (hV : V.Consumes) {id : MessageId} {flags : UInt64}
    (h : AfterFlags V buf q id flags) : takeMessage t V buf =
      (takeName t V q).bind fun p => (takeName t V p.2).bind fun s =>
        .ok ⟨id, flags, p.1, s.1, s.2⟩ := by
  obtain ⟨v, rfl, hr⟩ := h
  have hlen : ¬ (id.toList ++ (v ++ q)).length < 16 := by
    rw [List.length_append, id.toList_length]
    omega
  have hdrop : (id.toList ++ (v ++ q)).drop 16 = v ++ q := List.drop_left' id.toList_length
  have hid : (⟨(id.toList ++ (v ++ q)).take 16, length_take_id hlen⟩ : MessageId) = id :=
    Subtype.ext (List.take_left' id.toList_length)
  unfold takeMessage
  rw [dif_neg hlen, hdrop, (takeVarint_ok_iff hV).2 ⟨v, rfl, hr⟩]
  simp only [bind, Except.bind, hid]

/-- The id and the flags are there, or the message is too short for them. -/
theorem takeMessage_flags (hV : V.Consumes) (buf : Bytes) :
    (∀ t, takeMessage t V buf = .error .truncated) ∨ ∃ q id flags, AfterFlags V buf q id flags := by
  by_cases hlen : buf.length < 16
  · exact .inl fun _ => dif_pos hlen
  · cases hq : takeVarint V (buf.drop 16) with
    | error e =>
      obtain rfl := takeVarint_error hq
      refine .inl fun t => ?_
      unfold takeMessage
      rw [dif_neg hlen, hq]
      rfl
    | ok p =>
      obtain ⟨v, hv, hr⟩ := (takeVarint_ok_iff hV).1 hq
      refine .inr ⟨p.2, ⟨buf.take 16, length_take_id hlen⟩, p.1, v, ?_, hr⟩
      rw [← hv]
      exact (List.take_append_drop 16 buf).symm

/-- The outcomes of taking a message apart, in the order in which the reader meets them. -/
theorem takeMessage_cases (hV : V.Consumes) (t : Platform) (buf : Bytes) :
    takeMessage t V buf = .error .truncated ∨
      (takeMessage t V buf = .error .nameTooLong ∧ LongNameFirst t V buf) ∨
      ∃ raw, takeMessage t V buf = .ok raw ∧ raw.Spells t V buf := by
  obtain hflags | ⟨q, id, flags, hflags⟩ := takeMessage_flags hV buf
  · exact .inl (hflags t)
  rw [takeMessage_eq hV hflags]
  obtain hr | ⟨hr, hlong⟩ | ⟨r, q', hr, hthen⟩ := takeName_cases hV t q
  · exact .inl (by rw [hr]; rfl)
  · exact .inr (.inl ⟨by rw [hr]; rfl, q, id, flags, hflags, .inl hlong⟩)
  have hbind : ((takeName t V q).bind fun p => (takeName t V p.2).bind fun s =>
      .ok (⟨id, flags, p.1, s.1, s.2⟩ : RawMessage)) =
      (takeName t V q').bind fun s => .ok ⟨id, flags, r, s.1, s.2⟩ := by
    rw [hr]
    rfl
  rw [hbind]
  obtain hs | ⟨hs, hlong⟩ | ⟨s, body, hs, hthen'⟩ := takeName_cases hV t q'
  · exact .inl (by rw [hs]; rfl)
  · exact .inr (.inl ⟨by rw [hs]; rfl, q, id, flags, hflags, .inr ⟨r, q', hthen, hlong⟩⟩)
  · exact .inr (.inr ⟨_, by rw [hs]; rfl, q, q', hflags, hthen, hthen'⟩)

theorem takeMessage_ok_iff (hV : V.Consumes) {raw : RawMessage} :
    takeMessage t V buf = .ok raw ↔ raw.Spells t V buf := by
  constructor
  · intro h
    obtain hq | ⟨hq, -⟩ | ⟨raw', hq, hspells⟩ := takeMessage_cases hV t buf
    · simp [hq] at h
    · simp [hq] at h
    · rw [hq, Except.ok.injEq] at h
      exact h ▸ hspells
  · rintro ⟨q, q', hflags, hr, hs⟩
    rw [takeMessage_eq hV hflags, (takeName_ok_iff hV).2 hr]
    simp only [Except.bind, (takeName_ok_iff hV).2 hs]

theorem takeMessage_long_iff (hV : V.Consumes) :
    takeMessage t V buf = .error .nameTooLong ↔ LongNameFirst t V buf := by
  constructor
  · intro h
    obtain hq | ⟨-, hlong⟩ | ⟨raw, hq, -⟩ := takeMessage_cases hV t buf
    · simp [hq] at h
    · exact hlong
    · simp [hq] at h
  · rintro ⟨q, id, flags, hflags, hlong | ⟨r, q', hr, hlong⟩⟩
    · rw [takeMessage_eq hV hflags, (takeName_long_iff hV).2 hlong]
      rfl
    · rw [takeMessage_eq hV hflags, (takeName_ok_iff hV).2 hr]
      simp only [Except.bind, (takeName_long_iff hV).2 hlong]

theorem Message.parse_ok_iff (hV : V.Consumes) {m : Message} :
    Message.parse t V buf = .ok m ↔ ∃ raw : RawMessage, raw.Spells t V buf ∧ raw.toMessage = m := by
  rw [Message.parse_eq hV]
  constructor
  · intro h
    cases hraw : takeMessage t V buf with
    | error e => simp [hraw, Except.map, Except.mapError] at h
    | ok raw =>
      rw [hraw] at h
      exact ⟨raw, (takeMessage_ok_iff hV).1 hraw, Except.ok.inj h⟩
  · rintro ⟨raw, hraw, rfl⟩
    rw [(takeMessage_ok_iff hV).2 hraw]
    rfl

theorem Message.parse_long_iff (hV : V.Consumes) :
    Message.parse t V buf = .error (.err .nameTooLong) ↔ LongNameFirst t V buf := by
  rw [Message.parse_eq hV, ← takeMessage_long_iff hV]
  cases takeMessage t V buf with
  | error e => simp [Except.map, Except.mapError]
  | ok raw => simp [Except.map, Except.mapError]

/-- `parse` has no other outcome than those of the reader without a cursor. -/
theorem Message.parse_cases (hV : V.Consumes) (t : Platform) (buf : Bytes) :
    Message.parse t V buf = .error (.err .truncated) ∨
      Message.parse t V buf = .error (.err .nameTooLong) ∨
      ∃ m, Message.parse t V buf = .ok m := by
  rw [Message.parse_eq hV]
  obtain h | ⟨h, -⟩ | ⟨raw, h, -⟩ := takeMessage_cases hV t buf
  · exact .inl (by rw [h]; rfl)
  · exact .inr (.inl (by rw [h]; rfl))
  · exact .inr (.inr ⟨raw.toMessage, by rw [h]; rfl⟩)

end Shape

/-! ## The grammar on a 64-bit target -/

/-- `buf` is an id, the flags, the recipient, the sender and the body, each name of at most 256
bytes after its length, and `m` is read from them. -/
def Message.Form (V : Uvarint) (buf : Bytes) (m : Message) : Prop :=
  ∃ v₁ v₂ r v₃ s : Bytes,
    buf = m.messageId.toList ++ v₁ ++ v₂ ++ r ++ v₃ ++ s ++ m.body ∧
    V.Reads v₁ (v₂ ++ r ++ v₃ ++ s ++ m.body) m.flags ∧
    (∃ x, V.Reads v₂ (r ++ v₃ ++ s ++ m.body) x ∧ x.toNat = r.length) ∧
    (∃ x, V.Reads v₃ (s ++ m.body) x ∧ x.toNat = s.length) ∧
    r.length ≤ 256 ∧ s.length ≤ 256 ∧
    m.recipient.chars = lossy r ∧ m.sender.chars = lossy s

theorem Message.form_iff {V : Uvarint} {buf : Bytes} {m : Message} :
    m.Form V buf ↔ ∃ raw : RawMessage, raw.Spells .native V buf ∧ raw.toMessage = m := by
  constructor
  · rintro ⟨v₁, v₂, r, v₃, s, hbuf, hflags, ⟨x, hx, hr⟩, ⟨y, hy, hs⟩, hrle, hsle, hmr, hms⟩
    simp only [List.append_assoc] at hbuf hflags hx hy
    refine ⟨⟨m.messageId, m.flags, ⟨r, hrle⟩, ⟨s, hsle⟩, m.body⟩, ?_, ?_⟩
    · refine ⟨v₂ ++ (r ++ (v₃ ++ (s ++ m.body))), v₃ ++ (s ++ m.body), ⟨v₁, hbuf, hflags⟩,
        ⟨v₂, rfl, x, hx, ?_⟩, v₃, rfl, y, hy, ?_⟩
      · rw [asUsize_native, hr]
      · rw [asUsize_native, hs]
    · ext1
      · rfl
      · rfl
      · exact Str.ext hmr.symm
      · exact Str.ext hms.symm
      · rfl
  · rintro ⟨raw, ⟨q, q', ⟨v₁, rfl, hflags⟩, ⟨v₂, rfl, x, hx, hr⟩, v₃, rfl, y, hy, hs⟩, rfl⟩
    rw [asUsize_native] at hr hs
    refine ⟨v₁, v₂, raw.recipient.1, v₃, raw.sender.1, ?_, ?_, ⟨x, ?_, hr⟩, ⟨y, hy, hs⟩,
      raw.recipient.2, raw.sender.2, rfl, rfl⟩
    · simp only [RawMessage.toMessage, List.append_assoc]
    · simpa only [RawMessage.toMessage, List.append_assoc] using hflags
    · simpa only [RawMessage.toMessage, List.append_assoc] using hx

/-- On a 64-bit target `parse` accepts exactly its grammar; otherwise it names the first defect. -/
theorem Message.parse_grammar {V : Uvarint} (hV : V.Consumes) (buf : Bytes) :
    (∀ m, Message.parse .native V buf = .ok m ↔ m.Form V buf) ∧
      (Message.parse .native V buf = .error (.err .nameTooLong) ↔ LongNameFirst .native V buf) ∧
      ((∀ m : Message, ¬ m.Form V buf) → ¬ LongNameFirst .native V buf →
        Message.parse .native V buf = .error (.err .truncated)) ∧
      Message.parse .native V buf ≠ .error .panic := by
  have hok : ∀ m, Message.parse .native V buf = .ok m ↔ m.Form V buf := fun m => by
    rw [Message.parse_ok_iff hV, Message.form_iff]
  refine ⟨hok, Message.parse_long_iff hV, fun hform hlong => ?_, fun hpanic => ?_⟩
  · obtain h | h | ⟨m, h⟩ := Message.parse_cases hV .native buf
    · exact h
    · exact absurd ((Message.parse_long_iff hV).1 h) hlong
    · exact absurd ((hok m).1 h) (hform m)
  · obtain h | h | ⟨m, h⟩ := Message.parse_cases hV .native buf <;> simp [h] at hpanic

/-- A message whose sender is a byte that no UTF-8 text holds. -/
def sampleWire : Bytes := List.replicate 16 0 ++ [0, 1, 97, 1, 0xFF, 7]

def sampleRead : Message where
  messageId := List.Vector.replicate 16 0
  flags := 0
  recipient := ⟨['a'], by decide⟩
  sender := ⟨[replacement], by decide⟩
  body := [7]

theorem parse_grammar_sampleWire : Message.parse .native leb128 sampleWire = .ok sampleRead :=
  ((Message.parse_grammar leb128_lawful.consumes sampleWire).1 sampleRead).2
    ⟨[0], [1], [97], [1], [0xFF], rfl, rfl, ⟨1, rfl, rfl⟩, ⟨1, rfl, rfl⟩, by decide, by decide,
      rfl, by decide⟩

end Spot

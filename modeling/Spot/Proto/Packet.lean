import Spot.Proto.Handshake
import Spot.Proto.Message

/-!
# Packets

Every packet starts with one byte, the protocol version (high four bits, 0) and the packet type
(low four bits).  `Packet.encode` writes a packet, `parse` reads one; what a handshake packet is
depends on the side that reads it.

`parse_encode` is the round trip of every packet: `Packet.readBack` says what comes back, which is
the packet itself except that a request remembers the bytes it was read from and that a message
with a name of more than 256 bytes is refused.
-/

namespace Spot

/-- Ping or pong. -/
def pingPong : UInt8 := 0x0

/-- Handshake request or response. -/
def handshakeType : UInt8 := 0x1

/-- Instant message. -/
def instantMsg : UInt8 := 0x2

/-- A protocol packet. -/
inductive Packet
  | ping (data : Bytes)
  | handshakeRequest (req : HandshakeRequest)
  | handshakeResponse (res : HandshakeResponse)
  | message (msg : Message)
  deriving DecidableEq

namespace Packet

/-- Serializes a packet, its type byte included. -/
def encode (V : Uvarint) (C : Ciborium) : Packet → ProtoResult Bytes
  | ping data => .ok (pingPong :: data)
  | handshakeRequest req => (req.toCbor C).map (handshakeType :: ·)
  | handshakeResponse res => (res.toCbor C).map (handshakeType :: ·)
  | message msg => .ok (instantMsg :: msg.toBytes V)

/-- The CBOR value a packet is written as, if it is written as one. -/
def cbor? : Packet → Option Value
  | handshakeRequest req => some (.map req.toMap)
  | handshakeResponse res => some (.map res.toMap)
  | _ => none

/-- Whether a packet is one that the given side receives. -/
def ReadBy (isClient : Bool) : Packet → Prop
  | handshakeRequest _ => isClient = true
  | handshakeResponse _ => isClient = false
  | _ => True

/-- The names of a message fit in an allocation of the platform, as any strings of it do. -/
def FitsIn (t : Platform) : Packet → Prop
  | message msg => msg.recipient.FitsIn t ∧ msg.sender.FitsIn t
  | _ => True

theorem fitsIn_native (p : Packet) : p.FitsIn .native := by
  cases p with
  | message msg => exact ⟨msg.recipient.fitsIn_native, msg.sender.fitsIn_native⟩
  | _ => trivial

/-- What is read back from the bytes `buf` of a packet. -/
def readBack (buf : Bytes) : Packet → ProtoResult Packet
  | handshakeRequest req => .ok (handshakeRequest { req with raw := some buf.tail })
  | message msg =>
    if msg.recipient.len ≤ 256 ∧ msg.sender.len ≤ 256 then .ok (message msg)
    else .error (.err .nameTooLong)
  | p => .ok p

end Packet

/-- The version and the packet type of a packet's first byte. -/
def versionAndPacket (v : UInt8) : UInt8 × UInt8 := (v >>> 4 &&& 0xf, v &&& 0xf)

/-- Decodes a packet; `isClient` decides how handshake packets are read. -/
def parse (t : Platform) (V : Uvarint) (C : Ciborium) (buf : Bytes) (isClient : Bool) :
    ProtoResult Packet :=
  match buf with
  | [] => .error (.err .emptyBuffer)
  | v :: buf =>
    let (vers, pkt) := versionAndPacket v
    if vers ≠ 0 then .error (.err (.invalidVersion vers pkt))
    else if pkt = pingPong then .ok (.ping buf)
    else if pkt = handshakeType then
      if isClient then (HandshakeRequest.fromCbor C buf).map .handshakeRequest
      else (HandshakeResponse.fromCbor C buf).map .handshakeResponse
    else if pkt = instantMsg then (Message.parse t V buf).map .message
    else .error (.err (.unknownPacket pkt))

section

variable {t : Platform} {V : Uvarint} {C : Ciborium} {buf : Bytes} {isClient : Bool}

@[simp] theorem parse_pingPong : parse t V C (pingPong :: buf) isClient = .ok (.ping buf) := rfl

@[simp] theorem parse_handshakeType_client :
    parse t V C (handshakeType :: buf) true =
      (HandshakeRequest.fromCbor C buf).map .handshakeRequest := rfl

@[simp] theorem parse_handshakeType_server :
    parse t V C (handshakeType :: buf) false =
      (HandshakeResponse.fromCbor C buf).map .handshakeResponse := rfl

@[simp] theorem parse_instantMsg :
    parse t V C (instantMsg :: buf) isClient = (Message.parse t V buf).map .message := rfl

end

/-- A message is always written, on the type byte of instant messages. -/
theorem Packet.encode_message (V : Uvarint) (C : Ciborium) (m : Message) :
    (Packet.message m).encode V C = .ok (instantMsg :: m.toBytes V) := rfl

/-- A message with short names survives the wire, on both builds and both sides. -/
theorem parse_message (t : Platform) {V : Uvarint} (hV : V.Lawful) (C : Ciborium) {m : Message}
    (hr : m.recipient.len ≤ 256) (hs : m.sender.len ≤ 256) (isClient : Bool) :
    parse t V C (instantMsg :: m.toBytes V) isClient = .ok (.message m) := by
  rw [parse_instantMsg, Message.parse_toBytes t hV hr hs]
  rfl

/-- The round trip of every packet. -/
theorem parse_encode {t : Platform} {V : Uvarint} (hV : V.Lawful) {C : Ciborium} {p : Packet}
    (hp : p.FitsIn t) (hC : ∀ v, p.cbor? = some v → C.ReadsBack v) {buf : Bytes}
    (he : p.encode V C = .ok buf) {isClient : Bool} (hside : p.ReadBy isClient) :
    parse t V C buf isClient = p.readBack buf := by
  cases p with
  | ping data =>
    obtain rfl := Except.ok.inj he
    rfl
  | handshakeRequest req =>
    obtain rfl : isClient = true := hside
    obtain ⟨b, hb, rfl⟩ : ∃ b, req.toCbor C = .ok b ∧ handshakeType :: b = buf := by
      simp only [Packet.encode] at he
      cases h : req.toCbor C with
      | error e => simp [h, Except.map] at he
      | ok b => exact ⟨b, rfl, by simpa [h, Except.map] using he⟩
    rw [parse_handshakeType_client, HandshakeRequest.fromCbor_toCbor (hC _ rfl) hb]
    rfl
  | handshakeResponse res =>
    obtain rfl : isClient = false := hside
    obtain ⟨b, hb, rfl⟩ : ∃ b, res.toCbor C = .ok b ∧ handshakeType :: b = buf := by
      simp only [Packet.encode] at he
      cases h : res.toCbor C with
      | error e => simp [h, Except.map] at he
      | ok b => exact ⟨b, rfl, by simpa [h, Except.map] using he⟩
    rw [parse_handshakeType_server, HandshakeResponse.fromCbor_toCbor (hC _ rfl) hb]
    rfl
  | message m =>
    obtain rfl := Except.ok.inj he
    by_cases h : m.recipient.len ≤ 256 ∧ m.sender.len ≤ 256
    · rw [parse_message t hV C h.1 h.2, Packet.readBack, if_pos h]
    · have hlong : 256 < m.recipient.len ∨ 256 < m.sender.len := by
        rwa [not_and_or, not_le, not_le] at h
      rw [parse_instantMsg, Message.parse_toBytes_long hV hp.1 hp.2 hlong, Packet.readBack,
        if_neg h]
      rfl

/-- A response without an id, and the CBOR bytes of its map. -/
def sampleResponse : HandshakeResponse := { key := [7], sig := [8, 9] }

def sampleResponseCbor : Bytes :=
  [0xa3, 0x62, 0x69, 0x64, 0xf6, 0x63, 0x6b, 0x65, 0x79, 0x41, 0x07,
   0x63, 0x73, 0x69, 0x67, 0x42, 0x08, 0x09]

/-- CBOR as it is written and read for that response. -/
def sampleCiborium : Ciborium where
  intoWriter _ := .ok sampleResponseCbor
  fromReader b :=
    if b = sampleResponseCbor then .ok (.map sampleResponse.toMap) else .error "eof".toList

theorem parse_encode_sampleResponse :
    parse .native leb128 sampleCiborium (handshakeType :: sampleResponseCbor) false =
      .ok (.handshakeResponse sampleResponse) :=
  parse_encode (p := .handshakeResponse sampleResponse) leb128_lawful (Packet.fitsIn_native _)
    (fun v hv b hb => by
      obtain rfl := Option.some.inj hv
      obtain rfl := Except.ok.inj hb
      rfl)
    rfl rfl

end Spot

import MarketDataHandler.Lib.PackedCodec

/-!
# Wire protocol

The message types, packed layouts, size table and checksum of
`include/protocol.h`.  Prices are kept as the 64-bit patterns of their
doubles, since no part of the feed computes with them.

A `Frame` is a message together with the two facts that its builder
establishes: the type field names its kind and the checksum is that of all
bytes in front of it.
-/

namespace MarketDataHandler

def msgTrade : UInt16 := 0x0001
def msgQuote : UInt16 := 0x0002
def msgHeartbeat : UInt16 := 0x0003

/-! ## Packed structures -/

structure MsgHeader where
  msgType : UInt16
  seqNo : UInt32
  timestampNs : UInt64
  symbolId : UInt16
  deriving DecidableEq, Repr

structure TradePay where
  price : UInt64
  quantity : UInt32
  deriving DecidableEq, Repr

structure QuotePay where
  bidPrice : UInt64
  bidQty : UInt32
  askPrice : UInt64
  askQty : UInt32
  deriving DecidableEq, Repr

structure TradeMsg where
  header : MsgHeader
  payload : TradePay
  checksum : UInt32
  deriving DecidableEq, Repr

structure QuoteMsg where
  header : MsgHeader
  payload : QuotePay
  checksum : UInt32
  deriving DecidableEq, Repr

structure HeartbeatMsg where
  header : MsgHeader
  checksum : UInt32
  deriving DecidableEq, Repr

open PackedCodec (u16 u32 u64)

def MsgHeader.codec : PackedCodec MsgHeader :=
  (u16.pair (u32.pair (u64.pair u16))).along
    { toFun := fun header =>
        (header.msgType, header.seqNo, header.timestampNs,
          header.symbolId)
      invFun := fun fields =>
        ⟨fields.1, fields.2.1, fields.2.2.1, fields.2.2.2⟩
      left_inv := fun _ => rfl
      right_inv := fun _ => rfl }

def TradePay.codec : PackedCodec TradePay :=
  (u64.pair u32).along
    { toFun := fun payload => (payload.price, payload.quantity)
      invFun := fun fields => ⟨fields.1, fields.2⟩
      left_inv := fun _ => rfl
      right_inv := fun _ => rfl }

def QuotePay.codec : PackedCodec QuotePay :=
  (u64.pair (u32.pair (u64.pair u32))).along
    { toFun := fun payload =>
        (payload.bidPrice, payload.bidQty, payload.askPrice,
          payload.askQty)
      invFun := fun fields =>
        ⟨fields.1, fields.2.1, fields.2.2.1, fields.2.2.2⟩
      left_inv := fun _ => rfl
      right_inv := fun _ => rfl }

def TradeMsg.codec : PackedCodec TradeMsg :=
  ((MsgHeader.codec.pair TradePay.codec).pair u32).along
    { toFun := fun msg => ((msg.header, msg.payload), msg.checksum)
      invFun := fun fields => ⟨fields.1.1, fields.1.2, fields.2⟩
      left_inv := fun _ => rfl
      right_inv := fun _ => rfl }

def QuoteMsg.codec : PackedCodec QuoteMsg :=
  ((MsgHeader.codec.pair QuotePay.codec).pair u32).along
    { toFun := fun msg => ((msg.header, msg.payload), msg.checksum)
      invFun := fun fields => ⟨fields.1.1, fields.1.2, fields.2⟩
      left_inv := fun _ => rfl
      right_inv := fun _ => rfl }

def HeartbeatMsg.codec : PackedCodec HeartbeatMsg :=
  (MsgHeader.codec.pair u32).along
    { toFun := fun msg => (msg.header, msg.checksum)
      invFun := fun fields => ⟨fields.1, fields.2⟩
      left_inv := fun _ => rfl
      right_inv := fun _ => rfl }

/-! The sizes that the header asserts at compile time. -/

@[simp]
theorem MsgHeader.codec_size : MsgHeader.codec.size = 16 :=
  rfl

@[simp]
theorem TradeMsg.codec_size : TradeMsg.codec.size = 32 :=
  rfl

@[simp]
theorem QuoteMsg.codec_size : QuoteMsg.codec.size = 44 :=
  rfl

@[simp]
theorem HeartbeatMsg.codec_size : HeartbeatMsg.codec.size = 20 :=
  rfl

/-- The largest frame, `sizeof(QuoteMsg)`. -/
def maxMsgSize : Nat :=
  QuoteMsg.codec.size

/-! ## Checksum and size table -/

/-- The loop of `compute_checksum`, from byte `index` on. -/
def checksumLoop (index : Nat) (cs : UInt32) : List UInt8 → UInt32
  | [] => cs
  | byte :: rest =>
      checksumLoop (index + 1)
        (cs ^^^ (byte.toUInt32 <<< UInt32.ofNat (index % 4 * 8))) rest

/-- Exclusive or of the bytes, each shifted to its position modulo four. -/
def computeChecksum (data : List UInt8) : UInt32 :=
  checksumLoop 0 0 data

/-- Total frame size of a message type, zero for an unknown type. -/
def msgTotalSize (msgType : UInt16) : Nat :=
  if msgType = msgTrade then
    TradeMsg.codec.size
  else if msgType = msgQuote then
    QuoteMsg.codec.size
  else if msgType = msgHeartbeat then
    HeartbeatMsg.codec.size
  else
    0

/-- Which of the three messages, hence which callback. -/
inductive MsgKind where
  | trade
  | quote
  | heartbeat
  deriving DecidableEq, Repr

namespace MsgKind

def code : MsgKind → UInt16
  | .trade => msgTrade
  | .quote => msgQuote
  | .heartbeat => msgHeartbeat

/-- The case selected by a `switch` over the message type. -/
def ofCode (msgType : UInt16) : Option MsgKind :=
  if msgType = msgTrade then
    some .trade
  else if msgType = msgQuote then
    some .quote
  else if msgType = msgHeartbeat then
    some .heartbeat
  else
    none

@[simp]
theorem ofCode_code (kind : MsgKind) : ofCode kind.code = some kind := by
  cases kind <;> rfl

end MsgKind

/-- A type is unknown, or it is the code of a kind and has its size. -/
theorem msgTotalSize_cases (msgType : UInt16) :
    (msgTotalSize msgType = 0 ∧ MsgKind.ofCode msgType = none) ∨
      ∃ kind : MsgKind,
        msgType = kind.code ∧
          msgTotalSize msgType = msgTotalSize kind.code := by
  by_cases isTrade : msgType = msgTrade
  · exact Or.inr ⟨.trade, isTrade, by rw [isTrade]; rfl⟩
  · by_cases isQuote : msgType = msgQuote
    · exact Or.inr ⟨.quote, isQuote, by rw [isQuote]; rfl⟩
    · by_cases isHeartbeat : msgType = msgHeartbeat
      · exact Or.inr ⟨.heartbeat, isHeartbeat, by rw [isHeartbeat]; rfl⟩
      · left
        simp [msgTotalSize, MsgKind.ofCode, isTrade, isQuote,
          isHeartbeat]

/-- Known frames are at least a heartbeat long, at most a quote long, and
made of whole words. -/
theorem msgTotalSize_code (kind : MsgKind) :
    20 ≤ msgTotalSize kind.code ∧
      msgTotalSize kind.code ≤ maxMsgSize ∧
        msgTotalSize kind.code % 4 = 0 := by
  cases kind <;> decide

theorem msgTotalSize_bounds
    {msgType : UInt16} (known : msgTotalSize msgType ≠ 0) :
    20 ≤ msgTotalSize msgType ∧
      msgTotalSize msgType ≤ maxMsgSize ∧
        msgTotalSize msgType % 4 = 0 := by
  rcases msgTotalSize_cases msgType with ⟨unknown, _⟩ | ⟨kind, _, size⟩
  · exact absurd unknown known
  · rw [size]
    exact msgTotalSize_code kind

/-! ## Messages and frames -/

/-- A message of any kind, as its packed structure. -/
inductive Msg where
  | trade (msg : TradeMsg)
  | quote (msg : QuoteMsg)
  | heartbeat (msg : HeartbeatMsg)
  deriving DecidableEq, Repr

namespace Msg

def kind : Msg → MsgKind
  | .trade _ => .trade
  | .quote _ => .quote
  | .heartbeat _ => .heartbeat

def header : Msg → MsgHeader
  | .trade msg => msg.header
  | .quote msg => msg.header
  | .heartbeat msg => msg.header

def checksum : Msg → UInt32
  | .trade msg => msg.checksum
  | .quote msg => msg.checksum
  | .heartbeat msg => msg.checksum

/-- The message as it lies in memory. -/
def bytes : Msg → List UInt8
  | .trade msg => TradeMsg.codec.encode msg
  | .quote msg => QuoteMsg.codec.encode msg
  | .heartbeat msg => HeartbeatMsg.codec.encode msg

/-- The bytes that the checksum covers. -/
def body : Msg → List UInt8
  | .trade msg =>
      MsgHeader.codec.encode msg.header ++
        TradePay.codec.encode msg.payload
  | .quote msg =>
      MsgHeader.codec.encode msg.header ++
        QuotePay.codec.encode msg.payload
  | .heartbeat msg => MsgHeader.codec.encode msg.header

/-- Read a frame through the packed structure of the given kind. -/
def ofBytes (kind : MsgKind) (frame : List UInt8) : Msg :=
  match kind with
  | .trade => .trade (TradeMsg.codec.decode frame)
  | .quote => .quote (QuoteMsg.codec.decode frame)
  | .heartbeat => .heartbeat (HeartbeatMsg.codec.decode frame)

/-- Reading a message back through its packed structure returns every
field. -/
@[simp]
theorem ofBytes_bytes (msg : Msg) : ofBytes msg.kind msg.bytes = msg := by
  cases msg with
  | trade msg =>
      exact congrArg Msg.trade (TradeMsg.codec.decode_encode msg)
  | quote msg =>
      exact congrArg Msg.quote (QuoteMsg.codec.decode_encode msg)
  | heartbeat msg =>
      exact congrArg Msg.heartbeat (HeartbeatMsg.codec.decode_encode msg)

theorem bytes_eq (msg : Msg) :
    msg.bytes = msg.body ++ u32.encode msg.checksum := by
  cases msg <;> rfl

theorem bytes_header (msg : Msg) :
    ∃ behind, msg.bytes = MsgHeader.codec.encode msg.header ++ behind := by
  cases msg with
  | trade msg =>
      exact ⟨TradePay.codec.encode msg.payload ++ u32.encode msg.checksum,
        List.append_assoc _ _ _⟩
  | quote msg =>
      exact ⟨QuotePay.codec.encode msg.payload ++ u32.encode msg.checksum,
        List.append_assoc _ _ _⟩
  | heartbeat msg =>
      exact ⟨u32.encode msg.checksum, rfl⟩

/-- Every message starts with its type and its sequence number. -/
theorem bytes_front (msg : Msg) :
    ∃ behind,
      msg.bytes =
        u16.encode msg.header.msgType ++
          (u32.encode msg.header.seqNo ++ behind) := by
  obtain ⟨behind, shape⟩ := msg.bytes_header
  have front :
      MsgHeader.codec.encode msg.header =
        u16.encode msg.header.msgType ++
          (u32.encode msg.header.seqNo ++
            (u64.encode msg.header.timestampNs ++
              u16.encode msg.header.symbolId)) :=
    rfl
  rw [shape, front, List.append_assoc, List.append_assoc]
  exact ⟨_, rfl⟩

@[simp]
theorem bytes_length (msg : Msg) :
    msg.bytes.length = msgTotalSize msg.kind.code := by
  cases msg with
  | trade msg =>
      exact TradeMsg.codec.encode_length msg
  | quote msg =>
      exact QuoteMsg.codec.encode_length msg
  | heartbeat msg =>
      exact HeartbeatMsg.codec.encode_length msg

theorem body_length (msg : Msg) :
    msg.body.length = msgTotalSize msg.kind.code - 4 := by
  have whole := msg.bytes_length
  rw [bytes_eq, List.length_append, u32.encode_length] at whole
  change msg.body.length + 4 = _ at whole
  omega

theorem bytes_take_body (msg : Msg) :
    msg.bytes.take (msgTotalSize msg.kind.code - 4) = msg.body := by
  rw [bytes_eq, ← body_length, List.take_left' rfl]

/-- The type field names the kind and the checksum is that of the bytes in
front of it. -/
structure WellFormed (msg : Msg) : Prop where
  typed : msg.header.msgType = msg.kind.code
  checked : msg.checksum = computeChecksum msg.body

end Msg

/-- A message as the exchange puts it on the wire. -/
structure Frame where
  msg : Msg
  wellFormed : msg.WellFormed

namespace Frame

def bytes (frame : Frame) : List UInt8 :=
  frame.msg.bytes

def kind (frame : Frame) : MsgKind :=
  frame.msg.kind

def seqNo (frame : Frame) : UInt32 :=
  frame.msg.header.seqNo

end Frame

/-! ## Fields of a frame lying at the front of a byte string -/

/-- The field `hdr->msg_type`. -/
def msgTypeAt (bytes : List UInt8) : UInt16 :=
  u16.decode bytes

/-- The field `hdr->seq_no`. -/
def seqNoAt (bytes : List UInt8) : UInt32 :=
  u32.decode (bytes.drop 2)

/-- The last four bytes of a frame. -/
def wireChecksum (frame : List UInt8) : UInt32 :=
  u32.decode (frame.drop (frame.length - 4))

/-- The checksum of everything in front of the last four bytes. -/
def bodyChecksum (frame : List UInt8) : UInt32 :=
  computeChecksum (frame.take (frame.length - 4))

namespace Frame

theorem msgTypeAt_bytes (frame : Frame) (rest : List UInt8) :
    msgTypeAt (frame.bytes ++ rest) = frame.kind.code := by
  obtain ⟨behind, shape⟩ := frame.msg.bytes_front
  unfold msgTypeAt Frame.bytes
  rw [shape, List.append_assoc, u16.decode_encode_append]
  exact frame.wellFormed.typed

theorem seqNoAt_bytes (frame : Frame) :
    seqNoAt frame.bytes = frame.seqNo := by
  obtain ⟨behind, shape⟩ := frame.msg.bytes_front
  have two : (u16.encode frame.msg.header.msgType).length = 2 :=
    u16.encode_length frame.msg.header.msgType
  unfold seqNoAt Frame.bytes
  rw [shape, List.drop_left' two, u32.decode_encode_append]
  rfl

theorem bodyChecksum_bytes (frame : Frame) :
    bodyChecksum frame.bytes = wireChecksum frame.bytes := by
  unfold bodyChecksum wireChecksum Frame.bytes
  have split :
      (frame.msg.body ++ u32.encode frame.msg.checksum).length - 4 =
        frame.msg.body.length := by
    rw [List.length_append, u32.encode_length]
    rfl
  rw [Msg.bytes_eq, split, List.take_left' rfl, List.drop_left' rfl,
    u32.decode_encode]
  exact frame.wellFormed.checked.symm

end Frame

end MarketDataHandler

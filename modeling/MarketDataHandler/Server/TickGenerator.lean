import MarketDataHandler.Protocol

/-!
# Message construction

`TickGenerator::make_quote`, `make_trade` and `make_heartbeat`.  The price
process runs on doubles and a random generator; here the values that a call
takes from them, and from the clock, are its last argument.
-/

namespace MarketDataHandler.TickGenerator

/-- What `make_quote` takes from the clock, the price process and the volume
distribution. -/
structure QuoteDraw where
  nowNs : UInt64
  bidPrice : UInt64
  askPrice : UInt64
  bidQty : UInt32
  askQty : UInt32
  deriving DecidableEq, Repr

/-- What `make_trade` takes from the clock, the price process and the volume
distribution. -/
structure TradeDraw where
  nowNs : UInt64
  price : UInt64
  quantity : UInt32
  deriving DecidableEq, Repr

def makeQuote (sym : UInt16) (seq : UInt32) (draw : QuoteDraw) :
    QuoteMsg :=
  let msg : QuoteMsg :=
    { header :=
        { msgType := msgQuote
          seqNo := seq
          timestampNs := draw.nowNs
          symbolId := sym }
      payload :=
        { bidPrice := draw.bidPrice
          askPrice := draw.askPrice
          bidQty := draw.bidQty
          askQty := draw.askQty }
      checksum := 0 }
  { msg with
    checksum :=
      computeChecksum
        ((QuoteMsg.codec.encode msg).take (QuoteMsg.codec.size - 4)) }

def makeTrade (sym : UInt16) (seq : UInt32) (draw : TradeDraw) :
    TradeMsg :=
  let msg : TradeMsg :=
    { header :=
        { msgType := msgTrade
          seqNo := seq
          timestampNs := draw.nowNs
          symbolId := sym }
      payload :=
        { price := draw.price
          quantity := draw.quantity }
      checksum := 0 }
  { msg with
    checksum :=
      computeChecksum
        ((TradeMsg.codec.encode msg).take (TradeMsg.codec.size - 4)) }

def makeHeartbeat (seq : UInt32) (nowNs : UInt64) : HeartbeatMsg :=
  let msg : HeartbeatMsg :=
    { header :=
        { msgType := msgHeartbeat
          seqNo := seq
          timestampNs := nowNs
          symbolId := 0 }
      checksum := 0 }
  { msg with
    checksum :=
      computeChecksum
        ((HeartbeatMsg.codec.encode msg).take
          (HeartbeatMsg.codec.size - 4)) }

/-! ## Generated messages are frames -/

def quoteFrame (sym : UInt16) (seq : UInt32) (draw : QuoteDraw) :
    Frame where
  msg := .quote (makeQuote sym seq draw)
  wellFormed :=
    { typed := rfl
      checked := congrArg computeChecksum (Msg.bytes_take_body (.quote _)) }

def tradeFrame (sym : UInt16) (seq : UInt32) (draw : TradeDraw) :
    Frame where
  msg := .trade (makeTrade sym seq draw)
  wellFormed :=
    { typed := rfl
      checked := congrArg computeChecksum (Msg.bytes_take_body (.trade _)) }

def heartbeatFrame (seq : UInt32) (nowNs : UInt64) : Frame where
  msg := .heartbeat (makeHeartbeat seq nowNs)
  wellFormed :=
    { typed := rfl
      checked :=
        congrArg computeChecksum (Msg.bytes_take_body (.heartbeat _)) }

end MarketDataHandler.TickGenerator

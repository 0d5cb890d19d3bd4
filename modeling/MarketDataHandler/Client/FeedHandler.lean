import MarketDataHandler.Client.FrameStream
import MarketDataHandler.Client.LatencyTracker
import MarketDataHandler.Client.SymbolCache
import Mathlib.Data.List.Induction

/-!
# The callbacks of the feed handler

`on_trade`, `on_quote` and `on_hb` of `feed_handler.cpp` with the objects they
write: the symbol cache, the latency tracker and the message counter of the
visualizer.  The clock is an input.

However the stream is cut, the handler ends in the left fold of its messages:
every symbol holds its last quote, its last trade, its last time and its number
of updates.
-/

namespace MarketDataHandler

/-- What the callbacks write. -/
structure Handler where
  cache : SymbolCache
  lat : LatencyTracker
  totalMessages : UInt64

namespace Handler

def initial : Handler where
  cache := SymbolCache.initial
  lat := LatencyTracker.initial
  totalMessages := 0

def onTrade (handler : Handler) (recvNs : UInt64) (data : List UInt8) :
    Option Handler := do
  let msg := TradeMsg.codec.decode data
  let cache ←
    handler.cache.updateTrade msg.header.symbolId msg.payload.price
      msg.payload.quantity msg.header.timestampNs
  some
    { cache := cache
      lat := handler.lat.record (recvNs - msg.header.timestampNs)
      totalMessages := handler.totalMessages + 1 }

def onQuote (handler : Handler) (recvNs : UInt64) (data : List UInt8) :
    Option Handler := do
  let msg := QuoteMsg.codec.decode data
  let cache ←
    handler.cache.updateQuote msg.header.symbolId msg.payload.bidPrice
      msg.payload.bidQty msg.payload.askPrice msg.payload.askQty
      msg.header.timestampNs
  some
    { cache := cache
      lat := handler.lat.record (recvNs - msg.header.timestampNs)
      totalMessages := handler.totalMessages + 1 }

def onHb (handler : Handler) : Handler :=
  { handler with totalMessages := handler.totalMessages + 1 }

/-- One callback, with the clock reading at that moment. -/
def invoke (handler : Handler) (recvNs : UInt64) (kind : MsgKind)
    (data : List UInt8) : Option Handler :=
  match kind with
  | .trade => handler.onTrade recvNs data
  | .quote => handler.onQuote recvNs data
  | .heartbeat => some handler.onHb

/-- Successive callbacks; the clock is indexed by them. -/
def invokeAll (clock : Nat → UInt64) :
    Nat → Handler → List (MsgKind × List UInt8) → Option Handler
  | _, handler, [] => some handler
  | index, handler, (kind, data) :: calls => do
      let next ← handler.invoke (clock index) kind data
      invokeAll clock (index + 1) next calls

end Handler

/-! ## The left fold of the messages -/

/-- What a message does to the cache. -/
def Msg.cacheUpdate : Msg → Option (UInt16 × CacheUpdate)
  | .trade msg =>
      some (msg.header.symbolId,
        .trade msg.payload.price msg.payload.quantity
          msg.header.timestampNs)
  | .quote msg =>
      some (msg.header.symbolId,
        .quote msg.payload.bidPrice msg.payload.bidQty
          msg.payload.askPrice msg.payload.askQty
          msg.header.timestampNs)
  | .heartbeat _ => none

/-- One message applied to the cache. -/
def SymbolCache.apply (cache : SymbolCache) (msg : Msg) : SymbolCache :=
  match msg.cacheUpdate with
  | none => cache
  | some (sym, call) => (cache.update sym call).getD cache

def quotesOf (sym : Nat) (msgs : List Msg) : List QuoteMsg :=
  msgs.filterMap fun msg =>
    match msg with
    | .quote quote =>
        if quote.header.symbolId.toNat = sym then some quote else none
    | _ => none

def tradesOf (sym : Nat) (msgs : List Msg) : List TradeMsg :=
  msgs.filterMap fun msg =>
    match msg with
    | .trade trade =>
        if trade.header.symbolId.toNat = sym then some trade else none
    | _ => none

/-- A trade or a quote. -/
def Msg.isTick (msg : Msg) : Bool :=
  msg.cacheUpdate.isSome

/-- The trades and quotes of a symbol. -/
def ticksOf (sym : Nat) (msgs : List Msg) : List Msg :=
  msgs.filter fun msg =>
    msg.isTick && decide (msg.header.symbolId.toNat = sym)

/-- A field of the last message, or its initial value. -/
def lastOr {α β : Type} (initial : β) (field : α → β) (items : List α) :
    β :=
  (items.getLast?.map field).getD initial

/-- What is to be known about a symbol after some messages. -/
def symbolSummary (sym : Nat) (msgs : List Msg) : MarketData where
  bestBid :=
    lastOr MarketData.initial.bestBid (·.payload.bidPrice)
      (quotesOf sym msgs)
  bestAsk :=
    lastOr MarketData.initial.bestAsk (·.payload.askPrice)
      (quotesOf sym msgs)
  bidQuantity :=
    lastOr MarketData.initial.bidQuantity (·.payload.bidQty)
      (quotesOf sym msgs)
  askQuantity :=
    lastOr MarketData.initial.askQuantity (·.payload.askQty)
      (quotesOf sym msgs)
  lastTradedPrice :=
    lastOr MarketData.initial.lastTradedPrice (·.payload.price)
      (tradesOf sym msgs)
  lastTradedQuantity :=
    lastOr MarketData.initial.lastTradedQuantity (·.payload.quantity)
      (tradesOf sym msgs)
  lastUpdateTime :=
    lastOr MarketData.initial.lastUpdateTime (·.header.timestampNs)
      (ticksOf sym msgs)
  updateCount := UInt64.ofNat (ticksOf sym msgs).length

theorem lastOr_concat {α β : Type} (initial : β) (field : α → β)
    (items : List α) (item : α) :
    lastOr initial field (items ++ [item]) = field item := by
  simp [lastOr]

/-- What a message does to the fields of one symbol. -/
def Msg.applyTo (msg : Msg) (sym : Nat) (data : MarketData) :
    MarketData :=
  match msg.cacheUpdate with
  | none => data
  | some (target, call) =>
      if target.toNat = sym then CacheUpdate.apply data call else data

theorem SymbolCache.apply_states
    (cache : SymbolCache) (msg : Msg) (sym : Fin maxSymbols) :
    ((cache.apply msg).states sym).toMarketData =
      msg.applyTo sym.val (cache.states sym).toMarketData := by
  rw [SymbolCache.apply, Msg.applyTo]
  cases msg.cacheUpdate with
  | none =>
      rfl
  | some target =>
      obtain ⟨target, call⟩ := target
      simp only [SymbolCache.update]
      by_cases inside : target.toNat < maxSymbols
      · rw [dif_pos inside]
        by_cases same : target.toNat = sym.val
        · have index : (⟨target.toNat, inside⟩ : Fin maxSymbols) = sym :=
            Fin.ext same
          rw [if_pos same, index]
          simp [SymbolCache.endWrite, SymbolCache.beginWrite]
        · have index : sym ≠ ⟨target.toNat, inside⟩ := by
            intro equal
            rw [equal] at same
            exact same rfl
          rw [if_neg same]
          simp [index]
      · have different : target.toNat ≠ sym.val := by
          have bound := sym.isLt
          omega
        rw [dif_neg inside, if_neg different]
        rfl

/-- The summary follows the messages one by one. -/
theorem symbolSummary_concat (sym : Nat) (msgs : List Msg) (msg : Msg) :
    symbolSummary sym (msgs ++ [msg]) =
      msg.applyTo sym (symbolSummary sym msgs) := by
  cases msg with
  | heartbeat msg =>
      simp [symbolSummary, quotesOf, tradesOf, ticksOf, Msg.applyTo,
        Msg.isTick, Msg.cacheUpdate]
  | trade msg =>
      by_cases same : msg.header.symbolId.toNat = sym
      · simp [symbolSummary, quotesOf, tradesOf, ticksOf, Msg.applyTo,
          Msg.isTick, Msg.cacheUpdate, Msg.header, same, lastOr_concat,
          CacheUpdate.apply, UInt64.ofNat_add]
      · simp [symbolSummary, quotesOf, tradesOf, ticksOf, Msg.applyTo,
          Msg.isTick, Msg.cacheUpdate, Msg.header, same]
  | quote msg =>
      by_cases same : msg.header.symbolId.toNat = sym
      · simp [symbolSummary, quotesOf, tradesOf, ticksOf, Msg.applyTo,
          Msg.isTick, Msg.cacheUpdate, Msg.header, same, lastOr_concat,
          CacheUpdate.apply, UInt64.ofNat_add]
      · simp [symbolSummary, quotesOf, tradesOf, ticksOf, Msg.applyTo,
          Msg.isTick, Msg.cacheUpdate, Msg.header, same]

/-- Every symbol of the folded cache is summed up by its own messages. -/
theorem foldl_apply_states (msgs : List Msg) (sym : Fin maxSymbols) :
    ((msgs.foldl SymbolCache.apply SymbolCache.initial).states
        sym).toMarketData =
      symbolSummary sym.val msgs := by
  induction msgs using List.reverseRecOn with
  | nil =>
      rfl
  | append_singleton msgs msg inductionHypothesis =>
      rw [List.foldl_concat, SymbolCache.apply_states,
        inductionHypothesis, symbolSummary_concat]

/-! ## The callbacks compute the fold -/

theorem SymbolCache.update_inside
    (cache : SymbolCache) {sym : UInt16}
    (inside : sym.toNat < maxSymbols) (call : CacheUpdate) :
    ∃ next, cache.update sym call = some next := by
  rw [SymbolCache.update, dif_pos inside]
  exact ⟨_, rfl⟩

/-- One frame through its callback. -/
theorem Handler.invoke_frame
    (handler : Handler) (recvNs : UInt64) {frame : Frame}
    (inside : frame.msg.header.symbolId.toNat < maxSymbols) :
    ∃ next,
      handler.invoke recvNs frame.kind frame.bytes = some next ∧
        next.cache = handler.cache.apply frame.msg ∧
        next.lat.count =
          handler.lat.count + UInt64.ofNat frame.msg.isTick.toNat ∧
        next.totalMessages = handler.totalMessages + 1 := by
  obtain ⟨msg, wellFormed⟩ := frame
  rw [Frame.kind, Frame.bytes]
  cases msg with
  | trade msg =>
      obtain ⟨cache, updated⟩ :=
        handler.cache.update_inside inside
          (.trade msg.payload.price msg.payload.quantity
            msg.header.timestampNs)
      have fields := TradeMsg.codec.decode_encode msg
      refine
        ⟨⟨cache, handler.lat.record (recvNs - msg.header.timestampNs),
          handler.totalMessages + 1⟩, ?_, ?_, rfl, rfl⟩
      · change handler.onTrade recvNs (TradeMsg.codec.encode msg) = _
        rw [Handler.onTrade, fields]
        exact Option.bind_eq_some_iff.mpr ⟨cache, updated, rfl⟩
      · rw [SymbolCache.apply]
        exact (congrArg (Option.getD · handler.cache) updated).symm
  | quote msg =>
      obtain ⟨cache, updated⟩ :=
        handler.cache.update_inside inside
          (.quote msg.payload.bidPrice msg.payload.bidQty
            msg.payload.askPrice msg.payload.askQty
            msg.header.timestampNs)
      have fields := QuoteMsg.codec.decode_encode msg
      refine
        ⟨⟨cache, handler.lat.record (recvNs - msg.header.timestampNs),
          handler.totalMessages + 1⟩, ?_, ?_, rfl, rfl⟩
      · change handler.onQuote recvNs (QuoteMsg.codec.encode msg) = _
        rw [Handler.onQuote, fields]
        exact Option.bind_eq_some_iff.mpr ⟨cache, updated, rfl⟩
      · rw [SymbolCache.apply]
        exact (congrArg (Option.getD · handler.cache) updated).symm
  | heartbeat msg =>
      exact ⟨handler.onHb, rfl, rfl, (UInt64.add_zero _).symm, rfl⟩

theorem Handler.invokeAll_frames
    (clock : Nat → UInt64) (index : Nat) (handler : Handler)
    {frames : List Frame}
    (inside :
      ∀ frame ∈ frames,
        frame.msg.header.symbolId.toNat < maxSymbols) :
    ∃ final,
      Handler.invokeAll clock index handler
          (frames.map fun frame => (frame.kind, frame.bytes)) =
            some final ∧
        final.cache =
          (frames.map Frame.msg).foldl SymbolCache.apply
            handler.cache ∧
        final.lat.count =
          handler.lat.count +
            UInt64.ofNat ((frames.map Frame.msg).countP Msg.isTick) ∧
        final.totalMessages =
          handler.totalMessages + UInt64.ofNat frames.length := by
  induction frames generalizing index handler with
  | nil =>
      exact ⟨handler, rfl, rfl, (UInt64.add_zero _).symm,
        (UInt64.add_zero _).symm⟩
  | cons frame frames inductionHypothesis =>
      obtain ⟨next, invoked, cache, count, total⟩ :=
        handler.invoke_frame (clock index)
          (inside frame List.mem_cons_self)
      obtain ⟨final, later, finalCache, finalCount, finalTotal⟩ :=
        inductionHypothesis (index + 1) next
          (fun other member =>
            inside other (List.mem_cons_of_mem frame member))
      refine ⟨final, ?_, ?_, ?_, ?_⟩
      · rw [List.map_cons, Handler.invokeAll]
        exact Option.bind_eq_some_iff.mpr ⟨next, invoked, later⟩
      · rw [finalCache, cache, List.map_cons, List.foldl_cons]
      · rw [finalCount, count, List.map_cons, List.countP_cons,
          UInt64.add_assoc, ← UInt64.ofNat_add, Nat.add_comm]
        cases frame.msg.isTick <;> rfl
      · rw [finalTotal, total, List.length_cons, UInt64.add_assoc,
          Nat.add_comm, UInt64.ofNat_add]
        rfl

/-- The end-to-end state of the feed handler. -/
theorem feedHandler_endToEnd
    {parser : Parser} (fresh : parser.Fresh) (clock : Nat → UInt64)
    {frames : List Frame}
    (inside :
      ∀ frame ∈ frames,
        frame.msg.header.symbolId.toNat < maxSymbols)
    {chunks : List (List UInt8)}
    (cuts : chunks.flatten = frames.flatMap Frame.bytes)
    (bounded : ∀ chunk ∈ chunks, chunk.length ≤ 65536) :
    ∃ parsed events final,
      parser.feedAll chunks = some (parsed, events) ∧
        Handler.invokeAll clock 0 Handler.initial (callbacks events) =
          some final ∧
        final.cache =
          (frames.map Frame.msg).foldl SymbolCache.apply
            SymbolCache.initial ∧
        (∀ sym : Fin maxSymbols,
          (final.cache.states sym).toMarketData =
            symbolSummary sym.val (frames.map Frame.msg)) ∧
        final.lat.getStats.sampleCount =
          UInt64.ofNat ((frames.map Frame.msg).countP Msg.isTick) ∧
        final.totalMessages = UInt64.ofNat frames.length := by
  obtain ⟨parsed, fed, _, _⟩ := fresh.feedAll_frames cuts bounded
  obtain ⟨final, invoked, cache, count, total⟩ :=
    Handler.invokeAll_frames clock 0 Handler.initial inside
  refine ⟨parsed, _, final, fed, ?_, cache, ?_, ?_, ?_⟩
  · rw [ParseCounters.callbacks_deliverAll]
    exact invoked
  · intro sym
    rw [cache]
    exact foldl_apply_states _ sym
  · rw [LatencyTracker.getStats_sampleCount, count]
    exact UInt64.zero_add _
  · rw [total]
    exact UInt64.zero_add _

/-- A quote, a trade and a heartbeat, cut inside the trade. -/
theorem feedHandler_endToEnd_three :
    let frames :=
      [TickGenerator.quoteFrame 3 1 ⟨100, 21, 22, 23, 24⟩,
        TickGenerator.tradeFrame 3 2 ⟨200, 31, 32⟩,
        TickGenerator.heartbeatFrame 3 300]
    let stream := frames.flatMap Frame.bytes
    ∃ parsed events final,
      (Parser.new ⟨fun _ => 0⟩).feedAll
          [stream.take 50, stream.drop 50] = some (parsed, events) ∧
        Handler.invokeAll (fun _ => 1000) 0 Handler.initial
          (callbacks events) = some final ∧
        (final.cache.states ⟨3, by decide⟩).toMarketData =
          { bestBid := 21
            bestAsk := 22
            bidQuantity := 23
            askQuantity := 24
            lastTradedPrice := 31
            lastTradedQuantity := 32
            lastUpdateTime := 200
            updateCount := 2 } ∧
        final.lat.getStats.sampleCount = 2 ∧
        final.totalMessages = 3 := by
  intro frames stream
  obtain ⟨parsed, events, final, fed, invoked, _, states, samples, total⟩ :=
    feedHandler_endToEnd (Parser.Fresh.constructed ⟨fun _ => 0⟩)
      (fun _ => 1000)
      (show
        ∀ frame ∈ frames,
          frame.msg.header.symbolId.toNat < maxSymbols
        from by
          intro frame member
          simp only [frames, List.mem_cons, List.not_mem_nil,
            or_false] at member
          rcases member with rfl | rfl | rfl
          · decide
          · decide
          · decide)
      (show
        [stream.take 50, stream.drop 50].flatten =
          frames.flatMap Frame.bytes
        from rfl)
      (by decide)
  exact ⟨parsed, events, final, fed, invoked, states ⟨3, by decide⟩,
    samples, total⟩

end MarketDataHandler

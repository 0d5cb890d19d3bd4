import MarketDataHandler.Client.FeedHandler
import MarketDataHandler.Client.Resynchronisation
import MarketDataHandler.Client.Visualizer

/-!
# Indices into the cache

Neither the parser nor the callbacks nor the cache compares a symbol number
with `maxSymbols`, and the visualizer counts up to the configured number of
symbols.  So an index is in range exactly when the frame that carries it says
so, and when no more symbols are configured than the cache has.
-/

namespace MarketDataHandler

open PackedCodec (u16)
open PackedCodec.Words

/-! ## The indices of the callbacks -/

/-- The number with which a callback indexes the cache. -/
def cacheIndex : MsgKind × List UInt8 → Option UInt16
  | (.trade, data) => some (TradeMsg.codec.decode data).header.symbolId
  | (.quote, data) => some (QuoteMsg.codec.decode data).header.symbolId
  | (.heartbeat, _) => none

theorem SymbolCache.update_isSome_iff
    (cache : SymbolCache) (sym : UInt16) (call : CacheUpdate) :
    (cache.update sym call).isSome ↔ sym.toNat < maxSymbols := by
  rw [SymbolCache.update]
  split <;> simp_all

theorem Handler.invoke_isSome_iff
    (handler : Handler) (recvNs : UInt64)
    (call : MsgKind × List UInt8) :
    (handler.invoke recvNs call.1 call.2).isSome ↔
      ∀ index ∈ cacheIndex call, index.toNat < maxSymbols := by
  obtain ⟨kind, data⟩ := call
  cases kind with
  | trade =>
      simp only [Handler.invoke, Handler.onTrade,
        SymbolCache.updateTrade, cacheIndex, Option.mem_some_iff,
        forall_eq']
      rw [← handler.cache.update_isSome_iff _
        (.trade (TradeMsg.codec.decode data).payload.price
          (TradeMsg.codec.decode data).payload.quantity
          (TradeMsg.codec.decode data).header.timestampNs)]
      cases handler.cache.update _ _ <;> simp
  | quote =>
      simp only [Handler.invoke, Handler.onQuote,
        SymbolCache.updateQuote, cacheIndex, Option.mem_some_iff,
        forall_eq']
      rw [← handler.cache.update_isSome_iff _
        (.quote (QuoteMsg.codec.decode data).payload.bidPrice
          (QuoteMsg.codec.decode data).payload.bidQty
          (QuoteMsg.codec.decode data).payload.askPrice
          (QuoteMsg.codec.decode data).payload.askQty
          (QuoteMsg.codec.decode data).header.timestampNs)]
      cases handler.cache.update _ _ <;> simp
  | heartbeat =>
      simp [Handler.invoke, cacheIndex]

/-- The callbacks run to their end exactly when all indices are in range. -/
theorem Handler.invokeAll_isSome_iff
    (clock : Nat → UInt64) (index : Nat) (handler : Handler)
    (calls : List (MsgKind × List UInt8)) :
    (Handler.invokeAll clock index handler calls).isSome ↔
      ∀ sym ∈ calls.filterMap cacheIndex, sym.toNat < maxSymbols := by
  induction calls generalizing index handler with
  | nil =>
      simp [Handler.invokeAll]
  | cons call calls inductionHypothesis =>
      have first := handler.invoke_isSome_iff (clock index) call
      have rest :
          (∀ sym ∈ (call :: calls).filterMap cacheIndex,
              sym.toNat < maxSymbols) ↔
            (∀ sym ∈ cacheIndex call, sym.toNat < maxSymbols) ∧
              ∀ sym ∈ calls.filterMap cacheIndex,
                sym.toNat < maxSymbols := by
        simp only [List.mem_filterMap, List.mem_cons,
          exists_eq_or_imp, or_imp, forall_and, Option.mem_def]
      rw [rest, ← first]
      obtain ⟨kind, data⟩ := call
      rw [Handler.invokeAll]
      cases invoked : handler.invoke (clock index) kind data with
      | none =>
          simp
      | some next =>
          simpa using inductionHypothesis (index + 1) next

/-! ## Frames that are accepted -/

/-- The field `hdr->symbol_id`. -/
def symbolIdAt (bytes : List UInt8) : UInt16 :=
  u16.decode (bytes.drop 14)

/-- A whole frame of the given kind that passes its check lies at the front of
the bytes. -/
def AcceptedAt (bytes : List UInt8) (kind : MsgKind) : Prop :=
  msgTypeAt bytes = kind.code ∧
    msgTotalSize kind.code ≤ bytes.length ∧
    bodyChecksum (bytes.take (msgTotalSize kind.code)) =
      wireChecksum (bytes.take (msgTotalSize kind.code))

/-- Wherever the walk over the header positions of the stream finds a trade or
quote that passes its check, its symbol is below the size of the cache. -/
def SymbolsInRange (stream : List UInt8) : Prop :=
  ∀ position kind,
    HeaderChain stream position →
    AcceptedAt (stream.drop position) kind →
    kind ≠ .heartbeat →
      (symbolIdAt (stream.drop position)).toNat < maxSymbols

/-- The callbacks of one frame. -/
theorem callbacks_receive
    (counters : ParseCounters) {input : List UInt8}
    (known : msgTotalSize (msgTypeAt input) ≠ 0)
    (complete : msgTotalSize (msgTypeAt input) ≤ input.length)
    (call : MsgKind × List UInt8) :
    call ∈
        callbacks
          (counters.receive
            (input.take (msgTotalSize (msgTypeAt input)))).2 ↔
      AcceptedAt input call.1 ∧
        call.2 = input.take (msgTotalSize call.1.code) := by
  have wide := (msgTotalSize_bounds known).1
  have sameType :
      msgTypeAt (input.take (msgTotalSize (msgTypeAt input))) =
        msgTypeAt input :=
    msgTypeAt_take input (by omega)
  rcases msgTotalSize_cases (msgTypeAt input) with
    ⟨unknown, _⟩ | ⟨kind, typed, _⟩
  · exact absurd unknown known
  · obtain ⟨called, data⟩ := call
    have sameKind : kind.code = called.code ↔ kind = called := by
      cases kind <;> cases called <;> decide
    rw [ParseCounters.receive_eq_dispatch]
    split
    · rename_i wrong
      rw [typed] at wrong
      simp only [callbacks, List.filterMap_cons, List.filterMap_nil,
        List.not_mem_nil, false_iff]
      intro given
      obtain ⟨⟨typedCalled, _, checked⟩, _⟩ := given
      rw [typed, sameKind] at typedCalled
      subst called
      exact wrong checked
    · rename_i checked
      rw [not_not, typed] at checked
      rw [callbacks_append, callbacks_accept, List.nil_append, dispatch,
        sameType, typed, MsgKind.ofCode_code]
      simp only [callbacks, List.filterMap_cons, List.filterMap_nil,
        List.mem_singleton, Prod.mk.injEq]
      rw [AcceptedAt, typed, sameKind]
      constructor
      · intro same
        obtain ⟨rfl, rfl⟩ := same
        exact ⟨⟨rfl, typed ▸ complete, checked⟩, rfl⟩
      · intro accepted
        obtain ⟨⟨rfl, _, _⟩, rfl⟩ := accepted
        exact ⟨rfl, rfl⟩

/-- The front of the bytes is decided where a frame is accepted. -/
theorem AcceptedAt.decided
    {input : List UInt8} {kind : MsgKind}
    (accepted : AcceptedAt input kind) :
    msgTotalSize (msgTypeAt input) ≠ 0 ∧
      msgTotalSize (msgTypeAt input) ≤ input.length := by
  obtain ⟨typed, complete, _⟩ := accepted
  rw [typed]
  refine ⟨?_, complete⟩
  cases kind <;> decide

/-- After a decision the walk goes on behind the bytes it consumed. -/
theorem headerChain_iff_of_decision
    {counters next : ParseCounters} {input : List UInt8}
    {events : List ParseEvent} {count : Nat}
    (decision : scanStep counters input = some (next, events, count))
    (position : Nat) :
    HeaderChain input position ↔
      position = 0 ∨
        ∃ later,
          position = count + later ∧
            HeaderChain (input.drop count) later := by
  obtain ⟨long, shape⟩ := scanStep_cases decision
  constructor
  · intro chain
    cases chain with
    | here =>
        exact Or.inl rfl
    | @skip _ later _ unknown chain =>
        rcases shape with ⟨_, _, _, rfl⟩ | ⟨known, _⟩
        · exact Or.inr ⟨later, rfl, chain⟩
        · exact absurd unknown known
    | @hop _ later known complete chain =>
        rcases shape with ⟨unknown, _⟩ | ⟨_, rfl, _, _⟩
        · exact absurd unknown known
        · exact Or.inr ⟨later, rfl, chain⟩
  · intro reached
    rcases reached with rfl | ⟨later, rfl, chain⟩
    · exact HeaderChain.here input
    · rcases shape with ⟨unknown, _, _, rfl⟩ | ⟨known, rfl, complete, _⟩
      · exact HeaderChain.skip long unknown chain
      · exact HeaderChain.hop known complete chain

/-- Where nothing is decided the walk has ended. -/
theorem headerChain_of_undecided
    {counters : ParseCounters} {input : List UInt8}
    (waits : scanStep counters input = none)
    {position : Nat} (chain : HeaderChain input position) :
    position = 0 := by
  rw [scanStep_eq_none_iff] at waits
  cases chain with
  | here =>
      rfl
  | skip long unknown chain =>
      rcases waits with short | ⟨known, _⟩
      · omega
      · exact absurd unknown known
  | hop known complete chain =>
      have wide := (msgTotalSize_bounds known).1
      omega

/-- The callbacks of a scan are the accepted frames at header positions. -/
theorem callbacks_scan_iff
    (counters : ParseCounters) (input : List UInt8)
    (call : MsgKind × List UInt8) :
    call ∈ callbacks (referenceScanner.run counters input).output ↔
      ∃ position,
        HeaderChain input position ∧
          AcceptedAt (input.drop position) call.1 ∧
          call.2 =
            (input.drop position).take (msgTotalSize call.1.code) := by
  refine referenceScanner.run_induction
    (motive := fun _ input outcome =>
      call ∈ callbacks outcome.output ↔
        ∃ position,
          HeaderChain input position ∧
            AcceptedAt (input.drop position) call.1 ∧
            call.2 =
              (input.drop position).take (msgTotalSize call.1.code))
    ?_ ?_ counters input
  · intro state input waits
    simp only [callbacks, List.filterMap_nil, List.not_mem_nil,
      false_iff]
    intro given
    obtain ⟨position, chain, accepted, _⟩ := given
    rw [headerChain_of_undecided waits chain, List.drop_zero] at accepted
    have decided := accepted.decided
    have wide := (msgTotalSize_bounds decided.1).1
    rcases scanStep_eq_none_iff.mp waits with short | ⟨_, incomplete⟩
      <;> omega
  · intro state input next output count decision inductionHypothesis
    have now :
        call ∈ callbacks output ↔
          AcceptedAt input call.1 ∧
            call.2 = input.take (msgTotalSize call.1.code) := by
      obtain ⟨_, shape⟩ := scanStep_cases decision
      rcases shape with
        ⟨unknown, _, rfl, _⟩ | ⟨known, rfl, complete, received⟩
      · simp only [callbacks, List.filterMap_cons, List.filterMap_nil,
          List.not_mem_nil, false_iff]
        intro given
        exact given.1.decided.1 unknown
      · rw [show output = _ from congrArg Prod.snd received]
        exact callbacks_receive state known complete call
    rw [StreamScanner.Outcome.after_output, callbacks_append,
      List.mem_append, now, inductionHypothesis]
    constructor
    · intro found
      rcases found with accepted | ⟨position, chain, accepted⟩
      · exact ⟨0, HeaderChain.here input, accepted⟩
      · refine ⟨count + position, ?_, ?_⟩
        · rw [headerChain_iff_of_decision decision]
          exact Or.inr ⟨position, rfl, chain⟩
        · rw [← List.drop_drop]
          exact accepted
    · intro found
      obtain ⟨position, chain, accepted⟩ := found
      rcases (headerChain_iff_of_decision decision position).mp chain with
        rfl | ⟨later, rfl, rest⟩
      · exact Or.inl accepted
      · rw [← List.drop_drop] at accepted
        exact Or.inr ⟨later, rest, accepted⟩

/-- A callback indexes with the field `symbol_id` of its frame. -/
theorem cacheIndex_take (kind : MsgKind) (bytes : List UInt8) :
    cacheIndex (kind, bytes.take (msgTotalSize kind.code)) =
      if kind = .heartbeat then none else some (symbolIdAt bytes) := by
  have field :
      ∀ size, 16 ≤ size →
        UInt16.ofNat
            (leValue
              (((((bytes.take size).drop 2).drop 4).drop 8).take 2)) =
          symbolIdAt bytes := by
    intro size wide
    rw [List.drop_drop, List.drop_drop, List.drop_take, List.take_take,
      Nat.min_eq_left (by omega)]
    rfl
  cases kind with
  | trade =>
      exact congrArg some (field 32 (by omega))
  | quote =>
      exact congrArg some (field 44 (by omega))
  | heartbeat =>
      rfl

/-- The indices of the callbacks of a scan. -/
theorem cacheIndices_scan_iff
    (counters : ParseCounters) (input : List UInt8) :
    (∀ sym ∈
        (callbacks (referenceScanner.run counters input).output).filterMap
          cacheIndex,
        sym.toNat < maxSymbols) ↔
      SymbolsInRange input := by
  constructor
  · intro inRange position kind chain accepted isTick
    apply inRange
    rw [List.mem_filterMap]
    refine ⟨(kind, (input.drop position).take (msgTotalSize kind.code)),
      ?_, ?_⟩
    · rw [callbacks_scan_iff]
      exact ⟨position, chain, accepted, rfl⟩
    · rw [cacheIndex_take, if_neg isTick]
  · intro inRange sym member
    obtain ⟨⟨kind, data⟩, called, indexed⟩ := List.mem_filterMap.mp member
    obtain ⟨position, chain, accepted, taken⟩ :=
      (callbacks_scan_iff counters input (kind, data)).mp called
    simp only at accepted taken
    rw [taken, cacheIndex_take] at indexed
    by_cases isHeartbeat : kind = .heartbeat
    · rw [if_pos isHeartbeat] at indexed
      cases indexed
    · rw [if_neg isHeartbeat] at indexed
      cases indexed
      exact inRange position kind chain accepted isHeartbeat

/-! ## All indices -/

/-- Every index that the feed handler uses into the cache is in range: those
of the callbacks on the received chunks, and those of every dashboard rendered
meanwhile. -/
def AccessesInRange (parser : Parser) (chunks : List (List UInt8))
    (sorting : RankSort) (numSym : Nat) : Prop :=
  (∃ final events,
    parser.feedAll chunks = some (final, events) ∧
      ∀ sym ∈ (callbacks events).filterMap cacheIndex,
        sym.toNat < maxSymbols) ∧
    ∀ caches,
      ∀ id ∈
        Visualizer.indices sorting caches (makeSymbolNames numSym),
        id.toNat < maxSymbols

/-- However the stream of a connection is cut, all indices are in range exactly
when the accepted frames of the stream and the configured number of symbols
keep to the size of the cache. -/
theorem accessesInRange_iff
    {parser : Parser} (fresh : parser.Fresh)
    {chunks : List (List UInt8)}
    (bounded : ∀ chunk ∈ chunks, chunk.length ≤ 65536)
    (sorting : RankSort) (numSym : Nat) :
    AccessesInRange parser chunks sorting numSym ↔
      SymbolsInRange chunks.flatten ∧ numSym ≤ maxSymbols := by
  obtain ⟨final, fed, _, _⟩ := fresh.feedAll_reads bounded
  have callbacksInRange :
      (∃ final events,
        parser.feedAll chunks = some (final, events) ∧
          ∀ sym ∈ (callbacks events).filterMap cacheIndex,
            sym.toNat < maxSymbols) ↔
        SymbolsInRange chunks.flatten := by
    rw [← cacheIndices_scan_iff ParseCounters.zero]
    constructor
    · intro given
      obtain ⟨_, events, fedEvents, inRange⟩ := given
      rw [fed] at fedEvents
      cases fedEvents
      exact inRange
    · intro inRange
      exact ⟨final, _, fed, inRange⟩
  have rendersInRange :
      (∀ caches,
        ∀ id ∈
          Visualizer.indices sorting caches (makeSymbolNames numSym),
          id.toNat < maxSymbols) ↔
        numSym ≤ maxSymbols := by
    simp only [Visualizer.indices_inRange_iff, makeSymbolNames_length]
    exact ⟨fun inRange => inRange fun _ => SymbolCache.initial,
      fun few _ => few⟩
  rw [AccessesInRange, callbacksInRange, rendersInRange]

/-- Sorting by falling update count with `List.mergeSort`. -/
def RankSort.merge : RankSort where
  sort ranked :=
    ranked.mergeSort fun first second => decide (second.1 ≤ first.1)
  perm ranked := List.mergeSort_perm ranked _
  sorted ranked := by
    have trans (first second third : UInt64 × UInt16) :
        decide (second.1 ≤ first.1) → decide (third.1 ≤ second.1) →
          decide (third.1 ≤ first.1) := by
      simp only [decide_eq_true_eq]
      exact fun below above => UInt64.le_trans above below
    have total (first second : UInt64 × UInt16) :
        decide (second.1 ≤ first.1) || decide (first.1 ≤ second.1) := by
      simp only [Bool.or_eq_true, decide_eq_true_eq]
      exact UInt64.le_total second.1 first.1
    simpa using List.pairwise_mergeSort trans total ranked

/-- One trade of the last symbol of the cache, which is full. -/
theorem accessesInRange_last_symbol :
    AccessesInRange (Parser.new ⟨fun _ => 0⟩)
      [(TickGenerator.tradeFrame 499 1 ⟨1000, 21, 22⟩).bytes]
      RankSort.merge 500 := by
  apply
    (accessesInRange_iff (Parser.Fresh.constructed ⟨fun _ => 0⟩)
      (by decide) RankSort.merge 500).mpr
  refine ⟨?_, by decide⟩
  apply (cacheIndices_scan_iff ParseCounters.zero _).mp
  have indices :
      (callbacks
        (referenceScanner.run ParseCounters.zero
          (TickGenerator.tradeFrame 499 1
            ⟨1000, 21, 22⟩).bytes).output).filterMap cacheIndex =
        [499] := by
    decide
  intro sym used
  rw [List.flatten_singleton, indices] at used
  cases List.mem_singleton.mp used
  decide

/-- A trade of symbol 500 is accepted and indexes behind the cache, although
only the default number of symbols is configured. -/
theorem not_accessesInRange_symbol_500 :
    ¬ AccessesInRange (Parser.new ⟨fun _ => 0⟩)
      [(TickGenerator.tradeFrame 500 1 ⟨1000, 21, 22⟩).bytes]
      RankSort.merge 100 := by
  intro inside
  obtain ⟨⟨_, events, fed, inRange⟩, _⟩ := inside
  obtain ⟨_, scanned, _, _⟩ :=
    (Parser.Fresh.constructed ⟨fun _ => 0⟩).feedAll_reads
      (show
        ∀ chunk ∈
          [(TickGenerator.tradeFrame 500 1 ⟨1000, 21, 22⟩).bytes],
          chunk.length ≤ 65536
        from by decide)
  rw [scanned] at fed
  cases fed
  exact absurd (inRange 500 (by decide)) (by decide)

end MarketDataHandler

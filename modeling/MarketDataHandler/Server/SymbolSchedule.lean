import MarketDataHandler.Lib.ResidueWindow
import MarketDataHandler.Server.RunLoop

/-!
# Which symbol is next

A tick takes its symbol from the number in `seq_no_`, modulo the number of
symbols.  Heartbeats take numbers from the same counter, and fault injection
loses the number behind a multiple of a hundred.  As long as the counter does
not wrap, the numbers of a run are consecutive, and each is drawn by a tick or
taken by a heartbeat or a skip (`run_schedule`).

So a symbol is passed over where all its numbers are taken.  Among the numbers
of `4 * n` ticks there are four of each symbol, one after the other, and the
symbol has its turn unless heartbeats and skips take all of them.
-/

namespace MarketDataHandler

/-! ## Tick messages -/

/-- The header of every message that was broadcast. -/
def publishedHeaders (trace : List ServerOutput) : List MsgHeader :=
  (published trace).map MsgHeader.codec.decode

/-- The headers of the tick messages. -/
def tickHeaders (trace : List ServerOutput) : List MsgHeader :=
  (publishedHeaders trace).filter fun header =>
    decide (header.msgType ≠ msgHeartbeat)

/-- The type of the message with a given number. -/
def tickType (seq : UInt32) : UInt16 :=
  if seq % 10 < 3 then msgTrade else msgQuote

namespace ServerAction

def isTick : ServerAction → Bool
  | .tick _ _ => true
  | _ => false

def isHeartbeat : ServerAction → Bool
  | .heartbeat _ _ => true
  | _ => false

end ServerAction

/-- There is a client whenever a message is to be sent. -/
def HasClient (server : ExchangeSimulator) (action : ServerAction) : Prop :=
  action.isTick ∨ action.isHeartbeat → server.clients.isEmpty = false

instance (server : ExchangeSimulator) (action : ServerAction) :
    Decidable (HasClient server action) :=
  inferInstanceAs (Decidable (_ → _))

/-- Between two heartbeats there is a tick. -/
def HeartbeatsSpaced (actions : List ServerAction) : Prop :=
  (actions.filter fun action =>
    action.isTick || action.isHeartbeat).IsChain fun first second =>
      ¬ (first.isHeartbeat ∧ second.isHeartbeat)

/-- Among any `4 * n` consecutive tick messages every symbol appears. -/
def RoundRobin (n : Nat) (trace : List ServerOutput) : Prop :=
  ∀ window,
    window <:+: (tickHeaders trace).map (fun header =>
      header.symbolId.toNat) →
    window.length = 4 * n →
      ∀ sym < n, sym ∈ window

/-! ## The use of numbers -/

/-- What becomes of a number of the counter. -/
inductive NumberUse where
  /-- It selects the symbol of a tick, whose message has number `seq`. -/
  | tick (number : Nat) (seq : UInt32)
  /-- It goes to a heartbeat, or fault injection loses it. -/
  | taken (number : Nat)
  deriving DecidableEq, Repr

namespace NumberUse

def number : NumberUse → Nat
  | .tick number _ => number
  | .taken number => number

def drawnNumber : NumberUse → Option Nat
  | .tick number _ => some number
  | .taken _ => none

def takenNumber : NumberUse → Option Nat
  | .tick _ _ => none
  | .taken number => some number

/-- Type and symbol of the message of a tick. -/
def message (symbolCount : Nat) : NumberUse → Option (UInt16 × UInt16)
  | .tick number seq =>
      some (tickType seq, UInt16.ofNat (number % symbolCount))
  | .taken _ => none

end NumberUse

def drawnNumbers (uses : List NumberUse) : List Nat :=
  uses.filterMap NumberUse.drawnNumber

def takenNumbers (uses : List NumberUse) : List Nat :=
  uses.filterMap NumberUse.takenNumber

namespace ExchangeSimulator

/-- The numbers that an action uses up. -/
def numbersUsed (server : ExchangeSimulator) :
    ServerAction → List NumberUse
  | .tick _ _ =>
      if server.clients.isEmpty then
        []
      else
        .tick server.seqNo.toNat server.nextSeq ::
          if server.skips then
            [.taken server.nextSeq.toNat]
          else
            []
  | .heartbeat _ _ =>
      if server.clients.isEmpty then
        []
      else
        [.taken server.seqNo.toNat]
  | _ => []

/-- The numbers that a run uses up. -/
def numbersUsedIn (server : ExchangeSimulator)
    (actions : List ServerAction) : List NumberUse :=
  (Mealy.run
    (fun server action =>
      ((server.step action).1, server.numbersUsed action))
    server actions).2

end ExchangeSimulator

namespace ExchangeSimulator

/-- The number that an action takes from the counter and draws no symbol from:
`seq_no_` for a heartbeat, and the number behind it for a tick that fault
injection lets pass over one. -/
def takes (server : ExchangeSimulator) : ServerAction → Option Nat
  | .tick _ _ =>
      if !server.clients.isEmpty && server.skips then
        some (server.seqNo + 1).toNat
      else
        none
  | .heartbeat _ _ =>
      if server.clients.isEmpty then none else some server.seqNo.toNat
  | _ => none

end ExchangeSimulator

/-- The exchange with the numbers that heartbeats and skips have taken. -/
structure TurnLedger where
  server : ExchangeSimulator
  taken : List Nat

namespace TurnLedger

def step (ledger : TurnLedger) (action : ServerAction) :
    TurnLedger × List ServerOutput :=
  let next := ledger.server.step action
  (⟨next.1, ledger.taken ++ (ledger.server.takes action).toList⟩, next.2)

/-- The action does not take a number after the three numbers of the same
symbol before it have been taken. -/
def SparesTurn (ledger : TurnLedger) (action : ServerAction) : Prop :=
  ∀ number ∈ ledger.server.takes action,
    ∀ first ∈ ledger.taken,
      number = first + 3 * ledger.server.symbolCount →
      first + ledger.server.symbolCount ∈ ledger.taken →
        first + 2 * ledger.server.symbolCount ∉ ledger.taken

instance (ledger : TurnLedger) (action : ServerAction) :
    Decidable (ledger.SparesTurn action) :=
  inferInstanceAs (Decidable (∀ number ∈ ledger.server.takes action, _))

end TurnLedger

/-! ## One action -/

theorem tickHeaders_append (first second : List ServerOutput) :
    tickHeaders (first ++ second) =
      tickHeaders first ++ tickHeaders second := by
  rw [tickHeaders, publishedHeaders, published_append, List.map_append,
    List.filter_append]
  rfl

theorem Frame.header_bytes (frame : Frame) :
    MsgHeader.codec.decode frame.bytes = frame.msg.header := by
  obtain ⟨behind, shape⟩ := frame.msg.bytes_header
  rw [Frame.bytes, shape, MsgHeader.codec.decode_encode_append]

namespace ExchangeSimulator

theorem tickFrame_header (sym : UInt16) (seq : UInt32) (draw : TickDraw) :
    (tickFrame sym seq draw).msg.header.msgType = tickType seq ∧
      (tickFrame sym seq draw).msg.header.symbolId = sym := by
  rw [tickFrame, tickType]
  split <;> exact ⟨rfl, rfl⟩

/-- A broadcast publishes one message and leaves the counter alone. -/
theorem broadcast_publishes
    (server : ExchangeSimulator) (frame : Frame)
    (sends : Nat → List SendOutcome) :
    publishedHeaders (server.broadcast frame sends).2 =
      [frame.msg.header] := by
  have message :=
    (server.toConnections.broadcastMessage_outputs frame.bytes sends
      0).2.1
  rw [broadcast, publishedHeaders, message, List.map_singleton,
    Frame.header_bytes]

theorem step_symbolCount
    (server : ExchangeSimulator) (action : ServerAction) :
    (server.step action).1.symbolCount = server.symbolCount := by
  cases action with
  | tick draw sends =>
      rw [step, generateAndBroadcast]
      split <;> rfl
  | heartbeat nowNs sends =>
      rw [step, broadcastHeartbeat]
      split <;> rfl
  | _ =>
      rfl

/-- The tick messages of an action are those of the numbers that it draws. -/
theorem step_tickHeaders
    (server : ExchangeSimulator) (action : ServerAction) :
    (tickHeaders (server.step action).2).map
        (fun header => (header.msgType, header.symbolId)) =
      (server.numbersUsed action).filterMap
        (NumberUse.message server.symbolCount) := by
  cases action with
  | newConnection accepted =>
      cases accepted <;> rfl
  | clientDisconnect fd =>
      rfl
  | reorder order =>
      rfl
  | enableFaultInjection enable =>
      rfl
  | tick draw sends =>
      cases connected : server.clients.isEmpty with
      | true =>
          rw [step, generateAndBroadcast, numbersUsed, if_pos connected,
            if_pos connected]
          rfl
      | false =>
          obtain ⟨type, sym⟩ :=
            tickFrame_header server.nextSym server.nextSeq draw
          have isTick :
              decide
                  ((tickFrame server.nextSym server.nextSeq
                    draw).msg.header.msgType ≠ msgHeartbeat) = true := by
            rw [type, tickType]
            split <;> decide
          have unskipped :
              ∀ outputs,
                publishedHeaders
                    ((if server.skips then
                        [ServerOutput.skip server.seqNo]
                      else
                        []) ++ outputs) =
                  publishedHeaders outputs := by
            intro outputs
            cases server.skips <;> rfl
          rw [step, generateAndBroadcast_of_clients connected, tickHeaders,
            unskipped, broadcast_publishes, List.filter_singleton, isTick,
            numbersUsed, connected]
          simp only [cond_true, List.map_singleton, type, sym]
          cases server.skips <;> rfl
  | heartbeat nowNs sends =>
      cases connected : server.clients.isEmpty with
      | true =>
          rw [step, broadcastHeartbeat, numbersUsed, if_pos connected,
            if_pos connected]
          rfl
      | false =>
          rw [step, broadcastHeartbeat_of_clients connected, tickHeaders,
            broadcast_publishes, numbersUsed, connected]
          rfl

theorem toNat_succ
    {number : UInt32} (noWrap : number.toNat + 1 < 2 ^ 32) :
    (number + 1).toNat = number.toNat + 1 := by
  rw [UInt32.toNat_add, UInt32.toNat_one]
  omega

/-- The counter moves on by the numbers that are used up, which are
consecutive. -/
theorem step_numbers
    (server : ExchangeSimulator) (action : ServerAction)
    (noWrap :
      server.seqNo.toNat + (server.numbersUsed action).length < 2 ^ 32) :
    (server.numbersUsed action).map NumberUse.number =
        List.range' server.seqNo.toNat
          (server.numbersUsed action).length ∧
      (server.step action).1.seqNo.toNat =
        server.seqNo.toNat + (server.numbersUsed action).length := by
  cases action with
  | newConnection accepted =>
      exact ⟨rfl, rfl⟩
  | clientDisconnect fd =>
      exact ⟨rfl, rfl⟩
  | reorder order =>
      exact ⟨rfl, rfl⟩
  | enableFaultInjection enable =>
      exact ⟨rfl, rfl⟩
  | tick draw sends =>
      cases connected : server.clients.isEmpty with
      | true =>
          rw [step, generateAndBroadcast, numbersUsed, if_pos connected,
            if_pos connected]
          exact ⟨rfl, rfl⟩
      | false =>
          have next :
              (server.step (.tick draw sends)).1.seqNo =
                server.nextSeq + 1 := by
            rw [step, generateAndBroadcast_of_clients connected]
            rfl
          rw [next, nextSeq]
          rw [numbersUsed, connected, nextSeq] at noWrap ⊢
          cases skipped : server.skips with
          | true =>
              rw [skipped] at noWrap
              have two : server.seqNo.toNat + 2 < 2 ^ 32 := noWrap
              have one :=
                toNat_succ (show server.seqNo.toNat + 1 < 2 ^ 32 by omega)
              have both :=
                toNat_succ
                  (show (server.seqNo + 1).toNat + 1 < 2 ^ 32 by omega)
              refine ⟨?_, ?_⟩
              · simp [NumberUse.number, one, List.range']
              · simpa [one] using both
          | false =>
              rw [skipped] at noWrap
              exact ⟨rfl, toNat_succ noWrap⟩
  | heartbeat nowNs sends =>
      cases connected : server.clients.isEmpty with
      | true =>
          rw [step, broadcastHeartbeat, numbersUsed, if_pos connected,
            if_pos connected]
          exact ⟨rfl, rfl⟩
      | false =>
          have next :
              (server.step (.heartbeat nowNs sends)).1.seqNo =
                server.seqNo + 1 := by
            rw [step, broadcastHeartbeat_of_clients connected]
            rfl
          rw [next]
          rw [numbersUsed, connected] at noWrap ⊢
          exact ⟨rfl, toNat_succ noWrap⟩

/-! ## Whole runs -/

theorem numbersUsedIn_cons
    (server : ExchangeSimulator) (action : ServerAction)
    (actions : List ServerAction) :
    server.numbersUsedIn (action :: actions) =
      server.numbersUsed action ++
        (server.step action).1.numbersUsedIn actions :=
  rfl

/-- The numbers of a run are consecutive, and the tick messages are those of
the numbers that are drawn. -/
theorem run_schedule
    {server : ExchangeSimulator} {actions : List ServerAction}
    (noWrap :
      server.seqNo.toNat + (server.numbersUsedIn actions).length <
        2 ^ 32) :
    (server.numbersUsedIn actions).map NumberUse.number =
        List.range' server.seqNo.toNat
          (server.numbersUsedIn actions).length ∧
      (tickHeaders (server.run actions).2).map
          (fun header => (header.msgType, header.symbolId)) =
        (server.numbersUsedIn actions).filterMap
          (NumberUse.message server.symbolCount) := by
  induction actions generalizing server with
  | nil =>
      exact ⟨rfl, rfl⟩
  | cons action actions inductionHypothesis =>
      rw [numbersUsedIn_cons, List.length_append] at noWrap ⊢
      obtain ⟨now, next⟩ := server.step_numbers action (by omega)
      have laterWrap :
          (server.step action).1.seqNo.toNat +
              ((server.step action).1.numbersUsedIn actions).length <
            2 ^ 32 := by
        omega
      obtain ⟨later, laterHeaders⟩ := inductionHypothesis laterWrap
      refine ⟨?_, ?_⟩
      · rw [List.map_append, now, later, next, List.range'_append_1]
      · rw [step_symbolCount] at laterHeaders
        rw [List.filterMap_append, ← laterHeaders,
          ← server.step_tickHeaders, run, Mealy.run_cons,
          tickHeaders_append, List.map_append]
        rfl

end ExchangeSimulator

/-! ## Stretches -/

/-- A stretch holds what is drawn and what is taken. -/
theorem countP_number
    (uses : List NumberUse) (counts : Nat → Bool) :
    (uses.map NumberUse.number).countP counts =
      (drawnNumbers uses).countP counts +
        (takenNumbers uses).countP counts := by
  induction uses with
  | nil =>
      rfl
  | cons use uses inductionHypothesis =>
      rw [List.map_cons, List.countP_cons, inductionHypothesis]
      cases use with
      | tick number seq =>
          change
            _ + (if counts number = true then 1 else 0) =
              (number :: drawnNumbers uses).countP counts +
                (takenNumbers uses).countP counts
          rw [List.countP_cons]
          omega
      | taken number =>
          change
            _ + (if counts number = true then 1 else 0) =
              (drawnNumbers uses).countP counts +
                (number :: takenNumbers uses).countP counts
          rw [List.countP_cons]
          omega

theorem length_uses (uses : List NumberUse) :
    uses.length =
      (drawnNumbers uses).length + (takenNumbers uses).length := by
  have all := countP_number uses fun _ => true
  simpa using all

/-- The numbers of a stretch of consecutive numbers. -/
theorem map_number_stretch
    {start : Nat} {before stretch behind : List NumberUse}
    (consecutive :
      (before ++ (stretch ++ behind)).map NumberUse.number =
        List.range' start (before ++ (stretch ++ behind)).length) :
    stretch.map NumberUse.number =
      List.range' (start + before.length) stretch.length := by
  have split :
      List.range' start (before ++ (stretch ++ behind)).length =
        List.range' start before.length ++
          (List.range' (start + before.length) stretch.length ++
            List.range' (start + before.length + stretch.length)
              behind.length) := by
    rw [List.range'_append_1, List.range'_append_1, List.length_append,
      List.length_append]
  rw [split, List.map_append, List.map_append] at consecutive
  have tail := (List.append_inj consecutive (by simp)).2
  exact (List.append_inj tail (by simp)).1

/-- A number of a stretch is drawn or taken. -/
theorem mem_number_iff {uses : List NumberUse} {number : Nat} :
    number ∈ uses.map NumberUse.number ↔
      number ∈ drawnNumbers uses ∨ number ∈ takenNumbers uses := by
  constructor
  · intro member
    obtain ⟨use, inside, rfl⟩ := List.mem_map.mp member
    cases use with
    | tick number seq =>
        exact Or.inl (List.mem_filterMap.mpr ⟨_, inside, rfl⟩)
    | taken number =>
        exact Or.inr (List.mem_filterMap.mpr ⟨_, inside, rfl⟩)
  · rintro (drawn | taken)
    · obtain ⟨use, inside, shape⟩ := List.mem_filterMap.mp drawn
      cases use <;> cases shape
      exact List.mem_map_of_mem inside
    · obtain ⟨use, inside, shape⟩ := List.mem_filterMap.mp taken
      cases use <;> cases shape
      exact List.mem_map_of_mem inside

theorem drawn_not_taken
    {start number : Nat} {uses : List NumberUse}
    (consecutive :
      uses.map NumberUse.number = List.range' start uses.length)
    (drawn : number ∈ drawnNumbers uses) :
    number ∉ takenNumbers uses := by
  intro taken
  have distinct : (uses.map NumberUse.number).Nodup := by
    rw [consecutive]
    exact List.nodup_range'
  obtain ⟨tick, tickMember, isTick⟩ := List.mem_filterMap.mp drawn
  obtain ⟨loss, lossMember, isLoss⟩ := List.mem_filterMap.mp taken
  cases tick <;> cases isTick
  cases loss <;> cases isLoss
  have same := List.inj_on_of_nodup_map distinct tickMember lossMember rfl
  cases same

/-- In every stretch with `4 * n` ticks, one is drawn for each symbol. -/
def DrawsAll (n : Nat) (uses : List NumberUse) : Prop :=
  ∀ before stretch behind,
    uses = before ++ (stretch ++ behind) →
    (drawnNumbers stretch).length = 4 * n →
      ∀ sym < n, ∃ number ∈ drawnNumbers stretch, number % n = sym

/-- No four numbers in a row of one symbol are taken. -/
def NoFour (n : Nat) (taken : List Nat) : Prop :=
  ∀ first ∈ taken,
    first + n ∈ taken → first + 2 * n ∈ taken → first + 3 * n ∉ taken

/-- Among the numbers of `4 * n` ticks are four in a row of each symbol, and
what is not taken of them is drawn. -/
theorem drawsAll_of_noFour
    {n start : Nat} {uses : List NumberUse}
    (consecutive :
      uses.map NumberUse.number = List.range' start uses.length)
    (noFour : NoFour n (takenNumbers uses)) :
    DrawsAll n uses := by
  intro before stretch behind split ticks sym inside
  by_contra undrawn
  subst uses
  have numbers := map_number_stretch consecutive
  have enough : 4 * n ≤ stretch.length := by
    rw [length_uses, ticks]
    exact Nat.le_add_right _ _
  obtain ⟨offset, near, residue⟩ :=
    ResidueWindow.exists_residue inside (start + before.length)
  have lost (turn : Nat) (few : turn < 4) :
      start + before.length + offset + turn * n ∈
        takenNumbers (before ++ (stretch ++ behind)) := by
    have passed :
        start + before.length + offset + turn * n ∈
          stretch.map NumberUse.number := by
      have bound : turn * n ≤ 3 * n :=
        Nat.mul_le_mul_right n (Nat.le_of_lt_succ few)
      rw [numbers, List.mem_range'_1]
      omega
    rcases mem_number_iff.mp passed with drawn | taken
    · refine absurd ⟨_, drawn, ?_⟩ undrawn
      rw [Nat.add_mul_mod_self_right, residue]
    · simp only [takenNumbers, List.filterMap_append, List.mem_append]
      exact Or.inr (Or.inl taken)
  refine noFour _ (lost 0 (by decide)) ?_ ?_ ?_
  · simpa using lost 1 (by decide)
  · simpa using lost 2 (by decide)
  · simpa using lost 3 (by decide)

/-- The symbol of a number fits the field of the header. -/
theorem ExchangeSimulator.toNat_symbol
    {server : ExchangeSimulator} (small : server.symbolCount ≤ 2 ^ 16)
    (number : Nat) :
    (UInt16.ofNat (number % server.symbolCount)).toNat =
      number % server.symbolCount := by
  have below : number % server.symbolCount < server.symbolCount :=
    Nat.mod_lt _ server.symbolCount_pos
  exact UInt16.toNat_ofNat_of_lt (Nat.lt_of_lt_of_le below small)

/-- The symbols of the tick messages. -/
theorem tickSymbols_run
    {server : ExchangeSimulator} {actions : List ServerAction}
    (small : server.symbolCount ≤ 2 ^ 16)
    (noWrap :
      server.seqNo.toNat + (server.numbersUsedIn actions).length <
        2 ^ 32) :
    (tickHeaders (server.run actions).2).map
        (fun header => header.symbolId.toNat) =
      (drawnNumbers (server.numbersUsedIn actions)).map
        (fun number => number % server.symbolCount) := by
  have messages := (ExchangeSimulator.run_schedule noWrap).2
  have symbols :=
    congrArg (List.map fun message => message.2.toNat) messages
  rw [List.map_map, List.map_filterMap] at symbols
  refine symbols.trans ?_
  rw [drawnNumbers, List.map_filterMap]
  congr 1
  funext use
  cases use with
  | tick number seq =>
      have fits := ExchangeSimulator.toNat_symbol small number
      simpa [NumberUse.message, NumberUse.drawnNumber] using fits
  | taken number =>
      rfl

/-- Every symbol appears among any `4 * n` consecutive tick messages exactly
when it is drawn in every stretch with as many ticks. -/
theorem roundRobin_iff_drawsAll
    {server : ExchangeSimulator} {actions : List ServerAction}
    (small : server.symbolCount ≤ 2 ^ 16)
    (noWrap :
      server.seqNo.toNat + (server.numbersUsedIn actions).length <
        2 ^ 32) :
    RoundRobin server.symbolCount (server.run actions).2 ↔
      DrawsAll server.symbolCount (server.numbersUsedIn actions) := by
  rw [RoundRobin, tickSymbols_run small noWrap]
  constructor
  · intro covers before stretch behind split ticks sym inside
    have window :
        (drawnNumbers stretch).map (· % server.symbolCount) <:+:
          (drawnNumbers (server.numbersUsedIn actions)).map
            (· % server.symbolCount) := by
      rw [split]
      simp only [drawnNumbers, List.filterMap_append, List.map_append]
      exact ⟨_, _, List.append_assoc _ _ _⟩
    have appears := covers _ window (by rw [List.length_map, ticks]) sym inside
    exact List.mem_map.mp appears
  · intro draws window part length sym inside
    obtain ⟨front, back, split⟩ := part
    rw [List.append_assoc] at split
    -- the window is the image of a part of the drawn numbers, and these are
    -- drawn in a part of the run
    obtain ⟨frontDrawn, restDrawn, drawnSplit, _, restShape⟩ :=
      List.map_eq_append_iff.mp split.symm
    obtain ⟨windowDrawn, backDrawn, restSplit, windowShape, _⟩ :=
      List.map_eq_append_iff.mp restShape
    obtain ⟨before, rest, usesSplit, _, restUses⟩ :=
      List.filterMap_eq_append_iff.mp drawnSplit
    obtain ⟨stretch, behind, stretchSplit, stretchDrawn, _⟩ :=
      List.filterMap_eq_append_iff.mp (restUses.trans restSplit)
    have drawnStretch : drawnNumbers stretch = windowDrawn := stretchDrawn
    have ticks :
        (drawnNumbers stretch).length = 4 * server.symbolCount := by
      rw [drawnStretch, ← length, ← windowShape, List.length_map]
    obtain ⟨number, drawn, same⟩ :=
      draws before stretch behind (by rw [usesSplit, stretchSplit]) ticks sym
        inside
    rw [← windowShape, ← same]
    rw [drawnStretch] at drawn
    exact List.mem_map_of_mem drawn

/-! ## Turns that are spared -/

namespace ExchangeSimulator

theorem takenNumbers_numbersUsed
    (server : ExchangeSimulator) (action : ServerAction) :
    takenNumbers (server.numbersUsed action) =
      (server.takes action).toList := by
  cases action with
  | tick draw sends =>
      rw [numbersUsed, takes, nextSeq]
      cases server.clients.isEmpty with
      | true =>
          rfl
      | false =>
          cases server.skips <;> rfl
  | heartbeat nowNs sends =>
      rw [numbersUsed, takes]
      cases server.clients.isEmpty <;> rfl
  | _ =>
      rfl

/-- A number that is taken is one that the counter passes. -/
theorem takes_between
    (server : ExchangeSimulator) {action : ServerAction}
    (noWrap :
      server.seqNo.toNat + (server.numbersUsed action).length < 2 ^ 32) :
    ∀ number ∈ server.takes action,
      server.seqNo.toNat ≤ number ∧
        number < (server.step action).1.seqNo.toNat := by
  intro number taken
  obtain ⟨numbers, next⟩ := server.step_numbers action noWrap
  have listed := Option.mem_toList.mpr taken
  rw [← takenNumbers_numbersUsed] at listed
  have used := mem_number_iff.mpr (Or.inr listed)
  rw [numbers, List.mem_range'_1] at used
  rw [next]
  exact used

end ExchangeSimulator

namespace TurnLedger

/-- The taken numbers are behind the counter, and no four of them are in a row
of one symbol. -/
structure Spared (ledger : TurnLedger) : Prop where
  below : ∀ number ∈ ledger.taken, number < ledger.server.seqNo.toNat
  noFour : NoFour ledger.server.symbolCount ledger.taken

theorem Spared.step
    {ledger : TurnLedger} (spared : ledger.Spared) {action : ServerAction}
    (noWrap :
      ledger.server.seqNo.toNat +
          (ledger.server.numbersUsed action).length <
        2 ^ 32)
    (spares : ledger.SparesTurn action) :
    (ledger.step action).1.Spared := by
  have next := (ledger.server.step_numbers action noWrap).2
  have fresh := ledger.server.takes_between noWrap
  have members (number : Nat) :
      number ∈ (ledger.step action).1.taken ↔
        number ∈ ledger.taken ∨ number ∈ ledger.server.takes action := by
    rw [TurnLedger.step, List.mem_append, Option.mem_toList]
    exact Iff.rfl
  -- the numbers taken before are smaller than the one taken now
  have earlier {number later : Nat}
      (taken : number ∈ (ledger.step action).1.taken)
      (now : later ∈ ledger.server.takes action)
      (smaller : number < later) : number ∈ ledger.taken := by
    rcases (members number).mp taken with before | again
    · exact before
    · have same := Option.mem_unique again now
      omega
  constructor
  · intro number taken
    rcases (members number).mp taken with before | now
    · have below := spared.below number before
      change number < (ledger.server.step action).1.seqNo.toNat
      omega
    · exact (fresh number now).2
  · have sameCount := ledger.server.step_symbolCount action
    have positive := ledger.server.symbolCount_pos
    change NoFour (ledger.server.step action).1.symbolCount _
    rw [sameCount]
    intro first one two three four
    rcases (members _).mp four with before | now
    · have old {number : Nat}
          (taken : number ∈ (ledger.step action).1.taken)
          (behind :
            number ≤ first + 3 * ledger.server.symbolCount) :
          number ∈ ledger.taken := by
        rcases (members number).mp taken with already | again
        · exact already
        · have below := spared.below _ before
          have above := (fresh number again).1
          omega
      exact spared.noFour first (old one (by omega)) (old two (by omega))
        (old three (by omega)) before
    · exact spares _ now first (earlier one now (by omega)) rfl
        (earlier two now (by omega)) (earlier three now (by omega))

/-- A run takes no four numbers in a row of one symbol if none of its actions
takes the fourth. -/
theorem Spared.run
    {ledger : TurnLedger} (spared : ledger.Spared)
    {actions : List ServerAction}
    (noWrap :
      ledger.server.seqNo.toNat +
          (ledger.server.numbersUsedIn actions).length <
        2 ^ 32)
    (spares :
      Mealy.Guarded TurnLedger.step TurnLedger.SparesTurn ledger actions) :
    NoFour ledger.server.symbolCount
      (ledger.taken ++
        takenNumbers (ledger.server.numbersUsedIn actions)) := by
  induction actions generalizing ledger with
  | nil =>
      change NoFour _ (ledger.taken ++ [])
      rw [List.append_nil]
      exact spared.noFour
  | cons action actions inductionHypothesis =>
      obtain ⟨now, later⟩ := spares
      rw [ExchangeSimulator.numbersUsedIn_cons, List.length_append] at noWrap
      have next := (ledger.server.step_numbers action (by omega)).2
      have rest := inductionHypothesis (spared.step (by omega) now)
        (by
          change (ledger.server.step action).1.seqNo.toNat + _ < _
          rw [next]
          change _ + _ +
            ((ledger.server.step action).1.numbersUsedIn actions).length < _
          omega) later
      change NoFour (ledger.server.step action).1.symbolCount
        ((ledger.taken ++ (ledger.server.takes action).toList) ++ _) at rest
      rw [ledger.server.step_symbolCount, List.append_assoc,
        ← ExchangeSimulator.takenNumbers_numbersUsed] at rest
      rw [ExchangeSimulator.numbersUsedIn_cons, takenNumbers,
        List.filterMap_append]
      exact rest

end TurnLedger

/-- In every run in which no heartbeat and no skip takes the fourth number in
a row from a symbol, every symbol appears among any `4 * n` consecutive tick
messages. -/
theorem roundRobin_of_sparesTurns
    {server : ExchangeSimulator} {actions : List ServerAction}
    (small : server.symbolCount ≤ 2 ^ 16)
    (noWrap :
      server.seqNo.toNat + (server.numbersUsedIn actions).length <
        2 ^ 32)
    (spares :
      Mealy.Guarded TurnLedger.step TurnLedger.SparesTurn ⟨server, []⟩
        actions) :
    RoundRobin server.symbolCount (server.run actions).2 := by
  rw [roundRobin_iff_drawsAll small noWrap]
  have start : TurnLedger.Spared ⟨server, []⟩ :=
    ⟨fun _ member => absurd member List.not_mem_nil,
      fun _ member => absurd member List.not_mem_nil⟩
  exact drawsAll_of_noFour (ExchangeSimulator.run_schedule noWrap).1
    (start.run noWrap spares)

/-- A symbol that loses four numbers in a row is missing from the messages of
every stretch with `4 * n` ticks that lies between its numbers before and
behind them. -/
theorem not_roundRobin_of_fourTaken
    {server : ExchangeSimulator} {actions : List ServerAction}
    (small : server.symbolCount ≤ 2 ^ 16)
    (noWrap :
      server.seqNo.toNat + (server.numbersUsedIn actions).length <
        2 ^ 32)
    {before stretch behind : List NumberUse}
    (split :
      server.numbersUsedIn actions = before ++ (stretch ++ behind))
    (ticks : (drawnNumbers stretch).length = 4 * server.symbolCount)
    {first : Nat}
    (four :
      ∀ turn < 4,
        first + turn * server.symbolCount ∈
          takenNumbers (server.numbersUsedIn actions))
    (starts :
      first < server.seqNo.toNat + before.length + server.symbolCount)
    (ends :
      server.seqNo.toNat + before.length + stretch.length ≤
        first + 4 * server.symbolCount) :
    ¬ RoundRobin server.symbolCount (server.run actions).2 := by
  rw [roundRobin_iff_drawsAll small noWrap]
  intro draws
  obtain ⟨number, drawn, residue⟩ :=
    draws before stretch behind split ticks
      (first % server.symbolCount)
      (Nat.mod_lt _ server.symbolCount_pos)
  have consecutive := (ExchangeSimulator.run_schedule noWrap).1
  have inside := mem_number_iff.mpr (Or.inl drawn)
  rw [split] at consecutive four
  rw [map_number_stretch consecutive, List.mem_range'_1] at inside
  -- the number is one of the four
  obtain ⟨turn, few, rfl⟩ :
      ∃ turn < 4, number = first + turn * server.symbolCount := by
    have congruent : first ≡ number [MOD server.symbolCount] :=
      residue.symm
    have notBefore : first ≤ number := by
      by_contra before
      have apart :=
        Nat.le_of_dvd (by omega)
          ((Nat.modEq_iff_dvd' (by omega)).mp congruent.symm)
      omega
    obtain ⟨turn, apart⟩ :=
      (Nat.modEq_iff_dvd' notBefore).mp congruent
    rw [Nat.mul_comm] at apart
    refine ⟨turn, ?_, by omega⟩
    apply Nat.lt_of_mul_lt_mul_right
    show turn * server.symbolCount < 4 * server.symbolCount
    omega
  have everywhere :
      first + turn * server.symbolCount ∈
        drawnNumbers (before ++ (stretch ++ behind)) := by
    simp only [drawnNumbers, List.filterMap_append, List.mem_append]
    exact Or.inr (Or.inl drawn)
  exact drawn_not_taken consecutive everywhere (four turn few)

/-! ## Two symbols and one tick a second -/

/-- Two symbols and one client. -/
def twoSymbolServer : ExchangeSimulator where
  clients := [4]
  nodup := by decide
  slowClients := []
  symbolCount := 2
  symbolCount_pos := by decide
  faultInjection := false
  seqNo := 1

def anyTick : ServerAction :=
  .tick ⟨⟨0, 0, 0⟩, ⟨0, 0, 0, 0, 0⟩⟩ fun _ => []

def anyHeartbeat : ServerAction :=
  .heartbeat 0 fun _ => []

/-- Three heartbeats in a row take a number of symbol 0, the next one does
not. -/
theorem roundRobin_three_heartbeats :
    RoundRobin 2
      (twoSymbolServer.run
        [anyTick, anyHeartbeat, anyTick, anyHeartbeat, anyTick,
          anyHeartbeat, anyTick, anyTick, anyHeartbeat, anyTick, anyTick,
          anyTick, anyTick]).2 :=
  roundRobin_of_sparesTurns
    (show twoSymbolServer.symbolCount ≤ 2 ^ 16 by decide) (by decide)
    (by decide)

/-- With a tick and a heartbeat each second, all heartbeats take the numbers of
symbol 0. -/
theorem not_roundRobin_alternating :
    ¬ ∀ (server : ExchangeSimulator) (actions : List ServerAction),
      server.symbolCount ≤ 2 ^ 16 →
      Mealy.Guarded ExchangeSimulator.step HasClient server actions →
      HeartbeatsSpaced actions →
      server.seqNo.toNat + (server.numbersUsedIn actions).length <
        2 ^ 32 →
        RoundRobin server.symbolCount (server.run actions).2 := by
  intro covers
  let actions : List ServerAction :=
    (List.replicate 8 [anyTick, anyHeartbeat]).flatten
  have spaced : HeartbeatsSpaced actions := by
    unfold HeartbeatsSpaced
    decide
  have noWrap :
      twoSymbolServer.seqNo.toNat +
          (twoSymbolServer.numbersUsedIn actions).length <
        2 ^ 32 := by
    decide
  have starved :=
    covers twoSymbolServer actions (by decide) (by decide) spaced noWrap
  rw [RoundRobin, tickSymbols_run (by decide) noWrap] at starved
  have symbols :
      (drawnNumbers (twoSymbolServer.numbersUsedIn actions)).map
          (fun number => number % twoSymbolServer.symbolCount) =
        List.replicate 8 1 := by
    decide
  rw [symbols] at starved
  exact absurd (starved _ (List.infix_refl _) rfl 0 (by decide)) (by decide)

end MarketDataHandler

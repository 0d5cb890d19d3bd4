import MarketDataHandler.Server.Broadcast
import MarketDataHandler.Server.TickGenerator

/-!
# The exchange simulator

The sequence numbers of `ExchangeSimulator`: `generate_and_broadcast` and the
heartbeat of the run loop draw from one 32-bit counter, and fault injection
lets a tick pass over a multiple of a hundred.  An action is one of the things
the run loop does between two polls, or a call from outside.
-/

namespace MarketDataHandler

/-- The state of the simulator.  The symbol count divides, so it is not
zero. -/
structure ExchangeSimulator extends Connections where
  symbolCount : Nat
  symbolCount_pos : 0 < symbolCount
  faultInjection : Bool
  seqNo : UInt32

/-- What a tick takes from the generator, whichever message it makes. -/
structure TickDraw where
  trade : TickGenerator.TradeDraw
  quote : TickGenerator.QuoteDraw

inductive ServerAction where
  | newConnection (accepted : Option Nat)
  | clientDisconnect (fd : Nat)
  | reorder (order : List Nat)
  | enableFaultInjection (enable : Bool)
  | tick (draw : TickDraw) (sends : Nat → List SendOutcome)
  | heartbeat (nowNs : UInt64) (sends : Nat → List SendOutcome)

namespace ExchangeSimulator

/-- Three of ten numbers are trades. -/
def tickFrame (sym : UInt16) (seq : UInt32) (draw : TickDraw) : Frame :=
  if seq % 10 < 3 then
    TickGenerator.tradeFrame sym seq draw.trade
  else
    TickGenerator.quoteFrame sym seq draw.quote

def broadcast (server : ExchangeSimulator) (frame : Frame)
    (sends : Nat → List SendOutcome) :
    ExchangeSimulator × List ServerOutput :=
  let sent := server.toConnections.broadcastMessage frame.bytes sends
  ({ server with toConnections := sent.1 }, sent.2)

/-- Whether fault injection passes over the next number. -/
def skips (server : ExchangeSimulator) : Bool :=
  server.faultInjection && decide (server.seqNo % 100 = 0)

def generateAndBroadcast (server : ExchangeSimulator) (draw : TickDraw)
    (sends : Nat → List SendOutcome) :
    ExchangeSimulator × List ServerOutput :=
  if server.clients.isEmpty then
    (server, [])
  else
    let sym := UInt16.ofNat (server.seqNo.toNat % server.symbolCount)
    let seq := if server.skips then server.seqNo + 1 else server.seqNo
    let sent :=
      broadcast { server with seqNo := seq + 1 } (tickFrame sym seq draw)
        sends
    (sent.1, (if server.skips then [.skip server.seqNo] else []) ++ sent.2)

/-- The heartbeat at the end of a second. -/
def broadcastHeartbeat (server : ExchangeSimulator) (nowNs : UInt64)
    (sends : Nat → List SendOutcome) :
    ExchangeSimulator × List ServerOutput :=
  if server.clients.isEmpty then
    (server, [])
  else
    broadcast { server with seqNo := server.seqNo + 1 }
      (TickGenerator.heartbeatFrame server.seqNo nowNs) sends

/-- An operation on the connections alone. -/
def onConnections (server : ExchangeSimulator)
    (result : Connections × List ServerOutput) :
    ExchangeSimulator × List ServerOutput :=
  ({ server with toConnections := result.1 }, result.2)

def step (server : ExchangeSimulator) :
    ServerAction → ExchangeSimulator × List ServerOutput
  | .newConnection accepted =>
      server.onConnections
        (server.toConnections.handleNewConnection accepted)
  | .clientDisconnect fd =>
      server.onConnections
        (server.toConnections.handleClientDisconnect fd)
  | .reorder order =>
      server.onConnections (server.toConnections.reorder order, [])
  | .enableFaultInjection enable =>
      ({ server with faultInjection := enable }, [])
  | .tick draw sends => server.generateAndBroadcast draw sends
  | .heartbeat nowNs sends => server.broadcastHeartbeat nowNs sends

def run (server : ExchangeSimulator) (actions : List ServerAction) :
    ExchangeSimulator × List ServerOutput :=
  Mealy.run step server actions

@[simp]
theorem tickFrame_seqNo (sym : UInt16) (seq : UInt32) (draw : TickDraw) :
    (tickFrame sym seq draw).seqNo = seq := by
  rw [tickFrame]
  split <;> rfl

end ExchangeSimulator

end MarketDataHandler

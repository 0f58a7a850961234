import TxRelay.Command.World
import TxRelay.Relay.Run
import TxRelay.Startup

/-!
# How a command turns to the world

A command reads files, opens an input, connects to agents and launches a relay; it does nothing else
to the world before it reports. Commands are written over these ways of turning to it, so that one and
the same command can be carried out in a world, or carried out and watched.
-/

namespace TxRelay.Command

/-- The ways in which a command turns to the world. -/
structure Outside (m : Type → Type) where
  /-- Reads a settings file. -/
  read : String → m Files.Found
  /-- Connects to an endpoint: the agent behind the connection, or why there is none. -/
  connect : Endpoint → m (Except String Agent)
  /-- Opens an input. -/
  openInput : String → m (Except Failure (List Feed.Lines.Numbered))
  /-- Launches a relay: the state that it comes to in the end, or why it is not started. -/
  launch : Relay.Setup → m (Except Relay.Refusal Relay.State)
  /-- The identifiers of requests. -/
  ids : Nat → String
  /-- Whether the input stays open until an interrupt comes. -/
  interrupted : Bool

namespace World

/-- The agent behind a connection. -/
def agent (w : World) (e : Endpoint) : Agent :=
  Transport.remoteAgent e (w.exchange e)

/-- The moment of an interrupt. -/
def interruptAt (w : World) : Option Nat :=
  if w.interrupted then some 1 else none

/-- What a relay comes to that is launched in a world. -/
def launch (w : World) (setup : Relay.Setup) : Except Relay.Refusal Relay.State :=
  match Relay.launch setup false with
  | .ok start => .ok (start.run w.interruptAt)
  | .error refusal => .error refusal

/-- A world as commands turn to it. -/
def outside (w : World) : Outside Id where
  read path := w.files path
  connect e :=
    match w.probe e with
    | .ok () => .ok (w.agent e)
    | .error reason => .error reason
  openInput := w.open
  launch := w.launch
  ids := w.ids
  interrupted := w.interrupted

end World

end TxRelay.Command

import LibWing.Session.Bulk
import LibWing.Session.Calls

/-!
# The session machine

Any number of clones make calls on one console, and their sections interleave in any order.

* `Op`, `program` : the calls, and their programs;
* `run` : a run of the machine from a new console.  `dump_subtree`, which makes attended gets while
  it holds the reconnect gate, is left out: holding the gate only rules runs out.
-/

namespace LibWing

open Interleave

namespace Session

/-- What does not change about a console. -/
structure Config where
  /-- Whether there is a peer to reconnect to. -/
  reconnectable : Bool
  /-- What the property map says of a name. -/
  readOnly : String → Bool

/-- The calls of a clone. -/
inductive Op where
  | reconnect (policy : ReconnectPolicy)
  | reader (call : Console.ReaderCall)
  | keepAlive
  | requestMeter (meters : List Meter)
  | keepAliveMeters
  | setNodes (values : List (Int32 × NodeValue))
  | restore (entries : List DumpEntry)

/-- The program of a call. -/
def program (cfg : Config) (t : ℕ) : Op → Thread Unit
  | .reconnect policy => do
    let _ ← Session.reconnect t cfg.reconnectable policy
    return ()
  | .reader call => do
    let _ ← readerCall t call
    return ()
  | .keepAlive => do
    let _ ← Session.keepAlive
    return ()
  | .requestMeter meters => do
    let _ ← Session.requestMeter t meters
    return ()
  | .keepAliveMeters => do
    let _ ← Session.keepAliveMeters t
    return ()
  | .setNodes values => do
    let _ ← Session.setNodes t values
    return ()
  | .restore entries => do
    let _ ← Session.restore t cfg.readOnly entries
    return ()

/-- A run of the machine from a new console over a transport, if its moves are possible. -/
def run (cfg : Config) (now : Time) (rsock : List Poll) (moves : List (Move Env Op)) :
    Option (System Shared Env) :=
  (System.idle (.new now rsock)).run (program cfg) moves

/-- An environment in which nothing fails and no time passes: handshakes give the transport
`rsock`, and the meter socket is bound to a port. -/
def Env.calm (rsock : List Poll) : Env where
  now := 0
  world := .steady
  handshake := .ok rsock
  firmware := none
  write := .ok ()
  bind := .ok 5

/-- Thread `t` runs its next `n` sections in an environment. -/
def sections (t n : ℕ) (env : Env) : List (Move Env Op) := List.replicate n (.run t env)

end Session

end LibWing

import LibWing.Lib.Locks
import Mathlib.Data.Fintype.Order
import Mathlib.Data.Fin.Basic

/-!
# The locks of a console

`WingConsole` has seven locks.  This file says what every operation does with them, function by
function, and that no number of clones deadlocks.

A call under a guard stands in the body of the lock.  A guard that is a temporary is released at the
end of its statement; the guard in the scrutinee of `decode_next_inner`'s `match` lives until the
end of the `match`, whose arms take no lock.  The flags are atomics, which nobody waits for.  Where
a call may fail, `orFail` leaves the rest out.

The order of the locks is `reconnect_gate`, `read_gate`, then `main` and `mtrs`, then `wsock`, then
`rsock`.  `firmware` is never held while another lock is taken.

* `Op`, `script` : the operations and their locks;
* `rank`, `script_ordered` : the order and that every path of every operation keeps to it;
* `run_deadlockFree` : no run of any number of threads reaches a deadlock.
-/

namespace LibWing

open Locks Locks.Script

namespace Locking

/-- The mutexes of a `WingConsole`. -/
inductive Lock where
  | reconnectGate
  | readGate
  | main
  | mtrs
  | wsock
  | rsock
  | firmware
  deriving DecidableEq, Repr

/-- The flag is an atomic. -/
def ensureStreamUsable : Script Lock := skip

/-! ### Reading -/

/-- `_keep_alive`, whose caller holds `main`. -/
def keepAliveMain : Script Lock := opt (briefly .wsock)

/-- `decode_next_inner`, and with it `decode_next`: it asks the transport when the buffer is empty,
with the keepalive before. -/
def decodeNext : Script Lock :=
  loop (opt (keepAliveMain.orFail ((briefly .rsock).orFail (briefly .rsock))))

/-- `read_inner`: every field of every token is some bytes. -/
def readInner : Script Lock := locked .main (loop decodeNext)

def readLocked : Script Lock :=
  -- A tainted stream, a reconnect and a pending response end it early.
  opt ((briefly .main).seq (opt (readInner.seq (briefly .main))))

def read : Script Lock := locked .readGate readLocked

def setOpDeadline : Script Lock := briefly .main

def readTimeout : Script Lock :=
  locked .readGate (setOpDeadline.seq (readLocked.seq setOpDeadline))

def keepAlive : Script Lock := ensureStreamUsable.orFail (locked .main keepAliveMain)

/-! ### Attended reads -/

/-- `self.wsock.clone().lock_recover().write_all(&buf)`. -/
def writeAll : Script Lock := briefly .wsock

def requestNodeData : Script Lock := ensureStreamUsable.orFail writeAll

def requestNodeDefinition : Script Lock := ensureStreamUsable.orFail writeAll

def requeue : Script Lock := briefly .main

def attendedReadUntil : Script Lock := (loop readLocked).seq (opt requeue)

/-- A request and the wait for its answer. -/
def getNode (request : Script Lock) : Script Lock :=
  locked .readGate (request.orFail (setOpDeadline.seq (attendedReadUntil.seq setOpDeadline)))

def getNodeData : Script Lock := getNode requestNodeData

def getNodeDefinition : Script Lock := getNode requestNodeDefinition

def getNodes : Script Lock := loop (opt getNodeData)

def getNodeDefinitions : Script Lock :=
  locked .readGate ((briefly .main).seq (requestNodeDefinition.seq
    (alt requeue
      (setOpDeadline.seq ((loop readLocked).seq (setOpDeadline.seq requeue))))))

def getBinaryNode : Script Lock :=
  locked .readGate (requestNodeData.orFail
    ((briefly .main).seq ((loop readLocked).seq (requeue.seq
      -- After a timeout, the fence is set under the writer lock.
      (locked .main (opt (briefly .wsock)))))))

def verifyBinaryNode : Script Lock := opt (getBinaryNode.orFail getBinaryNode)

/-! ### Meters -/

/-- `_keep_alive_meters`, whose caller holds `mtrs`. -/
def keepAliveMetersMtrs : Script Lock := opt writeAll

def keepAliveMeters : Script Lock := ensureStreamUsable.orFail (locked .mtrs keepAliveMetersMtrs)

def requestMeter : Script Lock := ensureStreamUsable.orFail (locked .mtrs (opt writeAll))

/-- `recv_meter_frame`, and with it `read_meters`, `read_meters_timeout` and `read_meters_into`. -/
def readMeters : Script Lock := loop (locked .mtrs keepAliveMetersMtrs)

/-! ### Writing -/

/-- A message that may not encode, in one write. -/
def writeMessage : Script Lock := ensureStreamUsable.orFail writeAll

def setString : Script Lock := writeMessage

def setFloat : Script Lock := writeMessage

def setInt : Script Lock := writeMessage

def toggle : Script Lock := writeMessage

def setBinaryNode : Script Lock := writeMessage

def flushNodeWrites : Script Lock := opt (briefly .wsock)

def writeNodeValues : Script Lock :=
  (loop (ensureStreamUsable.seq (opt flushNodeWrites))).seq flushNodeWrites

def setNodes : Script Lock := writeNodeValues

def flushRestoreBatch : Script Lock := writeNodeValues

def restore : Script Lock := (loop (opt flushRestoreBatch)).seq flushRestoreBatch

/-! ### Whole sessions -/

/-- `dump_get`, which gives way to a waiting reconnect. -/
def dumpGet : Script Lock := opt getNodeData

/-- The selectors, the leaves, and the selectors again. -/
def dumpSubtree : Script Lock :=
  locked .reconnectGate ((loop dumpGet).orFail ((loop dumpGet).orFail (loop dumpGet)))

/-- One attempt of `reconnect`; the handshake and the probe take no lock. -/
def reconnectAttempt : Script Lock :=
  opt ((briefly .wsock).seq (locked .readGate
    ((locked .main (locked .wsock (briefly .rsock))).seq
      ((briefly .mtrs).seq ((opt (briefly .firmware)).seq (briefly .wsock))))))

def reconnect : Script Lock := opt (locked .reconnectGate (loop reconnectAttempt))

def firmware : Script Lock := briefly .firmware

/-- The last clone shuts the transports down. -/
def drop : Script Lock := (opt (briefly .wsock)).seq (opt (briefly .rsock))

/-- The operations of a `WingConsole`. -/
inductive Op where
  | read
  | readTimeout
  | keepAlive
  | requestNodeData
  | requestNodeDefinition
  | getNodeData
  | getNodeDefinition
  | getNodes
  | getNodeDefinitions
  | getBinaryNode
  | verifyBinaryNode
  | keepAliveMeters
  | requestMeter
  | readMeters
  | setString
  | setFloat
  | setInt
  | toggle
  | setBinaryNode
  | setNodes
  | restore
  | dumpSubtree
  | reconnect
  | firmware
  | drop
  deriving DecidableEq, Repr

def script : Op → Script Lock
  | .read => read
  | .readTimeout => readTimeout
  | .keepAlive => keepAlive
  | .requestNodeData => requestNodeData
  | .requestNodeDefinition => requestNodeDefinition
  | .getNodeData => getNodeData
  | .getNodeDefinition => getNodeDefinition
  | .getNodes => getNodes
  | .getNodeDefinitions => getNodeDefinitions
  | .getBinaryNode => getBinaryNode
  | .verifyBinaryNode => verifyBinaryNode
  | .keepAliveMeters => keepAliveMeters
  | .requestMeter => requestMeter
  | .readMeters => readMeters
  | .setString => setString
  | .setFloat => setFloat
  | .setInt => setInt
  | .toggle => toggle
  | .setBinaryNode => setBinaryNode
  | .setNodes => setNodes
  | .restore => restore
  | .dumpSubtree => dumpSubtree
  | .reconnect => reconnect
  | .firmware => firmware
  | .drop => drop

/-- The order in which the locks are taken. -/
def rank : Lock → Fin 7
  | .reconnectGate => 0
  | .readGate => 1
  | .main => 2
  | .mtrs => 3
  | .wsock => 4
  | .rsock => 5
  | .firmware => 6

/-- Every path of every operation keeps to the order. -/
theorem script_ordered (op : Op) : (script op).Ordered rank [] := by
  cases op <;> decide

/-- **No deadlock.**  However many threads there are and however they take turns, no set of threads
waits for one another, and no thread waits for a lock of its own. -/
theorem run_deadlockFree {T : Type} [DecidableEq T] (ms : List (Move T Op)) {c : Config T Lock}
    (hrun : (Config.idle : Config T Lock).run script ms = some c) :
    (∀ S : Set T, ¬ c.Deadlocked S) ∧ ∀ t l, c.Waits t l → c.owner l ≠ some t := by
  have hdisc := (Config.disciplined_idle rank).run script_ordered ms hrun
  refine ⟨Config.not_deadlocked hdisc, fun t l hwait howner => ?_⟩
  exact lt_irrefl _ (hdisc.rank_lt hwait howner)

/-- A reconnect has shut the old session down and waits for `main`, which a keepalive on another
clone holds while it waits for the writer. -/
def reconnectAgainstKeepAlive : List (Move (Fin 2) Op) :=
  [.call 0 .reconnect, .run 0 false, .run 0 true, .run 0 true, .run 0 false, .run 0 true,
   .run 0 true, .run 0 true, .run 0 true, .run 0 true, .run 0 true,
   .call 1 .keepAlive, .run 1 true, .run 1 true, .run 1 false, .run 1 true, .run 1 false]

theorem reconnectAgainstKeepAlive_deadlockFree :
    ∃ c, (Config.idle : Config (Fin 2) Lock).run script reconnectAgainstKeepAlive = some c ∧
      (c.Waits 0 .main ∧ c.owner .main = some 1 ∧ c.Waits 1 .wsock) ∧
      (∀ S : Set (Fin 2), ¬ c.Deadlocked S) ∧ ∀ t l, c.Waits t l → c.owner l ≠ some t := by
  have h : ((Config.idle : Config (Fin 2) Lock).run script reconnectAgainstKeepAlive).map
      (fun c => (awaited (c.todo 0), c.owner .main, awaited (c.todo 1))) =
      some (some .main, some 1, some .wsock) := by decide +kernel
  obtain ⟨c, hrun, hlast⟩ := Option.map_eq_some_iff.mp h
  simp only [Prod.mk.injEq] at hlast
  exact ⟨c, hrun, hlast, run_deadlockFree reconnectAgainstKeepAlive hrun⟩

end Locking

end LibWing

import LibWing.Session.Shared
import LibWing.Client.Messages

/-!
# Bulk writes

`set_nodes` and `restore` coalesce many messages into few writes.  They load `session_generation`
when they begin, and every flush checks under the writer lock that the session is still that one.

* `writeNodeValues`, `flushNodeWrites` : the loop over the items, and one batch;
* `setNodes`, `restore` : the calls.  A restore writes model selectors first and stops at one that
  fails.
-/

namespace LibWing

open Interleave

namespace Session

/-- `WRITE_BATCH_BYTES`. -/
def writeBatchBytes : ℕ := 8 * 1024

/-- `NodeValue`. -/
inductive NodeValue where
  | string (s : String)
  | float (f : F32)
  | int (n : Int32)
  deriving DecidableEq, Repr

/-- The value as `write_node_values` hands it to the encoder. -/
def NodeValue.toNative : NodeValue → NativeValue
  | string s => .string s
  | float f => .float f
  | int n => .integer n

/-- What a bulk call carries along: its thread, when it began, and the generation it loaded. -/
structure BulkCall where
  /-- The thread that makes it. -/
  thread : ℕ
  /-- The length of the log when it began. -/
  since : ℕ
  /-- The session it began on. -/
  generation : ℕ

variable (call : BulkCall)

/-- `results[i] = Err(e)` for every queued `i`. -/
def failAll (queued : List ℕ) (e : Error) (results : List (Result Unit)) : List (Result Unit) :=
  queued.foldl (fun results i => results.set i (.error e)) results

/-- `flush_node_writes`: the results afterwards.  `slot` says where in the results of the call the
items of this loop stand. -/
def flushNodeWrites (slot : ℕ → ℕ) (buf : List UInt8) (queued : List ℕ)
    (results : List (Result Unit)) : Thread (List (Result Unit)) :=
  if buf = [] then return results
  else .atomically fun env s =>
    let unwritten (s : Shared) : Shared :=
      s.record call.thread (.unwritten call.since (queued.map slot))
    let handed (s : Shared) : Shared := s.record call.thread
      (.handed call.since s.installed s.reconnecting s.reader.streamTainted buf)
    if s.reader.streamTainted then (failAll queued .connectionError results, unwritten s)
    else if s.reconnecting || s.sessionGeneration ≠ call.generation then
      (failAll queued .reconnecting results, unwritten s)
    else match env.write with
      | .ok () => (results, handed (s.write buf))
      | .error kind => (failAll queued (.io kind) results, unwritten (handed s))

/-- The loop of `write_node_values`, from item `i` on. -/
def writeLoop (slot : ℕ → ℕ) : List (Int32 × NodeValue) → ℕ → List UInt8 → List ℕ →
    List (Result Unit) → Thread (List (Result Unit))
  | [], _, buf, queued, results => flushNodeWrites call slot buf queued results
  | (id, value) :: items, i, buf, queued, results => do
    let continueWith (buf : List UInt8) (queued : List ℕ) (results : List (Result Unit)) :
        Thread (List (Result Unit)) :=
      if buf.length ≥ writeBatchBytes then do
        let results ← flushNodeWrites call slot buf queued results
        writeLoop slot items (i + 1) [] [] results
      else writeLoop slot items (i + 1) buf queued results
    if ← .load (·.reader.streamTainted) then
      continueWith buf queued (results ++ [.error .connectionError])
    else match appendValueMessage buf id value.toNative with
      | .ok buf => continueWith buf (queued ++ [i]) (results ++ [.ok ()])
      | .error e => continueWith buf queued (results ++ [.error e])

/-- `write_node_values`. -/
def writeNodeValues (slot : ℕ → ℕ) (items : List (Int32 × NodeValue)) :
    Thread (List (Result Unit)) :=
  writeLoop call slot items 0 [] [] []

/-- The load of `session_generation` with which a bulk call begins. -/
def beginBulk (t : ℕ) : Thread BulkCall := .atomically fun _ s =>
  (⟨t, s.log.length, s.sessionGeneration⟩, s.record t (.bulkBegan s.sessionGeneration s.installed))

/-- A bulk call returns. -/
def finishBulk (results : List (Result Unit)) : Thread (List (Result Unit)) :=
  .atomically fun _ s =>
  (results, s.record call.thread (.bulkReturned call.since results))

/-- `set_nodes`. -/
def setNodes (t : ℕ) (values : List (Int32 × NodeValue)) : Thread (List (Int32 × Result Unit)) := do
  let call ← beginBulk t
  let results ← writeNodeValues call id values
  let results ← finishBulk call results
  return (values.map (·.1)).zip results

/-! ### Restoring a dump -/

/-- `DumpEntry`. -/
structure DumpEntry where
  /-- The path of the node. -/
  fullname : String
  /-- Its id. -/
  id : Int32
  /-- Its value. -/
  value : NodeValue

/-- `fullname.rsplit('/').next() == Some("mdl")`. -/
def isSelector (fullname : String) : Bool := (fullname.splitOn "/").getLast? = some "mdl"

/-- `restore_order_key`. -/
def restoreOrderKey (fullname : String) : Bool × ℕ :=
  if isSelector fullname then (false, fullname.toList.count '/') else (true, 0)

/-- The order of keys: selectors first, the outermost first. -/
def keyLe (a b : Bool × ℕ) : Bool := (!a.1 && b.1) || (a.1 = b.1 && a.2 ≤ b.2)

/-- `ordered`, sorted by key; entries with the same key keep their order. -/
def restoreOrder (entries : List DumpEntry) : List DumpEntry :=
  entries.mergeSort fun a b => keyLe (restoreOrderKey a.fullname) (restoreOrderKey b.fullname)

/-- A restore in progress. -/
structure RestoreState where
  /-- The results so far. -/
  results : List (String × Result Unit)
  /-- The entries that wait for a flush, with their places in the results. -/
  batch : List (ℕ × DumpEntry)
  /-- A selector could not be written, so nothing more is. -/
  selectorFailed : Bool

/-- `results[slot].1 = result`. -/
def setResult (results : List (String × Result Unit)) (slot : ℕ) (result : Result Unit) :
    List (String × Result Unit) :=
  results.modify slot fun entry => (entry.1, result)

/-- `flush_restore_batch`. -/
def flushRestoreBatch (r : RestoreState) : Thread RestoreState := do
  let slots := r.batch.map (·.1)
  let written ← writeNodeValues call (fun i => slots.getD i 0)
    (r.batch.map fun (_, entry) => (entry.id, entry.value))
  return { r with
    results := (slots.zip written).foldl (fun results p => setResult results p.1 p.2) r.results
    batch := [] }

/-- One entry of a restore. -/
def restoreEntry (readOnly : String → Bool) (entry : DumpEntry) (r : RestoreState) :
    Thread RestoreState :=
  let slot := r.results.length
  if r.selectorFailed || readOnly entry.fullname then
    return { r with results := r.results ++ [(entry.fullname, .error .invalidInput)] }
  else
    let r := { r with
      results := r.results ++ [(entry.fullname, .ok ())]
      batch := r.batch ++ [(slot, entry)] }
    if isSelector entry.fullname then do
      let r ← flushRestoreBatch call r
      return { r with selectorFailed := (r.results[slot]?.map (·.2)) ≠ some (.ok ()) }
    else return r

/-- The loop of `restore`, and the flush after it. -/
def restoreLoop (readOnly : String → Bool) : List DumpEntry → RestoreState → Thread RestoreState
  | [], r => flushRestoreBatch call r
  | entry :: entries, r => do
    let r ← restoreEntry call readOnly entry r
    restoreLoop readOnly entries r

/-- `restore`; `readOnly` is what the property map says of a name. -/
def restore (t : ℕ) (readOnly : String → Bool) (entries : List DumpEntry) :
    Thread (List (String × Result Unit)) := do
  let call ← beginBulk t
  let r ← restoreLoop call readOnly (restoreOrder entries) ⟨[], [], false⟩
  let _ ← finishBulk call (r.results.map (·.2))
  return r.results

end Session

end LibWing

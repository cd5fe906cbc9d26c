import LibWing.Console.Attended
import LibWing.Schema.Live
import LibWing.Tools.Snap

/-!
# Capturing the models of a slot

`wingdrive` selects each model of a slot in turn, takes the values of its parameters, and puts the
slot back.  Before the first selection it writes the values it will put back to a recovery file.

* `Drive`, `Action`, `Moment` : the console, the disk and what has been done so far;
* `readSettledWith` : the last value of a node that arrives within a time;
* `snapshotLeaves`, `captureModels`, `restoreAll`, `checkAll` : the loops;
* `captureModelSlot` : `capture_model_slot`.

A call of the console and a publication are whole programs here; between them the disk stays as it
is.
-/

namespace LibWing

open Stateful Session

/-! ### The console -/

namespace Console

variable (w : World)

/-- `get_node_data_by_name`. -/
def getNodeDataByName (map : PropertyMap) (fullname : String) (timeout : Time) :
    ConsoleM (WingNodeData × List WingResponse) := do
  let id ← ofExcept (required (nameToId map fullname))
  getNodeData w id timeout

/-- What `set_string`, `set_float` and `set_int` share. -/
def setMessage (message : Result (List UInt8)) : ConsoleM Unit := do
  ensureStreamUsable
  let buf ← ofExcept message
  writeAll w buf

/-- `set_string`. -/
def setString (id : Int32) (value : String) : ConsoleM Unit :=
  setMessage w (setStringMessage id value)

/-- `set_float`. -/
def setFloat (id : Int32) (value : F32) : ConsoleM Unit := setMessage w (setFloatMessage id value)

/-- `set_int`. -/
def setInt (id : Int32) (value : Int32) : ConsoleM Unit := setMessage w (setIntMessage id value)

end Console

namespace Wingdrive

open AtomicWrite Files Console

/-- Write a value in its own encoding. -/
def setSnap (w : World) (id : Int32) : Snap → ConsoleM Unit
  | .str value => setString w id value
  | .float value => setFloat w id value
  | .int value => setInt w id value

/-- The loop of `read_settled_with`: the last value of the node so far.  Every response that is read
is one fewer to read, so the fuel is not used up. -/
def settledLoop (w : World) (id : Int32) (deadline : Time) (snapshot : WingNodeData → Snap) :
    ℕ → Option Snap → ConsoleM (Option Snap)
  | 0, _ => throw .connectionError
  | fuel + 1, last => do
    let now ← instantNow w
    if now ≥ deadline then return last
    else match ← attempt (readTimeout w (deadline - now)) with
      | .ok (.nodeData responseId data) =>
        settledLoop w id deadline snapshot fuel
          (if responseId = id then some (snapshot data) else last)
      | .ok _ => settledLoop w id deadline snapshot fuel last
      | .error .timeout => return last
      | .error error => throw error

/-- `read_settled_with`. -/
def readSettledWith (w : World) (id : Int32) (window : Time) (snapshot : WingNodeData → Snap) :
    ConsoleM Snap := do
  requestNodeData w id
  let now ← instantNow w
  let c ← get
  match ← settledLoop w id (now + window) snapshot (c.main.pending.length + c.budget + 1) none with
  | some value => return value
  | none => throw .timeout

/-- `read_settled_for_def`. -/
def readSettledForDef (w : World) (t : Texts) (d : WingNodeDef) (window : Time) : ConsoleM Snap :=
  readSettledWith w d.id window fun data => snapForDef t data d

/-! ### What is done -/

/-- An entry of `saved`: a leaf, or the selector, and its original value. -/
structure Saved where
  /-- The path of the leaf. -/
  path : String
  /-- Its definition. -/
  definition : WingNodeDef
  /-- The value that was saved. -/
  value : Snap

/-- What the capture of a slot does, in the order in which it does it. -/
inductive Action where
  /-- An original value was read and put into `saved`. -/
  | snapshot (entry : Saved)
  /-- The recovery file was written, or was not. -/
  | published (result : Except IoError Unit)
  /-- The set message that selects a model. -/
  | select (model : String) (sent : Result Unit)
  /-- What was read behind it. -/
  | selected (model : String) (result : Result Snap)
  /-- A parameter of a model was read. -/
  | param (path : String) (result : Result WingNodeData)
  /-- The set message that puts entry `index` of `saved` back. -/
  | restore (index : ℕ) (entry : Saved) (sent : Result Unit)
  /-- What was read behind it. -/
  | readback (index : ℕ) (entry : Saved) (result : Result Snap)
  /-- What the final pass read. -/
  | check (entry : Saved) (result : Result Snap)
  /-- The recovery file was removed, or was not. -/
  | removed (result : Except IoError Unit)

/-- An action, and the disk behind it. -/
structure Moment where
  /-- What was done. -/
  action : Action
  /-- What was on the disk then. -/
  disk : Disk FilePath

/-- The state of the tool. -/
structure Drive where
  /-- The console. -/
  console : Console
  /-- The disk and the counter. -/
  host : Host
  /-- The values that were captured of each model. -/
  captured : List (String × Snap)
  /-- What has been done. -/
  moments : List Moment

/-- A program of the tool; an error is known by its text. -/
abbrev DriveM := EStateM String Drive

/-- A call of the console. -/
def call {α : Type} (x : ConsoleM α) : DriveM (Result α) := fun s =>
  .ok (outcome x s.console).1 { s with console := (outcome x s.console).2 }

/-- A program on the disk. -/
def onHost {α : Type} (x : Publication α) : DriveM (Except IoError α) := fun s =>
  .ok (outcome x s.host).1 { s with host := (outcome x s.host).2 }

/-- Note an action. -/
def note (action : Action) : DriveM Unit :=
  modify fun s => { s with moments := s.moments ++ [⟨action, s.host.disk⟩] }

/-- `map_err(..)?`. -/
def orFail {ε α : Type} (text : ε → String) : Except ε α → DriveM α
  | .ok a => return a
  | .error error => throw (text error)

/-- The surroundings of a capture. -/
structure Setup where
  /-- What the others do meanwhile. -/
  world : World
  /-- How values are shown. -/
  texts : Texts
  /-- The property map. -/
  map : PropertyMap
  /-- The file operations of the publication. -/
  env : AtomicWrite.Env
  /-- Why the recovery file cannot be removed. -/
  removal : Option IoError
  /-- The path of the slot. -/
  slot : String
  /-- The definition of its selector. -/
  mdlDef : WingNodeDef
  /-- The parameters of a model, if it has any. -/
  params : String × String → Option (List String)
  /-- Where the recovery file is. -/
  recoveryPath : FilePath
  /-- How long a reply is awaited. -/
  timeout : Time
  /-- The leaves of a model. -/
  activeLeaves : String → List (String × WingNodeDef)

/-- The path of the selector. -/
def Setup.mdlPath (u : Setup) : String := u.slot ++ "/mdl"

/-- `std::fs::remove_file`. -/
def removeFile (env : AtomicWrite.Env) (refused : Option IoError) (path : FilePath) :
    Publication Unit := do
  match refused with
  | some error => throw error
  | none =>
    match Disk.remove path (← get).disk with
    | .error fault => throw (env.errorOf fault)
    | .ok disk => change fun _ => disk

/-! ### The loops -/

variable (u : Setup)

/-- The loop that takes the original values. -/
def snapshotLeaves : List (String × WingNodeDef) → List Saved → DriveM (List Saved)
  | [], saved => return saved
  | (path, d) :: leaves, saved => do
    let fail (error : String) := "cannot snapshot " ++ path ++ "; no models changed: " ++ error
    let (data, _) ← orFail (fun error => fail (u.texts.error error))
      (← call (getNodeData u.world d.id u.timeout))
    let value ← orFail fail (restorableSnapForDef u.texts data d)
    if value.isFinite then
      note (.snapshot ⟨path, d, value⟩)
      snapshotLeaves leaves (saved ++ [⟨path, d, value⟩])
    else throw ("cannot snapshot non-finite value at " ++ path ++ "; no models changed")

/-- The loop that takes the parameters of a model. -/
def captureParams : List String → DriveM Unit
  | [] => return ()
  | path :: paths => do
    let result ← call (getNodeDataByName u.world u.map path u.timeout)
    note (.param path (result.map (·.1)))
    let (data, _) ← orFail u.texts.error result
    modify fun s => { s with captured := s.captured ++ [(path, snap data)] }
    captureParams paths

/-- The loop over the models. -/
def captureModels : List String → DriveM Unit
  | [] => return ()
  | model :: models => do
    if '*' ∈ model.toList then captureModels models
    else
      let sent ← call (setString u.world u.mdlDef.id model)
      note (.select model sent)
      orFail u.texts.error sent
      let result ← call (readSettledForDef u.world u.texts u.mdlDef u.timeout)
      note (.selected model result)
      let selected ← orFail u.texts.error result
      if selected.eq (.str model) then
        captureParams u ((u.params (u.slot, model)).getD [])
        captureModels models
      else throw ("model " ++ model ++ " did not settle at " ++ u.slot)

/-- `verify_restore`. -/
def verifyRestore (t : Texts) (path : String) (original : Snap) (writeResult : Result Unit)
    (readback : Result Snap) : Except String Unit :=
  match writeResult, readback with
  | .error error, _ => .error ("RESTORE FAILED for " ++ path ++ ": write: " ++ t.error error)
  | .ok _, .error error => .error ("RESTORE FAILED for " ++ path ++ ": readback: " ++ t.error error)
  | .ok _, .ok readback =>
    if readback.eq original then .ok ()
    else .error ("RESTORE FAILED for " ++ path ++ ": before=" ++ original.debug t ++ " after=" ++
      readback.debug t)

/-- What is read behind a set message, if it was sent. -/
def readBehind (d : WingNodeDef) : Result Unit → DriveM (Result Snap)
  | .ok _ => call (readSettledForDef u.world u.texts d u.timeout)
  | .error _ => return .error .timeout

/-- The loop that puts the entries back: what failed, and whether the selector is back. -/
def restoreAll : ℕ → List Saved → List String → Bool → DriveM (List String × Bool)
  | _, [], failures, selectorRestored => return (failures, selectorRestored)
  | index, entry :: saved, failures, selectorRestored => do
    let write ← call (setSnap u.world entry.definition.id entry.value)
    note (.restore index entry write)
    let readback ← readBehind u entry.definition write
    note (.readback index entry readback)
    match verifyRestore u.texts entry.path entry.value write readback with
    | .error error =>
      -- Never write children under an unconfirmed selector.
      if index = 0 then return (failures ++ [error], selectorRestored)
      else restoreAll (index + 1) saved (failures ++ [error]) selectorRestored
    | .ok _ => restoreAll (index + 1) saved failures (decide (index = 0) || selectorRestored)

/-- What the final pass says of an entry. -/
def checkFailure (t : Texts) (entry : Saved) : Result Snap → Option String
  | .ok readback =>
    if readback.eq entry.value then none
    else some ("FINAL RESTORE CHECK FAILED for " ++ entry.path ++ ": before=" ++
      entry.value.debug t ++ " after=" ++ readback.debug t)
  | .error error =>
    some ("FINAL RESTORE CHECK FAILED for " ++ entry.path ++ ": readback: " ++ t.error error)

/-- The final pass: what failed. -/
def checkAll : List Saved → List String → DriveM (List String)
  | [], failures => return failures
  | entry :: saved, failures => do
    let readback ← call (readSettledForDef u.world u.texts entry.definition u.timeout)
    note (.check entry readback)
    checkAll saved (failures ++ (checkFailure u.texts entry readback).toList)

/-- The final pass is made if the selector is back. -/
def finalPass (selectorRestored : Bool) (saved : List Saved) (failures : List String) :
    DriveM (List String) :=
  if selectorRestored then checkAll u saved failures else return failures

/-! ### The capture -/

/-- What `capture_model_slot` does before the first selection: the original values, in the recovery
file. -/
def takeSnapshot : DriveM (List Saved) := do
  let (originalData, _) ← orFail
    (fun error => "cannot capture original selector " ++ u.mdlPath ++ ": " ++ u.texts.error error)
    (← call (getNodeData u.world u.mdlDef.id u.timeout))
  let original ← orFail (fun error => "cannot restore selector " ++ u.mdlPath ++ ": " ++ error)
    (restorableSnapForDef u.texts originalData u.mdlDef)
  match original with
  | .str originalValue =>
    if (u.mdlDef.stringEnum.getD []).any fun item => item.item = originalValue then
      if '*' ∈ originalValue.toList then
        throw ("selector " ++ u.mdlPath ++ " contains unrestorable pseudo-model " ++
          u.texts.stringDebug originalValue)
      else
        note (.snapshot ⟨u.mdlPath, u.mdlDef, original⟩)
        let saved ← snapshotLeaves u (u.activeLeaves originalValue)
          [⟨u.mdlPath, u.mdlDef, original⟩]
        let written ← onHost (writePathValues u.texts u.env u.recoveryPath
          (saved.map fun entry => (entry.path, entry.value)))
        note (.published written)
        orFail IoError.message written
        return saved
    else throw ("cannot snapshot unknown model " ++ u.texts.stringDebug originalValue ++ " at " ++
      u.mdlPath ++ "; no models changed")
  | _ => throw ("selector " ++ u.mdlPath ++ " is not a string")

/-- What it does behind the last selection. -/
def restoreSlot (saved : List Saved) (captureResult : Except String Unit) : DriveM Unit := do
  let (failures, selectorRestored) ← restoreAll u 0 saved [] false
  let failures ← finalPass u selectorRestored saved failures
  if failures ≠ [] then
    throw (String.intercalate "; " failures ++ "; recovery retained at " ++ u.recoveryPath.display)
  else
    let removed ← onHost (removeFile u.env u.removal u.recoveryPath)
    note (.removed removed)
    orFail IoError.message removed
    orFail id captureResult

/-- `capture_model_slot`. -/
def captureModelSlot (models : List String) : DriveM Unit := do
  let saved ← takeSnapshot u
  let captureResult ← attempt (captureModels u models)
  restoreSlot u saved captureResult

end Wingdrive

end LibWing

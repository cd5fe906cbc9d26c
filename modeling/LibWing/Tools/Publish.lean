import LibWing.Basic
import LibWing.Lib.Files
import LibWing.Lib.Stateful

/-!
# Publication of outputs

The tools stage their outputs beside the destinations, move the previous files out of the way and
rename the staged files into place.

* `stagedPath` : the names of the files beside a destination;
* `Op`, `Env`, `Host` : the operations of a call, those that the operating system refuses, and what
  there is on the disk, with all that there was;
* `stageAll`, `backupAll`, `publishAll` : the three loops, each with what it undoes when it fails;
* `publishOutputs` : `publish_outputs`.

A path is a place on the disk: two paths that name one file are one path here.  An operation that is
refused changes nothing, but for a write, which may have written anything.  What is printed is left
out.
-/

namespace LibWing

namespace AtomicWrite

open Files Stateful

/-- A path: a directory, with its slash, and a name in it. -/
structure FilePath where
  /-- The directory. -/
  parent : String
  /-- The name in it. -/
  fileName : String
  deriving DecidableEq

/-- `path.display()`. -/
def FilePath.display (path : FilePath) : String := path.parent ++ path.fileName

/-- `std::io::Error`. -/
structure IoError where
  /-- Its kind. -/
  kind : IoErrorKind
  /-- Its text. -/
  message : String

/-- An output: a destination and its contents. -/
abbrev Output := FilePath × List UInt8

/-- The operations of a call; `i` is the number of the output they are for. -/
inductive Op where
  | check (i : ℕ)
  | create (i : ℕ)
  | write (i : ℕ)
  | sync (i : ℕ)
  | present (i : ℕ)
  | link (i : ℕ)
  | unlink (i : ℕ)
  | publish (i : ℕ)
  /-- Removing the backup of a destination that could not be removed. -/
  | unlinkBackup (i : ℕ)
  | discard (staged : FilePath)
  | withdraw (published : FilePath)
  | restore (original : FilePath)
  | clear (backup : FilePath)
  deriving DecidableEq

/-- The operations of staging, backup and publication, as opposed to those that undo them. -/
def Op.IsMain : Op → Prop
  | .check _ | .create _ | .write _ | .sync _ | .present _ | .link _ | .unlink
      _ | .publish _ => True
  | _ => False

/-- What the operating system does. -/
structure Env where
  /-- `std::process::id()`. -/
  pid : ℕ
  /-- The operations it refuses. -/
  refused : Op → Option IoError
  /-- What a write that fails has written. -/
  written : ℕ → List UInt8
  /-- The errors of operations that fail on their own. -/
  errorOf : Fault → IoError

/-- The disk, what it was before each change, and `NEXT_STAGED_PATH`. -/
structure Host where
  /-- What is on the disk. -/
  disk : Disk FilePath
  /-- What was there before each operation. -/
  past : List (Disk FilePath)
  /-- The counter of temporary files. -/
  next : UInt64

/-- All that the disk has been. -/
def Host.history (s : Host) : List (Disk FilePath) := s.disk :: s.past

abbrev Publication (α : Type) := EStateM IoError Host α

/-- The name of a file beside a destination. -/
def stagedName (env : Env) (path : FilePath) (sequence : UInt64) (suffix : String) : FilePath :=
  ⟨path.parent, "." ++ path.fileName ++ "." ++ toString env.pid ++ "." ++ toString sequence.toNat ++
    "." ++ suffix⟩

/-- `staged_path`. -/
def stagedPath (env : Env) (path : FilePath) (suffix : String) : Publication FilePath := do
  let sequence ← modifyGet fun s => (s.next, { s with next := s.next + 1 })
  return stagedName env path sequence suffix

/-- `publication_error`. -/
def publicationError (primary : IoError) (rollbackErrors : List String) : IoError :=
  if rollbackErrors.isEmpty then primary
  else ⟨primary.kind, primary.message ++ "; rollback also failed: " ++
    String.intercalate "; " rollbackErrors⟩

/-- Change the disk. -/
def change (f : Disk FilePath → Disk FilePath) : Publication PUnit :=
  modify fun s => { s with disk := f s.disk, past := s.disk :: s.past }

/-- One operation. -/
def perform (env : Env) (op : Op) (f : Disk FilePath → Except Fault (Disk FilePath)) :
    Publication PUnit := do
  match env.refused op with
  | some error => throw error
  | none =>
    match f (← get).disk with
    | .error fault => throw (env.errorOf fault)
    | .ok disk => change fun _ => disk

/-! ### Staging -/

/-- Existing destinations are regular files. -/
def checkAll (env : Env) : ℕ → List Output → Publication PUnit
  | _, [] => return ⟨⟩
  | i, (path, _) :: outputs => do
    match env.refused (.check i), (← get).disk path with
    | none, some .other =>
      throw ⟨.other 0, "refusing to replace non-regular output " ++ path.display⟩
    | _, _ => checkAll env (i + 1) outputs

/-- Create a staged file, write it and sync it. -/
def writeStaged (env : Env) (i : ℕ) (temp : FilePath) (contents : List UInt8) :
    Publication PUnit := do
  perform env (.create i) (Disk.createNew temp)
  match env.refused (.write i) with
  | some error =>
    change (Disk.write temp (env.written i))
    throw error
  | none =>
    change (Disk.write temp contents)
    perform env (.sync i) .ok

/-- `for temp in staged`: remove them, whether that succeeds or not. -/
def discardAll (env : Env) : List FilePath → Publication PUnit
  | [] => return ⟨⟩
  | temp :: staged => do
    let _ ← attempt (perform env (.discard temp) (Disk.remove temp))
    discardAll env staged

/-- The loop that stages the outputs. -/
def stageAll (env : Env) : ℕ → List Output → List FilePath → Publication (List FilePath)
  | _, [], staged => return staged
  | i, (path, contents) :: outputs, staged => do
    let temp ← stagedPath env path "tmp"
    match ← attempt (writeStaged env i temp contents) with
    | .error error =>
      discardAll env staged
      throw error
    | .ok _ => stageAll env (i + 1) outputs (staged ++ [temp])

/-! ### Backups -/

/-- Rename the backups back, and what could not be. -/
def restoreAll (env : Env) : List (FilePath × FilePath) → Publication (List String)
  | [] => return []
  | (original, saved) :: backups => do
    let restored ← attempt (perform env (.restore original) (Disk.rename saved original))
    let errors ← restoreAll env backups
    match restored with
    | .error error =>
      return ("restore " ++ original.display ++ " from " ++ saved.display ++ ": " ++
        error.message) ::
        errors
    | .ok _ => return errors

/-- Move a file out of the way: link it to its backup and remove it. -/
def moveAside (env : Env) (i : ℕ) (path backup : FilePath) : Publication PUnit := do
  perform env (.link i) (Disk.hardLink path backup)
  match ← attempt (perform env (.unlink i) (Disk.remove path)) with
  | .error error =>
    let _ ← attempt (perform env (.unlinkBackup i) (Disk.remove backup))
    throw error
  | .ok _ => return ⟨⟩

/-- The loop that moves the previous files out of the way. -/
def backupAll (env : Env) (staged : List FilePath) :
    ℕ → List Output → List (FilePath × FilePath) → Publication (List (FilePath × FilePath))
  | _, [], backups => return backups
  | i, (path, _) :: outputs, backups => do
    -- `exists` is false where it cannot tell.
    if (env.refused (.present i)).isNone && ((← get).disk path).isSome then
      let backup ← stagedPath env path "bak"
      match ← attempt (moveAside env i path backup) with
      | .error error =>
        let errors ← restoreAll env backups.reverse
        discardAll env staged
        throw (publicationError error errors)
      | .ok _ => backupAll env staged (i + 1) outputs (backups ++ [(path, backup)])
    else backupAll env staged (i + 1) outputs backups

/-! ### Publication -/

/-- Remove what was published, and what could not be. -/
def withdrawAll (env : Env) : List FilePath → Publication (List String)
  | [] => return []
  | published :: rest => do
    let removed ← attempt (perform env (.withdraw published) (Disk.remove published))
    let errors ← withdrawAll env rest
    match removed with
    | .error error =>
      return ("remove partially published " ++ published.display ++ ": " ++ error.message) :: errors
    | .ok _ => return errors

/-- The loop that renames the staged files into place; `published` are those that are. -/
def publishAll (env : Env) (backups : List (FilePath × FilePath)) :
    ℕ → List FilePath → List (Output × FilePath) → Publication PUnit
  | _, _, [] => return ⟨⟩
  | i, published, ((path, _), temp) :: rest => do
    match ← attempt (perform env (.publish i) (Disk.rename temp path)) with
    | .error error =>
      let removeErrors ← withdrawAll env published
      let restoreErrors ← restoreAll env backups.reverse
      discardAll env (temp :: rest.map (·.2))
      throw (publicationError error (removeErrors ++ restoreErrors))
    | .ok _ => publishAll env backups (i + 1) (published ++ [path]) rest

/-- Remove the backups, whether that succeeds or not. -/
def clearAll (env : Env) : List (FilePath × FilePath) → Publication PUnit
  | [] => return ⟨⟩
  | (_, backup) :: backups => do
    let _ ← attempt (perform env (.clear backup) (Disk.remove backup))
    clearAll env backups

/-- `publish_outputs`. -/
def publishOutputs (env : Env) (outputs : List Output) : Publication PUnit := do
  checkAll env 0 outputs
  let staged ← stageAll env 0 outputs []
  let backups ← backupAll env staged 0 outputs []
  publishAll env backups 0 [] (outputs.zip staged)
  clearAll env backups

end AtomicWrite

end LibWing

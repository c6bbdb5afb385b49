import SesameServer.Lib.Crash
import SesameServer.Lib.FileTree
import SesameServer.Lib.Outcome
import SesameServer.Restore.Journal

/- The part of a restore that replaces the data (`swap`) and the one that finishes
   or undoes a replacement that stopped (`recoverLocked`), `restore.go`.

   Paths are relative to the data directory, and both programs are the source's,
   one operation of the model for each call. Every call can be the one after which
   the machine stops, and every call can return an error; `point` is one with no
   effect on the tree (`syncDir`, `Sync`, `Close` and the test hook `cfg.step`).
   Calls take effect in order and at once, apart from `os.RemoveAll`, which takes
   away one path after another in the order of a listing.

   `Site.committed` is ghost: whether a journal of phase `committed` has been put
   in place. So is the constructor `handled`, which marks the errors that went
   through `finish`; the source returns `cause` itself. -/
namespace Sesame.Ops

open Crash FileTree
open Outcome (onlyIf)

variable {α β : Type}

structure Site (β : Type) where
  disk : Disk Bytes β
  committed : Bool := false

inductive Failure where
  /-- A call failed for a reason outside the model. -/
  | fault
  | disk (e : IoError)
  /-- "restore journal .restore-journal is not readable, so the data directory needs
      manual attention" -/
  | unreadable
  /-- "restore journal .restore-journal is not valid, so the data directory needs manual
      attention" -/
  | notValid
  /-- "restore journal .restore-journal names an unexpected item, so the data directory
      needs manual attention" -/
  | unexpectedItem
  /-- "a directory for the previous data cannot be created" -/
  | noAside
  /-- `cause`, from `finish`. -/
  | handled (cause : Failure)
  /-- "cause; rolling back also failed: recovery" -/
  | bothFailed (cause recovery : Failure)
  deriving DecidableEq

abbrev Fs (β : Type) := Prog Failure (Site β)

/-! The calls. -/

/-- A call that changes the tree. -/
def change (f : Disk Bytes β → Except IoError (Disk Bytes β)) : Fs β Unit :=
  op .fault fun s =>
    match f s.disk with
    | .ok d => .ok ((), { s with disk := d })
    | .error e => .error (.disk e)

def look (f : Disk Bytes β → α) : Fs β α := op .fault fun s => .ok (f s.disk, s)

/-- A call without effect on the tree. -/
def point : Fs β Unit := look fun _ => ()

def existsAt (p : List Bytes) : Fs β Bool := look fun d => (d.node p).isSome

def rename (p q : List Bytes) (name : Bytes) : Fs β Unit := change (·.rename p q name)

def remove (p : List Bytes) : Fs β Unit := change (·.remove p)

/-- `os.Remove`, with `fs.ErrNotExist` not an error. -/
def removeUnlessGone (p : List Bytes) : Fs β Unit :=
  onError (remove p) fun e =>
    match e with
    | .disk .notExist => pure ()
    | e => fail e

/-- One removal of `os.RemoveAll`. -/
def unlink (p : List Bytes) : Fs β Unit :=
  change fun d => if hp : p ≠ [] then .ok (d.unlink p hp) else .error .invalid

/-- `os.RemoveAll`. -/
def removeAll (p : List Bytes) : Fs β Unit := do
  let below ← look (·.listing p)
  forEach below unlink
  unlink p

/-- `os.Mkdir`, false for `fs.ErrExist`. -/
def mkdir (name : Bytes) : Fs β Bool :=
  op .fault fun s =>
    match s.disk.mkdir [] name with
    | .ok d => .ok (true, { s with disk := d })
    | .error .exist => .ok (false, s)
    | .error e => .error (.disk e)

/-! The journal. -/

/-- The rename of `writeJournal`. -/
def putJournal (state : Journal) : Fs β Unit :=
  op .fault fun s =>
    match s.disk.rename [journalTemp] [] journalName with
    | .ok d => .ok ((), ⟨d, s.committed || state.phase = .committed⟩)
    | .error e => .error (.disk e)

def writeJournal (codec : Codec β) (state : Journal) : Fs β Unit := do
  change (·.write [] journalTemp codec.blank)
  change (·.write [] journalTemp (codec.encode state))
  point
  point
  putJournal state
  point

/-- What `readJournal` makes of the file. -/
def journalOf (codec : Codec β) (d : Disk Bytes β) : Except Failure (Option Journal) :=
  match d.read [journalName] with
  | .error .notExist => .ok none
  | .error e => .error (.disk e)
  | .ok raw =>
    match codec.decode raw with
    | none => .error .unreadable
    | some state =>
      if state.version ≠ journalVersion ∨ ¬safeName state.staging ∨ ¬safeName state.aside then
        .error .notValid
      else if ¬(state.old ++ state.new).all managedName then .error .unexpectedItem
      else .ok (some state)

def readJournal (codec : Codec β) : Fs β (Option Journal) :=
  op .fault fun s => (journalOf codec s.disk).map (·, s)

/-! Recovery. -/

def cleanupCommitted (state : Journal) : Fs β Unit := do
  attempt (removeAll [state.staging])
  removeUnlessGone [journalName]
  attempt (remove [journalTemp])
  point

/-- Removes a new item, unless it has not been installed yet. -/
def uninstall (state : Journal) (name : Bytes) : Fs β Unit := do
  let stagedHere ← existsAt [state.staging, name]
  onlyIf (¬stagedHere) (removeAll [name])

def putBack (state : Journal) (name : Bytes) : Fs β Unit := do
  let inAside ← existsAt [state.aside, name]
  let inPlace ← existsAt [name]
  onlyIf (inAside && !inPlace) (rename [state.aside, name] [] name)

def rollBack (state : Journal) : Fs β Unit := do
  onlyIf (state.phase = .installing) (forEach state.new (uninstall state))
  forEach state.old (putBack state)
  point
  attempt (removeAll [state.staging])
  attempt (remove [state.aside])
  removeUnlessGone [journalName]
  attempt (remove [journalTemp])
  point

/-- What `recoverLocked` reports. -/
inductive Recovered where
  /-- `""` -/
  | nothing
  /-- `"completed"` -/
  | completed
  /-- `"rolled back"` -/
  | rolledBack
  deriving DecidableEq

def recoverLocked (codec : Codec β) : Fs β Recovered := do
  match ← readJournal codec with
  | none => pure .nothing
  | some state =>
    if state.phase = .committed then do
      cleanupCommitted state
      pure .completed
    else do
      rollBack state
      pure .rolledBack

/-- The error `swap` returns for `cause` after it has tried to undo its work. -/
def finish (codec : Codec β) (cause : Failure) : Fs β α := do
  let _ ← onError (recoverLocked codec) fun e => fail (.bothFailed cause e)
  fail (.handled cause)

def orFinish (codec : Codec β) (x : Fs β α) : Fs β α := onError x (finish codec)

/-! The replacement. -/

/-- The name `uniqueAside` tries: `stamp` is the time, formatted. -/
def candidate (stamp : Bytes) (attempt : Nat) : Bytes :=
  asidePrefix ++ (stamp ++ if 0 < attempt then utf8 "-" ++ Encoding.decimal attempt else [])

def firstFree (stamp : Bytes) : List Nat → Fs β Bytes
  | [] => fail .noAside
  | attempt :: rest => do
    if ← mkdir (candidate stamp attempt) then pure (candidate stamp attempt)
    else firstFree stamp rest

def uniqueAside (stamp : Bytes) : Fs β Bytes := firstFree stamp (List.range 100)

/-- The names present in the data directory and those present in staging. -/
def scan (staging : Bytes) : List Bytes → Fs β (List Bytes × List Bytes)
  | [] => pure ([], [])
  | name :: rest => do
    let present ← existsAt [name]
    let staged ← existsAt [staging, name]
    let (old, added) ← scan staging rest
    pure (if present then name :: old else old, if staged then name :: added else added)

def setAside (codec : Codec β) (aside name : Bytes) : Fs β Unit := do
  orFinish codec (rename [name] [aside] name)
  orFinish codec point

def install (codec : Codec β) (staging name : Bytes) : Fs β Unit := do
  orFinish codec (rename [staging, name] [] name)
  orFinish codec point

def swap (codec : Codec β) (staging stamp : Bytes) : Fs β Bytes := do
  let aside ← uniqueAside stamp
  let (old, added) ← scan staging managedItems
  let state : Journal := ⟨journalVersion, .movingOld, staging, aside, old, added⟩
  onError (writeJournal codec state) fun e => do
    attempt (remove [aside])
    fail e
  orFinish codec point
  forEach old (setAside codec aside)
  orFinish codec point
  orFinish codec (writeJournal codec { state with phase := .installing })
  orFinish codec point
  forEach added (install codec staging)
  orFinish codec point
  orFinish codec (writeJournal codec { state with phase := .committed })
  point
  cleanupCommitted { state with phase := .committed }
  pure aside

end Sesame.Ops

import Backrest.BackupInfo

/-!
# Lock files

Processes lock a file that they find by name. The lock is on the file itself and
lasts until it is closed, whatever happens to the name. A process that cannot get
the lock reads the file, and takes the lock as its own if the process that wrote it
has the same exec-id.
-/

namespace Lock

open Text

inductive LockFile where
  | archive
  | backup
  deriving DecidableEq

inductive LockType where
  | archive
  | backup
  | all

def lockFiles : LockType → List LockFile
  | .archive => [.archive]
  | .backup => [.backup]
  | .all => [.archive, .backup]

/-- How a process got a file: it has the lock on an inode, or its exec-id matched. -/
inductive LockFd where
  | locked (inode : Nat)
  | onExecId
  deriving DecidableEq

abbrev Got := List (LockFile × LockFd)

/-- The system call that `lockAcquireFile` makes next. -/
inductive Stage where
  | toOpen
  | toFlock (inode : Nat)
  | toRead (inode : Nat)
  | toClose (inode : Nat) (buffer : Str)
  | toWrite (inode : Nat)

inductive Local where
  | idle
  | acquiring (file : LockFile) (rest : List LockFile) (got : Got) (stage : Stage)
  | held (got : Got)
  | releasing (todo : Got)
  /-- The file was removed and is closed next. -/
  | closing (file : LockFile) (inode : Nat) (todo : Got)
  /-- The lock was not acquired. Files that were locked before are still open. -/
  | failed (left : Got)

/-- What a process writes into its lock file. -/
structure Ids (P : Type) where
  pid : P → Nat
  execId : P → Str

structure State (P : Type) where
  procs : P → Local
  names : LockFile → Option Nat
  content : Nat → Str
  locked : Nat → Option P
  /-- The inode of the next file that is created. -/
  next : Nat

/-- The calls that processes make. A call that may fail, or be tried again, says how it went. -/
inductive Event where
  | lockAcquire (lockType : LockType)
  | open_
  | openError (again : Bool)
  | flock
  | read
  | close (again : Bool)
  | write
  | writeError
  | lockRelease
  | remove
  | closeLock

section Step
variable {P : Type} [DecidableEq P] (ids : Ids P)

def State.set (s : State P) (p : P) (l : Local) : State P :=
  { s with procs := fun q => if q = p then l else s.procs q }

/-- A file is created under a name. -/
def State.create (s : State P) (file : LockFile) : State P :=
  { s with
    names := fun f => if f = file then some s.next else s.names f
    content := fun i => if i = s.next then [] else s.content i
    next := s.next + 1 }

def State.unlink (s : State P) (file : LockFile) : State P :=
  { s with names := fun f => if f = file then none else s.names f }

def State.setLocked (s : State P) (inode : Nat) (owner : Option P) : State P :=
  { s with locked := fun i => if i = inode then owner else s.locked i }

/-- Write at the start of a file. The file is not truncated. -/
def State.writeStart (s : State P) (inode : Nat) (text : Str) : State P :=
  { s with content := fun i => if i = inode then text ++ (s.content inode).drop text.length
                               else s.content i }

def lockText (p : P) : Str := fmtUInt (ids.pid p) ++ '\n' :: (ids.execId p ++ ['\n'])

def execIdMatches (buffer execId : Str) : Bool :=
  match strLstNewSplit '\n' buffer with
  | [_, second, _] => second = execId
  | _ => false

def acquired (file : LockFile) (fd : LockFd) (got : Got) : List LockFile → Local
  | [] => .held (got ++ [(file, fd)])
  | next :: rest => .acquiring next rest (got ++ [(file, fd)]) .toOpen

/-- Go on releasing. There is nothing to do for a lock on a matching exec-id. -/
def release : Got → Local
  | [] => .idle
  | (_, .onExecId) :: todo => release todo
  | (file, .locked inode) :: todo => .releasing ((file, .locked inode) :: todo)

def startAcquire (lockType : LockType) : Local :=
  match lockFiles lockType with
  | [] => .idle
  | file :: rest => .acquiring file rest [] .toOpen

/-- One call of a process. -/
def step (s : State P) (p : P) (event : Event) : Option (State P) :=
  match event, s.procs p with
  | .lockAcquire lockType, .idle => some (s.set p (startAcquire lockType))
  | .lockAcquire lockType, .failed [] => some (s.set p (startAcquire lockType))
  | .open_, .acquiring file rest got .toOpen =>
    match s.names file with
    | some inode => some (s.set p (.acquiring file rest got (.toFlock inode)))
    | none => some ((s.create file).set p (.acquiring file rest got (.toFlock s.next)))
  | .openError again, .acquiring file rest got .toOpen =>
    some (s.set p (if again then .acquiring file rest got .toOpen else .failed got))
  | .flock, .acquiring file rest got (.toFlock inode) =>
    match s.locked inode with
    | none => some ((s.setLocked inode (some p)).set p (.acquiring file rest got (.toWrite inode)))
    | some _ => some (s.set p (.acquiring file rest got (.toRead inode)))
  | .read, .acquiring file rest got (.toRead inode) =>
    some (s.set p (.acquiring file rest got (.toClose inode ((s.content inode).take 128))))
  | .close again, .acquiring file rest got (.toClose _ buffer) =>
    if execIdMatches buffer (ids.execId p) then some (s.set p (acquired file .onExecId got rest))
    else some (s.set p (if again then .acquiring file rest got .toOpen else .failed got))
  | .write, .acquiring file rest got (.toWrite inode) =>
    some ((s.writeStart inode (lockText ids p)).set p (acquired file (.locked inode) got rest))
  | .writeError, .acquiring file _ got (.toWrite inode) =>
    some (s.set p (.failed (got ++ [(file, .locked inode)])))
  | .lockRelease, .held got => some (s.set p (release got))
  | .remove, .releasing ((file, .locked inode) :: todo) =>
    some ((s.unlink file).set p (.closing file inode todo))
  | .closeLock, .closing _ inode todo =>
    some ((s.setLocked inode none).set p (release todo))
  | _, _ => none

/-- The calls of several processes in any order. -/
def run (s : State P) (calls : List (P × Event)) : Option (State P) :=
  calls.foldlM (fun s call => step ids s call.1 call.2) s

end Step

/-- The files a process has got and not yet released. -/
def fds : Local → Got
  | .acquiring _ _ got _ => got
  | .held got => got
  | .releasing todo => todo
  | .closing _ _ todo => todo
  | _ => []

/-- `lockAcquire` was successful, and this file is not released yet. It is when it was closed. -/
def Holding : Local → LockFile → Prop
  | .held got, file => ∃ fd, (file, fd) ∈ got
  | .releasing todo, file => ∃ fd, (file, fd) ∈ todo
  | .closing closed _ todo, file => file = closed ∨ ∃ fd, (file, fd) ∈ todo
  | _, _ => False

/-- The file was removed and is not closed yet. -/
def Closing (l : Local) (file : LockFile) : Prop := ∃ inode todo, l = .closing file inode todo

/-- When the last file is acquired, no process with another exec-id is about to close one of them. -/
def NoneCloses {P : Type} (ids : Ids P) (s : State P) (p : P) (got : Got) (rest : List LockFile) : Prop :=
  rest = [] → ∀ file ∈ got.map Prod.fst, ∀ q, Closing (s.procs q) file → ids.execId q = ids.execId p

/-- At the start no process runs. Files may be there, with any content. -/
structure Start {P : Type} (s : State P) : Prop where
  idle : ∀ p, s.procs p = .idle
  unlocked : ∀ i, s.locked i = none
  fresh : ∀ file i, s.names file = some i → i < s.next
  apart : ∀ file file' i, s.names file = some i → s.names file' = some i → file = file'

structure Safe {P : Type} (ids : Ids P) (s : State P) : Prop where
  one : ∀ file p q, Holding (s.procs p) file → Holding (s.procs q) file → ids.execId p = ids.execId q
  failed : ∀ p left, s.procs p = .failed left → ∀ i, s.locked i ≠ some p

def Careful {P : Type} (ids : Ids P) (s : State P) (p : P) (event : Event) : Prop :=
  match event, s.procs p with
  | .flock, .acquiring file _ _ (.toFlock inode) => s.locked inode = none → s.names file = some inode
  | .close again, .acquiring file rest got (.toClose inode buffer) =>
    if execIdMatches buffer (ids.execId p) then
      (s.names file = some inode ∧ (s.content inode).take 128 = buffer ∧
        ∃ q, (file, .locked inode) ∈ fds (s.procs q)) ∧
        NoneCloses ids s p (got ++ [(file, .onExecId)]) rest
    else again = false → ∀ other i, (other, .locked i) ∉ got
  | .openError again, .acquiring _ _ got .toOpen => again = false → ∀ other i, (other, .locked i) ∉ got
  | .write, .acquiring file rest got (.toWrite inode) =>
    NoneCloses ids s p (got ++ [(file, .locked inode)]) rest
  | .writeError, _ => False
  | .remove, .releasing ((file, .locked _) :: _) => ∀ q, (file, .onExecId) ∉ fds (s.procs q)
  | _, _ => True

end Lock

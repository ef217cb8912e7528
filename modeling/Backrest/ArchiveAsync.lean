import Backrest.BackupCommon
import Backrest.FileTree
import Backrest.Interleave

/-!
# Asynchronous archiving through the spool

The foreground commands `archive-get` and `archive-push` wait for status files
that their asynchronous parts write to a queue of the spool: `in` for get, `out`
for push. A status file is `<segment>.ok` or `<segment>.error`, and `global.error`
stands for all segments. Every command is a program of single storage
operations, so that the four of them can be interleaved.
-/

namespace ArchiveAsync

open Text BackupCommon FileTree Interleave

inductive ArchiveMode where
  | get
  | push
  deriving DecidableEq, Repr

def storageSpoolArchiveIn : Str := "<SPOOL:ARCHIVE:IN>".toList
def storageSpoolArchiveOut : Str := "<SPOOL:ARCHIVE:OUT>".toList
def statusExtError : Str := ".error".toList
def statusExtOk : Str := ".ok".toList
def statusExtReady : Str := ".ready".toList
def statusFileGlobal : Str := "global".toList
def statusFileGlobalError : Str := statusFileGlobal ++ statusExtError
def storageFileTempExt : Str := ".pgbackrest.tmp".toList
def pgPathArchiveStatus : Str := "archive_status".toList

/-- An error as the status files carry it, by its code. -/
structure Failure where
  code : Int
  message : Str
  deriving DecidableEq

section Storage

/-- The spool, and the files of PostgreSQL. -/
structure Host where
  spool : Tree Str Str
  pg : Tree Str Str

/-- What a removal found. -/
inductive Removal where
  | removed
  | missing
  | isPath

/-- The storage operations of the commands. All but the last are on a queue of the spool. -/
inductive HostOp where
  | pathCreate (queue : Str)
  | list (queue : Str)
  | fileExists (queue file : Str)
  | get (queue file : Str)
  | remove (queue file : Str)
  | put (queue file content : Str)
  | move (queue file fileNew : Str)
  | moveOut (queue file : Str)
  | pgList (path : List Str)

abbrev Answer : HostOp → Type
  | .pathCreate _ => Bool
  | .list _ => Option (List Str)
  | .fileExists _ _ => Bool
  | .get _ _ => Option Str
  | .remove _ _ => Removal
  | .put _ _ _ => Bool
  | .move _ _ _ => Bool
  | .moveOut _ _ => Bool
  | .pgList _ => Option (List Str)

/-- The names below a path, unless it is missing. -/
def listing (tree : Tree Str Str) (path : List Str) : Option (List Str) :=
  match tree.node path with
  | some .dir => some (tree.children path)
  | _ => none

def isPath (tree : Tree Str Str) (path : List Str) : Bool :=
  match tree.node path with
  | some .dir => true
  | _ => false

def handle : (op : HostOp) → Host → Answer op × Host
  | .pathCreate queue, host =>
    ((host.spool.read [queue]).isNone, { host with spool := host.spool.mkdir [queue] })
  | .list queue, host => (listing host.spool [queue], host)
  | .fileExists queue file, host => ((host.spool.read [queue, file]).isSome, host)
  | .get queue file, host => (host.spool.read [queue, file], host)
  | .remove queue file, host =>
    match host.spool.node [queue, file] with
    | some (.file _) => (.removed, { host with spool := host.spool.remove [queue, file] })
    | some .dir => (.isPath, host)
    | none => (.missing, host)
  | .put queue file content, host =>
    if isPath host.spool [queue, file] then (false, host)
    else (true, { host with spool := (host.spool.mkdir [queue]).put [queue, file] content })
  | .move queue file fileNew, host =>
    match host.spool.read [queue, file] with
    | some content =>
      if isPath host.spool [queue, fileNew] then (false, host)
      else (true, { host with
        spool := (host.spool.remove [queue, file]).put [queue, fileNew] content })
    | none => (false, host)
  | .moveOut queue file, host =>
    ((host.spool.read [queue, file]).isSome,
      if (host.spool.read [queue, file]).isSome then
        { host with spool := host.spool.remove [queue, file] }
      else host)
  | .pgList path, host => (listing host.pg path, host)

/-- A program of storage operations. -/
abbrev Command := Prog Failure Answer

def ask (op : HostOp) : Command (Answer op) := Prog.ask op

theorem run_ask_op (op : HostOp) (host : Host) :
    (ask op).run handle host = (.ok (handle op host).1, (handle op host).2) := rfl

def storagePathCreate (queue : Str) : Command PUnit.{1} := do
  if ← ask (.pathCreate queue) then pure ⟨⟩
  else throw ⟨47, "unable to create path '".toList ++ queue ++ ['\'']⟩

/-- `storageListP` with `.errorOnMissing = true`. -/
def storageList (queue : Str) : Command (List Str) := do
  match ← ask (.list queue) with
  | some names => return names
  | none => throw ⟨73, "unable to list file info for missing path '".toList ++ queue ++ ['\'']⟩

def storageExists (queue file : Str) : Command Bool := ask (.fileExists queue file)

def storageGet (queue file : Str) : Command Str := do
  match ← ask (.get queue file) with
  | some content => return content
  | none => throw ⟨55, "unable to open missing file '".toList ++ queue ++ '/' :: file ++ ['\'']⟩

def storageRemoveError (queue file : Str) : Failure :=
  ⟨60, "unable to remove '".toList ++ queue ++ '/' :: file ++ ['\'']⟩

def storageRemove (queue file : Str) (errorOnMissing : Bool) : Command PUnit.{1} := do
  match ← ask (.remove queue file) with
  | .removed => pure ⟨⟩
  | .missing => if errorOnMissing then throw (storageRemoveError queue file) else pure ⟨⟩
  | .isPath => throw (storageRemoveError queue file)

theorem run_storageRemove_file {queue file content : Str} {host : Host}
    (isFile : host.spool.node [queue, file] = some (.file content)) (errorOnMissing : Bool) :
    (storageRemove queue file errorOnMissing).run handle host =
      (.ok ⟨⟩, { host with spool := host.spool.remove [queue, file] }) := by
  rw [storageRemove, run_bind_of_ok (run_ask_op (.remove queue file) host), handle, isFile]
  rfl

def storagePut (queue file content : Str) : Command PUnit.{1} := do
  if ← ask (.put queue file content) then pure ⟨⟩
  else throw ⟨74, "unable to move '".toList ++ queue ++ '/' :: file ++ ['\'']⟩

/-- `storageMoveP` inside a queue. -/
def storageMove (queue file fileNew : Str) : Command PUnit.{1} := do
  if ← ask (.move queue file fileNew) then pure ⟨⟩
  else throw ⟨55, "unable to move missing source '".toList ++ queue ++ '/' :: file ++ ['\'']⟩

/-- `storageMoveP` to a path that is not in the spool. -/
def storageMoveOut (queue file : Str) : Command PUnit.{1} := do
  if ← ask (.moveOut queue file) then pure ⟨⟩
  else throw ⟨55, "unable to move missing source '".toList ++ queue ++ '/' :: file ++ ['\'']⟩

end Storage

section Status

def strEndsWith (this endsWith : Str) : Bool := endsWith.isSuffixOf this

/-- Cut the extension off a name. -/
def strCut (this ext : Str) : Str := strSubN this 0 (this.length - ext.length)

def isSpace (c : Char) : Bool := c == ' ' || c == '\t' || c == '\r' || c == '\n'

def strTrim (this : Str) : Str := (((this.dropWhile isSpace).reverse).dropWhile isSpace).reverse

/-- `cvtZToInt`: an optional sign and decimal digits. -/
def cvtZToInt (value : Str) : Except Failure Int :=
  let (negative, digits) := match value with
    | '-' :: rest => (true, rest)
    | '+' :: rest => (false, rest)
    | rest => (false, rest)
  let n : Int := if negative then -(cvtDigits digits : Int) else cvtDigits digits
  if digits.isEmpty || !digits.all isDigit || decide (n > 2147483647) || decide (n < -2147483648) then
    .error ⟨29, "unable to convert base 10 string '".toList ++ value ++ "' to int".toList⟩
  else .ok n

def fmtInt (n : Int) : Str :=
  if n < 0 then '-' :: fmtUInt n.natAbs else fmtUInt n.natAbs

def archiveAsyncSpoolQueue (archiveMode : ArchiveMode) : Str :=
  if archiveMode = .get then storageSpoolArchiveIn else storageSpoolArchiveOut

/-- The mode is not used. -/
def archiveAsyncErrorClear (_archiveMode : ArchiveMode) (archiveFile : Str) : Command PUnit.{1} := do
  storageRemove storageSpoolArchiveOut (archiveFile ++ statusExtError) false
  storageRemove storageSpoolArchiveOut statusFileGlobalError false

def statusContent (statusFile content : Str) : Except Failure (Option (Int × Str)) :=
  if content = [] then .ok none
  else match content.dropWhile (· ≠ '\n') with
    | [] => .error ⟨29, statusFile ++ " content must have at least two lines".toList⟩
    | _ :: rest =>
      if rest = [] then .error ⟨29, statusFile ++ " message must be > 0".toList⟩
      else do
        let code ← cvtZToInt (content.takeWhile (· ≠ '\n'))
        return some (code, strTrim rest)

def liftStatus {α : Type} : Except Failure α → Command α
  | .ok a => pure a
  | .error e => throw e

def statusErrorFile (spoolQueue walSegment : Str) : Command (Option Str) := do
  if ← storageExists spoolQueue (walSegment ++ statusExtError) then
    return some (walSegment ++ statusExtError)
  else if ← storageExists spoolQueue statusFileGlobalError then return some statusFileGlobalError
  else return none

/-- Has the segment been processed? The list holds the warning that is logged, if any. -/
def archiveAsyncStatus (archiveMode : ArchiveMode) (walSegment : Str)
    (throwOnError warnOnOk : Bool) : Command (Bool × List Str) := do
  let spoolQueue := archiveAsyncSpoolQueue archiveMode
  let okFile := walSegment ++ statusExtOk
  if ← storageExists spoolQueue okFile then
    let content ← liftStatus (statusContent okFile (← storageGet spoolQueue okFile))
    match content with
    | none => return (true, [])
    | some (code, message) =>
      if warnOnOk then
        -- If error code is not success, then this was a renamed error file
        if code ≠ 0 then
          return (true, ["WAL segment '".toList ++ walSegment ++
            "' was not pushed due to error [".toList ++ fmtInt code ++
            "] and was manually skipped: ".toList ++ message])
        else return (true, [message])
      else return (true, [])
  else
    match ← statusErrorFile spoolQueue walSegment with
    | none => return (false, [])
    | some errorFile =>
      let content ← liftStatus (statusContent errorFile (← storageGet spoolQueue errorFile))
      if throwOnError then
        match content with
        | none => throw ⟨25, "status file '".toList ++ errorFile ++ "' has no content".toList⟩
        | some (code, message) => throw ⟨code, message⟩
      else return (false, [])

def archiveAsyncStatusErrorWrite (archiveMode : ArchiveMode) (walSegment : Option Str) (code : Int)
    (message : Str) : Command PUnit.{1} :=
  let errorFile := walSegment.getD statusFileGlobal
  storagePut (archiveAsyncSpoolQueue archiveMode) (errorFile ++ statusExtError)
    (fmtInt code ++ '\n' :: message)

def archiveAsyncStatusOkWrite (archiveMode : ArchiveMode) (walSegment : Str)
    (warning : Option Str) : Command PUnit.{1} :=
  storagePut (archiveAsyncSpoolQueue archiveMode) (walSegment ++ statusExtOk)
    (match warning with
      | none => []
      | some warning => "0\n".toList ++ warning)

end Status

section Push

/-- `archivePushReadyList`: the segments PostgreSQL has ready. -/
def archivePushReadyList (walPath : List Str) : Command (List Str) := do
  match ← ask (.pgList (walPath ++ [pgPathArchiveStatus])) with
  | some names =>
    return (strLstSort (names.filter (strEndsWith · statusExtReady)) .asc).map
      (strCut · statusExtReady)
  | none =>
    throw ⟨73, "unable to list file info for missing path '".toList ++
      strLstJoin (walPath ++ [pgPathArchiveStatus]) ['/'] ++ ['\'']⟩

def okListAdd (okList : List Str) (statusFile : Str) : Command (List Str) := do
  if strEndsWith statusFile statusExtOk then return okList ++ [strCut statusFile statusExtOk]
  else
    storageRemove storageSpoolArchiveOut statusFile true
    return okList

/-- Which segments have to be pushed, with status files cleaned up. -/
def archivePushProcessList (walPath : List Str) : Command (List Str) := do
  storagePathCreate storageSpoolArchiveOut
  let statusList := strLstSort (← storageList storageSpoolArchiveOut) .asc
  let okList ← statusList.foldlM okListAdd []
  let readyList ← archivePushReadyList walPath
  -- Remove ok files that are not in the ready list
  let _ ← (strLstMergeAnti okList readyList).foldlM (fun _ file =>
    storageRemove storageSpoolArchiveOut (file ++ statusExtOk) true) PUnit.unit.{1}
  return strLstMergeAnti readyList okList

/-- The loop of `cmdArchivePush` with `archive-async`. There is a round for each time the wait is not
over, and it says whether the archive lock was free. -/
def cmdArchivePushLoop (archiveFile : Str) : List Bool → Bool → Bool → Command PUnit.{1}
  | [], _, _ =>
    throw ⟨82, "unable to push WAL file '".toList ++ archiveFile ++
      "' to the archive asynchronously".toList⟩
  | lockAcquire :: rounds, forked, throwOnError => do
    let (pushed, _) ← archiveAsyncStatus .push archiveFile throwOnError true
    if pushed then pure ⟨⟩
    else
      if !forked && lockAcquire then
        archiveAsyncErrorClear .push archiveFile
        cmdArchivePushLoop archiveFile rounds true true
      else cmdArchivePushLoop archiveFile rounds forked true

/-- What an asynchronous push finds outside the spool: whether the queue is to be dropped, the
result of `archivePushCheck`, and the results of the jobs in the order they arrive. -/
structure PushAsync where
  walPath : List Str
  lockStopTest : Except Failure PUnit.{1}
  drop : Option Str
  archivePushCheck : Except Failure PUnit.{1}
  results : List Str → List (Str × Except Failure (List Str))

def pushResult : Str × Except Failure (List Str) → Command PUnit.{1}
  | (walFile, .ok warnList) =>
    archiveAsyncStatusOkWrite .push walFile
      (if warnList.isEmpty then none else some (strLstJoin warnList ['\n']))
  | (walFile, .error e) => archiveAsyncStatusErrorWrite .push (some walFile) e.code e.message

def pushFiles (param : PushAsync) (walFileList : List Str) : Command PUnit.{1} :=
  match param.drop with
  | some warning =>
    walFileList.foldlM (fun _ walFile => archiveAsyncStatusOkWrite .push walFile (some warning))
      PUnit.unit.{1}
  | none => do
    liftStatus param.archivePushCheck
    (param.results walFileList).foldlM (fun _ result => pushResult result) PUnit.unit.{1}

def cmdArchivePushAsync (param : PushAsync) : Command PUnit.{1} :=
  tryCatch
    (do
      liftStatus param.lockStopTest
      let walFileList ← archivePushProcessList param.walPath
      if walFileList.isEmpty then throw ⟨25, "no WAL files to process".toList⟩
      else pushFiles param walFileList)
    -- On any global error write a single error file to cover all unprocessed files
    (fun e => do
      archiveAsyncStatusErrorWrite .push none e.code e.message
      throw e)

end Push

section Get

def hexDigit (c : Char) : Option Nat :=
  if isDigit c then some (c.toNat - '0'.toNat)
  else if 'A' ≤ c ∧ c ≤ 'F' then some (c.toNat - 'A'.toNat + 10)
  else if 'a' ≤ c ∧ c ≤ 'f' then some (c.toNat - 'a'.toNat + 10)
  else none

/-- `strtol` to base 16: the value of the hexadecimal digits in front. -/
def strtolHex : Str → Nat → Nat
  | [], value => value
  | c :: rest, value =>
    match hexDigit c with
    | some digit => strtolHex rest (value * 16 + digit)
    | none => value

/-- The number with the format `%08X`. -/
def fmtHex8 (n : Nat) : Str :=
  let digits := (Nat.toDigits 16 n).map Char.toUpper
  List.replicate (8 - digits.length) '0' ++ digits

def walSegmentNext (walSegment : Str) (walSegmentSize pgVersion : Nat) : Str :=
  let timeline := strtolHex (strSubN walSegment 0 8) 0
  let major := strtolHex (strSubN walSegment 8 8) 0
  let minor := (strtolHex (strSubN walSegment 16 8) 0 + 1) % 2 ^ 32
  -- Adjust major on overflow of minor
  let (major, minor) :=
    if minor > (2 ^ 32 - 1) / walSegmentSize then ((major + 1) % 2 ^ 32, 0) else (major, minor)
  -- PostgreSQL < 9.3 skipped minor FF
  let (major, minor) :=
    if minor = 0xFF ∧ pgVersion < 90300 then ((major + 1) % 2 ^ 32, 0) else (major, minor)
  fmtHex8 timeline ++ fmtHex8 major ++ fmtHex8 minor

def walSegmentRange (walSegmentBegin : Str) (walSegmentSize pgVersion : Nat) : Nat → List Str
  | 0 => []
  | range + 1 =>
    walSegmentBegin ::
      walSegmentRange (walSegmentNext walSegmentBegin walSegmentSize pgVersion) walSegmentSize
        pgVersion range

def keepQueueAdd (idealQueue actualQueue : List Str) (keepQueue : List Str) (file : Str) :
    Command (List Str) := do
  if file ∈ idealQueue then return keepQueue ++ [file]
  else if !strEndsWith file statusExtOk || !actualQueue.contains (strCut file statusExtOk) then
    storageRemove storageSpoolArchiveIn file true
    return keepQueue
  else return keepQueue

def queueNeed (walSegment : Str) (found : Bool) (queueSize walSegmentSize pgVersion : Nat) :
    Command (List Str) := do
  let walSegmentFirst :=
    if found then walSegmentNext walSegment walSegmentSize pgVersion else walSegment
  let walSegmentQueueTotal := queueSize / walSegmentSize % 2 ^ 32
  let walSegmentQueueTotal := if walSegmentQueueTotal < 2 then 2 else walSegmentQueueTotal
  let idealQueue := strLstSort
    (walSegmentRange walSegmentFirst walSegmentSize pgVersion walSegmentQueueTotal) .asc
  let actualQueue := strLstSort (← storageList storageSpoolArchiveIn) .asc
  let keepQueue ← actualQueue.foldlM (keepQueueAdd idealQueue actualQueue) []
  return idealQueue.filter (fun file => !keepQueue.contains file)

/-- What `archive-get` finds outside the spool in one round of its loop. -/
structure GetRound where
  lockAcquire : Bool
  walDestinationSize : Nat

structure GetForeground where
  walSegment : Str
  queueMax : Nat
  walSegmentSize : Nat
  pgVersion : Nat

/-- `WAL_SEGMENT_REGEXP`. -/
def walSegmentRegExp (s : Str) : Bool := decide (matchN isWalChar 24 s = some [])

/-- Move a segment that was found to its destination, and look whether the queue is more than half
full. -/
def archiveGetMove (param : GetForeground) (round : GetRound) (found : Bool) : Command Bool :=
  if found then do
    storageMoveOut storageSpoolArchiveIn param.walSegment
    let queue := (← storageList storageSpoolArchiveIn).filter walSegmentRegExp
    return !queue.isEmpty && decide (queue.length * round.walDestinationSize > param.queueMax / 2)
  else pure false

def okFileRemove (walSegment : Str) (ok : Bool) : Command PUnit.{1} :=
  if ok then storageRemove storageSpoolArchiveIn (walSegment ++ statusExtOk) true else pure ⟨⟩

/-- The loop of `cmdArchiveGet` with `archive-async`. -/
def cmdArchiveGetLoop (param : GetForeground) : List GetRound → Bool → Bool → Command PUnit.{1}
  | [], _, _ =>
    throw ⟨82, "unable to get WAL file '".toList ++ param.walSegment ++
      "' from the archive asynchronously".toList⟩
  | round :: rounds, first, forked => do
    let found ← storageExists storageSpoolArchiveIn param.walSegment
    let (ok, _) ← archiveAsyncStatus .get param.walSegment (!first) (found || !first)
    okFileRemove param.walSegment ok
    -- An ok file without a segment means that the segment is missing
    if ok && !found && !first then pure ⟨⟩
    else
      let queueFull ← archiveGetMove param round found
      if !forked && (!found || !queueFull) && round.lockAcquire then
        storagePathCreate storageSpoolArchiveIn
        let _ ← queueNeed param.walSegment found param.queueMax param.walSegmentSize param.pgVersion
        archiveAsyncErrorClear .get param.walSegment
        if found then pure ⟨⟩ else cmdArchiveGetLoop param rounds false true
      else
        if found then pure ⟨⟩ else cmdArchiveGetLoop param rounds false forked

/-- The worker that fetches one segment to its temporary name. -/
def archiveGetFile (walSegment content : Str) : Command PUnit.{1} :=
  storagePut storageSpoolArchiveIn (walSegment ++ storageFileTempExt) content

/-- What an asynchronous get finds outside the spool: errors before and in `archiveGetCheck`, the
results of the jobs in the order they arrive with the warnings of each, and a missing segment. -/
structure GetAsync where
  check : Except Failure PUnit.{1}
  results : List (Str × List Str × Except Failure (List Str))
  error : Option (Option Str × Failure)
  missing : Option Str
  warnList : List Str

def okWarningWrite (walSegment warning : Str) : Command PUnit.{1} :=
  if warning ≠ [] then archiveAsyncStatusOkWrite .get walSegment (some warning) else pure ⟨⟩

def getResult : Str × List Str × Except Failure (List Str) → Command PUnit.{1}
  | (walSegment, warnList, .ok fileWarnList) => do
    okWarningWrite walSegment (strLstJoin (warnList ++ fileWarnList) ['\n'])
    storageMove storageSpoolArchiveIn (walSegment ++ storageFileTempExt) walSegment
  | (walSegment, warnList, .error e) =>
    archiveAsyncStatusErrorWrite .get (some walSegment) e.code
      (e.message ++ (if warnList.isEmpty then [] else '\n' :: strLstJoin warnList ['\n']))

/-- Report the error of the check, or else the first segment that is missing. -/
def getMissing (param : GetAsync) : Command PUnit.{1} :=
  match param.error with
  | some (errorFile, e) =>
    archiveAsyncStatusErrorWrite .get errorFile e.code
      (e.message ++ (if param.warnList.isEmpty then []
        else '\n' :: strLstJoin param.warnList ['\n']))
  | none =>
    match param.missing with
    | some archiveFileMissing =>
      archiveAsyncStatusOkWrite .get archiveFileMissing
        (if param.warnList.isEmpty then none else some (strLstJoin param.warnList ['\n']))
    | none => pure ⟨⟩

def cmdArchiveGetAsync (param : GetAsync) : Command PUnit.{1} :=
  tryCatch
    (do
      liftStatus param.check
      let _ ← param.results.foldlM (fun _ result => getResult result) PUnit.unit.{1}
      getMissing param)
    (fun e => do
      archiveAsyncStatusErrorWrite .get none e.code e.message
      throw e)

end Get

end ArchiveAsync

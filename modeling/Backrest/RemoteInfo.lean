import Backrest.StorageList

/-!
# Listing a remote storage

A server sends one message for each entry of a listing and leaves out what has not
changed since the last entry. The client keeps what it read last, to fill in what
was left out. It keeps the names of users and groups in a memory context that is
thrown away from time to time.

A message is here the list of its fields, without the bytes that `Pack` has: the
default of a field, which may be a string that was freed, is looked at only
where the field was left out.
-/

namespace RemoteInfo

open Text
open StorageList (StorageType)

/-! ## Packs -/

inductive PackValue where
  | bool (value : Bool)
  | mode (value : Nat)
  | str (value : Str)
  | time (value : Int)
  | u32 (value : Nat)
  | u64 (value : Nat)
  deriving DecidableEq

abbrev Field := Option PackValue

inductive Halt where
  /-- A string was used after its memory context was gone. -/
  | freed
  | format
  /-- There is no message to read. -/
  | blocked
  deriving DecidableEq

def pckWriteBoolP (value : Bool) : Field := if value = false then none else some (.bool value)

def pckWriteModeP (value defaultValue : Nat) : Field :=
  if value = defaultValue then none else some (.mode value)

def pckWriteStrP (value defaultValue : Option Str) : Field :=
  if value = defaultValue then none else value.map .str

def pckWriteTimeP (value : Int) : Field := if value = 0 then none else some (.time value)

def pckWriteU32P (value defaultValue : Nat) : Field :=
  if value = defaultValue then none else some (.u32 value)

def pckWriteU64P (value : Nat) : Field := if value = 0 then none else some (.u64 value)

def pckRead {α : Type} (defaultValue : Except Halt α) (as : PackValue → Option α) :
    List Field → Except Halt (α × List Field)
  | [] => do return (← defaultValue, [])
  | none :: rest => do return (← defaultValue, rest)
  | some value :: rest =>
    match as value with
    | none => .error .format
    | some a => .ok (a, rest)

def pckReadBoolP : List Field → Except Halt (Bool × List Field) :=
  pckRead (.ok false) fun | .bool value => some value | _ => none

def pckReadModeP (defaultValue : Nat) : List Field → Except Halt (Nat × List Field) :=
  pckRead (.ok defaultValue) fun | .mode value => some value | _ => none

def pckReadTimeP : List Field → Except Halt (Int × List Field) :=
  pckRead (.ok 0) fun | .time value => some value | _ => none

def pckReadU32P (defaultValue : Nat) : List Field → Except Halt (Nat × List Field) :=
  pckRead (.ok defaultValue) fun | .u32 value => some value | _ => none

def pckReadU64P : List Field → Except Halt (Nat × List Field) :=
  pckRead (.ok 0) fun | .u64 value => some value | _ => none

/-- A pointer to a string in a memory context. -/
inductive StrPtr where
  | null
  | live (value : Str)
  | freed
  deriving DecidableEq

def strDup : StrPtr → Except Halt (Option Str)
  | .null => .ok none
  | .live value => .ok (some value)
  | .freed => .error .freed

/-- Strings are compared only if none of them is null. -/
def strEq : Option Str → StrPtr → Except Halt Bool
  | none, .null => .ok true
  | none, _ => .ok false
  | some _, .null => .ok false
  | some value, .live other => .ok (value = other)
  | some _, .freed => .error .freed

def pckReadStrP (defaultValue : StrPtr) : List Field → Except Halt (Option Str × List Field) :=
  pckRead (strDup defaultValue) fun | .str value => some (some value) | _ => none

/-! ## The server -/

inductive StorageInfoLevel where
  | existence
  | type
  | basic
  | detail
  deriving DecidableEq

def StorageInfoLevel.rank : StorageInfoLevel → Nat
  | .existence => 1
  | .type => 2
  | .basic => 3
  | .detail => 4

structure StorageInfo where
  name : Str
  type : StorageType := .file
  size : Nat := 0
  timeModified : Int := 0
  mode : Nat := 0
  userId : Nat := 0
  groupId : Nat := 0
  user : Option Str := none
  group : Option Str := none
  linkDestination : Option Str := none
  deriving DecidableEq

def storageTypeCode : StorageType → Nat
  | .file => 0
  | .path => 1
  | .link => 2
  | .special => 3

structure WriteData where
  timeModifiedLast : Int := 0
  modeLast : Nat := 0
  userIdLast : Nat := 0
  groupIdLast : Nat := 0
  user : Option Str := none
  group : Option Str := none

/-- Whether a name is null, and the name if it is not. -/
def namePut (name last : Option Str) : List Field :=
  match name with
  | none => [pckWriteBoolP true]
  | some _ => [pckWriteBoolP false, pckWriteStrP name last]

def nameStore (name last : Option Str) : Option Str :=
  if name ≠ last ∧ name ≠ none then name else last

def storageRemoteInfoProtocolPut (level : StorageInfoLevel) (data : WriteData) (info : StorageInfo) :
    List Field × WriteData :=
  ([pckWriteU32P (storageTypeCode info.type) 0,
    pckWriteTimeP (info.timeModified - data.timeModifiedLast)] ++
    (if info.type = .file then [pckWriteU64P info.size] else []) ++
    (if level = .detail then
      [pckWriteModeP info.mode data.modeLast, pckWriteU32P info.userId data.userIdLast] ++
        namePut info.user data.user ++ [pckWriteU32P info.groupId data.groupIdLast] ++
        namePut info.group data.group ++
        (if info.type = .link then [pckWriteStrP info.linkDestination none] else [])
    else []),
    { timeModifiedLast := info.timeModified, modeLast := info.mode, userIdLast := info.userId,
      groupIdLast := info.groupId, user := nameStore info.user data.user,
      group := nameStore info.group data.group })

abbrev Message := List Field

/-- One message for each entry, and then whether the path was found. -/
def storageRemoteInfoListProtocol (level : StorageInfoLevel) (found : Bool) :
    WriteData → List StorageInfo → List Message
  | _, [] => [[some (.bool found)]]
  | data, info :: rest =>
    let put := storageRemoteInfoProtocolPut level data info
    (pckWriteStrP (some info.name) none :: put.1) ::
      storageRemoteInfoListProtocol level found put.2 rest

/-! ## The client -/

structure InfoData where
  timeModifiedLast : Int := 0
  modeLast : Nat := 0
  userIdLast : Nat := 0
  groupIdLast : Nat := 0
  user : StrPtr := .null
  group : StrPtr := .null

def storageTypeOf : Nat → Except Halt StorageType
  | 0 => .ok .file
  | 1 => .ok .path
  | 2 => .ok .link
  | 3 => .ok .special
  | _ => .error .format

def nameGet (last : StrPtr) (read : List Field) : Except Halt (Option Str × List Field) := do
  let (isNull, read) ← pckReadBoolP read
  if isNull then return (none, read) else pckReadStrP last read

/-- Keep a name for the next entry. The old one is freed. -/
def nameKeep (name : Option Str) (last : StrPtr) : Except Halt StrPtr := do
  if !(← strEq name last) then
    match name with
    | none => return last
    | some value => return .live value
  else return last

/-- The size is there for files. -/
def sizeGet (type : StorageType) (read : List Field) : Except Halt (Nat × List Field) :=
  if type = .file then pckReadU64P read else .ok (0, read)

/-- The destination is there for links. -/
def linkGet (type : StorageType) (read : List Field) : Except Halt (Option Str × List Field) :=
  if type = .link then pckReadStrP .null read else .ok (none, read)

def detailGet (level : StorageInfoLevel) (data : InfoData) (read : List Field) (info : StorageInfo) :
    Except Halt StorageInfo :=
  if level = .detail then do
    let (mode, read) ← pckReadModeP data.modeLast read
    let (userId, read) ← pckReadU32P data.userIdLast read
    let (user, read) ← nameGet data.user read
    let (groupId, read) ← pckReadU32P data.groupIdLast read
    let (group, read) ← nameGet data.group read
    let (linkDestination, _) ← linkGet info.type read
    return { info with mode, userId, user, groupId, group, linkDestination }
  else .ok info

def storageRemoteInfoGet (level : StorageInfoLevel) (data : InfoData) (read : List Field) (name : Str) :
    Except Halt (StorageInfo × InfoData) := do
  let (typeCode, read) ← pckReadU32P 0 read
  let type ← storageTypeOf typeCode
  let (time, read) ← pckReadTimeP read
  let (size, read) ← sizeGet type read
  let timeModified := time + data.timeModifiedLast
  let info ← detailGet level data read { name, type, size, timeModified }
  let user ← nameKeep info.user data.user
  let group ← nameKeep info.group data.group
  return (info, { timeModifiedLast := info.timeModified, modeLast := info.mode,
                  userIdLast := info.userId, groupIdLast := info.groupId, user, group })

/-- What is left of a string when its context is discarded. -/
def discard : StrPtr → StrPtr
  | .null => .null
  | _ => .freed

/-- `MEM_CONTEXT_TEMP_RESET(1000)`: the context that holds the names is replaced. -/
def memContextTempReset (data : InfoData) (loopTotal : Nat) : InfoData × Nat :=
  if 1000 ≤ loopTotal + 1 then
    ({ data with user := discard data.user, group := discard data.group }, 0)
  else (data, loopTotal + 1)

/-- The entries passed to the callback, and whether the path was found. -/
def storageRemoteInfoList (level : StorageInfoLevel) :
    InfoData → Nat → List Message → Except Halt (List StorageInfo × Bool)
  | _, _, [] => .error .blocked
  | data, loopTotal, message :: rest =>
    match message with
    | some (.str name) :: read => do
      let (info, data) ← storageRemoteInfoGet level data read name
      let reset := memContextTempReset data loopTotal
      let (infoList, found) ← storageRemoteInfoList level reset.1 reset.2 rest
      return (info :: infoList, found)
    | _ => do
      let (found, _) ← pckReadBoolP message
      return ([], found)

/-! ## One entry -/

section Read
variable {rest : List Field}

@[simp]
theorem pckReadU32P_write (value defaultValue : Nat) :
    pckReadU32P defaultValue (pckWriteU32P value defaultValue :: rest) = .ok (value, rest) := by
  unfold pckWriteU32P
  split
  · rename_i same
    subst same
    rfl
  · rfl

@[simp]
theorem pckReadModeP_write (value defaultValue : Nat) :
    pckReadModeP defaultValue (pckWriteModeP value defaultValue :: rest) = .ok (value, rest) := by
  unfold pckWriteModeP
  split
  · rename_i same
    subst same
    rfl
  · rfl

@[simp]
theorem pckReadTimeP_write (value : Int) :
    pckReadTimeP (pckWriteTimeP value :: rest) = .ok (value, rest) := by
  unfold pckWriteTimeP
  split
  · rename_i same
    subst same
    rfl
  · rfl

@[simp]
theorem pckReadU64P_write (value : Nat) :
    pckReadU64P (pckWriteU64P value :: rest) = .ok (value, rest) := by
  unfold pckWriteU64P
  split
  · rename_i same
    subst same
    rfl
  · rfl

theorem pckReadStrP_write_null (value : Option Str) :
    pckReadStrP .null (pckWriteStrP value none :: rest) = .ok (value, rest) := by
  cases value <;> rfl

@[simp]
theorem storageTypeOf_code (type : StorageType) : storageTypeOf (storageTypeCode type) = .ok type := by
  cases type <;> rfl

/-- What the client holds of the name the server holds. -/
inductive Holds : StrPtr → Option Str → Prop
  | null : Holds .null none
  | live (value : Str) : Holds (.live value) (some value)
  | freed (value : Str) : Holds .freed (some value)

theorem Holds.discard {ptr : StrPtr} {last : Option Str} (holds : Holds ptr last) :
    Holds (RemoteInfo.discard ptr) last := by
  cases holds with
  | null => exact .null
  | live value => exact .freed value
  | freed value => exact .freed value

/-- A name that is there when the one kept is gone. -/
def Touches (ptr : StrPtr) (name : Option Str) : Prop := ptr = .freed ∧ name ≠ none

/-- The pointer after a name was read. -/
def kept (name : Option Str) (ptr : StrPtr) : StrPtr :=
  match name with
  | none => ptr
  | some value => .live value

theorem Holds.kept {ptr : StrPtr} {last : Option Str} (holds : Holds ptr last) (name : Option Str) :
    Holds (kept name ptr) (nameStore name last) := by
  cases name with
  | none => simpa [RemoteInfo.kept, nameStore] using holds
  | some value =>
    by_cases same : some value = last
    · simp [RemoteInfo.kept, nameStore, ← same, Holds.live]
    · simp [RemoteInfo.kept, nameStore, same, Holds.live]

theorem name_ok (rest : List Field) {ptr : StrPtr} {last name : Option Str} (holds : Holds ptr last)
    (fine : ¬ Touches ptr name) :
    nameGet ptr (namePut name last ++ rest) = .ok (name, rest) ∧
      nameKeep name ptr = .ok (kept name ptr) := by
  cases name with
  | none =>
    constructor
    · rfl
    · cases holds <;> rfl
  | some value =>
    cases holds with
    | null => exact ⟨rfl, rfl⟩
    | live other =>
      by_cases same : value = other
      · subst same
        constructor
        · simp [namePut, nameGet, pckWriteBoolP, pckWriteStrP, pckReadBoolP, pckReadStrP, pckRead,
            strDup, bind, Except.bind, pure, Except.pure]
        · simp [nameKeep, strEq, kept, bind, Except.bind, pure, Except.pure]
      · constructor
        · simp [namePut, nameGet, pckWriteBoolP, pckWriteStrP, pckReadBoolP, pckReadStrP, pckRead,
            same, bind, Except.bind, pure, Except.pure]
        · simp [nameKeep, strEq, kept, same, bind, Except.bind, pure, Except.pure]
    | freed other => exact absurd ⟨rfl, by simp⟩ fine

theorem name_freed (rest : List Field) {ptr : StrPtr} {last name : Option Str} (holds : Holds ptr last)
    (touches : Touches ptr name) :
    nameGet ptr (namePut name last ++ rest) = .error .freed ∨
      nameGet ptr (namePut name last ++ rest) = .ok (name, rest) ∧ nameKeep name ptr = .error .freed := by
  obtain ⟨rfl, present⟩ := touches
  obtain ⟨value, rfl⟩ := Option.ne_none_iff_exists'.mp present
  cases holds with
  | freed other =>
    by_cases same : value = other
    · left
      simp [namePut, nameGet, pckWriteBoolP, pckWriteStrP, pckReadBoolP, pckReadStrP, pckRead, same,
        strDup, bind, Except.bind, pure, Except.pure]
    · right
      constructor
      · simp [namePut, nameGet, pckWriteBoolP, pckWriteStrP, pckReadBoolP, pckReadStrP, pckRead, same,
          bind, Except.bind, pure, Except.pure]
      · rfl

end Read

section Entry
variable {level : StorageInfoLevel} {send : WriteData} {data : InfoData} {info : StorageInfo}

def atLevel (level : StorageInfoLevel) (info : StorageInfo) : StorageInfo where
  name := info.name
  type := if StorageInfoLevel.type.rank ≤ level.rank then info.type else .file
  size := if StorageInfoLevel.basic.rank ≤ level.rank ∧ info.type = .file then info.size else 0
  timeModified := if StorageInfoLevel.basic.rank ≤ level.rank then info.timeModified else 0
  mode := if level = .detail then info.mode else 0
  userId := if level = .detail then info.userId else 0
  groupId := if level = .detail then info.groupId else 0
  user := if level = .detail then info.user else none
  group := if level = .detail then info.group else none
  linkDestination := if level = .detail ∧ info.type = .link then info.linkDestination else none

/-- The client knows what the server knows. -/
structure Synced (level : StorageInfoLevel) (send : WriteData) (data : InfoData) : Prop where
  time : data.timeModifiedLast = send.timeModifiedLast
  mode : level = .detail → data.modeLast = send.modeLast
  userId : level = .detail → data.userIdLast = send.userIdLast
  groupId : level = .detail → data.groupIdLast = send.groupIdLast
  user : level = .detail → Holds data.user send.user
  group : level = .detail → Holds data.group send.group

theorem nameKeep_none (ptr : StrPtr) : nameKeep none ptr = .ok ptr := by
  cases ptr <;> rfl

/-- The fields that all levels are sent. -/
def basicInfo (info : StorageInfo) : StorageInfo where
  name := info.name
  type := info.type
  size := if info.type = .file then info.size else 0
  timeModified := info.timeModified

def detailPut (level : StorageInfoLevel) (send : WriteData) (info : StorageInfo) : List Field :=
  if level = .detail then
    [pckWriteModeP info.mode send.modeLast, pckWriteU32P info.userId send.userIdLast] ++
      namePut info.user send.user ++ [pckWriteU32P info.groupId send.groupIdLast] ++
      namePut info.group send.group ++
      (if info.type = .link then [pckWriteStrP info.linkDestination none] else [])
  else []

theorem get_start (synced : Synced level send data) :
    storageRemoteInfoGet level data (storageRemoteInfoProtocolPut level send info).1 info.name =
      (do
        let got ← detailGet level data (detailPut level send info) (basicInfo info)
        let user ← nameKeep got.user data.user
        let group ← nameKeep got.group data.group
        return (got, { timeModifiedLast := got.timeModified, modeLast := got.mode,
                       userIdLast := got.userId, groupIdLast := got.groupId, user, group })) := by
  have time : info.timeModified - send.timeModifiedLast + data.timeModifiedLast = info.timeModified := by
    rw [synced.time]
    omega
  unfold storageRemoteInfoGet storageRemoteInfoProtocolPut basicInfo detailPut
  by_cases isFile : info.type = .file
  · simp [isFile, sizeGet, bind, Except.bind, storageTypeOf, storageTypeCode, time]
  · simp [isFile, sizeGet, bind, Except.bind, time]

theorem linkGet_put (info : StorageInfo) :
    linkGet info.type (if info.type = .link then [pckWriteStrP info.linkDestination none] else []) =
      .ok (if info.type = .link then info.linkDestination else none, []) := by
  unfold linkGet
  split
  · exact pckReadStrP_write_null info.linkDestination
  · rfl

/-- The entry as the client has it. -/
def gotInfo (level : StorageInfoLevel) (info : StorageInfo) : StorageInfo :=
  if level = .detail then
    { basicInfo info with
      mode := info.mode, userId := info.userId, user := info.user, groupId := info.groupId
      group := info.group, linkDestination := if info.type = .link then info.linkDestination else none }
  else basicInfo info

theorem atLevel_gotInfo (level : StorageInfoLevel) (info : StorageInfo) :
    atLevel level (gotInfo level info) = atLevel level info := by
  by_cases detail : level = .detail
  · by_cases isFile : info.type = .file
    · simp [atLevel, gotInfo, basicInfo, isFile, detail]
    · by_cases isLink : info.type = .link
      · simp [atLevel, gotInfo, basicInfo, isLink, detail]
      · simp [atLevel, gotInfo, basicInfo, isFile, isLink, detail]
  · by_cases isFile : info.type = .file
    · simp [atLevel, gotInfo, basicInfo, isFile, detail]
    · simp [atLevel, gotInfo, basicInfo, isFile, detail]

theorem detailGet_put (synced : Synced level send data)
    (user : level = .detail → nameGet data.user (namePut info.user send.user ++
      (pckWriteU32P info.groupId send.groupIdLast :: (namePut info.group send.group ++
        if info.type = .link then [pckWriteStrP info.linkDestination none] else []))) =
      .ok (info.user, pckWriteU32P info.groupId send.groupIdLast :: (namePut info.group send.group ++
        if info.type = .link then [pckWriteStrP info.linkDestination none] else [])))
    (group : level = .detail → nameGet data.group (namePut info.group send.group ++
        if info.type = .link then [pckWriteStrP info.linkDestination none] else []) =
      .ok (info.group, if info.type = .link then [pckWriteStrP info.linkDestination none] else [])) :
    detailGet level data (detailPut level send info) (basicInfo info) = .ok (gotInfo level info) := by
  unfold detailGet detailPut gotInfo
  by_cases detail : level = .detail
  · simp only [detail, if_true, List.cons_append, List.nil_append, List.append_assoc,
      synced.mode detail, synced.userId detail, synced.groupId detail, pckReadModeP_write,
      pckReadU32P_write, user detail, group detail, bind, Except.bind]
    have link := linkGet_put info
    change linkGet (basicInfo info).type _ = _ at link
    rw [link]
    rfl
  · simp only [detail, if_false]

theorem get_ok (synced : Synced level send data)
    (user : level = .detail → ¬ Touches data.user info.user)
    (group : level = .detail → ¬ Touches data.group info.group) :
    ∃ got data', storageRemoteInfoGet level data (storageRemoteInfoProtocolPut level send info).1
        info.name = .ok (got, data') ∧
      atLevel level got = atLevel level info ∧
      Synced level (storageRemoteInfoProtocolPut level send info).2 data' ∧
      (level = .detail → data'.user = kept info.user data.user ∧
        data'.group = kept info.group data.group) := by
  have got := detailGet_put synced
    (fun detail => (name_ok _ (synced.user detail) (user detail)).1)
    (fun detail => (name_ok _ (synced.group detail) (group detail)).1)
  rw [get_start synced, got]
  by_cases detail : level = .detail
  · have keepUser := (name_ok [] (synced.user detail) (user detail)).2
    have keepGroup := (name_ok [] (synced.group detail) (group detail)).2
    have isUser : (gotInfo level info).user = info.user := by simp [gotInfo, detail]
    have isGroup : (gotInfo level info).group = info.group := by simp [gotInfo, detail]
    simp only [bind, Except.bind, pure, Except.pure, isUser, isGroup, keepUser, keepGroup]
    refine ⟨_, _, rfl, atLevel_gotInfo level info, ?_, fun _ => ⟨rfl, rfl⟩⟩
    simp only [gotInfo, detail, if_true]
    exact ⟨rfl, fun _ => rfl, fun _ => rfl, fun _ => rfl, fun _ => (synced.user detail).kept _,
      fun _ => (synced.group detail).kept _⟩
  · have noUser : (gotInfo level info).user = none := by simp [gotInfo, detail, basicInfo]
    have noGroup : (gotInfo level info).group = none := by simp [gotInfo, detail, basicInfo]
    simp only [bind, Except.bind, pure, Except.pure, noUser, noGroup, nameKeep_none]
    refine ⟨_, _, rfl, atLevel_gotInfo level info, ?_, fun isDetail => absurd isDetail detail⟩
    have isTime : (gotInfo level info).timeModified = info.timeModified := by
      simp [gotInfo, detail, basicInfo]
    exact ⟨isTime, fun isDetail => absurd isDetail detail, fun isDetail => absurd isDetail detail,
      fun isDetail => absurd isDetail detail, fun isDetail => absurd isDetail detail,
      fun isDetail => absurd isDetail detail⟩

/-- A name that is gone is used, when the field is read or when the name is kept. -/
theorem get_freed (detail : level = .detail) (synced : Synced level send data)
    (touches : Touches data.user info.user ∨ Touches data.group info.group) :
    storageRemoteInfoGet level data (storageRemoteInfoProtocolPut level send info).1 info.name =
      .error .freed := by
  subst detail
  have isUser : (gotInfo .detail info).user = info.user := rfl
  have isGroup : (gotInfo .detail info).group = info.group := rfl
  -- what the reads of both names give
  have reads : ∀ {ptr last name} (rest : List Field), Holds ptr last →
      nameGet ptr (namePut name last ++ rest) = .error .freed ∨
      nameGet ptr (namePut name last ++ rest) = .ok (name, rest) := by
    intro ptr last name rest holds
    by_cases touch : Touches ptr name
    · exact (name_freed rest holds touch).imp id And.left
    · exact .inr (name_ok rest holds touch).1
  have first := @reads _ _ info.user (pckWriteU32P info.groupId send.groupIdLast ::
    (namePut info.group send.group ++
      if info.type = .link then [pckWriteStrP info.linkDestination none] else [])) (synced.user rfl)
  have second := @reads _ _ info.group
    (if info.type = .link then [pckWriteStrP info.linkDestination none] else []) (synced.group rfl)
  rw [get_start synced]
  rcases first with userFreed | userRead
  · simp [detailGet, detailPut, synced.mode rfl, synced.userId rfl, userFreed, bind, Except.bind]
  · rcases second with groupFreed | groupRead
    · simp [detailGet, detailPut, synced.mode rfl, synced.userId rfl, synced.groupId rfl, userRead,
        groupFreed, bind, Except.bind]
    · rw [detailGet_put synced (fun _ => userRead) (fun _ => groupRead)]
      simp only [bind, Except.bind, isUser, isGroup]
      by_cases userTouch : Touches data.user info.user
      · rcases name_freed _ (synced.user rfl) userTouch with failed | ⟨-, failed⟩
        · rw [userRead] at failed
          exact absurd failed (by simp)
        · rw [failed]
      · rw [(name_ok [] (synced.user rfl) userTouch).2]
        rcases name_freed _ (synced.group rfl) (touches.resolve_left userTouch) with
          failed | ⟨-, failed⟩
        · rw [groupRead] at failed
          exact absurd failed (by simp)
        · simp only [failed]

end Entry

/-! ## The listing -/

/-- The pointer to a name after an entry, the one with this index. -/
def nextPtr (n : Nat) (ptr : StrPtr) : StrPtr := if (n + 1) % 1000 = 0 then discard ptr else ptr

/-- No name that is gone is used, from the entry with this index on. -/
def Fine : Nat → StrPtr → List (Option Str) → Prop
  | _, _, [] => True
  | n, ptr, name :: rest => ¬ Touches ptr name ∧ Fine (n + 1) (nextPtr n (kept name ptr)) rest

section Listing
variable {level : StorageInfoLevel} {send : WriteData} {data : InfoData} {entries : List StorageInfo}

theorem reset_eq (data : InfoData) (n : Nat) :
    memContextTempReset data (n % 1000) =
      ({ data with user := nextPtr n data.user, group := nextPtr n data.group }, (n + 1) % 1000) := by
  unfold memContextTempReset nextPtr
  split
  · rename_i full
    have boundary : (n + 1) % 1000 = 0 := by omega
    rw [if_pos boundary, if_pos boundary, boundary]
  · rename_i more
    have inside : ¬ (n + 1) % 1000 = 0 := by omega
    have next : n % 1000 + 1 = (n + 1) % 1000 := by omega
    rw [if_neg inside, if_neg inside, next]

theorem Synced.reset (synced : Synced level send data) (n : Nat) :
    Synced level send { data with user := nextPtr n data.user, group := nextPtr n data.group } := by
  have holds : ∀ {ptr last}, Holds ptr last → Holds (nextPtr n ptr) last := by
    intro ptr last holds
    unfold nextPtr
    split
    · exact holds.discard
    · exact holds
  exact ⟨synced.time, synced.mode, synced.userId, synced.groupId,
    fun detail => holds (synced.user detail), fun detail => holds (synced.group detail)⟩

theorem infoList_ok (found : Bool) (synced : Synced level send data) (n : Nat)
    (user : level = .detail → Fine n data.user (entries.map (·.user)))
    (group : level = .detail → Fine n data.group (entries.map (·.group))) :
    ∃ received, storageRemoteInfoList level data (n % 1000)
        (storageRemoteInfoListProtocol level found send entries) = .ok (received, found) ∧
      received.map (atLevel level) = entries.map (atLevel level) := by
  induction entries generalizing send data n with
  | nil => exact ⟨[], rfl, rfl⟩
  | cons info rest ih =>
    obtain ⟨got, data', run, same, synced', pointers⟩ := get_ok synced
      (fun detail => (user detail).1) (fun detail => (group detail).1)
    obtain ⟨received, later, sameLater⟩ := ih (synced'.reset n) (n + 1)
      (fun detail => by
        have fine := (user detail).2
        rwa [← (pointers detail).1] at fine)
      (fun detail => by
        have fine := (group detail).2
        rwa [← (pointers detail).2] at fine)
    refine ⟨got :: received, ?_, by rw [List.map_cons, List.map_cons, same, sameLater]⟩
    have first : pckWriteStrP (some info.name) none = some (.str info.name) := rfl
    simp only [storageRemoteInfoListProtocol, storageRemoteInfoList, first, run, bind, Except.bind,
      reset_eq, later]
    rfl

theorem infoList_freed (found : Bool) (detail : level = .detail) (synced : Synced level send data)
    (n : Nat) (gone : ¬ (Fine n data.user (entries.map (·.user)) ∧
      Fine n data.group (entries.map (·.group)))) :
    storageRemoteInfoList level data (n % 1000)
      (storageRemoteInfoListProtocol level found send entries) = .error .freed := by
  induction entries generalizing send data n with
  | nil => exact absurd ⟨trivial, trivial⟩ gone
  | cons info rest ih =>
    have first : pckWriteStrP (some info.name) none = some (.str info.name) := rfl
    simp only [storageRemoteInfoListProtocol, storageRemoteInfoList, first, bind, Except.bind]
    by_cases touches : Touches data.user info.user ∨ Touches data.group info.group
    · rw [get_freed detail synced touches]
    · rw [not_or] at touches
      obtain ⟨got, data', run, -, synced', pointers⟩ := get_ok synced (fun _ => touches.1)
        (fun _ => touches.2)
      have later := ih (synced'.reset n) (n + 1) (by
        rintro ⟨fineUser, fineGroup⟩
        simp only [(pointers detail).1, (pointers detail).2] at fineUser fineGroup
        exact gone ⟨⟨touches.1, fineUser⟩, touches.2, fineGroup⟩)
      simp only [run, reset_eq, later]

end Listing

/-! ## Blocks of a thousand -/

/-- The entry with this index has a name. -/
def Present (names : List (Option Str)) (i : Nat) : Prop := ∃ name, names[i]? = some (some name)

/-- The names that are there stand in one block of a thousand entries. -/
def OneBlock (names : List (Option Str)) : Prop :=
  ∀ i j, Present names i → Present names j → i / 1000 = j / 1000

/-- The same from an entry on, with what is kept from before. -/
def BlockFrom (n : Nat) (names : List (Option Str)) : StrPtr → Prop
  | .null => ∀ i j, Present names i → Present names j → (n + i) / 1000 = (n + j) / 1000
  | .live _ => ∀ j, Present names j → (n + j) / 1000 = n / 1000
  | .freed => ∀ j, ¬ Present names j

section Blocks
variable {n : Nat} {name : Option Str} {rest : List (Option Str)}

theorem present_zero : Present (name :: rest) 0 ↔ name ≠ none := by
  cases name <;> simp [Present]

theorem present_succ {i : Nat} : Present (name :: rest) (i + 1) ↔ Present rest i := by
  simp [Present]

/-- A name that was just stored lasts to the end of the block. -/
theorem blockFrom_stored (value : Str) : BlockFrom (n + 1) rest (nextPtr n (.live value)) ↔
    ∀ j, Present rest j → (n + (j + 1)) / 1000 = n / 1000 := by
  unfold nextPtr
  split
  · rename_i boundary
    constructor
    · exact fun none j present => absurd present (none j)
    · intro same j present
      have block := same j present
      omega
  · rename_i inside
    constructor
    · intro same j present
      have block := same j present
      omega
    · intro same j present
      have block := same j present
      omega

theorem nextPtr_null : nextPtr n .null = .null := by
  unfold nextPtr
  split <;> rfl

theorem nextPtr_freed : nextPtr n .freed = .freed := by
  unfold nextPtr
  split <;> rfl

/-- Indexes of a list with one more entry at its head. -/
theorem blockFrom_cons (ptr : StrPtr) : BlockFrom n (name :: rest) ptr ↔
    ¬ Touches ptr name ∧ BlockFrom (n + 1) rest (nextPtr n (kept name ptr)) := by
  cases name with
  | none =>
    have fine : ¬ Touches ptr none := fun touches => touches.2 rfl
    have shift : ∀ j, Present (none :: rest) j ↔ ∃ i, j = i + 1 ∧ Present rest i := by
      intro j
      cases j with
      | zero => simp [present_zero]
      | succ i => simp [present_succ]
    simp only [fine, not_false_eq_true, true_and, kept]
    cases ptr with
    | null =>
      rw [nextPtr_null]
      constructor
      · intro block i j presentI presentJ
        have same := block (i + 1) (j + 1) (present_succ.mpr presentI) (present_succ.mpr presentJ)
        omega
      · intro block i j presentI presentJ
        obtain ⟨i, rfl, presentI⟩ := (shift i).mp presentI
        obtain ⟨j, rfl, presentJ⟩ := (shift j).mp presentJ
        have same := block i j presentI presentJ
        omega
    | live value =>
      rw [blockFrom_stored]
      constructor
      · exact fun block j present => block (j + 1) (present_succ.mpr present)
      · intro block j present
        obtain ⟨j, rfl, present⟩ := (shift j).mp present
        exact block j present
    | freed =>
      rw [nextPtr_freed]
      constructor
      · exact fun none j present => none (j + 1) (present_succ.mpr present)
      · intro none j present
        obtain ⟨j, rfl, present⟩ := (shift j).mp present
        exact none j present
  | some value =>
    have here : Present (some value :: rest) 0 := present_zero.mpr (by simp)
    simp only [kept]
    rw [blockFrom_stored]
    cases ptr with
    | null =>
      constructor
      · intro block
        refine ⟨fun touches => absurd touches.1 (by simp), fun j present => ?_⟩
        exact (block (j + 1) 0 (present_succ.mpr present) here)
      · rintro ⟨-, block⟩
        have all : ∀ j, Present (some value :: rest) j → (n + j) / 1000 = n / 1000 := by
          intro j present
          cases j with
          | zero => rfl
          | succ j => exact block j (present_succ.mp present)
        exact fun i j presentI presentJ => (all i presentI).trans (all j presentJ).symm
    | live old =>
      constructor
      · intro block
        exact ⟨fun touches => absurd touches.1 (by simp), fun j present => block (j + 1) (present_succ.mpr present)⟩
      · rintro ⟨-, block⟩ j present
        cases j with
        | zero => rfl
        | succ j => exact block j (present_succ.mp present)
    | freed =>
      constructor
      · exact fun none => absurd here (none 0)
      · rintro ⟨fine, -⟩
        exact absurd ⟨rfl, by simp⟩ fine

theorem fine_iff (n : Nat) (ptr : StrPtr) (names : List (Option Str)) :
    Fine n ptr names ↔ BlockFrom n names ptr := by
  induction names generalizing n ptr with
  | nil =>
    have none : ∀ j, ¬ Present [] j := fun j present => by simp [Present] at present
    refine ⟨fun _ => ?_, fun _ => trivial⟩
    cases ptr with
    | null => exact fun i _ present => absurd present (none i)
    | live _ => exact fun j present => absurd present (none j)
    | freed => exact none
  | cons name rest ih => rw [Fine, ih, ← blockFrom_cons]

theorem fine_start (names : List (Option Str)) : Fine 0 .null names ↔ OneBlock names := by
  rw [fine_iff]
  simp only [BlockFrom, OneBlock, Nat.zero_add]

end Blocks

theorem synced_start (level : StorageInfoLevel) : Synced level {} {} :=
  ⟨rfl, fun _ => rfl, fun _ => rfl, fun _ => rfl, fun _ => .null, fun _ => .null⟩

/-- The client passes on the entries as they were sent exactly if no name is used that is
gone: at the detail level, when all names of users stand in one block of a thousand
entries, and so do all names of groups. -/
theorem storageRemoteInfoList_same_iff (level : StorageInfoLevel) (entries : List StorageInfo)
    (found : Bool) :
    (∃ received, storageRemoteInfoList level {} 0
        (storageRemoteInfoListProtocol level found {} entries) = .ok (received, found) ∧
      received.map (atLevel level) = entries.map (atLevel level)) ↔
    (level = .detail → OneBlock (entries.map (·.user)) ∧ OneBlock (entries.map (·.group))) := by
  constructor
  · rintro ⟨received, run, -⟩ detail
    by_contra different
    rw [← fine_start, ← fine_start] at different
    have failed := infoList_freed found detail (synced_start level) 0 different
    rw [Nat.zero_mod, run] at failed
    exact absurd failed (by simp)
  · intro blocks
    exact infoList_ok found (synced_start level) 0 (fun detail => (fine_start _).mpr (blocks detail).1)
      (fun detail => (fine_start _).mpr (blocks detail).2)

def ownedFile : StorageInfo := { name := "file".toList, user := some "postgres".toList }

/-- A thousand and one files of one user: the name is gone after a thousand. -/
theorem storageRemoteInfoList_thousand_one :
    storageRemoteInfoList .detail {} 0
      (storageRemoteInfoListProtocol .detail true {} (List.replicate 1001 ownedFile)) =
      .error .freed := by
  apply infoList_freed true rfl (synced_start .detail) 0
  rintro ⟨fine, -⟩
  have present : ∀ i, i < 1001 → Present ((List.replicate 1001 ownedFile).map (·.user)) i := by
    intro i lt
    refine ⟨"postgres".toList, ?_⟩
    rw [List.getElem?_map, List.getElem?_replicate, if_pos lt]
    rfl
  have block := (fine_start _).mp fine 0 1000 (present 0 (by omega)) (present 1000 (by omega))
  omega

end RemoteInfo

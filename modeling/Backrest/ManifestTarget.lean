import Backrest.BackupManifest
import Backrest.KeyedList
import Backrest.PathName

/-!
# Targets and links of the manifest

A target is a place where files are stored: the data directory, or the destination
of a link. `manifestTargetPath` is its absolute path.
-/

namespace ManifestTarget

open Text BackupManifest PathName

def manifestTargetPgData : Str := "pg_data".toList

def targetFindError (name : Str) : Error :=
  ⟨.assertError, "unable to find '".toList ++ name ++ "' in manifest target list".toList⟩

def manifestTargetFind (this : Manifest) (name : Str) : Except Error ManifestTarget :=
  match this.targetList.find? (fun target => target.name = name) with
  | some target => .ok target
  | none => .error (targetFindError name)

def manifestTargetBase (this : Manifest) : Except Error ManifestTarget :=
  manifestTargetFind this manifestTargetPgData

def targetUpdate (path : Str) (file : Option Str) (target : ManifestTarget) : ManifestTarget :=
  { target with path := some path, file := file }

def manifestTargetUpdate (this : Manifest) (name path : Str) (file : Option Str) :
    Except Error Manifest := do
  let _ ← manifestTargetFind this name
  let targetList := KeyedList.changeFirst (·.name) name (targetUpdate path file) this.targetList
  return { this with targetList := targetList }

def targetRemoveError (name : Str) : Error :=
  ⟨.assertError, "unable to remove '".toList ++ name ++ "' from manifest target list".toList⟩

def manifestTargetRemove (this : Manifest) (name : Str) : Except Error Manifest :=
  match this.targetList.find? (fun target => target.name = name) with
  | some _ =>
    .ok { this with targetList := this.targetList.eraseP (fun target => target.name = name) }
  | none => .error (targetRemoveError name)

def linkFindError (name : Str) : Error :=
  ⟨.assertError, "unable to find '".toList ++ name ++ "' in manifest link list".toList⟩

def manifestLinkFind (this : Manifest) (name : Str) : Except Error ManifestLink :=
  match this.linkList.find? (fun link => link.name = name) with
  | some link => .ok link
  | none => .error (linkFindError name)

def linkUpdate (destination : Str) (link : ManifestLink) : ManifestLink :=
  { link with destination := some destination }

def manifestLinkUpdate (this : Manifest) (name destination : Str) : Except Error Manifest := do
  let _ ← manifestLinkFind this name
  let linkList := KeyedList.changeFirst (·.name) name (linkUpdate destination) this.linkList
  return { this with linkList := linkList }

def linkRemoveError (name : Str) : Error :=
  ⟨.assertError, "unable to remove '".toList ++ name ++ "' from manifest link list".toList⟩

def manifestLinkRemove (this : Manifest) (name : Str) : Except Error Manifest :=
  match this.linkList.find? (fun link => link.name = name) with
  | some _ => .ok { this with linkList := this.linkList.eraseP (fun link => link.name = name) }
  | none => .error (linkRemoveError name)

/-- The path below the data directory, `none` for the data directory itself. -/
def manifestPathPg (manifestPath : Str) : Option Str :=
  if strBeginsWith manifestPath (manifestTargetPgData ++ ['/']) = true then
    some (manifestPath.drop (manifestTargetPgData.length + 1))
  else if manifestPath ≠ manifestTargetPgData then some manifestPath
  else none

/-- A text that is `NULL` fails the assertion of the function it is given to. -/
def notNull : Option Str → Except Error Str
  | some s => .ok s
  | none => .error ⟨.assertError, "assertion 'this != NULL' failed".toList⟩

/-- The path of a link that is not absolute begins at the directory of the link. -/
def relativePath (name path : Str) : Except Error Str := do
  let pgPath := strPath (← notNull (manifestPathPg name))
  return (if pgPath.length ≠ 0 then pgPath ++ ['/'] else pgPath) ++ path

def manifestTargetPath (this : Manifest) (target : ManifestTarget) : Except Error Str := do
  let path ← notNull target.path
  if strBeginsWith path ['/'] = true then return path
  else
    let pgPath ← relativePath target.name path
    let base ← manifestTargetBase this
    strPathAbsolute pgPath (← notNull base.path)

/-- The lookup depends on the base target alone. -/
theorem manifestTargetPath_congr {this that : Manifest}
    (same : manifestTargetBase that = manifestTargetBase this) (target : ManifestTarget) :
    manifestTargetPath that target = manifestTargetPath this target := by
  unfold manifestTargetPath
  rw [same]

theorem manifestTargetFind_perm {this : Manifest} {targets : List ManifestTarget}
    (perm : targets.Perm this.targetList) (distinct : (this.targetList.map (·.name)).Nodup)
    (name : Str) :
    manifestTargetFind { this with targetList := targets } name = manifestTargetFind this name := by
  unfold manifestTargetFind
  dsimp only
  rw [KeyedList.find_perm perm distinct]

section Updates

variable {this : Manifest} {front rest : List ManifestTarget} {target : ManifestTarget}
  {link : ManifestLink}

theorem find_append (fresh : ∀ a ∈ front, a.name ≠ target.name) :
    (front ++ target :: rest).find? (fun a => a.name = target.name) = some target := by
  have none : front.find? (fun a => a.name = target.name) = none :=
    KeyedList.find_none_iff.mpr fresh
  rw [List.find?_append, none, Option.none_or]
  exact List.find?_cons_of_pos (by simp)

theorem manifestTargetUpdate_append (split : this.targetList = front ++ target :: rest)
    (fresh : ∀ a ∈ front, a.name ≠ target.name) {path : Str} {file : Option Str} :
    manifestTargetUpdate this target.name path file =
      .ok { this with targetList := front ++ targetUpdate path file target :: rest } := by
  have found : manifestTargetFind this target.name = .ok target := by
    unfold manifestTargetFind
    rw [split, find_append fresh]
  have change : KeyedList.changeFirst (·.name) target.name (targetUpdate path file) this.targetList =
      front ++ targetUpdate path file target :: rest := by
    rw [split]
    exact KeyedList.changeFirst_append fresh
  unfold manifestTargetUpdate
  rw [found, change]
  rfl

theorem manifestTargetRemove_append (split : this.targetList = front ++ target :: rest)
    (fresh : ∀ a ∈ front, a.name ≠ target.name) :
    manifestTargetRemove this target.name = .ok { this with targetList := front ++ rest } := by
  have erase : this.targetList.eraseP (fun a => a.name = target.name) = front ++ rest := by
    rw [split]
    exact KeyedList.eraseFirst_append fresh
  unfold manifestTargetRemove
  rw [erase, split, find_append fresh]

variable (distinct : (this.linkList.map (·.name)).Nodup) (member : link ∈ this.linkList)

include distinct member

theorem manifestLinkUpdate_eq {destination : Str} :
    manifestLinkUpdate this link.name destination = .ok { this with
      linkList := this.linkList.map (fun other =>
        if other.name = link.name then linkUpdate destination other else other) } := by
  have found : manifestLinkFind this link.name = .ok link := by
    unfold manifestLinkFind
    rw [(KeyedList.find_iff distinct).mpr ⟨member, rfl⟩]
  unfold manifestLinkUpdate
  rw [found, KeyedList.changeFirst_eq_map distinct]
  rfl

theorem manifestLinkRemove_eq :
    manifestLinkRemove this link.name = .ok { this with
      linkList := this.linkList.filter (fun other => other.name ≠ link.name) } := by
  unfold manifestLinkRemove
  rw [(KeyedList.find_iff distinct).mpr ⟨member, rfl⟩, KeyedList.eraseFirst_eq_filter distinct]

end Updates

end ManifestTarget

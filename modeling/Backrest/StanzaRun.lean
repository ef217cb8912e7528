import Backrest.Stanza
import Mathlib.Data.List.Infix
import Mathlib.Data.List.Induction

/-!
# What a run of stanza commands leaves behind

In every repository the histories of the two info files are the same, or the archive
has one entry more because a command was cut off before it wrote `backup.info`. From
there only a command for the same cluster goes on: it adds the missing entry. Any other
would give the files different ids, which the check finds before anything is written.
A history of 2 ^ 31 entries is as long as a list can be.
-/

namespace Stanza

open Text BackupInfo Effects
open Repository (infoLoad)
open MemoryBlocks (Fault)
open TypeList (Failure lstInsertFirst lstInsertFirst_eq lstInsertFirst_full foldlM_lstInsertFirst)

/-- The part of an entry that is the same in both files. -/
def pgKey (pgData : InfoPgData) : Nat × Nat × Nat := (pgData.id, pgData.version, pgData.systemId)

def loadedHistory (repo : Repo) (type : InfoPgType) : List (Nat × Nat × Nat) :=
  match infoLoadFile repo type with
  | .ok infoPg => infoPg.history.map pgKey
  | .error _ => []

/-- The info files of a repository belong to the cluster and to each other, and go on from what
they were before. -/
def Agree (pgControl : PgControl) (before after : Repo) : Prop :=
  ∃ archive backup archiveData backupData,
    infoLoadFile after .archive = .ok archive ∧ infoLoadFile after .backup = .ok backup ∧
    infoPgDataCurrent archive = .ok archiveData ∧ infoPgDataCurrent backup = .ok backupData ∧
    pgKey archiveData = pgKey backupData ∧
    archiveData.version = pgControl.version ∧ archiveData.systemId = pgControl.systemId ∧
    archive.history.map pgKey = backup.history.map pgKey ∧
    (archive.history.reverse.map (·.id)).Pairwise (· < ·) ∧
    ∀ type, loadedHistory before type <:+ archive.history.map pgKey

/-- A command returns with all repositories as they should be, or throws, or is cut off. -/
def Sound (command : Command) (repos : List Repo) : Prop :=
  match cmdStanza command repos with
  | (.ok _, after) =>
    ∃ pgControl, command.pgControl = .ok pgControl ∧ List.Forall₂ (Agree pgControl) repos after
  | (.error (.threw _), _) => True
  | (.error (.fault _), _) => False
  | (.error .cutOff, _) => command.cut ≠ none

/-- A repository without info files. -/
def Blank (repo : Repo) : Prop := ∀ type, repo.info type = none ∧ repo.copy type = none

/-- An upgrade adds an entry to a history that is as long as a list can be. -/
def Full (type : CommandType) (pgControl : PgControl) (repo : Repo) : Prop :=
  type = .stanzaUpgrade ∧ ∃ infoPgType infoPg pgData,
    infoLoadFile repo infoPgType = .ok infoPg ∧ infoPgDataCurrent infoPg = .ok pgData ∧
      differs pgControl pgData = true ∧ infoPg.history.length = 2 ^ 31

/-- A command ends outside of a block of memory, as it finds such a history. -/
def Overflows (command : Command) (repos : List Repo) : Prop :=
  (∃ fault, (cmdStanza command repos).1 = .error (.fault fault)) ∧
    ∃ pgControl, command.pgControl = .ok pgControl ∧
      ∃ repo ∈ repos, Full command.type pgControl repo

/-! ## Numbered histories -/

/-- The ids of a history count up from 1. -/
def Numbered : List InfoPgData → Prop
  | [] => True
  | pgData :: rest => pgData.id = rest.length + 1 ∧ Numbered rest

variable {h hArchive hBackup : List InfoPgData} {repo : Repo} {pgData a b : InfoPgData}
  {type : InfoPgType} {n : Nat} {pgControl : PgControl}

theorem Numbered.id_le (numbered : Numbered h) (mem : pgData ∈ h) :
    0 < pgData.id ∧ pgData.id ≤ h.length := by
  induction h with
  | nil => exact absurd mem List.not_mem_nil
  | cons head rest ih =>
    obtain ⟨isNext, below⟩ := numbered
    rw [List.length_cons]
    rcases List.mem_cons.mp mem with rfl | later
    · omega
    · have := ih below later
      omega

theorem Numbered.increasing (numbered : Numbered h) :
    (h.reverse.map (·.id)).Pairwise (· < ·) := by
  rw [List.map_reverse, List.pairwise_reverse, List.pairwise_map]
  induction h with
  | nil => exact List.Pairwise.nil
  | cons head rest ih =>
    obtain ⟨isNext, below⟩ := numbered
    constructor
    · intro pgData mem
      have := below.id_le mem
      omega
    · exact ih below

theorem historyIdx_absent {currentId : Nat} {idx : Nat} {found : Option Nat}
    (absent : ∀ pgData ∈ h, pgData.id ≠ currentId) : historyIdx currentId h idx found = found := by
  induction h generalizing idx found with
  | nil => rfl
  | cons head rest ih =>
    rw [historyIdx, if_neg (absent head List.mem_cons_self)]
    exact ih (fun pgData mem => absent pgData (List.mem_cons_of_mem head mem))

/-- What is written for a history. -/
def fileOf (h : List InfoPgData) : InfoFile := ⟨h.length, h.reverse⟩

theorem infoPgNewLoad_fileOf (numbered : Numbered (pgData :: h)) (fits : h.length < 2 ^ 31) :
    infoPgNewLoad (fileOf (pgData :: h)) = .ok (.ok ⟨pgData :: h, 0⟩) := by
  obtain ⟨isNext, below⟩ := numbered
  have found : historyIdx (h.length + 1) (pgData :: h) 0 none = some 0 := by
    rw [historyIdx, if_pos isNext]
    apply historyIdx_absent
    intro other mem
    have := below.id_le mem
    omega
  have loaded : (pgData :: h).reverse.foldlM lstInsertFirst [] = .ok (pgData :: h) := by
    rw [foldlM_lstInsertFirst (by rw [List.length_reverse, List.length_cons]; exact fits),
      List.reverse_reverse, List.append_nil]
  rw [infoPgNewLoad, fileOf, loaded]
  simp [infoPgFind, check, found, bind, Except.bind, pure, Except.pure]

theorem infoPgSave_numbered (numbered : Numbered (pgData :: h)) :
    infoPgSave ⟨pgData :: h, 0⟩ = .ok (fileOf (pgData :: h)) := by
  have current : infoPgDataCurrent ⟨pgData :: h, 0⟩ = .ok pgData := rfl
  rw [infoPgSave, current, fileOf, List.length_cons, ← numbered.1]
  rfl

/-- The entry that is added for a cluster. -/
def newData (type : InfoPgType) (pgControl : PgControl) (id : Nat) : InfoPgData where
  id := id
  version := pgControl.version
  systemId := pgControl.systemId
  catalogVersion := if type = .backup then pgControl.catalogVersion else 0

theorem infoPgNextId_numbered (numbered : Numbered (pgData :: h)) (fits : h.length < 2 ^ 31) :
    infoPgNextId ⟨pgData :: h, 0⟩ = .ok (h.length + 2) := by
  have current : infoPgDataCurrent ⟨pgData :: h, 0⟩ = .ok pgData := rfl
  have positive : infoPgDataTotal ⟨pgData :: h, 0⟩ > 0 := Nat.succ_pos _
  have small : (h.length + 1 + 1) % (uintMax + 1) = h.length + 2 :=
    Nat.mod_eq_of_lt (by unfold uintMax; omega)
  rw [infoPgNextId, if_pos positive, current, ← small, ← numbered.1]
  rfl

theorem infoPgSet_numbered (type : InfoPgType) (pgControl : PgControl)
    (numbered : Numbered (pgData :: h)) (room : h.length + 1 < 2 ^ 31) :
    infoPgSet ⟨pgData :: h, 0⟩ type pgControl =
      .ok ⟨newData type pgControl (h.length + 2) :: pgData :: h, 0⟩ := by
  have added := @lstInsertFirst_eq _ (pgData :: h) (newData type pgControl (h.length + 2)) room
  rw [infoPgSet, infoPgNextId_numbered numbered (by omega)]
  change Except.mapError _ (lstInsertFirst _ (newData type pgControl (h.length + 2)) >>= _) = _
  rw [added]
  rfl

/-- The list of the history cannot grow. -/
theorem infoPgSet_full (type : InfoPgType) (pgControl : PgControl)
    (numbered : Numbered (pgData :: h)) (full : (pgData :: h).length = 2 ^ 31) :
    infoPgSet ⟨pgData :: h, 0⟩ type pgControl = .error (.fault .outside) := by
  have added := lstInsertFirst_full (newData type pgControl (h.length + 2)) full
  rw [List.length_cons] at full
  rw [infoPgSet, infoPgNextId_numbered numbered (by omega)]
  change Except.mapError _ (lstInsertFirst _ (newData type pgControl (h.length + 2)) >>= _) = _
  rw [added]
  rfl

theorem pgKey_newData (pgControl : PgControl) (id : Nat) :
    pgKey (newData .archive pgControl id) = pgKey (newData .backup pgControl id) := rfl

theorem infoNew_eq (type : InfoPgType) (pgControl : PgControl) :
    infoNew type pgControl = .ok ⟨[newData type pgControl 1], 0⟩ := rfl

theorem differs_eq_false :
    differs pgControl pgData = false ↔
      pgData.version = pgControl.version ∧ pgData.systemId = pgControl.systemId := by
  simp only [differs, ne_eq, decide_eq_false_iff_not, not_or, not_not]
  constructor
  · rintro ⟨version, systemId⟩
    exact ⟨version.symm, systemId.symm⟩
  · rintro ⟨version, systemId⟩
    exact ⟨version.symm, systemId.symm⟩

theorem checkStanzaInfo_ok {archiveInfo backupInfo : InfoPgData}
    (ok : checkStanzaInfo archiveInfo backupInfo = .ok ()) : pgKey archiveInfo = pgKey backupInfo := by
  unfold checkStanzaInfo at ok
  split at ok
  · cases ok
  · rename_i same
    simp only [ne_eq, not_or, not_not] at same
    rw [pgKey, pgKey, same.1, same.2.1, same.2.2]

/-! ## Repositories -/

/-- The info file of a type has a history; there is none and no copy when that is empty. The
copy may be older: it is not read while the file itself can be. -/
def Holds (repo : Repo) (type : InfoPgType) : List InfoPgData → Prop
  | [] => repo.info type = none ∧ repo.copy type = none
  | pgData :: rest => repo.info type = some (fileOf (pgData :: rest)) ∧
      Numbered (pgData :: rest) ∧ rest.length < 2 ^ 31

theorem Holds.numbered (holds : Holds repo type h) : Numbered h := by
  cases h with
  | nil => trivial
  | cons pgData rest => exact holds.2.1

theorem Holds.length_le (holds : Holds repo type h) : h.length ≤ 2 ^ 31 := by
  cases h with
  | nil => exact Nat.zero_le _
  | cons pgData rest => exact holds.2.2

theorem Holds.load (holds : Holds repo type (pgData :: h)) :
    infoLoadFile repo type = .ok ⟨pgData :: h, 0⟩ := by
  rw [infoLoadFile, holds.1, loadTry, infoPgNewLoad_fileOf holds.2.1 holds.2.2]
  rfl

theorem Holds.load_nil (holds : Holds repo type []) :
    ∃ e, infoLoadFile repo type = .error (.thrown e) := by
  rw [infoLoadFile, holds.1, holds.2]
  exact ⟨_, rfl⟩

theorem Holds.loadedHistory (holds : Holds repo type h) :
    loadedHistory repo type = h.map pgKey := by
  cases h with
  | nil =>
    obtain ⟨e, failed⟩ := holds.load_nil
    rw [Stanza.loadedHistory, failed]
    rfl
  | cons pgData rest => rw [Stanza.loadedHistory, holds.load]

theorem Holds.infoExists (holds : Holds repo type h) : infoExists repo type = !h.isEmpty := by
  cases h with
  | nil => simp [Stanza.infoExists, holds.1, holds.2]
  | cons pgData rest => simp [Stanza.infoExists, holds.1]

theorem Holds.write_info (repo : Repo) (type : InfoPgType) (numbered : Numbered (pgData :: h))
    (room : h.length < 2 ^ 31) :
    Holds (repo.write type .info (fileOf (pgData :: h))) type (pgData :: h) :=
  ⟨by simp [Repo.write], numbered, room⟩

theorem Holds.write_other {type' : InfoPgType} (holds : Holds repo type h) (other : type ≠ type')
    (kind : FileKind) (file : InfoFile) :
    Holds (repo.write type' kind file) type h := by
  cases h with
  | nil => cases kind <;> simpa [Holds, Repo.write, other] using holds
  | cons pgData rest => cases kind <;> simpa [Holds, Repo.write, other] using holds

/-- The histories are the same, or the archive is one entry ahead. -/
def Ahead (hArchive hBackup : List InfoPgData) : Prop :=
  hArchive.map pgKey = hBackup.map pgKey ∨
    ∃ pgData rest, hArchive = pgData :: rest ∧ rest.map pgKey = hBackup.map pgKey

structure Inv (repo : Repo) (hArchive hBackup : List InfoPgData) : Prop where
  archive : Holds repo .archive hArchive
  backup : Holds repo .backup hBackup
  ahead : Ahead hArchive hBackup

theorem Blank.inv (blank : Blank repo) : Inv repo [] [] :=
  ⟨blank .archive, blank .backup, .inl rfl⟩

theorem Ahead.eq_of_length (ahead : Ahead hArchive hBackup)
    (same : hArchive.length = hBackup.length) : hArchive.map pgKey = hBackup.map pgKey := by
  rcases ahead with equal | ⟨pgData, rest, rfl, equal⟩
  · exact equal
  · have lengths := congrArg List.length equal
    rw [List.length_map, List.length_map] at lengths
    rw [List.length_cons] at same
    omega

theorem Numbered.length_of_key (one : Numbered (a :: hArchive)) (two : Numbered (b :: hBackup))
    (same : pgKey a = pgKey b) :
    hArchive.length = hBackup.length := by
  have ids : a.id = b.id := congrArg Prod.fst same
  have first := one.1
  have second := two.1
  omega

theorem Inv.agree {before after : Repo} (inv : Inv after (a :: hArchive) (b :: hBackup))
    (same : pgKey a = pgKey b) (cluster : differs pgControl a = false)
    (extends_ : ∀ type, loadedHistory before type <:+ (a :: hArchive).map pgKey) :
    Agree pgControl before after := by
  have lengths := inv.archive.numbered.length_of_key inv.backup.numbered same
  have histories := inv.ahead.eq_of_length (by simp [lengths])
  obtain ⟨version, systemId⟩ := differs_eq_false.mp cluster
  exact ⟨_, _, a, b, inv.archive.load, inv.backup.load, rfl, rfl, same, version, systemId, histories,
    inv.archive.numbered.increasing, extends_⟩

/-! ## Commands in one repository -/

section Spec
variable {cut : Option Nat} {repo : Repo} {full : Prop}

/-- A command is at work in a repository in this state, and is not cut off if none was asked. -/
def At (cut : Option Nat) (repo : Repo) (work : Work) : Prop :=
  work.repo = repo ∧ (cut = none → work.cut = none)

/-- A command has ended early in a repository with the invariant, and with a fault only if it was
`full`. -/
def Ended (cut : Option Nat) (full : Prop) (stop : Stop) (work : Work) : Prop :=
  (∃ hArchive hBackup, Inv work.repo hArchive hBackup) ∧
    match stop with
    | .threw _ => True
    | .fault _ => full
    | .cutOff => cut ≠ none

variable {hArchive hBackup h : List InfoPgData} {pgControl : PgControl} {pgData a b : InfoPgData}
  {type : InfoPgType} {before : Repo}

theorem At.threw (inv : Inv repo hArchive hBackup) (e : Error) (work : Work)
    (isAt : At cut repo work) : Ended cut full (.threw e) work :=
  ⟨⟨hArchive, hBackup, isAt.1 ▸ inv⟩, trivial⟩

theorem At.fault {work : Work} (isAt : At cut repo work) (inv : Inv repo hArchive hBackup)
    (fault : Fault) (isFull : full) :
    Ended cut full (.fault fault) work :=
  ⟨⟨hArchive, hBackup, isAt.1 ▸ inv⟩, isFull⟩

theorem orThrow_spec {α β : Type} {x : Except Error α} {f : α → StanzaM β} {P : Work → Prop}
    {Q : β → Work → Prop} {E : Stop → Work → Prop} (failed : ∀ e work, P work → E (.threw e) work)
    (ok : ∀ a, x = .ok a → Triple P (f a) Q E) : Triple P (orThrow x >>= f) Q E := by
  cases x with
  | error e => exact failed e
  | ok a => exact ok a rfl

theorem orStop_spec {α β : Type} {x : Except Failure α} {f : α → StanzaM β} {P : Work → Prop}
    {Q : β → Work → Prop} {E : Stop → Work → Prop} (failed : ∀ e work, P work → E (.threw e) work)
    (faulty : ∀ fault, x = .error (.fault fault) → ∀ work, P work → E (.fault fault) work)
    (ok : ∀ a, x = .ok a → Triple P (f a) Q E) : Triple P (orStop x >>= f) Q E := by
  cases x with
  | error failure =>
    cases failure with
    | thrown e => exact failed e
    | fault fault => exact faulty fault rfl
  | ok a => exact ok a rfl

theorem storagePut_spec {kind : FileKind} {file : InfoFile}
    (inv : Inv (repo.write type kind file) hArchive hBackup) :
    Triple (At cut repo) (storagePut type kind file)
      (fun _ => At cut (repo.write type kind file)) (Ended cut full) := by
  rintro ⟨r, c⟩ ⟨rfl, uncut⟩
  by_cases last : c = some 0
  · subst last
    exact ⟨⟨hArchive, hBackup, inv⟩, fun asked => absurd (uncut asked) (by simp)⟩
  · have run : exec (storagePut type kind file) ⟨r, c⟩ =
        (.ok (), ⟨r.write type kind file, c.map (· - 1)⟩) := by
      change exec (if c = some 0 then throw .cutOff else pure () : StanzaM Unit) _ = _
      rw [if_neg last]
      rfl
    rw [run]
    constructor
    · rfl
    · intro asked
      have none_ : c = none := uncut asked
      rw [none_]
      rfl

def Repo.save (repo : Repo) (type : InfoPgType) (file : InfoFile) : Repo :=
  (repo.write type .info file).write type .copy file

theorem infoSaveFile_spec {infoPg : InfoPg} {file : InfoFile} (saved : infoPgSave infoPg = .ok file)
    (first : Inv (repo.write type .info file) hArchive hBackup)
    (second : Inv (repo.save type file) hArchive hBackup) :
    Triple (At cut repo) (infoSaveFile type infoPg) (fun _ => At cut (repo.save type file))
      (Ended cut full) := by
  rw [infoSaveFile, saved]
  change Triple _ (storagePut type .info file >>= fun _ => storagePut type .copy file) _ _
  exact Triple.bind (storagePut_spec first) (fun _ => storagePut_spec second)

theorem Inv.write_archive (inv : Inv repo hArchive hBackup)
    (same : hArchive.map pgKey = hBackup.map pgKey) (numbered : Numbered (pgData :: hArchive))
    (room : hArchive.length < 2 ^ 31) :
    Inv (repo.write .archive .info (fileOf (pgData :: hArchive))) (pgData :: hArchive) hBackup where
  archive := Holds.write_info repo .archive numbered room
  backup := inv.backup.write_other (by decide) _ _
  ahead := .inr ⟨pgData, hArchive, rfl, same⟩

theorem Inv.write_backup (inv : Inv repo (a :: hArchive) hBackup) (same : pgKey a = pgKey pgData)
    (numbered : Numbered (pgData :: hBackup)) (room : hBackup.length < 2 ^ 31) :
    Inv (repo.write .backup .info (fileOf (pgData :: hBackup))) (a :: hArchive)
      (pgData :: hBackup) := by
  have lengths := inv.archive.numbered.length_of_key numbered same
  constructor
  · exact inv.archive.write_other (by decide) _ _
  · exact Holds.write_info repo .backup numbered room
  · left
    rcases inv.ahead with equal | ⟨first, rest, whole, equal⟩
    · have short := congrArg List.length equal
      simp only [List.length_map, List.length_cons] at short
      omega
    · cases whole
      rw [List.map_cons, List.map_cons, same, equal]

theorem Inv.write_copy (inv : Inv repo (a :: hArchive) (b :: hBackup)) (type : InfoPgType)
    (file : InfoFile) :
    Inv (repo.write type .copy file) (a :: hArchive) (b :: hBackup) :=
  ⟨inv.archive, inv.backup, inv.ahead⟩

/-- The copy of `archive.info` may be written while there is no `backup.info`. -/
theorem Inv.write_copy_archive (inv : Inv repo (a :: hArchive) hBackup) (file : InfoFile) :
    Inv (repo.write .archive .copy file) (a :: hArchive) hBackup where
  archive := inv.archive
  backup := inv.backup.write_other (by decide) _ _
  ahead := inv.ahead

theorem Inv.save_archive (inv : Inv repo hArchive hBackup)
    (same : hArchive.map pgKey = hBackup.map pgKey) (numbered : Numbered (pgData :: hArchive))
    (room : hArchive.length < 2 ^ 31) :
    Inv (repo.save .archive (fileOf (pgData :: hArchive))) (pgData :: hArchive) hBackup :=
  (inv.write_archive same numbered room).write_copy_archive _

theorem Inv.save_backup (inv : Inv repo (a :: hArchive) hBackup) (same : pgKey a = pgKey pgData)
    (numbered : Numbered (pgData :: hBackup)) (room : hBackup.length < 2 ^ 31) :
    Inv (repo.save .backup (fileOf (pgData :: hBackup))) (a :: hArchive) (pgData :: hBackup) :=
  (inv.write_backup same numbered room).write_copy _ _

/-- `archive.info` is saved with one more entry. -/
theorem saveArchive_spec (cut : Option Nat) (inv : Inv repo hArchive hBackup)
    (same : hArchive.map pgKey = hBackup.map pgKey) (numbered : Numbered (pgData :: hArchive))
    (room : hArchive.length < 2 ^ 31) :
    Triple (At cut repo) (infoSaveFile .archive ⟨pgData :: hArchive, 0⟩)
      (fun _ => At cut (repo.save .archive (fileOf (pgData :: hArchive)))) (Ended cut full) :=
  infoSaveFile_spec (infoPgSave_numbered numbered) (inv.write_archive same numbered room)
    (inv.save_archive same numbered room)

/-- `backup.info` is saved with the entry that `archive.info` has already. -/
theorem saveBackup_spec (cut : Option Nat) (inv : Inv repo (a :: hArchive) hBackup)
    (same : pgKey a = pgKey pgData) (numbered : Numbered (pgData :: hBackup))
    (room : hBackup.length < 2 ^ 31) :
    Triple (At cut repo) (infoSaveFile .backup ⟨pgData :: hBackup, 0⟩)
      (fun _ => At cut (repo.save .backup (fileOf (pgData :: hBackup)))) (Ended cut full) :=
  infoSaveFile_spec (infoPgSave_numbered numbered) (inv.write_backup same numbered room)
    (inv.save_backup same numbered room)

/-- A command has returned with the repository as it should be. -/
def Done (cut : Option Nat) (pgControl : PgControl) (before : Repo) (work : Work) : Prop :=
  (∃ hArchive hBackup, Inv work.repo hArchive hBackup) ∧ (cut = none → work.cut = none) ∧
    Agree pgControl before work.repo

theorem At.done {work : Work} (isAt : At cut repo work) (inv : Inv repo hArchive hBackup)
    (agree : Agree pgControl before repo) : Done cut pgControl before work := by
  obtain ⟨rfl, uncut⟩ := isAt
  exact ⟨⟨hArchive, hBackup, inv⟩, uncut, agree⟩

/-! ## Stanza create -/

theorem stanzaNew_spec (blank : Inv repo [] []) :
    Triple (At cut repo) (stanzaNew repo pgControl) (fun _ => Done cut pgControl repo)
      (Ended cut full) := by
  unfold stanzaNew
  split
  · exact fun work isAt => isAt.threw blank _
  · have empty : ([] : List InfoPgData).length < 2 ^ 31 := by decide
    have isOne : ∀ type, Numbered [newData type pgControl 1] := fun _ => ⟨rfl, trivial⟩
    have one := blank.save_archive rfl (isOne .archive) empty
    have same := pgKey_newData pgControl 1
    have two := one.save_backup same (isOne .backup) empty
    rw [infoNew_eq, infoNew_eq]
    apply Triple.bind (saveArchive_spec cut blank rfl (isOne .archive) empty)
    intro _
    refine Triple.mono (saveBackup_spec cut one same (isOne .backup) empty) ?_
    intro _ work isAt
    apply isAt.done two
    apply two.agree same (differs_eq_false.mpr ⟨rfl, rfl⟩)
    intro type
    have before : loadedHistory repo type = [] := by
      cases type with
      | archive => exact blank.archive.loadedHistory
      | backup => exact blank.backup.loadedHistory
    rw [before]
    exact List.nil_suffix

theorem copyMissing_spec (inv : Inv repo (a :: hArchive) (b :: hBackup))
    (isSome : (before.info type).isSome) :
    Triple (At cut repo) (copyMissing before type) (fun _ work => ∃ after,
      Inv after (a :: hArchive) (b :: hBackup) ∧ At cut after work) (Ended cut full) := by
  unfold copyMissing
  split
  · rename_i file _ _
    have copied := inv.write_copy type file
    exact (storagePut_spec copied).mono (fun _ work isAt => ⟨_, copied, isAt⟩)
  · rename_i missing _
    rw [missing] at isSome
    exact absurd isSome (by simp)
  · exact Triple.pure (fun work isAt => ⟨repo, inv, isAt⟩)

theorem checkStanzaInfoPg_result (pgControl : PgControl)
    (inv : Inv repo (a :: hArchive) (b :: hBackup)) :
    (∃ e, checkStanzaInfoPg repo pgControl = .error (.thrown e)) ∨
      (checkStanzaInfoPg repo pgControl = .ok () ∧ pgKey a = pgKey b ∧
        differs pgControl a = false) := by
  rw [checkStanzaInfoPg, inv.archive.load, inv.backup.load]
  change (∃ e, ((checkStanzaInfo a b).mapError Failure.thrown >>= _) = _) ∨
    ((checkStanzaInfo a b).mapError Failure.thrown >>= _) = _ ∧ _
  cases checked : checkStanzaInfo a b with
  | error e => exact .inl ⟨e, rfl⟩
  | ok _ =>
    have same := checkStanzaInfo_ok checked
    change (∃ e, (if differs pgControl a then Except.error _ else .ok ()) = _) ∨
      (if differs pgControl a then Except.error _ else .ok ()) = _ ∧ _
    cases other : differs pgControl a with
    | true => exact .inl ⟨_, rfl⟩
    | false => exact .inr ⟨rfl, same, rfl⟩

/-- Each file is loaded with its history, and the longer one extends both. -/
theorem Inv.loaded_suffix (inv : Inv repo hArchive hBackup) (type : InfoPgType) :
    loadedHistory repo type <:+ hArchive.map pgKey := by
  cases type with
  | archive =>
    rw [inv.archive.loadedHistory]
  | backup =>
    rw [inv.backup.loadedHistory]
    rcases inv.ahead with equal | ⟨pgData, rest, rfl, equal⟩
    · rw [equal]
    · rw [← equal]
      exact List.suffix_cons _ _

theorem stanzaCreate_spec (inv : Inv repo hArchive hBackup) :
    Triple (At cut repo) (stanzaCreate pgControl) (fun _ => Done cut pgControl repo)
      (Ended cut full) := by
  apply Triple.get_bind
  rintro start ⟨rfl, -⟩
  dsimp only
  rw [inv.archive.infoExists, inv.backup.infoExists]
  cases hArchive with
  | nil =>
    cases hBackup with
    | nil => exact stanzaNew_spec inv
    | cons b rest => exact fun work isAt => isAt.threw inv _
  | cons a hArchive =>
    cases hBackup with
    | nil => exact fun work isAt => isAt.threw inv _
    | cons b hBackup =>
      change Triple _ (orStop (checkStanzaInfoPg start.repo pgControl) >>= fun _ =>
        copyMissing start.repo .archive >>= fun _ => copyMissing start.repo .backup) _ _
      obtain ⟨e, failed⟩ | ⟨checked, same, cluster⟩ := checkStanzaInfoPg_result pgControl inv
      · rw [failed]
        exact fun work isAt => isAt.threw inv e
      rw [checked]
      have isArchive : (start.repo.info .archive).isSome := by rw [inv.archive.1]; rfl
      have isBackup : (start.repo.info .backup).isSome := by rw [inv.backup.1]; rfl
      apply Triple.bind (copyMissing_spec inv isArchive)
      rintro _ work ⟨middle, inv', isAt⟩
      apply (copyMissing_spec inv' isBackup).mono ?_ work isAt
      rintro _ work' ⟨after, inv'', isAt'⟩
      exact isAt'.done inv'' (inv''.agree same cluster inv.loaded_suffix)

/-! ## Stanza upgrade -/

theorem newData_numbered (type : InfoPgType) (pgControl : PgControl) (numbered : Numbered h) :
    Numbered (newData type pgControl (h.length + 1) :: h) :=
  ⟨rfl, numbered⟩

theorem infoUpgrade_holds (pgControl : PgControl) (holds : Holds repo type (pgData :: h)) :
    infoUpgrade repo type pgControl = if differs pgControl pgData then
      (infoPgSet ⟨pgData :: h, 0⟩ type pgControl >>= fun upgraded => pure (upgraded, true))
      else pure (⟨pgData :: h, 0⟩, false) := by
  rw [infoUpgrade, holds.load]
  rfl

/-- An info file is loaded, and gets one more entry if it is not of the cluster. -/
theorem infoUpgrade_eq (pgControl : PgControl) (holds : Holds repo type (pgData :: h))
    (room : differs pgControl pgData = true → (pgData :: h).length < 2 ^ 31) :
    infoUpgrade repo type pgControl = .ok
      (⟨if differs pgControl pgData then newData type pgControl (h.length + 2) :: pgData :: h
        else pgData :: h, 0⟩, differs pgControl pgData) := by
  rw [infoUpgrade_holds pgControl holds]
  cases other : differs pgControl pgData with
  | true =>
    rw [if_pos rfl, infoPgSet_numbered type pgControl holds.2.1 (room other)]
    rfl
  | false => rfl

/-- There is no room for the entry of another cluster. -/
theorem infoUpgrade_full (holds : Holds repo type (pgData :: h))
    (other : differs pgControl pgData = true) (full : (pgData :: h).length = 2 ^ 31) :
    infoUpgrade repo type pgControl = .error (.fault .outside) := by
  rw [infoUpgrade_holds pgControl holds, other, if_pos rfl,
    infoPgSet_full type pgControl holds.2.1 full]
  rfl

theorem infoUpgrade_room (holds : Holds repo type (pgData :: h)) :
    (differs pgControl pgData = true → (pgData :: h).length < 2 ^ 31) ∨
      differs pgControl pgData = true ∧ (pgData :: h).length = 2 ^ 31 := by
  by_cases room : differs pgControl pgData = true → (pgData :: h).length < 2 ^ 31
  · exact .inl room
  · rw [Classical.not_imp, not_lt] at room
    exact .inr ⟨room.1, holds.length_le.antisymm room.2⟩

theorem infoUpgrade_fault {fault : Fault} (holds : Holds repo type h)
    (isFault : infoUpgrade repo type pgControl = .error (.fault fault)) :
    Full .stanzaUpgrade pgControl repo := by
  cases h with
  | nil =>
    obtain ⟨e, failed⟩ := holds.load_nil
    rw [infoUpgrade, failed] at isFault
    cases isFault
  | cons pgData rest =>
    rcases infoUpgrade_room holds with room | ⟨other, full⟩
    · rw [infoUpgrade_eq pgControl holds room] at isFault
      cases isFault
    · exact ⟨rfl, type, _, pgData, holds.load, rfl, other, full⟩

theorem infoUpgrade_ok {infoPg : InfoPg} {save : Bool} (holds : Holds repo type h)
    (ok : infoUpgrade repo type pgControl = .ok (infoPg, save)) :
    ∃ pgData rest, h = pgData :: rest ∧ differs pgControl pgData = save ∧
      infoPg = ⟨if save then newData type pgControl (h.length + 1) :: h else h, 0⟩ ∧
      (save = true → h.length < 2 ^ 31) := by
  cases h with
  | nil =>
    obtain ⟨e, failed⟩ := holds.load_nil
    rw [infoUpgrade, failed] at ok
    cases ok
  | cons pgData rest =>
    rcases infoUpgrade_room holds with room | ⟨other, full⟩
    · rw [infoUpgrade_eq pgControl holds room] at ok
      cases ok
      exact ⟨pgData, rest, rfl, rfl, rfl, room⟩
    · rw [infoUpgrade_full holds other full] at ok
      cases ok

/-- An entry of the cluster can be followed by an agreeing one only. -/
theorem Inv.agree_next {after : Repo} {hBefore : List InfoPgData}
    (inv : Inv after (a :: hArchive) (b :: hBackup)) (same : pgKey a = pgKey b)
    (cluster : differs pgControl a = false)
    (loaded : ∀ type, loadedHistory before type <:+ hBefore.map pgKey)
    (isSuffix : hBefore <:+ a :: hArchive) : Agree pgControl before after :=
  inv.agree same cluster (fun type => (loaded type).trans (isSuffix.map pgKey))

theorem differs_newData (type : InfoPgType) (pgControl : PgControl) (id : Nat) :
    differs pgControl (newData type pgControl id) = false :=
  differs_eq_false.mpr ⟨rfl, rfl⟩

theorem Ahead.length (ahead : Ahead hArchive hBackup) :
    hArchive.length = hBackup.length ∨ hArchive.length = hBackup.length + 1 := by
  rcases ahead with equal | ⟨pgData, rest, rfl, equal⟩
  · left
    simpa using congrArg List.length equal
  · right
    simpa using congrArg List.length equal

/-- Both files are of another cluster. -/
theorem upgradeBoth_spec (inv : Inv repo hArchive hBackup) (same : hArchive.length = hBackup.length)
    (room : hArchive.length < 2 ^ 31) :
    Triple (At cut repo)
      (infoSaveFile .archive ⟨newData .archive pgControl (hArchive.length + 1) :: hArchive, 0⟩ >>=
        fun _ =>
          infoSaveFile .backup ⟨newData .backup pgControl (hBackup.length + 1) :: hBackup, 0⟩)
      (fun _ => Done cut pgControl repo) (Ended cut full) := by
  have equal := inv.ahead.eq_of_length same
  have nextArchive := newData_numbered .archive pgControl inv.archive.numbered
  have nextBackup := newData_numbered .backup pgControl inv.backup.numbered
  have sameKey := pgKey_newData pgControl (hArchive.length + 1)
  rw [same] at sameKey
  have one := inv.save_archive equal nextArchive room
  rw [same] at one nextArchive
  have two := one.save_backup sameKey nextBackup (same ▸ room)
  rw [same]
  apply Triple.bind (saveArchive_spec cut inv equal nextArchive room)
  intro _
  refine Triple.mono (saveBackup_spec cut one sameKey nextBackup (same ▸ room)) ?_
  intro _ work isAt
  exact isAt.done two (two.agree_next sameKey (differs_newData _ _ _) inv.loaded_suffix
    (List.suffix_cons _ _))

/-- Only `backup.info` is of another cluster: it was not written by a command that was cut off. -/
theorem upgradeBackup_spec (inv : Inv repo (a :: hArchive) hBackup)
    (same : pgKey a = pgKey (newData .backup pgControl (hBackup.length + 1)))
    (cluster : differs pgControl a = false) (room : hBackup.length < 2 ^ 31) :
    Triple (At cut repo)
      (infoSaveFile .backup ⟨newData .backup pgControl (hBackup.length + 1) :: hBackup, 0⟩)
      (fun _ => Done cut pgControl repo) (Ended cut full) := by
  have nextBackup := newData_numbered .backup pgControl inv.backup.numbered
  have after := inv.save_backup same nextBackup room
  refine Triple.mono (saveBackup_spec cut inv same nextBackup room) ?_
  intro _ work isAt
  exact isAt.done after (after.agree_next same cluster inv.loaded_suffix List.suffix_rfl)

theorem stanzaUpgrade_spec (inv : Inv repo hArchive hBackup) :
    Triple (At cut repo) (stanzaUpgrade pgControl) (fun _ => Done cut pgControl repo)
      (Ended cut (Full .stanzaUpgrade pgControl repo)) := by
  apply Triple.get_bind
  rintro start ⟨rfl, -⟩
  apply orStop_spec (fun e work isAt => isAt.threw inv e)
    (fun fault isFault work isAt => isAt.fault inv fault (infoUpgrade_fault inv.archive isFault))
  rintro ⟨infoArchive, saveArchive⟩ upgradeArchive
  apply orStop_spec (fun e work isAt => isAt.threw inv e)
    (fun fault isFault work isAt => isAt.fault inv fault (infoUpgrade_fault inv.backup isFault))
  rintro ⟨infoBackup, saveBackup⟩ upgradeBackup
  obtain ⟨a, restA, rfl, differsA, rfl, roomA⟩ := infoUpgrade_ok inv.archive upgradeArchive
  obtain ⟨b, restB, rfl, differsB, rfl, roomB⟩ := infoUpgrade_ok inv.backup upgradeBackup
  have idA := inv.archive.numbered.1
  have idB := inv.backup.numbered.1
  have lengths := inv.ahead.length
  rw [List.length_cons, List.length_cons] at lengths
  apply orThrow_spec (fun e work isAt => isAt.threw inv e)
  intro backupInfo isBackup
  apply orThrow_spec (fun e work isAt => isAt.threw inv e)
  intro archiveInfo isArchive
  apply orThrow_spec (fun e work isAt => isAt.threw inv e)
  intro _ checked
  have same := checkStanzaInfo_ok checked
  have ids : archiveInfo.id = backupInfo.id := congrArg Prod.fst same
  cases saveArchive with
  | true =>
    cases isArchive
    have idNew : (newData .archive pgControl ((a :: restA).length + 1)).id = restA.length + 2 := rfl
    cases saveBackup with
    | true =>
      cases isBackup
      have idNew' : (newData .backup pgControl ((b :: restB).length + 1)).id = restB.length + 2 := rfl
      exact upgradeBoth_spec inv (by rw [List.length_cons, List.length_cons]; omega) (roomA rfl)
    | false =>
      -- The archive would be two entries ahead.
      cases isBackup
      omega
  | false =>
    cases isArchive
    cases saveBackup with
    | true =>
      cases isBackup
      exact upgradeBackup_spec inv same differsA (roomB rfl)
    | false =>
      cases isBackup
      exact Triple.pure (fun work isAt =>
        isAt.done inv (inv.agree same differsA inv.loaded_suffix))

theorem stanzaRepo_spec (type : CommandType) (pgControl : PgControl)
    (inv : Inv repo hArchive hBackup) :
    Triple (At cut repo) (stanzaRepo type pgControl) (fun _ => Done cut pgControl repo)
      (Ended cut (Full type pgControl repo)) := by
  cases type with
  | stanzaCreate => exact stanzaCreate_spec inv
  | stanzaUpgrade => exact stanzaUpgrade_spec inv

end Spec

/-! ## Runs -/

/-- The histories of a repository are known. -/
def Valid (repo : Repo) : Prop := ∃ hArchive hBackup, Inv repo hArchive hBackup

def LoopDone (cut : Option Nat) (type : CommandType) (pgControl : PgControl) (repos : List Repo) :
    Except Stop Unit × List Repo → Prop
  | (.ok _, after) => (∀ repo ∈ after, Valid repo) ∧ List.Forall₂ (Agree pgControl) repos after
  | (.error (.threw _), after) => ∀ repo ∈ after, Valid repo
  | (.error (.fault _), after) => (∀ repo ∈ after, Valid repo) ∧ ∃ repo ∈ repos, Full type pgControl repo
  | (.error .cutOff, after) => (∀ repo ∈ after, Valid repo) ∧ cut ≠ none

theorem repoLoop_done (type : CommandType) (pgControl : PgControl) {asked : Option Nat}
    {repos : List Repo} (valid : ∀ repo ∈ repos, Valid repo) {cut : Option Nat}
    (uncut : asked = none → cut = none) :
    LoopDone asked type pgControl repos (repoLoop (stanzaRepo type pgControl) repos cut) := by
  induction repos generalizing cut with
  | nil => exact ⟨fun repo mem => absurd mem List.not_mem_nil, List.Forall₂.nil⟩
  | cons repo rest ih =>
    obtain ⟨hArchive, hBackup, inv⟩ := valid repo List.mem_cons_self
    have validRest := fun r mem => valid r (List.mem_cons_of_mem repo mem)
    have first := stanzaRepo_spec type pgControl inv ⟨repo, cut⟩ ⟨rfl, uncut⟩
    have all : ∀ {work : Work} {others : List Repo}, Valid work.repo →
        (∀ r ∈ others, Valid r) → ∀ r ∈ work.repo :: others, Valid r := by
      intro work others one more r mem
      rcases List.mem_cons.mp mem with rfl | later
      · exact one
      · exact more r later
    rw [repoLoop]
    rcases run : exec (stanzaRepo type pgControl) ⟨repo, cut⟩ with ⟨result, work⟩
    rw [run] at first
    cases result with
    | error stop =>
      cases stop with
      | threw e => exact all first.1 validRest
      | fault fault => exact ⟨all first.1 validRest, repo, List.mem_cons_self, first.2⟩
      | cutOff => exact ⟨all first.1 validRest, first.2⟩
    | ok _ =>
      obtain ⟨one, uncut', agree⟩ := first
      have later := ih validRest uncut'
      dsimp only
      rcases more : repoLoop (stanzaRepo type pgControl) rest work.cut with ⟨result, after⟩
      rw [more] at later
      cases result with
      | ok _ => exact ⟨all one later.1, List.Forall₂.cons agree later.2⟩
      | error stop =>
        cases stop with
        | threw e => exact all one later
        | fault fault =>
          obtain ⟨validAfter, other, mem, isFull⟩ := later
          exact ⟨all one validAfter, other, List.mem_cons_of_mem repo mem, isFull⟩
        | cutOff => exact ⟨all one later.1, later.2⟩

theorem cmdStanza_valid {command : Command} {repos : List Repo}
    (valid : ∀ repo ∈ repos, Valid repo) :
    (∀ repo ∈ (cmdStanza command repos).2, Valid repo) ∧
      (Sound command repos ∨ Overflows command repos) := by
  unfold Sound Overflows cmdStanza
  cases isControl : command.pgControl with
  | error e => exact ⟨valid, .inl trivial⟩
  | ok pgControl =>
    have done := repoLoop_done command.type pgControl valid (fun asked : command.cut = none => asked)
    dsimp only
    rcases loop : repoLoop (stanzaRepo command.type pgControl) repos command.cut with ⟨result, after⟩
    rw [loop] at done
    cases result with
    | ok _ => exact ⟨done.1, .inl ⟨pgControl, rfl, done.2⟩⟩
    | error stop =>
      cases stop with
      | threw e => exact ⟨done, .inl trivial⟩
      | fault fault => exact ⟨done.1, .inr ⟨⟨fault, rfl⟩, pgControl, rfl, done.2⟩⟩
      | cutOff => exact ⟨done.1, .inl done.2⟩

theorem run_append (commands more : List Command) (repos : List Repo) :
    run (commands ++ more) repos = run more (run commands repos) :=
  List.foldl_append

def emptyRepo : Repo where
  key := 1
  path := fun _ => []
  info := fun _ => none
  copy := fun _ => none
  other := fun _ => false

/-- Two clusters take turns. -/
def turn (n : Nat) : PgControl where
  version := 140000
  systemId := n % 2 + 1
  catalogVersion := 202107181

def turnCommand (n : Nat) : Command where
  type := if n = 0 then .stanzaCreate else .stanzaUpgrade
  pgControl := .ok (turn n)
  cut := none

theorem emptyRepo_blank : ∀ repo ∈ [emptyRepo], Blank repo := by
  intro repo isEmpty
  obtain rfl := List.mem_singleton.mp isEmpty
  exact fun type => ⟨rfl, rfl⟩

/-- One upgrade after another. -/
def turns (n : Nat) : List Command := (List.range n).map turnCommand

theorem run_turns_succ (n : Nat) (repos : List Repo) :
    run (turns (n + 1)) repos = (cmdStanza (turnCommand n) (run (turns n) repos)).2 := by
  rw [turns, List.range_succ, List.map_append, ← turns, run_append]
  rfl

theorem exec_stanzaCreate (pgControl : PgControl) (blank : Inv repo [] [])
    (empty : repo.other .archive = false ∧ repo.other .backup = false) :
    exec (stanzaCreate pgControl) ⟨repo, none⟩ = (.ok (), ⟨(repo.save .archive
      (fileOf [newData .archive pgControl 1])).save .backup
      (fileOf [newData .backup pgControl 1]), none⟩) := by
  unfold stanzaCreate
  rw [exec_bind_of_ok (exec_get _)]
  dsimp only
  rw [blank.archive.infoExists, blank.backup.infoExists]
  change exec (stanzaNew repo pgControl) _ = _
  rw [stanzaNew, empty.1, empty.2]
  rfl

theorem exec_stanzaUpgrade (inv : Inv repo (a :: hArchive) (b :: hBackup))
    (otherA : differs pgControl a = true) (otherB : differs pgControl b = true)
    (same : hArchive.length = hBackup.length) (room : (b :: hBackup).length < 2 ^ 31) :
    exec (stanzaUpgrade pgControl) ⟨repo, none⟩ = (.ok (), ⟨(repo.save .archive
      (fileOf (newData .archive pgControl (hBackup.length + 2) :: a :: hArchive))).save .backup
      (fileOf (newData .backup pgControl (hBackup.length + 2) :: b :: hBackup)), none⟩) := by
  have upgradeArchive := infoUpgrade_eq pgControl inv.archive
    (fun _ => by rw [List.length_cons, same]; exact room)
  have upgradeBackup := infoUpgrade_eq pgControl inv.backup (fun _ => room)
  rw [otherA, same] at upgradeArchive
  rw [otherB] at upgradeBackup
  have checked : checkStanzaInfo (newData .archive pgControl (hBackup.length + 2))
      (newData .backup pgControl (hBackup.length + 2)) = .ok () := by
    simp [checkStanzaInfo, newData]
  unfold stanzaUpgrade
  rw [exec_bind_of_ok (exec_get _)]
  dsimp only
  rw [upgradeArchive, upgradeBackup, fileOf, List.length_cons, List.length_cons, same]
  change exec (orThrow (checkStanzaInfo (newData .archive pgControl (hBackup.length + 2))
      (newData .backup pgControl (hBackup.length + 2))) >>= _) _ = _
  rw [checked]
  rfl

/-- One repository with two histories of one length, both for the cluster of the last turn. -/
structure AtTurn (n : Nat) (repo : Repo) (a b : InfoPgData) (hArchive hBackup : List InfoPgData) :
    Prop where
  inv : Inv repo (a :: hArchive) (b :: hBackup)
  archiveLength : hArchive.length = n
  backupLength : hBackup.length = n
  archiveId : a.systemId = n % 2 + 1
  backupId : b.systemId = n % 2 + 1

theorem differs_turn (isLast : pgData.systemId = n % 2 + 1) :
    differs (turn (n + 1)) pgData = true := by
  have other : (n + 1) % 2 ≠ n % 2 := by omega
  simp [differs, turn, isLast, other]

/-- A turn after the first is an upgrade of both files. -/
theorem AtTurn.cmdStanza (isAt : AtTurn n repo a b hArchive hBackup) (room : n + 1 < 2 ^ 31) :
    Stanza.cmdStanza (turnCommand (n + 1)) [repo] = (.ok (), [(repo.save .archive
      (fileOf (newData .archive (turn (n + 1)) (n + 2) :: a :: hArchive))).save .backup
      (fileOf (newData .backup (turn (n + 1)) (n + 2) :: b :: hBackup))]) := by
  have upgrade := exec_stanzaUpgrade isAt.inv (differs_turn isAt.archiveId)
    (differs_turn isAt.backupId) (isAt.archiveLength.trans isAt.backupLength.symm)
    (by rw [List.length_cons, isAt.backupLength]; exact room)
  rw [isAt.backupLength] at upgrade
  change repoLoop (stanzaUpgrade (turn (n + 1))) [repo] none = _
  rw [repoLoop, upgrade]
  rfl

theorem run_turns (short : n < 2 ^ 31) :
    ∃ repo a b hArchive hBackup, run (turns (n + 1)) [emptyRepo] = [repo] ∧
      AtTurn n repo a b hArchive hBackup := by
  induction n with
  | zero =>
    have blank : Inv emptyRepo [] [] := Blank.inv (emptyRepo_blank _ List.mem_cons_self)
    have isOne : ∀ type, Numbered [newData type (turn 0) 1] := fun _ => ⟨rfl, trivial⟩
    have empty : ([] : List InfoPgData).length < 2 ^ 31 := by decide
    have two := (blank.save_archive rfl (isOne .archive) empty).save_backup
      (pgKey_newData (turn 0) 1) (isOne .backup) empty
    have first : run (turns 1) [emptyRepo] = (cmdStanza (turnCommand 0) [emptyRepo]).2 := rfl
    have create : cmdStanza (turnCommand 0) [emptyRepo] =
        repoLoop (stanzaCreate (turn 0)) [emptyRepo] none := rfl
    rw [first, create, repoLoop, exec_stanzaCreate (turn 0) blank ⟨rfl, rfl⟩]
    exact ⟨_, _, _, [], [], rfl, two, rfl, rfl, rfl, rfl⟩
  | succ n ih =>
    obtain ⟨repo, a, b, hArchive, hBackup, isRun, isAt⟩ := ih (by omega)
    have step := isAt.cmdStanza short
    obtain ⟨inv, rfl, backupLength, archiveId, backupId⟩ := isAt
    have nextArchive := newData_numbered .archive (turn (hArchive.length + 1)) inv.archive.numbered
    have nextBackup := newData_numbered .backup (turn (hArchive.length + 1)) inv.backup.numbered
    rw [List.length_cons] at nextArchive nextBackup
    rw [backupLength] at nextBackup
    have equal := inv.ahead.eq_of_length (by simp [backupLength])
    have two := (inv.save_archive equal nextArchive short).save_backup (pgKey_newData _ _) nextBackup
      (by rw [List.length_cons, backupLength]; exact short)
    rw [run_turns_succ, isRun, step]
    refine ⟨_, _, _, _, _, rfl, two, rfl, ?_, rfl, rfl⟩
    rw [List.length_cons, backupLength]

/-- The upgrade that would add entry 2147483649 neither returns nor throws. -/
theorem turn_unsound (last : n + 1 = 2 ^ 31) :
    ¬ Sound (turnCommand (n + 1)) (run (turns (n + 1)) [emptyRepo]) := by
  obtain ⟨repo, a, b, hArchive, hBackup, isRun, isAt⟩ := run_turns (by omega : n < 2 ^ 31)
  have full : (a :: hArchive).length = 2 ^ 31 := by rw [List.length_cons, isAt.archiveLength, last]
  have upgrade := infoUpgrade_full isAt.inv.archive (differs_turn isAt.archiveId) full
  have faulty : cmdStanza (turnCommand (n + 1)) [repo] = (.error (.fault .outside), [repo]) := by
    change repoLoop (stanzaUpgrade (turn (n + 1))) [repo] none = _
    rw [repoLoop]
    unfold stanzaUpgrade
    rw [exec_bind_of_ok (exec_get _)]
    dsimp only
    rw [upgrade]
    rfl
  rw [isRun, Sound, faulty]
  exact id

end Stanza

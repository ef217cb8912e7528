import Mathlib.Data.List.Basic
import Backrest.FuelLoop
import Backrest.StreamFilter

/-!
# Writing a file to S3

Data is collected in a part buffer. A full buffer is sent as a part of an upload, and the
response is read only when the next request is due. A file that never filled the buffer is
sent with one request when it is closed.
-/

namespace S3Write

open Text FuelLoop StreamFilter

inductive Request
  /-- `PUT` of the whole file. -/
  | put (content : Bytes)
  /-- `POST` with the query `uploads`. -/
  | uploads
  /-- `PUT` with the queries `uploadId` and `partNumber`. -/
  | part (uploadId : Str) (partNumber : Nat) (content : Bytes)
  /-- `POST` with the query `uploadId` and the part list. -/
  | complete (uploadId : Str) (partList : List (Nat × Str))
  deriving DecidableEq

structure StorageWriteS3 where
  /-- The outstanding request, by its place among the requests that were sent. -/
  request : Option Nat := none
  partSize : Nat
  partBuffer : Option Buffer := none
  uploadId : Option Str := none
  uploadPartList : List Str := []
  /-- All the requests that were sent. -/
  sent : List Request := []
  deriving DecidableEq

def storageWriteS3New (partSize : Nat) : StorageWriteS3 := { partSize }

def storageWriteS3Open (this : StorageWriteS3) : StorageWriteS3 :=
  { this with partBuffer := some ⟨[], this.partSize⟩ }

/-- `ASSERT(this->partBuffer != NULL)` -/
def partBufferError : Error := ⟨.assertError, "assertion 'this->partBuffer != NULL' failed".toList⟩

section Write

-- what the service answers to each request: the upload id, or the etag of a part
variable (answer : Nat → Str)

/-- If there is an outstanding async request then store the part id. -/
def storageWriteS3Part (this : StorageWriteS3) : StorageWriteS3 :=
  match this.request with
  | some request =>
    { this with uploadPartList := this.uploadPartList ++ [answer request], request := none }
  | none => this

/-- Get the upload id if we have not already. -/
def initUpload (this : StorageWriteS3) : StorageWriteS3 :=
  match this.uploadId with
  | some _ => this
  | none =>
    { this with
      sent := this.sent ++ [.uploads]
      uploadId := some (answer this.sent.length)
      uploadPartList := [] }

/-- Send the content of the part buffer as the next part. -/
def storageWriteS3PartAsync (this : StorageWriteS3) (content : Bytes) : StorageWriteS3 :=
  let this := initUpload answer (storageWriteS3Part answer this)
  { this with
    request := some this.sent.length
    sent := this.sent ++
      [.part (this.uploadId.getD []) (this.uploadPartList.length + 1) content] }

/-- One round of the loop of `storageWriteS3`. -/
def writeRound (buffer : Bytes) (state : StorageWriteS3 × Nat) :
    Outcome Error ((StorageWriteS3 × Nat) ⊕ StorageWriteS3) :=
  match state.1.partBuffer with
  | none => .error partBufferError
  | some partBuffer =>
    let bytesTotal := state.2
    let bytesNext := if bufRemains partBuffer > buffer.length - bytesTotal then
      buffer.length - bytesTotal else bufRemains partBuffer
    let content := partBuffer.used ++ strSub buffer bytesTotal bytesNext
    let this := if bufRemains { partBuffer with used := content } = 0 then
      { storageWriteS3PartAsync answer state.1 content with
        partBuffer := some { partBuffer with used := [] } }
      else { state.1 with partBuffer := some { partBuffer with used := content } }
    if bytesTotal + bytesNext ≠ buffer.length then .ok (.inl (this, bytesTotal + bytesNext))
    else .ok (.inr this)
where
  /-- The bytes that `bufCatSub` appends. -/
  strSub (buffer : Bytes) (offset size : Nat) : Bytes := (buffer.drop offset).take size

def storageWriteS3 (fuel : Nat) (this : StorageWriteS3) (buffer : Bytes) :
    Outcome Error StorageWriteS3 :=
  loop (writeRound answer buffer) fuel (this, 0)

/-- The parts of the finished list are numbered from 1. -/
def partList (uploadPartList : List Str) : List (Nat × Str) :=
  uploadPartList.zipIdx.map fun part => (part.2 + 1, part.1)

def storageWriteS3Close (this : StorageWriteS3) : StorageWriteS3 :=
  match this.partBuffer with
  | none => this
  | some partBuffer =>
    match this.uploadId with
    | some uploadId =>
      let this := if partBuffer.used ≠ [] then storageWriteS3PartAsync answer this partBuffer.used
        else this
      let this := storageWriteS3Part answer this
      { this with
        sent := this.sent ++ [.complete uploadId (partList this.uploadPartList)]
        partBuffer := none }
    | none => { this with sent := this.sent ++ [.put partBuffer.used], partBuffer := none }

def writeBuffers (fuel : Nat) : StorageWriteS3 → List Bytes → Outcome Error StorageWriteS3
  | this, [] => .ok this
  | this, buffer :: rest =>
    (storageWriteS3 answer fuel this buffer).bind fun this => writeBuffers fuel this rest

def writeFile (partSize fuel : Nat) (buffers : List Bytes) : Outcome Error (List Request) :=
  (writeBuffers answer fuel (storageWriteS3Open (storageWriteS3New partSize)) buffers).bind
    fun this => .ok (storageWriteS3Close answer this).sent

end Write

/-! ## The object -/

def partContent (answer : Nat → Str) (sent : List Request) (uploadId : Str) (part : Nat × Str) :
    Option Bytes :=
  sent.zipIdx.reverse.findSome? fun request =>
    match request.1 with
    | .part id partNumber content =>
      if id = uploadId ∧ partNumber = part.1 ∧ answer request.2 = part.2 then some content else none
    | _ => none

def object (answer : Nat → Str) (sent : List Request) : Option Bytes :=
  match sent.getLast? with
  | some (.put content) => some content
  | some (.complete uploadId partList) =>
    (partList.mapM (partContent answer sent uploadId)).map List.flatten
  | _ => none

section Upload

variable {answer : Nat → Str} {this : StorageWriteS3} {contents : List Bytes}

def uploadRequests (answer : Nat → Str) (contents : List Bytes) : List Request :=
  .uploads :: contents.mapIdx fun i content => .part (answer 0) (i + 1) content

/-- The etags of the first parts. The answer to the start of the upload comes before them. -/
def etags (answer : Nat → Str) (count : Nat) : List Str :=
  (List.range count).map fun i => answer (i + 1)

/-- Parts were sent, and the response to the last one was not read. -/
structure Uploading (answer : Nat → Str) (contents : List Bytes) (this : StorageWriteS3) :
    Prop where
  fresh : contents = [] → this.request = none ∧ this.uploadId = none ∧
    this.uploadPartList = [] ∧ this.sent = []
  started : contents ≠ [] → this.request = some contents.length ∧
    this.uploadId = some (answer 0) ∧
    this.uploadPartList = etags answer (contents.length - 1) ∧
    this.sent = uploadRequests answer contents

theorem length_uploadRequests : (uploadRequests answer contents).length = contents.length + 1 := by
  simp [uploadRequests]

theorem uploadRequests_concat (content : Bytes) :
    uploadRequests answer (contents ++ [content]) =
      uploadRequests answer contents ++ [.part (answer 0) (contents.length + 1) content] := by
  simp [uploadRequests, List.mapIdx_append]

theorem etags_succ (count : Nat) :
    etags answer (count + 1) = etags answer count ++ [answer (count + 1)] := by
  rw [etags, List.range_succ, List.map_append]
  rfl

theorem length_etags (count : Nat) : (etags answer count).length = count := by
  simp [etags]

/-- The response to the last part is read. -/
theorem storageWriteS3Part_started (uploading : Uploading answer contents this)
    (some : contents ≠ []) :
    storageWriteS3Part answer this =
      { this with uploadPartList := etags answer contents.length, request := none } := by
  obtain ⟨request, -, list, -⟩ := uploading.started some
  have last : contents.length - 1 + 1 = contents.length :=
    Nat.sub_add_cancel (List.length_pos_iff.mpr some)
  rw [storageWriteS3Part, request]
  simp only
  rw [list, ← last, etags_succ, last]

/-- The next part has the number that follows, and its request is outstanding. -/
theorem storageWriteS3PartAsync_uploading (uploading : Uploading answer contents this)
    (content : Bytes) :
    Uploading answer (contents ++ [content]) (storageWriteS3PartAsync answer this content) := by
  refine ⟨fun none => absurd none (by simp), fun _ => ?_⟩
  rw [storageWriteS3PartAsync]
  by_cases first : contents = []
  · obtain ⟨request, uploadId, -, sent⟩ := uploading.fresh first
    subst first
    have part : storageWriteS3Part answer this = this := by
      rw [storageWriteS3Part, request]
    have init : initUpload answer this = { this with
        sent := [.uploads], uploadId := some (answer 0), uploadPartList := [] } := by
      rw [initUpload, uploadId]
      simp only [sent]
      rfl
    rw [part, init]
    exact ⟨rfl, rfl, rfl, rfl⟩
  · obtain ⟨-, uploadId, -, sent⟩ := uploading.started first
    rw [storageWriteS3Part_started uploading first]
    have init : initUpload answer { this with
        uploadPartList := etags answer contents.length, request := none } =
        { this with uploadPartList := etags answer contents.length, request := none } := by
      rw [initUpload]
      simp only [uploadId]
    rw [init]
    simp only [sent, uploadId, length_uploadRequests, length_etags, uploadRequests_concat,
      List.length_append, List.length_singleton, Option.getD_some, Nat.add_sub_cancel, and_self]

end Upload

section Rounds

variable {answer : Nat → Str} {partSize : Nat} {this : StorageWriteS3} {contents : List Bytes}
  {rest written : Bytes}

structure WriteAt (answer : Nat → Str) (partSize : Nat) (contents : List Bytes) (rest : Bytes)
    (this : StorageWriteS3) : Prop where
  uploading : Uploading answer contents this
  full : ∀ content ∈ contents, content.length = partSize
  buffer : this.partBuffer = some ⟨rest, partSize⟩
  room : rest.length < partSize

def Written (answer : Nat → Str) (partSize : Nat) (written : Bytes) (this : StorageWriteS3) : Prop :=
  ∃ contents rest, WriteAt answer partSize contents rest this ∧ contents.flatten ++ rest = written

theorem Uploading.partBuffer (uploading : Uploading answer contents this)
    (partBuffer : Option Buffer) : Uploading answer contents { this with partBuffer } :=
  ⟨uploading.fresh, uploading.started⟩

theorem writeRound_last {buffer : Bytes} {bytesTotal : Nat}
    (at_ : WriteAt answer partSize contents rest this) (inside : bytesTotal ≤ buffer.length)
    (fits : buffer.length - bytesTotal < partSize - rest.length) :
    ∃ this', writeRound answer buffer (this, bytesTotal) = .ok (.inr this') ∧
      WriteAt answer partSize contents (rest ++ buffer.drop bytesTotal) this' := by
  have whole : writeRound.strSub buffer bytesTotal (buffer.length - bytesTotal) =
      buffer.drop bytesTotal := by
    rw [writeRound.strSub, ← List.length_drop, List.take_length]
  have size : (rest ++ buffer.drop bytesTotal).length < partSize := by
    rw [List.length_append, List.length_drop]
    omega
  refine ⟨{ this with partBuffer := some ⟨rest ++ buffer.drop bytesTotal, partSize⟩ }, ?_, ?_⟩
  · have next : bytesTotal + (buffer.length - bytesTotal) = buffer.length := by omega
    have notFull : ¬ partSize - (rest ++ buffer.drop bytesTotal).length = 0 := by omega
    rw [writeRound]
    simp only [at_.buffer, bufRemains, gt_iff_lt, if_pos fits, whole, if_neg notFull, next,
      ne_eq, not_true_eq_false, if_false]
  · exact ⟨at_.uploading.partBuffer _, at_.full, rfl, size⟩

theorem writeRound_part {buffer : Bytes} {bytesTotal : Nat}
    (at_ : WriteAt answer partSize contents rest this)
    (more : partSize - rest.length ≤ buffer.length - bytesTotal) :
    ∃ this', writeRound answer buffer (this, bytesTotal) =
        (if bytesTotal + (partSize - rest.length) ≠ buffer.length then
          .ok (.inl (this', bytesTotal + (partSize - rest.length)))
        else .ok (.inr this')) ∧
      WriteAt answer partSize
        (contents ++ [rest ++ (buffer.drop bytesTotal).take (partSize - rest.length)]) [] this' := by
  have room := at_.room
  have size : (rest ++ (buffer.drop bytesTotal).take (partSize - rest.length)).length = partSize := by
    rw [List.length_append, List.length_take, List.length_drop]
    omega
  refine ⟨{ storageWriteS3PartAsync answer this
      (rest ++ (buffer.drop bytesTotal).take (partSize - rest.length)) with
        partBuffer := some ⟨[], partSize⟩ }, ?_, ?_⟩
  · have isFull : partSize - (rest ++ (buffer.drop bytesTotal).take
        (partSize - rest.length)).length = 0 := by omega
    rw [writeRound]
    simp only [at_.buffer, bufRemains, gt_iff_lt, if_neg (not_lt.mpr more), writeRound.strSub,
      if_pos isFull]
  · refine ⟨(storageWriteS3PartAsync_uploading at_.uploading _).partBuffer _, ?_, rfl, ?_⟩
    · intro content mem
      rcases List.mem_append.mp mem with mem | last
      · exact at_.full content mem
      · rw [List.mem_singleton.mp last, size]
    · exact Nat.zero_lt_of_lt room

/-- One call keeps what was written and adds the buffer. -/
theorem storageWriteS3_spec (start : Written answer partSize written this) (buffer : Bytes) :
    ∃ this', Returns (fun fuel => storageWriteS3 answer fuel this buffer) this' ∧
      Written answer partSize (written ++ buffer) this' := by
  have rounds : ∃ this', LoopReturns (fun _ => writeRound answer buffer) (this, 0) this' ∧
      Written answer partSize (written ++ buffer) this' := by
    refine loop_returns (r := fun s t => buffer.length - s.2 < buffer.length - t.2)
      (P := fun s => s.2 ≤ buffer.length ∧
        Written answer partSize (written ++ buffer.take s.2) s.1) ?_ ?_ ?_
    · rintro ⟨this, bytesTotal⟩ ⟨inside, contents, rest, at_, isWritten⟩
      have room := at_.room
      dsimp only at inside isWritten
      by_cases fits : buffer.length - bytesTotal < partSize - rest.length
      · obtain ⟨this', round, next⟩ := writeRound_last at_ inside fits
        refine Or.inr ⟨this', .of_eq fun _ => round, contents, _, next, ?_⟩
        rw [← List.append_assoc, isWritten, List.append_assoc, List.take_append_drop]
      · obtain ⟨this', round, next⟩ := writeRound_part at_ (not_lt.mp fits)
        have all : (contents ++ [rest ++ (buffer.drop bytesTotal).take
            (partSize - rest.length)]).flatten ++ [] =
            written ++ buffer.take (bytesTotal + (partSize - rest.length)) := by
          rw [List.append_nil, List.flatten_append, List.flatten_singleton, ← List.append_assoc,
            isWritten, List.append_assoc, List.take_add]
        by_cases done : bytesTotal + (partSize - rest.length) = buffer.length
        · rw [if_neg (not_not.mpr done)] at round
          rw [done, List.take_length] at all
          exact Or.inr ⟨this', .of_eq fun _ => round, _, _, next, all⟩
        · rw [if_pos done] at round
          refine Or.inl ⟨_, .of_eq fun _ => round, ⟨?_, _, _, next, all⟩, ?_⟩
          · show bytesTotal + (partSize - rest.length) ≤ buffer.length
            omega
          · show buffer.length - (bytesTotal + (partSize - rest.length)) < buffer.length - bytesTotal
            omega
    · exact (measure fun s : StorageWriteS3 × Nat => buffer.length - s.2).wf.apply _
    · simpa using start
  obtain ⟨this', loops, isWritten⟩ := rounds
  exact ⟨this', loops.returns, isWritten⟩

theorem writeBuffers_spec (buffers : List Bytes) (start : Written answer partSize written this) :
    ∃ this', Returns (fun fuel => writeBuffers answer fuel this buffers) this' ∧
      Written answer partSize (written ++ buffers.flatten) this' := by
  induction buffers generalizing this written with
  | nil => exact ⟨this, .of_eq fun _ => rfl, by simpa using start⟩
  | cons buffer buffers ih =>
    obtain ⟨next, first, isWritten⟩ := storageWriteS3_spec start buffer
    obtain ⟨last, others, all⟩ := ih isWritten
    refine ⟨last, first.bind others, ?_⟩
    rw [List.flatten_cons, ← List.append_assoc]
    exact all

end Rounds

section Close

variable {answer : Nat → Str} {partSize : Nat} {this : StorageWriteS3} {contents : List Bytes}
  {data : Bytes}

structure MultiPart (answer : Nat → Str) (partSize : Nat) (data : Bytes) (contents : List Bytes)
    (sent : List Request) : Prop where
  sent : sent = uploadRequests answer contents ++
    [.complete (answer 0) ((List.range contents.length).map fun i => (i + 1, answer (i + 1)))]
  whole : contents.flatten = data
  notEmpty : ∀ content ∈ contents, content ≠ []
  full : ∀ content ∈ contents.dropLast, content.length = partSize
  atMost : ∀ content ∈ contents, content.length ≤ partSize

theorem partList_etags (count : Nat) :
    partList (etags answer count) = (List.range count).map fun i => (i + 1, answer (i + 1)) := by
  refine List.ext_getElem (by simp [partList, etags]) fun i _ _ => ?_
  simp [partList, etags]

theorem complete_sent (uploading : Uploading answer contents this) (some : contents ≠ []) :
    (storageWriteS3Part answer this).sent ++ [.complete (answer 0)
        (partList (storageWriteS3Part answer this).uploadPartList)] =
      uploadRequests answer contents ++ [.complete (answer 0)
        ((List.range contents.length).map fun i => (i + 1, answer (i + 1)))] := by
  obtain ⟨-, -, -, sent⟩ := uploading.started some
  rw [storageWriteS3Part_started uploading some]
  simp only [sent, partList_etags]

theorem storageWriteS3Close_spec (isWritten : Written answer partSize data this) :
    if data.length < partSize then (storageWriteS3Close answer this).sent = [.put data]
    else ∃ contents, MultiPart answer partSize data contents (storageWriteS3Close answer this).sent := by
  obtain ⟨contents, rest, at_, whole⟩ := isWritten
  have room := at_.room
  rw [storageWriteS3Close]
  simp only [at_.buffer]
  by_cases first : contents = []
  · obtain ⟨-, uploadId, -, sent⟩ := at_.uploading.fresh first
    subst first
    rw [List.flatten_nil, List.nil_append] at whole
    rw [if_pos (whole ▸ room)]
    simp only [uploadId, sent, whole, List.nil_append]
  · obtain ⟨-, uploadId, -, -⟩ := at_.uploading.started first
    obtain ⟨content, mem⟩ := List.exists_mem_of_ne_nil contents first
    have positive : 0 < partSize := Nat.zero_lt_of_lt room
    have isLong : ¬ data.length < partSize := by
      have part := (List.sublist_flatten_of_mem mem).length_le
      rw [← whole, List.length_append]
      have size := at_.full content mem
      omega
    have notEmpty : ∀ content ∈ contents, content ≠ [] := by
      intro content mem none
      have size := at_.full content mem
      rw [none, List.length_nil] at size
      omega
    rw [if_neg isLong]
    simp only [uploadId]
    by_cases left : rest ≠ []
    · rw [if_pos left]
      refine ⟨contents ++ [rest], ?_, ?_, ?_, ?_, ?_⟩
      · exact complete_sent (storageWriteS3PartAsync_uploading at_.uploading rest) (by simp)
      · rw [List.flatten_append, List.flatten_singleton, whole]
      · intro content mem
        rcases List.mem_append.mp mem with mem | last
        · exact notEmpty content mem
        · rw [List.mem_singleton.mp last]
          exact left
      · rw [List.dropLast_concat]
        exact at_.full
      · intro content mem
        rcases List.mem_append.mp mem with mem | last
        · exact (at_.full content mem).le
        · rw [List.mem_singleton.mp last]
          exact room.le
    · rw [if_neg left]
      rw [not_not.mp left, List.append_nil] at whole
      exact ⟨contents, complete_sent at_.uploading first, whole, notEmpty,
        fun content mem => at_.full content ((List.dropLast_sublist contents).subset mem),
        fun content mem => (at_.full content mem).le⟩

/-- A part stands behind the start of the upload, at the place of its number. -/
theorem part_getElem? {last : Request} {id : Str} {number j : Nat} {content : Bytes}
    (other : ∀ id number content, last ≠ .part id number content)
    (at_ : (uploadRequests answer contents ++ [last])[j]? = some (.part id number content)) :
    ∃ i, j = i + 1 ∧ number = i + 1 ∧ contents[i]? = some content := by
  rw [uploadRequests, List.cons_append] at at_
  cases j with
  | zero => cases at_
  | succ i =>
    rw [List.getElem?_cons_succ, List.getElem?_append] at at_
    split at at_
    · rw [List.getElem?_mapIdx, Option.map_eq_some_iff] at at_
      obtain ⟨own, isOwn, same⟩ := at_
      injection same with _ isNumber isContent
      exact ⟨i, rfl, isNumber.symm, isContent ▸ isOwn⟩
    · rw [List.getElem?_singleton] at at_
      split at at_
      · exact absurd (Option.some_inj.mp at_) (other id number content)
      · cases at_

/-- Each item of the list stands for the part it was uploaded with. -/
theorem partContent_eq {sent : List Request} {i : Nat} {content : Bytes}
    (multi : MultiPart answer partSize data contents sent) (at_ : contents[i]? = some content) :
    partContent answer sent (answer 0) (i + 1, answer (i + 1)) = some content := by
  have inside : i < contents.length := (List.getElem?_eq_some_iff.mp at_).1
  have here : (Request.part (answer 0) (i + 1) content, i + 1) ∈ sent.zipIdx.reverse := by
    rw [List.mem_reverse, List.mk_mem_zipIdx_iff_getElem?, multi.sent, uploadRequests,
      List.cons_append, List.getElem?_cons_succ, List.getElem?_append_left (by simpa using inside),
      List.getElem?_mapIdx, at_]
    rfl
  rw [partContent]
  cases found : sent.zipIdx.reverse.findSome? _ with
  | none =>
    have absent := List.findSome?_eq_none_iff.mp found _ here
    simp at absent
  | some other =>
    obtain ⟨⟨request, j⟩, mem, match_⟩ := List.exists_of_findSome?_eq_some found
    rw [List.mem_reverse, List.mk_mem_zipIdx_iff_getElem?, multi.sent] at mem
    dsimp only at match_
    split at match_
    · split at match_
      · rename_i own
        obtain ⟨k, -, isNumber, isContent⟩ := part_getElem? (by simp) mem
        have same : k = i := by omega
        rw [same, at_] at isContent
        exact match_.symm.trans isContent.symm
      · cases match_
    · cases match_

theorem MultiPart.object {sent : List Request} (multi : MultiPart answer partSize data contents sent) :
    object answer sent = some data := by
  have parts : ((List.range contents.length).map fun i => (i + 1, answer (i + 1))).mapM
      (partContent answer sent (answer 0)) = some contents := by
    rw [List.mapM_map]
    have each : ∀ count ≤ contents.length, (List.range count).mapM
        (fun i => partContent answer sent (answer 0) (i + 1, answer (i + 1))) =
        some (contents.take count) := by
      intro count
      induction count with
      | zero => exact fun _ => rfl
      | succ count ih =>
        intro fits
        have own : contents[count]? = some contents[count] := List.getElem?_eq_getElem fits
        rw [List.range_succ, List.mapM_append, ih (by omega), List.take_add_one, own]
        simp [partContent_eq multi own]
    have all := each contents.length le_rfl
    rw [List.take_length] at all
    exact all
  have last : sent.getLast? = some (.complete (answer 0)
      ((List.range contents.length).map fun i => (i + 1, answer (i + 1)))) := by
    rw [multi.sent, List.getLast?_concat]
  rw [S3Write.object, last]
  simp only [parts, Option.map_some, multi.whole]

end Close

/-- However the data is cut into buffers, the object is the data: sent at once when it is shorter
than a part, and in parts otherwise. -/
theorem writeFile_spec (answer : Nat → Str) (partSize : Nat) (positive : 0 < partSize)
    (buffers : List Bytes) :
    ∃ sent, Returns (fun fuel => writeFile answer partSize fuel buffers) sent ∧
      object answer sent = some buffers.flatten ∧
      if buffers.flatten.length < partSize then sent = [.put buffers.flatten]
      else ∃ contents, MultiPart answer partSize buffers.flatten contents sent := by
  have start : Written answer partSize [] (storageWriteS3Open (storageWriteS3New partSize)) :=
    ⟨[], [], ⟨⟨fun _ => ⟨rfl, rfl, rfl, rfl⟩, fun some => absurd rfl some⟩, by simp, rfl, positive⟩,
      rfl⟩
  obtain ⟨this, run, isWritten⟩ := writeBuffers_spec buffers start
  rw [List.nil_append] at isWritten
  have shape := storageWriteS3Close_spec isWritten
  refine ⟨_, run.bind (.of_eq fun _ => rfl), ?_, shape⟩
  split at shape
  · rw [shape]
    rfl
  · obtain ⟨contents, multi⟩ := shape
    exact multi.object

/-- Two buffers of three bytes are sent as parts of two bytes. -/
theorem writeFile_twoBuffers :
    ∃ sent, Returns (fun fuel => writeFile (fun i => [Char.ofNat i]) 2 fuel
        [[1, 2, 3], [], [4, 5]]) sent ∧
      object (fun i => [Char.ofNat i]) sent = some [1, 2, 3, 4, 5] ∧
      ∃ contents, MultiPart (fun i => [Char.ofNat i]) 2 [1, 2, 3, 4, 5] contents sent := by
  obtain ⟨sent, run, isObject, shape⟩ :=
    writeFile_spec (fun i => [Char.ofNat i]) 2 (by decide) [[1, 2, 3], [], [4, 5]]
  rw [if_neg (by decide)] at shape
  exact ⟨sent, run, isObject, shape⟩

end S3Write

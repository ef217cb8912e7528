import Backrest.Effects
import Backrest.IniLoad
import Backrest.JsonScan

/-!
# Saving and loading an info file

`infoSave` writes the values that its callback saves, with format, version and passphrase
among them and the checksum at the end. `infoNewLoad` hands the values on to its own callback
and compares the checksums. Both sides hash the text of one object with the sections as keys.
-/

namespace InfoFile

open Text FuelLoop StreamFilter FilterGroup ReadStream IniLoad Json

section Save

def infoSectionBackrest : Str := "backrest".toList

def infoSectionCipher : Str := "cipher".toList

def infoKeyCipherPass : Str := "cipher-pass".toList

def infoKeyChecksum : Str := "backrest-checksum".toList

def infoKeyFormat : Str := "backrest-format".toList

def infoKeyVersion : Str := "backrest-version".toList

def repositoryFormat : UInt32 := 5

def projectVersion : Str := "2.35dev".toList

def infoChecksumBegin : Str := ['\x7b']

def infoChecksumSection (checksum currentSection : Str) : Str :=
  checksum ++ '"' :: currentSection ++ "\":\x7b".toList

def infoChecksumSectionNext (checksum : Str) : Str := checksum ++ "\x7d,".toList

def infoChecksumKeyValue (checksum key value : Str) : Str :=
  checksum ++ jsonFromStrInternal key ++ ':' :: value

def infoChecksumKeyValueNext (checksum : Str) : Str := checksum ++ [',']

def infoChecksumEnd (checksum : Str) : Str := checksum ++ "\x7d\x7d".toList

/-- What was written and hashed so far. -/
structure InfoSave where
  write : Str := []
  checksum : Str := infoChecksumBegin
  /-- The last section seen. -/
  sectionLast : Option Str := none

def ioWriteLine (write line : Str) : Str := write ++ line ++ ['\n']

def infoSaveValue (data : InfoSave) (currentSection key jsonValue : Str) : InfoSave :=
  -- Save section
  let data :=
    if data.sectionLast = some currentSection then
      { data with checksum := infoChecksumKeyValueNext data.checksum }
    else
      let data :=
        if data.sectionLast = none then data
        else { data with
          checksum := infoChecksumSectionNext data.checksum, write := ioWriteLine data.write [] }
      { checksum := infoChecksumSection data.checksum currentSection
        write := ioWriteLine (data.write ++ '[' :: currentSection) [']']
        sectionLast := some currentSection }
  -- Save key/value
  { data with
    checksum := infoChecksumKeyValue data.checksum key jsonValue
    write := ioWriteLine (data.write ++ key ++ ['=']) jsonValue }

/-- The arguments of a call of `infoSaveValue`. -/
structure Saved where
  currentSection : Str
  key : Str
  jsonValue : Str

def saveValues (data : InfoSave) (values : List Saved) : InfoSave :=
  values.foldl (fun data value => infoSaveValue data value.currentSection value.key value.jsonValue)
    data

/-- The callback is given the next section, and calls `infoSaveValue`. Whether it can throw is
left to `m`. -/
def infoSave {m : Type → Type} [Monad m] (cryptoHash : Str → Str) (cipherPass : Option Str)
    (callbackFunction : Option Str → InfoSave → m InfoSave) : m Str := do
  -- Add version and format
  let data ← callbackFunction (some infoSectionBackrest) {}
  let data := infoSaveValue data infoSectionBackrest infoKeyFormat (jsonFromUInt repositoryFormat)
  let data := infoSaveValue data infoSectionBackrest infoKeyVersion
    (jsonFromStrInternal projectVersion)
  -- Add cipher passphrase if defined
  let data ← match cipherPass with
    | none => pure data
    | some cipherPass => do
      let data ← callbackFunction (some infoSectionCipher) data
      pure (infoSaveValue data infoSectionCipher infoKeyCipherPass (jsonFromStrInternal cipherPass))
  -- Flush out any additional sections
  let data ← callbackFunction none data
  -- Add checksum (this must be set after all other values or it will not be valid)
  pure (ioWriteLine
    (data.write ++ '\n' :: '[' :: infoSectionBackrest ++ "]\n".toList ++ infoKeyChecksum ++ ['='])
    (jsonFromStrInternal (cryptoHash (infoChecksumEnd data.checksum))))

end Save

section Load

structure Info where
  backrestVersion : Option Str := none
  cipherPass : Option Str := none

structure InfoLoadData (σ : Type) where
  callbackData : σ
  info : Info := {}
  sectionLast : Option Str := none
  checksumActual : Str := infoChecksumBegin
  checksumExpected : Option Str := none

def assertion (condition : String) : Error :=
  ⟨.assertError, "assertion '".toList ++ condition.toList ++ "' failed".toList⟩

def varUInt64 : Variant → Except Error Nat
  | .null => .error (assertion "this != NULL")
  | .scalar (.uint64 data) => .ok data.toNat
  | _ => .error (assertion "varType(this) == varTypeUInt64")

def varStr : Variant → Except Error (Option Str)
  | .null => .ok none
  | .string data => .ok (some data)
  | _ => .error (assertion "varType(this) == varTypeString")

def formatError (found : Nat) : Error :=
  ⟨.formatError, "expected format ".toList ++ fmtUInt repositoryFormat.toNat ++
    " but found ".toList ++ fmtUInt found⟩

/-- Calculate checksum -/
def checksumValue {σ : Type} (data : InfoLoadData σ) (currentSection key value : Str) :
    InfoLoadData σ :=
  let data :=
    if data.sectionLast = some currentSection then
      { data with checksumActual := infoChecksumKeyValueNext data.checksumActual }
    else
      let data :=
        if data.sectionLast = none then data
        else { data with checksumActual := infoChecksumSectionNext data.checksumActual }
      { data with
        checksumActual := infoChecksumSection data.checksumActual currentSection
        sectionLast := some currentSection }
  { data with checksumActual := infoChecksumKeyValue data.checksumActual key value }

variable {σ : Type} (callbackFunction : σ → Str → Str → Variant → Except Error σ)

def infoLoadCallback (data : InfoLoadData σ) (currentSection key value : Str) (valueVar : Variant) :
    Except Error (InfoLoadData σ) :=
  let data :=
    if currentSection = infoSectionBackrest ∧ key = infoKeyChecksum then data
    else checksumValue data currentSection key value
  -- Process backrest section
  if currentSection = infoSectionBackrest then
    -- Validate format
    if key = infoKeyFormat then
      (varUInt64 valueVar).bind fun format =>
        if format = repositoryFormat.toNat then .ok data else .error (formatError format)
    -- Store pgBackRest version
    else if key = infoKeyVersion then
      (varStr valueVar).map fun version =>
        { data with info := { data.info with backrestVersion := version } }
    -- Store checksum to be validated later
    else if key = infoKeyChecksum then
      (varStr valueVar).map fun checksum => { data with checksumExpected := checksum }
    else .ok data
  -- Process cipher section
  else if currentSection = infoSectionCipher then
    -- No validation needed for cipher-pass, just store it
    if key = infoKeyCipherPass then
      (varStr valueVar).map fun cipherPass =>
        { data with info := { data.info with cipherPass := cipherPass } }
    else .ok data
  -- Else pass to callback for processing
  else
    (callbackFunction data.callbackData currentSection key valueVar).map fun callbackData =>
      { data with callbackData := callbackData }

def checksumMissing (actual : Str) : Error :=
  ⟨.checksumError, "invalid checksum, actual '".toList ++ actual ++
    "' but no checksum found".toList⟩

def checksumInvalid (actual expected : Str) : Error :=
  ⟨.checksumError, "invalid checksum, actual '".toList ++ actual ++ "' but expected '".toList ++
    expected ++ ['\'']⟩

def cryptoHint (e : Error) : Error :=
  if e.type = .cryptoError then
    { e with message := e.message ++ "\nHINT: is or was the repo encrypted?".toList }
  else e

def infoVerify (cryptoHash : Str → Str) (data : InfoLoadData σ) : Except Error (Info × σ) :=
  let checksumActual := cryptoHash (infoChecksumEnd data.checksumActual)
  match data.checksumExpected with
  | none => .error (checksumMissing checksumActual)
  | some checksumExpected =>
    if checksumExpected = checksumActual then .ok (data.info, data.callbackData)
    else .error (checksumInvalid checksumActual checksumExpected)

/-- What `jsonToVar` gives to its caller. What comes of a read outside of the text is not
known. -/
def jsonValue (outside : Str → Except Error Variant) (value : Str) : Except Error Variant :=
  match jsonToVar value with
  | .ok valueVar => .ok valueVar
  | .error (.error e) => .error e
  | .error _ => outside value

def loaded (cryptoHash : Str → Str) : Except Error (InfoLoadData σ) → Except Error (Info × σ)
  | .error e => .error (cryptoHint e)
  | .ok data => infoVerify cryptoHash data

def infoNewLoad (cryptoHash : Str → Str) (outside : Str → Except Error Variant) (fuel : Nat)
    (read : IoRead) (callbackData : σ) : Outcome Error (IoRead × Except Error (Info × σ)) :=
  (iniLoad (jsonValue outside) (infoLoadCallback callbackFunction) fuel read
    { callbackData := callbackData }).bind fun (read, result) =>
      .ok (read, loaded cryptoHash result)

end Load

section Saved

/-- A text of bytes without the terminator. -/
abbrev ByteText (s : Str) : Prop := ∀ c ∈ s, c.toNat < 256 ∧ c ≠ '\x00'

instance (s : Str) : Decidable (ByteText s) := List.decidableBAll _ s

/-- A passphrase, or the digits of a hash. -/
abbrev CText := {s : Str // ByteText s}

def toBytes (s : Str) : Bytes := s.map fun c => UInt8.ofNat c.toNat

/-- A section and a key with a value that is rendered. -/
structure Entry where
  currentSection : Str
  key : Str
  tree : Variant

def Entry.saved (this : Entry) : Saved := ⟨this.currentSection, this.key, varSub this.tree⟩

structure ValidEntry (entry : Entry) : Prop where
  sectionText : entry.currentSection ≠ [] ∧ '\n' ∉ entry.currentSection ∧
    ByteText entry.currentSection
  keyText : entry.key ≠ [] ∧ '\n' ∉ entry.key ∧ ByteText entry.key
  tree : ValidTree entry.tree
  noList : (varSub entry.tree).head? ≠ some '['
  valueText : ByteText (varSub entry.tree)

/-- Behind an equals sign of the key the parser stops with the error that is caught. -/
def Caught (key value : Str) : Prop :=
  ∀ front, ('=' :: front) <:+ key → ∀ fault, jsonToVar (front ++ '=' :: value) = .error fault →
    ∃ message, fault = .error ⟨.jsonFormatError, message⟩

/-- The line of the entry is taken apart between key and value. -/
structure Readable (entry : Entry) : Prop extends ValidEntry entry where
  plainKeys : EveryKey (fun key => '"' ∉ key ∧ '\\' ∉ key ∧ '\n' ∉ key) entry.tree
  caught : Caught entry.key (varSub entry.tree)

/-- The section is not one of those that are kept back. -/
structure PlainEntry (entry : Entry) : Prop extends Readable entry where
  open' : entry.currentSection ≠ infoSectionBackrest ∧ entry.currentSection ≠ infoSectionCipher

def saved (cipherPass : Option CText) (entries : Option Str → List Entry) : List Entry :=
  entries (some infoSectionBackrest) ++
    (if cipherPass.isSome then entries (some infoSectionCipher) else []) ++ entries none

/-- The file with these entries. -/
def infoText (cryptoHash : Str → CText) (cipherPass : Option CText)
    (entries : Option Str → List Entry) : Str :=
  Id.run (infoSave (fun text => (cryptoHash text).1) (cipherPass.map Subtype.val)
    fun next data => pure (saveValues data ((entries next).map Entry.saved)))

def receiveAll {σ : Type} (callbackFunction : σ → Str → Str → Variant → Except Error σ)
    (callbackData : σ) (entries : List Entry) : Except Error σ :=
  entries.foldlM (fun callbackData entry =>
    callbackFunction callbackData entry.currentSection entry.key (parsed entry.tree)) callbackData

end Saved

section Bytes

theorem strNewN_toBytes {s : Str} (text : ByteText s) : strNewN (toBytes s) = s := by
  rw [strNewN, toBytes, List.map_map]
  calc s.map _ = s.map id := by
        apply List.map_congr_left
        intro c mem
        obtain ⟨byte, -⟩ := text c mem
        have small : (UInt8.ofNat c.toNat).toNat = c.toNat := Nat.mod_eq_of_lt byte
        change Char.ofNat (UInt8.ofNat c.toNat).toNat = c
        rw [small, Char.ofNat_toNat]
    _ = s := List.map_id s

theorem strZ_eq {s : Str} (text : ByteText s) : strZ s = s := by
  rw [strZ, List.takeWhile_eq_self_iff]
  intro c mem
  exact decide_eq_true (text c mem).2

theorem linefeed_not_mem {s : Str} (text : ByteText s) (one : '\n' ∉ s) :
    linefeed ∉ toBytes s := by
  intro mem
  obtain ⟨c, inside, same⟩ := List.mem_map.mp mem
  obtain ⟨byte, -⟩ := text c inside
  have code : c.toNat = 10 := by
    have sizes := congrArg UInt8.toNat same
    rw [UInt8.toNat_ofNat', Nat.mod_eq_of_lt byte] at sizes
    exact sizes
  apply one
  rw [← Char.ofNat_toNat c, code] at inside
  exact inside

def ended (line : Str) : Str := line ++ ['\n']

theorem splitOn_lines {lines : List Str} (plain : ∀ line ∈ lines, '\n' ∉ line ∧ ByteText line) :
    (toBytes (lines.flatMap ended)).splitOn linefeed = lines.map toBytes ++ [[]] := by
  induction lines with
  | nil => rfl
  | cons line lines ih =>
    rw [List.forall_mem_cons] at plain
    obtain ⟨⟨one, text⟩, plain⟩ := plain
    have first : toBytes ((line :: lines).flatMap ended) =
        toBytes line ++ linefeed :: toBytes (lines.flatMap ended) := by
      rw [List.flatMap_cons, ended, toBytes, List.map_append, List.map_append, List.append_assoc]
      rfl
    rw [first, List.splitOn_append_cons_self_of_not_mem (linefeed_not_mem text one), ih plain]
    rfl

end Bytes

section Lines

variable {σ : Type} {callbackFunction : σ → Str → Str → Variant → Except Error σ}
  {outside : Str → Except Error Variant}

abbrev LoadState (σ : Type) := IniState (InfoLoadData σ)

/-- The loop over the lines of a text. -/
def loadLines (callbackFunction : σ → Str → Str → Variant → Except Error σ)
    (outside : Str → Except Error Variant) (state : LoadState σ) (lines : List Str) :
    Except Error (LoadState σ) :=
  lines.foldlM (iniLine (jsonValue outside) (infoLoadCallback callbackFunction)) state

theorem loadLines_append {state next : LoadState σ} {front : List Str}
    (first : loadLines callbackFunction outside state front = .ok next) (back : List Str) :
    loadLines callbackFunction outside state (front ++ back) =
      loadLines callbackFunction outside next back := by
  rw [loadLines] at first
  rw [loadLines, List.foldlM_append, first]
  rfl

theorem loadLines_one {state next : LoadState σ} {line : Str}
    (read : iniLine (jsonValue outside) (infoLoadCallback callbackFunction) state line = .ok next) :
    loadLines callbackFunction outside state [line] = .ok next := by
  rw [loadLines, List.foldlM_cons, read]
  rfl

theorem handleLines_toBytes (state : LoadState σ) {lines : List Str}
    (plain : ∀ line ∈ lines, ByteText line) :
    handleLines (jsonValue outside) (infoLoadCallback callbackFunction) state
      (lines.map toBytes) = loadLines callbackFunction outside state lines := by
  induction lines generalizing state with
  | nil => rfl
  | cons line lines ih =>
    rw [List.forall_mem_cons] at plain
    rw [handleLines, loadLines, List.map_cons, List.foldlM_cons, List.foldlM_cons,
      strNewN_toBytes plain.1]
    cases iniLine (jsonValue outside) (infoLoadCallback callbackFunction) state line with
    | error e => rfl
    | ok next => exact ih next plain.2

theorem iniLine_blank (state : LoadState σ) :
    iniLine (jsonValue outside) (infoLoadCallback callbackFunction) state [] =
      .ok { state with lineIdx := state.lineIdx + 1 } := rfl

theorem iniLine_section (state : LoadState σ) (currentSection : Str) :
    iniLine (jsonValue outside) (infoLoadCallback callbackFunction) state
      ('[' :: currentSection ++ [']']) =
      .ok { state with currentSection := some currentSection, lineIdx := state.lineIdx + 1 } := by
  have some' : ('[' :: currentSection ++ [']']).length ≠ 0 := by simp
  have bracket : ('[' :: currentSection ++ [']']).head? = some '[' ∧
      ('[' :: currentSection ++ [']']).getLast? = some ']' :=
    ⟨rfl, List.getLast?_concat⟩
  have inner : (('[' :: currentSection ++ [']']).drop 1).take
      (('[' :: currentSection ++ [']']).length - 2) = currentSection := by simp
  rw [iniLine, if_neg some', if_pos bracket, inner]

/-- The line of a value, as the loop takes it apart. -/
structure ValueLine (outside : Str → Except Error Variant) (key value : Str) (valueVar : Variant) :
    Prop where
  keyText : key ≠ [] ∧ '\n' ∉ key ∧ ByteText key
  valueText : '\n' ∉ value ∧ ByteText value
  notSection : value.getLast? ≠ some ']' ∧ value ≠ []
  parts : keyValue (jsonValue outside) [] (key ++ '=' :: value) = .ok (some (key, value, valueVar))

theorem ValueLine.text {key value : Str} {valueVar : Variant}
    (line : ValueLine outside key value valueVar) : ByteText (key ++ '=' :: value) := by
  intro c mem
  rcases List.mem_append.mp mem with front | back
  · exact line.keyText.2.2 c front
  · rcases List.mem_cons.mp back with rfl | back
    · decide
    · exact line.valueText.2 c back

theorem ValueLine.oneLine {key value : Str} {valueVar : Variant}
    (line : ValueLine outside key value valueVar) : '\n' ∉ key ++ '=' :: value := by
  rw [List.mem_append, List.mem_cons, not_or, not_or]
  exact ⟨line.keyText.2.1, by decide, line.valueText.1⟩

theorem iniLine_value {state : LoadState σ} {currentSection key value : Str} {valueVar : Variant}
    {next : InfoLoadData σ} (inside : state.currentSection = some currentSection)
    (line : ValueLine outside key value valueVar)
    (called : infoLoadCallback callbackFunction state.callbackData currentSection key value
      valueVar = .ok next) :
    iniLine (jsonValue outside) (infoLoadCallback callbackFunction) state (key ++ '=' :: value) =
      .ok { state with lineIdx := state.lineIdx + 1, callbackData := next } := by
  have some' : (key ++ '=' :: value).length ≠ 0 := by simp
  have last : (key ++ '=' :: value).getLast? = value.getLast? := by
    cases value with
    | nil => exact absurd rfl line.notSection.2
    | cons c value =>
      rw [List.getLast?_append, List.getLast?_cons_cons, List.getLast?_cons]
      rfl
  have noSection : ¬ ((key ++ '=' :: value).head? = some '[' ∧
      (key ++ '=' :: value).getLast? = some ']') := by
    rw [last]
    exact fun both => line.notSection.1 both.2
  have equals : ¬ '=' ∉ key ++ '=' :: value := by simp
  have some'' : key.length ≠ 0 := fun zero => line.keyText.1 (List.length_eq_zero_iff.mp zero)
  rw [iniLine, if_neg some', if_neg noSection, inside]
  simp only
  rw [strZ_eq line.text, if_neg equals, line.parts]
  simp only
  rw [if_neg some'', called]

end Lines

section Values

variable {outside : Str → Except Error Variant}

theorem noNewline_fmtInt (n : Int) : ∀ c ∈ fmtInt n, c = '-' ∨ c.isDigit = true := by
  intro c mem
  rw [fmtInt] at mem
  split at mem
  · rcases List.mem_cons.mp mem with rfl | digit
    · exact Or.inl rfl
    · exact Or.inr (isDigit_of_mem_fmtUInt digit)
  · exact Or.inr (isDigit_of_mem_fmtUInt mem)

theorem noNewline_escape (c : Char) : '\n' ∉ escape c := by
  unfold escape
  repeat' split
  all_goals first
    | decide
    | skip
  rename_i noLine _ _ _ _
  rw [List.mem_singleton]
  exact fun same => noLine same.symm

theorem noNewline_law :
    TextLaw (fun _ => True) (fun key => '\n' ∉ key) (fun text => '\n' ∉ text) where
  append := fun first second mem => (List.mem_append.mp mem).elim first second
  letters := by
    intro text letters mem
    rw [List.all_eq_true] at letters
    cases letters _ mem
  text := by
    intro value _ mem
    rw [jsonFromStrInternal, List.mem_append, List.mem_cons, List.mem_flatMap] at mem
    rcases mem with (quote | ⟨c, -, inside⟩) | quote
    · cases quote
    · exact noNewline_escape c inside
    · simp at quote
  key := by
    intro text absent mem
    simp only [List.mem_cons, List.mem_append, List.not_mem_nil, or_false] at mem
    rcases mem with quote | inside | quote
    · cases quote
    · exact absent inside
    · cases quote

theorem everyKey_mono {holds other : Str → Prop} (weaker : ∀ key, holds key → other key)
    (v : Variant) (every : EveryKey holds v) : EveryKey other v := by
  induction v using Variant.induct with
  | null => exact .null
  | scalar value => exact .scalar value
  | string value => exact .string value
  | list items ih =>
    cases every with
    | list parts => exact .list fun v mem => ih v mem (parts v mem)
  | kv pairs ih =>
    cases every with
    | kv keys parts =>
      exact .kv (fun pair mem => weaker _ (keys pair mem)) fun pair mem => ih pair mem (parts pair mem)

/-- Only the text of a list ends in a bracket. -/
theorem varSub_last {v : Variant} (noList : (varSub v).head? ≠ some '[') :
    (varSub v).getLast? ≠ some ']' := by
  intro last
  cases v with
  | null =>
    rw [varSub] at last
    cases last
  | scalar value =>
    have inside := List.mem_of_getLast? last
    rcases varSub_scalar value with ⟨b, rfl⟩ | ⟨n, -, -, -, text⟩
    · rw [varSub] at inside
      revert inside
      cases b with
      | true => decide
      | false => decide
    · rw [text] at inside
      rcases noNewline_fmtInt n _ inside with minus | digit
      · cases minus
      · cases digit
  | string value =>
    rw [varSub, jsonFromStrInternal, List.getLast?_concat] at last
    cases last
  | list items =>
    rw [varSub] at noList
    exact noList rfl
  | kv pairs =>
    rw [varSub, kvText, List.getLast?_concat] at last
    cases last

/-- The first place where the rest of the line is accepted is behind the key. -/
theorem keyValue_split {value : Str} {valueVar : Variant} (accepted : jsonToVar value = .ok valueVar)
    (front : Str) {key : Str}
    (rejected : ∀ back, ('=' :: back) <:+ key →
      ∃ message, jsonToVar (back ++ '=' :: value) = .error (.error ⟨.jsonFormatError, message⟩)) :
    keyValue (jsonValue outside) front (key ++ '=' :: value) =
      .ok (some (front ++ key, value, valueVar)) := by
  induction key generalizing front with
  | nil =>
    rw [List.nil_append, List.append_nil, keyValue, if_pos rfl, jsonValue, accepted]
  | cons c key ih =>
    have rest := ih (front ++ [c]) fun back suffix =>
      rejected back (suffix.trans (List.suffix_cons c key))
    rw [List.append_assoc, List.singleton_append] at rest
    rw [List.cons_append, keyValue]
    by_cases equals : c = '='
    · rw [if_pos equals]
      subst equals
      obtain ⟨message, refused⟩ := rejected key (List.suffix_refl _)
      rw [jsonValue, refused]
      simp only
      rw [if_pos trivial]
      exact rest
    · rw [if_neg equals]
      exact rest

theorem Readable.accepted {entry : Entry} (plain : Readable entry) :
    jsonToVar (varSub entry.tree) = .ok (parsed entry.tree) := by
  apply jsonToVar_varSub
  apply reads_variant entry.tree plain.tree
  exact everyKey_mono (fun key all => ⟨all.1, all.2.1⟩) _ plain.plainKeys

theorem Readable.line {entry : Entry} (plain : Readable entry) :
    ValueLine outside entry.key (varSub entry.tree) (parsed entry.tree) where
  keyText := plain.keyText
  valueText := by
    constructor
    · apply noNewline_law.varSub entry.tree (everyString (fun _ => trivial) _)
      exact everyKey_mono (fun key all => all.2.2) _ plain.plainKeys
    · exact plain.valueText
  notSection := by
    constructor
    · exact varSub_last plain.noList
    · obtain ⟨c, t, shape, -⟩ := varSub_head entry.tree
      rw [shape]
      exact List.cons_ne_nil c t
  parts := by
    apply keyValue_split plain.accepted []
    intro back suffix
    have plainKeys : PlainKeys entry.tree :=
      everyKey_mono (fun key all => ⟨all.1, all.2.1⟩) _ plain.plainKeys
    cases attempt : jsonToVar (back ++ '=' :: varSub entry.tree) with
    | ok w => exact absurd attempt (not_accepted back plainKeys w)
    | error fault =>
      obtain ⟨message, rfl⟩ := plain.caught back suffix fault attempt
      exact ⟨message, rfl⟩

end Values

section Run

variable {σ : Type} {callbackFunction : σ → Str → Str → Variant → Except Error σ}
  {outside : Str → Except Error Variant}

/-- The two sides agree on what was hashed. -/
structure Agree (data : InfoSave) (loadData : InfoLoadData σ) : Prop where
  sectionLast : loadData.sectionLast = data.sectionLast
  checksum : loadData.checksumActual = data.checksum

theorem Agree.value {data : InfoSave} {loadData : InfoLoadData σ} (agree : Agree data loadData)
    (currentSection key value : Str) :
    Agree (infoSaveValue data currentSection key value)
      (checksumValue loadData currentSection key value) := by
  obtain ⟨callbackData, info, sectionLast, checksumActual, checksumExpected⟩ := loadData
  obtain ⟨rfl, rfl⟩ := agree
  unfold infoSaveValue checksumValue
  simp only
  by_cases same : data.sectionLast = some currentSection
  · rw [if_pos same, if_pos same]
    exact ⟨rfl, rfl⟩
  · rw [if_neg same, if_neg same]
    by_cases first : data.sectionLast = none
    · rw [if_pos first, if_pos first]
      exact ⟨rfl, rfl⟩
    · rw [if_neg first, if_neg first]
      exact ⟨rfl, rfl⟩

/-- The lines written so far, and where the loop is behind them. -/
structure Written (callbackFunction : σ → Str → Str → Variant → Except Error σ)
    (outside : Str → Except Error Variant) (start : LoadState σ) (data : InfoSave)
    (lines : List Str) (state : LoadState σ) : Prop where
  write : data.write = lines.flatMap ended
  plain : ∀ line ∈ lines, '\n' ∉ line ∧ ByteText line
  loads : loadLines callbackFunction outside start lines = .ok state
  currentSection : state.currentSection = data.sectionLast
  agree : Agree data state.callbackData

variable {start : LoadState σ} {data : InfoSave} {lines : List Str} {state : LoadState σ}

def sectionLines (data : InfoSave) (currentSection : Str) : List Str :=
  if data.sectionLast = some currentSection then []
  else (if data.sectionLast = none then [] else [[]]) ++ ['[' :: currentSection ++ [']']]

theorem infoSaveValue_write (data : InfoSave) (currentSection key value : Str) :
    (infoSaveValue data currentSection key value).write =
      data.write ++ (sectionLines data currentSection ++ [key ++ '=' :: value]).flatMap ended := by
  unfold infoSaveValue sectionLines
  by_cases same : data.sectionLast = some currentSection
  · rw [if_pos same, if_pos same]
    simp [ioWriteLine, ended]
  · rw [if_neg same, if_neg same]
    by_cases first : data.sectionLast = none
    · rw [if_pos first, if_pos first]
      simp [ioWriteLine, ended]
    · rw [if_neg first, if_neg first]
      simp [ioWriteLine, ended]

theorem infoSaveValue_sectionLast (data : InfoSave) (currentSection key value : Str) :
    (infoSaveValue data currentSection key value).sectionLast = some currentSection := by
  unfold infoSaveValue
  by_cases same : data.sectionLast = some currentSection
  · rw [if_pos same]
    exact same
  · rw [if_neg same]

theorem sectionLines_plain {currentSection : Str}
    (plain : '\n' ∉ currentSection ∧ ByteText currentSection) :
    ∀ line ∈ sectionLines data currentSection, '\n' ∉ line ∧ ByteText line := by
  have header : '\n' ∉ '[' :: currentSection ++ [']'] ∧ ByteText ('[' :: currentSection ++ [']']) := by
    constructor
    · simp [plain.1]
    · intro c mem
      simp only [List.cons_append, List.mem_cons, List.mem_append, List.not_mem_nil, or_false] at mem
      rcases mem with rfl | inside | rfl
      · decide
      · exact plain.2 c inside
      · decide
  intro line mem
  rw [sectionLines] at mem
  split at mem
  · cases mem
  · rcases List.mem_append.mp mem with blank | last
    · split at blank
      · cases blank
      · rw [List.mem_singleton.mp blank]
        exact ⟨List.not_mem_nil, fun c mem => absurd mem List.not_mem_nil⟩
    · rw [List.mem_singleton.mp last]
      exact header

theorem sectionLines_loads (inside : state.currentSection = data.sectionLast)
    (currentSection : Str) :
    ∃ next, loadLines callbackFunction outside state (sectionLines data currentSection) = .ok next ∧
      next.currentSection = some currentSection ∧ next.callbackData = state.callbackData := by
  rw [sectionLines]
  by_cases same : data.sectionLast = some currentSection
  · rw [if_pos same]
    exact ⟨state, rfl, inside.trans same, rfl⟩
  · rw [if_neg same]
    by_cases first : data.sectionLast = none
    · rw [if_pos first, List.nil_append]
      exact ⟨_, loadLines_one (iniLine_section state currentSection), rfl, rfl⟩
    · rw [if_neg first]
      have blank := loadLines_append
        (loadLines_one (@iniLine_blank σ callbackFunction outside state))
        ['[' :: currentSection ++ [']']]
      exact ⟨_, blank.trans (loadLines_one (iniLine_section _ currentSection)), rfl, rfl⟩

/-- A value that is saved is handed to the callback of the loop. -/
theorem Written.value (written : Written callbackFunction outside start data lines state)
    {currentSection key value : Str} {valueVar : Variant}
    (sectionText : '\n' ∉ currentSection ∧ ByteText currentSection)
    (line : ValueLine outside key value valueVar) {next : InfoLoadData σ}
    (called : infoLoadCallback callbackFunction state.callbackData currentSection key value
      valueVar = .ok next)
    (agree : Agree (infoSaveValue data currentSection key value) next) :
    ∃ lines' state', Written callbackFunction outside start
      (infoSaveValue data currentSection key value) lines' state' ∧ state'.callbackData = next := by
  obtain ⟨middle, loads, inside, same⟩ :=
    @sectionLines_loads σ callbackFunction outside data state written.currentSection currentSection
  rw [← same] at called
  have last := iniLine_value inside line called
  have whole : loadLines callbackFunction outside start
      (lines ++ (sectionLines data currentSection ++ [key ++ '=' :: value])) =
        .ok { middle with lineIdx := middle.lineIdx + 1, callbackData := next } := by
    rw [loadLines_append written.loads, loadLines_append loads]
    exact loadLines_one last
  refine ⟨_, _, ⟨?_, ?_, whole, ?_, agree⟩, rfl⟩
  · rw [infoSaveValue_write, written.write]
    exact List.flatMap_append.symm
  · intro l mem
    rcases List.mem_append.mp mem with before | mem
    · exact written.plain l before
    · rcases List.mem_append.mp mem with header | mem
      · exact sectionLines_plain sectionText l header
      · rw [List.mem_singleton.mp mem]
        exact ⟨line.oneLine, line.text⟩
  · rw [infoSaveValue_sectionLast]
    exact inside

/-- What the checksum leaves as it was. -/
structure SameRest (before after : InfoLoadData σ) : Prop where
  info : after.info = before.info
  callbackData : after.callbackData = before.callbackData

theorem checksumValue_rest (loadData : InfoLoadData σ) (currentSection key value : Str) :
    SameRest loadData (checksumValue loadData currentSection key value) := by
  unfold checksumValue
  simp only
  split
  · exact ⟨rfl, rfl⟩
  · split
    · exact ⟨rfl, rfl⟩
    · exact ⟨rfl, rfl⟩

end Run

section Entries

variable {σ : Type} {callbackFunction : σ → Str → Str → Variant → Except Error σ}
  {outside : Str → Except Error Variant} {start : LoadState σ}
  {data : InfoSave} {lines : List Str} {state : LoadState σ}

theorem receive_entry {entry : Entry} (plain : PlainEntry entry) (loadData : InfoLoadData σ)
    (value : Str) {valueVar : Variant} {callbackData : σ}
    (received : callbackFunction loadData.callbackData entry.currentSection entry.key valueVar =
      .ok callbackData) :
    infoLoadCallback callbackFunction loadData entry.currentSection entry.key value valueVar =
      .ok { checksumValue loadData entry.currentSection entry.key value with
        callbackData := callbackData } := by
  have open' : ¬ (entry.currentSection = infoSectionBackrest ∧ entry.key = infoKeyChecksum) :=
    fun both => plain.open'.1 both.1
  rw [infoLoadCallback, if_neg open']
  simp only
  rw [if_neg plain.open'.1, if_neg plain.open'.2,
    (checksumValue_rest loadData entry.currentSection entry.key value).callbackData, received]
  rfl

theorem Written.entries (written : Written callbackFunction outside start data lines state)
    {entries : List Entry} (plain : ∀ entry ∈ entries, PlainEntry entry) {callbackData : σ}
    (received : receiveAll callbackFunction state.callbackData.callbackData entries =
      .ok callbackData) :
    ∃ lines' state', Written callbackFunction outside start
      (saveValues data (entries.map Entry.saved)) lines' state' ∧
      state'.callbackData.callbackData = callbackData ∧
      state'.callbackData.info = state.callbackData.info := by
  induction entries generalizing data lines state with
  | nil =>
    cases received
    exact ⟨lines, state, written, rfl, rfl⟩
  | cons entry entries ih =>
    rw [List.forall_mem_cons] at plain
    rw [receiveAll, List.foldlM_cons] at received
    obtain ⟨middleData, first, later⟩ := Effects.except_bind_ok received
    have called := receive_entry plain.1 state.callbackData (varSub entry.tree) first
    have agree := written.agree.value entry.currentSection entry.key (varSub entry.tree)
    obtain ⟨middleLines, middle, written', given⟩ :=
      written.value plain.1.sectionText.2 plain.1.line called ⟨agree.sectionLast, agree.checksum⟩
    have next : middle.callbackData.callbackData = middleData := by rw [given]
    rw [← next] at later
    obtain ⟨lines', state', written'', isData, info⟩ := ih written' plain.2 later
    refine ⟨lines', state', written'', isData, ?_⟩
    rw [info, given]
    exact (checksumValue_rest state.callbackData entry.currentSection entry.key
      (varSub entry.tree)).info

end Entries

section Header

variable {outside : Str → Except Error Variant}

def formatEntry : Entry := ⟨infoSectionBackrest, infoKeyFormat, .scalar (.uint repositoryFormat)⟩

/-- A value that `infoSave` adds itself. -/
def stringEntry (currentSection key value : Str) : Entry := ⟨currentSection, key, .string value⟩

theorem caught_of_not_mem {key : Str} (absent : '=' ∉ key) (value : Str) : Caught key value :=
  fun _ suffix => absurd (suffix.mem List.mem_cons_self) absent

theorem byteText_escape {c : Char} (byte : c.toNat < 256 ∧ c ≠ '\x00') : ByteText (escape c) := by
  intro d mem
  have letters : ∀ e, d ∈ ['\\', e] → e.toNat < 256 ∧ e ≠ '\x00' → d.toNat < 256 ∧ d ≠ '\x00' := by
    intro e mem small
    rcases List.mem_cons.mp mem with rfl | last
    · decide
    · rw [List.mem_singleton.mp last]
      exact small
  unfold escape at mem
  repeat' split at mem
  all_goals first
    | exact letters _ mem (by decide)
    | rw [List.mem_singleton.mp mem]; exact byte

theorem byteText_string {value : Str} (text : ByteText value) :
    ByteText (jsonFromStrInternal value) := by
  intro c mem
  rw [jsonFromStrInternal, List.mem_append, List.mem_cons, List.mem_flatMap,
    List.mem_singleton] at mem
  rcases mem with (rfl | ⟨d, inside, escaped⟩) | rfl
  · decide
  · exact byteText_escape (text d inside) c escaped
  · decide

theorem formatEntry_readable : Readable formatEntry := by
  have text : varSub formatEntry.tree = ['5'] := by
    rw [formatEntry, varSub]
    rfl
  refine ⟨⟨?_, ?_, .scalar _, ?_, ?_⟩, .scalar _, caught_of_not_mem (by decide) _⟩
  · exact ⟨by decide, by decide, by unfold ByteText; decide⟩
  · exact ⟨by decide, by decide, by unfold ByteText; decide⟩
  · rw [text]
    decide
  · rw [text]
    unfold ByteText
    decide

theorem stringEntry_readable {currentSection key value : Str}
    (sectionText : currentSection ≠ [] ∧ '\n' ∉ currentSection ∧ ByteText currentSection)
    (keyText : key ≠ [] ∧ '\n' ∉ key ∧ ByteText key) (noEquals : '=' ∉ key)
    (text : ByteText value) : Readable (stringEntry currentSection key value) := by
  refine ⟨⟨sectionText, keyText, .string fun mem => (text _ mem).2 rfl, ?_, ?_⟩, .string _,
    caught_of_not_mem noEquals _⟩
  · rw [stringEntry, varSub]
    rw [jsonFromStrInternal, List.cons_append, List.head?_cons]
    exact fun same => absurd same (by decide)
  · rw [stringEntry, varSub]
    exact byteText_string text

theorem string_line {key value : Str} (keyText : key ≠ [] ∧ '\n' ∉ key ∧ ByteText key)
    (noEquals : '=' ∉ key) (text : ByteText value) :
    ValueLine outside key (jsonFromStrInternal value) (.string value) := by
  have sectionText : infoSectionBackrest ≠ [] ∧ '\n' ∉ infoSectionBackrest ∧
      ByteText infoSectionBackrest := by
    unfold ByteText
    decide
  have line := @Readable.line outside _ (stringEntry_readable sectionText keyText noEquals text)
  rw [stringEntry, varSub, parsed] at line
  exact line

theorem format_line : ValueLine outside infoKeyFormat (jsonFromUInt repositoryFormat)
    (.scalar (.uint64 5)) := by
  have line := @Readable.line outside _ formatEntry_readable
  rw [formatEntry, varSub, parsed] at line
  exact line

variable {σ : Type} {callbackFunction : σ → Str → Str → Variant → Except Error σ}

theorem format_called (loadData : InfoLoadData σ) (value : Str) :
    infoLoadCallback callbackFunction loadData infoSectionBackrest infoKeyFormat value
      (.scalar (.uint64 5)) =
      .ok (checksumValue loadData infoSectionBackrest infoKeyFormat value) := by
  have other : ¬ (infoSectionBackrest = infoSectionBackrest ∧ infoKeyFormat = infoKeyChecksum) := by
    decide
  rw [infoLoadCallback, if_neg other]
  rfl

theorem version_called (loadData : InfoLoadData σ) (value version : Str) :
    infoLoadCallback callbackFunction loadData infoSectionBackrest infoKeyVersion value
      (.string version) =
      .ok { checksumValue loadData infoSectionBackrest infoKeyVersion value with
        info := { (checksumValue loadData infoSectionBackrest infoKeyVersion value).info with
          backrestVersion := some version } } := by
  have other : ¬ (infoSectionBackrest = infoSectionBackrest ∧ infoKeyVersion = infoKeyChecksum) := by
    decide
  rw [infoLoadCallback, if_neg other]
  rfl

theorem pass_called (loadData : InfoLoadData σ) (value cipherPass : Str) :
    infoLoadCallback callbackFunction loadData infoSectionCipher infoKeyCipherPass value
      (.string cipherPass) =
      .ok { checksumValue loadData infoSectionCipher infoKeyCipherPass value with
        info := { (checksumValue loadData infoSectionCipher infoKeyCipherPass value).info with
          cipherPass := some cipherPass } } := by
  have other : ¬ (infoSectionCipher = infoSectionBackrest ∧ infoKeyCipherPass = infoKeyChecksum) := by
    decide
  rw [infoLoadCallback, if_neg other]
  rfl

theorem checksum_called (loadData : InfoLoadData σ) (value checksum : Str) :
    infoLoadCallback callbackFunction loadData infoSectionBackrest infoKeyChecksum value
      (.string checksum) = .ok { loadData with checksumExpected := some checksum } := by
  have own : infoSectionBackrest = infoSectionBackrest ∧ infoKeyChecksum = infoKeyChecksum :=
    ⟨rfl, rfl⟩
  rw [infoLoadCallback, if_pos own]
  rfl

end Header

section Loaded

variable {outside : Str → Except Error Variant}

/-- The state before the first line. -/
def loadStart {σ : Type} (callbackData : σ) : LoadState σ :=
  { callbackData := { callbackData := callbackData } }

/-- What `infoSave` writes when the values are written. -/
def infoSaveEnd (cryptoHash : Str → CText) (data : InfoSave) : Str :=
  ioWriteLine
    (data.write ++ '\n' :: '[' :: infoSectionBackrest ++ "]\n".toList ++ infoKeyChecksum ++ ['='])
    (jsonFromStrInternal (cryptoHash (infoChecksumEnd data.checksum)).1)

/-- The loop gets all lines, and perhaps the empty one behind the last. -/
theorem infoNewLoad_lines {σ : Type} {callbackFunction : σ → Str → Str → Variant → Except Error σ}
    {cryptoHash : Str → CText} {callbackData : σ} {lines : List Str} {bufferSize : Nat}
    {block : Bool} {fragments : List Bytes}
    (plain : ∀ line ∈ lines, '\n' ∉ line ∧ ByteText line)
    (whole : fragments.flatten = toBytes (lines.flatMap ended))
    (fits : LinesFit bufferSize fragments.flatten) :
    ∃ after blank, (blank = [] ∨ blank = [[]]) ∧
      Returns (fun fuel => infoNewLoad callbackFunction (fun text => (cryptoHash text).1) outside fuel
        (ioReadOpen bufferSize block [] fragments) callbackData)
        (after, loaded (fun text => (cryptoHash text).1)
          ((loadLines callbackFunction outside (loadStart callbackData) (lines ++ blank)).map
            IniState.callbackData)) := by
  have positive : 0 < bufferSize := by
    obtain ⟨line, rest, shape⟩ :=
      List.exists_cons_of_ne_nil (List.splitOn_ne_nil linefeed fragments.flatten)
    have short := fits line (shape ▸ List.mem_cons_self)
    omega
  obtain ⟨after, seen, isSeen, returns⟩ := @iniLoad_plain _ _ (jsonValue outside)
    (infoLoadCallback callbackFunction) bufferSize block fragments
    { callbackData := callbackData } positive fits
  obtain ⟨blank, isBlank, shape⟩ : ∃ blank, (blank = [] ∨ blank = [[]]) ∧
      seen = (lines ++ blank).map toBytes := by
    rcases isSeen with all | butLast
    · refine ⟨[[]], Or.inr rfl, ?_⟩
      rw [all, whole, splitOn_lines plain, List.map_append]
      rfl
    · refine ⟨[], Or.inl rfl, ?_⟩
      rw [whole, splitOn_lines plain] at butLast
      rw [List.append_nil]
      exact List.append_cancel_right butLast
  have text : ∀ line ∈ lines ++ blank, ByteText line := by
    intro line mem
    rcases List.mem_append.mp mem with inside | last
    · exact (plain line inside).2
    · rcases isBlank with rfl | rfl
      · cases last
      · rw [List.mem_singleton.mp last]
        exact fun c mem => absurd mem List.not_mem_nil
  refine ⟨after, blank, isBlank, returns.bind (.of_eq fun _ => ?_)⟩
  rw [iniLines, shape, handleLines_toBytes _ text]
  rfl

def checksumLines (hash : CText) : List Str :=
  [[], '[' :: infoSectionBackrest ++ [']'], infoKeyChecksum ++ '=' :: jsonFromStrInternal hash.1]

theorem checksum_line (hash : CText) :
    ValueLine outside infoKeyChecksum (jsonFromStrInternal hash.1) (.string hash.1) :=
  string_line (by unfold ByteText; decide) (by decide) hash.2

theorem checksumLines_plain (hash : CText) :
    ∀ line ∈ checksumLines hash, '\n' ∉ line ∧ ByteText line := by
  have line := @checksum_line (fun _ => .ok .null) hash
  have header : '\n' ∉ '[' :: infoSectionBackrest ++ [']'] ∧
      ByteText ('[' :: infoSectionBackrest ++ [']']) := by
    unfold ByteText
    decide
  rw [checksumLines, List.forall_mem_cons, List.forall_mem_cons, List.forall_mem_singleton]
  exact ⟨⟨List.not_mem_nil, fun c mem => absurd mem List.not_mem_nil⟩, header, line.oneLine, line.text⟩

variable {σ : Type} {callbackFunction : σ → Str → Str → Variant → Except Error σ} {lines : List Str}
  {data : InfoSave} {state : LoadState σ}

theorem checksumLines_loads (callbackFunction : σ → Str → Str → Variant → Except Error σ)
    (state : LoadState σ) (hash : CText) :
    loadLines callbackFunction outside state (checksumLines hash) =
      .ok { currentSection := some infoSectionBackrest, lineIdx := state.lineIdx + 1 + 1 + 1,
            callbackData := { state.callbackData with checksumExpected := some hash.1 } } := by
  have last := @iniLine_value σ callbackFunction outside
    { currentSection := some infoSectionBackrest, lineIdx := state.lineIdx + 1 + 1,
      callbackData := state.callbackData }
    _ _ _ _ _ rfl (checksum_line hash) (checksum_called state.callbackData _ _)
  have blank := loadLines_append (loadLines_one (@iniLine_blank σ callbackFunction outside state))
    ['[' :: infoSectionBackrest ++ [']'], infoKeyChecksum ++ '=' :: jsonFromStrInternal hash.1]
  have header := loadLines_append
    (loadLines_one (@iniLine_section σ callbackFunction outside
      { state with lineIdx := state.lineIdx + 1 } infoSectionBackrest))
    [infoKeyChecksum ++ '=' :: jsonFromStrInternal hash.1]
  exact blank.trans (header.trans (loadLines_one last))

theorem infoSaveEnd_eq (cryptoHash : Str → CText) (data : InfoSave) :
    infoSaveEnd cryptoHash data =
      data.write ++ (checksumLines (cryptoHash (infoChecksumEnd data.checksum))).flatMap ended := by
  simp [infoSaveEnd, checksumLines, ioWriteLine, ended]

/-- The last lines add the checksum, and it is the one that was computed. -/
theorem Written.returns {cryptoHash : Str → CText} {callbackData : σ} {bufferSize : Nat}
    {block : Bool} {fragments : List Bytes}
    (written : Written callbackFunction outside (loadStart callbackData) data lines state)
    (whole : fragments.flatten = toBytes (infoSaveEnd cryptoHash data))
    (fits : LinesFit bufferSize fragments.flatten) :
    ∃ after, Returns (fun fuel => infoNewLoad callbackFunction (fun text => (cryptoHash text).1)
      outside fuel (ioReadOpen bufferSize block [] fragments) callbackData)
        (after, .ok (state.callbackData.info, state.callbackData.callbackData)) := by
  rw [infoSaveEnd_eq, written.write, ← List.flatMap_append] at whole
  generalize isHash : cryptoHash (infoChecksumEnd data.checksum) = hash at whole
  have plain : ∀ line ∈ lines ++ checksumLines hash, '\n' ∉ line ∧ ByteText line := by
    intro line mem
    rcases List.mem_append.mp mem with before | last
    · exact written.plain line before
    · exact checksumLines_plain hash line last
  obtain ⟨after, blank, isBlank, returns⟩ :=
    @infoNewLoad_lines outside _ callbackFunction cryptoHash callbackData _ _ block _ plain whole fits
  have verified : infoVerify (fun text => (cryptoHash text).1)
      { state.callbackData with checksumExpected := some hash.1 } =
        .ok (state.callbackData.info, state.callbackData.callbackData) := by
    rw [infoVerify]
    simp only
    rw [written.agree.checksum, isHash, if_pos rfl]
  have result : (loadLines callbackFunction outside (loadStart callbackData)
      (lines ++ checksumLines hash ++ blank)).map IniState.callbackData =
        .ok { state.callbackData with checksumExpected := some hash.1 } := by
    have loads := (loadLines_append written.loads (checksumLines hash)).trans
      (checksumLines_loads callbackFunction state hash)
    rw [loadLines_append loads]
    rcases isBlank with rfl | rfl
    · rfl
    · rfl
  rw [result] at returns
  refine ⟨after, ?_⟩
  rw [← verified]
  exact returns

/-- The values that `infoSave` adds are kept in the object. -/
theorem Written.header {start : LoadState σ}
    (written : Written callbackFunction outside start data lines state) :
    ∃ lines' state', Written callbackFunction outside start
      (infoSaveValue (infoSaveValue data infoSectionBackrest infoKeyFormat
        (jsonFromUInt repositoryFormat)) infoSectionBackrest infoKeyVersion
          (jsonFromStrInternal projectVersion)) lines' state' ∧
      state'.callbackData.callbackData = state.callbackData.callbackData ∧
      state'.callbackData.info =
        { state.callbackData.info with backrestVersion := some projectVersion } := by
  have sectionText : '\n' ∉ infoSectionBackrest ∧ ByteText infoSectionBackrest := by
    unfold ByteText
    decide
  obtain ⟨lines', state', first, given⟩ := written.value sectionText format_line
    (format_called state.callbackData _) (written.agree.value _ _ _)
  have version : ValueLine outside infoKeyVersion (jsonFromStrInternal projectVersion)
      (.string projectVersion) :=
    string_line (by unfold ByteText; decide) (by decide) (by unfold ByteText; decide)
  have agree := first.agree.value infoSectionBackrest infoKeyVersion
    (jsonFromStrInternal projectVersion)
  obtain ⟨lines'', state'', second, given'⟩ := first.value sectionText version
    (version_called state'.callbackData _ _) ⟨agree.sectionLast, agree.checksum⟩
  have kept := checksumValue_rest state.callbackData infoSectionBackrest infoKeyFormat
    (jsonFromUInt repositoryFormat)
  have kept' := checksumValue_rest state'.callbackData infoSectionBackrest infoKeyVersion
    (jsonFromStrInternal projectVersion)
  refine ⟨lines'', state'', second, ?_, ?_⟩
  · rw [given']
    simp only
    rw [kept'.callbackData, given, kept.callbackData]
  · rw [given']
    simp only
    rw [kept'.info, given, kept.info]

theorem Written.pass {start : LoadState σ}
    (written : Written callbackFunction outside start data lines state) (cipherPass : CText) :
    ∃ lines' state', Written callbackFunction outside start
      (infoSaveValue data infoSectionCipher infoKeyCipherPass (jsonFromStrInternal cipherPass.1))
        lines' state' ∧
      state'.callbackData.callbackData = state.callbackData.callbackData ∧
      state'.callbackData.info =
        { state.callbackData.info with cipherPass := some cipherPass.1 } := by
  have line : ValueLine outside infoKeyCipherPass (jsonFromStrInternal cipherPass.1)
      (.string cipherPass.1) :=
    string_line (by unfold ByteText; decide) (by decide) cipherPass.2
  have agree := written.agree.value infoSectionCipher infoKeyCipherPass
    (jsonFromStrInternal cipherPass.1)
  obtain ⟨lines', state', first, given⟩ := written.value (by unfold ByteText; decide) line
    (pass_called state.callbackData _ _) ⟨agree.sectionLast, agree.checksum⟩
  have kept := checksumValue_rest state.callbackData infoSectionCipher infoKeyCipherPass
    (jsonFromStrInternal cipherPass.1)
  refine ⟨lines', state', first, ?_, ?_⟩
  · rw [given]
    exact kept.callbackData
  · rw [given]
    simp only
    rw [kept.info]

theorem written_start (outside : Str → Except Error Variant)
    (callbackFunction : σ → Str → Str → Variant → Except Error σ) (callbackData : σ) :
    Written callbackFunction outside (loadStart callbackData) {} [] (loadStart callbackData) :=
  ⟨rfl, fun _ mem => absurd mem List.not_mem_nil, rfl, rfl, rfl, rfl⟩

/-- Every stage of the save is followed by the loop. -/
theorem written_infoSave {σ : Type} {callbackFunction : σ → Str → Str → Variant → Except Error σ}
    (cryptoHash : Str → CText) (cipherPass : Option CText) {entries : Option Str → List Entry}
    (plain : ∀ next, ∀ entry ∈ entries next, PlainEntry entry) {callbackData result : σ}
    (received : receiveAll callbackFunction callbackData (saved cipherPass entries) = .ok result) :
    ∃ data lines state, infoText cryptoHash cipherPass entries = infoSaveEnd cryptoHash data ∧
      Written callbackFunction outside (loadStart callbackData) data lines state ∧
      state.callbackData.info = ⟨some projectVersion, cipherPass.map Subtype.val⟩ ∧
      state.callbackData.callbackData = result := by
  rw [receiveAll, saved, List.foldlM_append, List.foldlM_append] at received
  obtain ⟨dataB, received, receivedC⟩ := Effects.except_bind_ok received
  obtain ⟨dataA, receivedA, receivedB⟩ := Effects.except_bind_ok received
  obtain ⟨linesA, stateA, writtenA, isA, infoA⟩ :=
    (written_start outside callbackFunction callbackData).entries
      (plain (some infoSectionBackrest)) receivedA
  obtain ⟨lines, state, written, same, info⟩ := writtenA.header
  rw [infoA] at info
  cases cipherPass with
  | none =>
    cases receivedB
    rw [← isA, ← same] at receivedC
    obtain ⟨linesC, stateC, writtenC, isC, infoC⟩ := written.entries (plain none) receivedC
    refine ⟨_, linesC, stateC, rfl, writtenC, ?_, isC⟩
    rw [infoC, info]
    rfl
  | some cipherPass =>
    rw [← isA, ← same] at receivedB
    obtain ⟨linesB, stateB, writtenB, isB, infoB⟩ :=
      written.entries (plain (some infoSectionCipher)) receivedB
    obtain ⟨linesP, stateP, writtenP, sameP, infoP⟩ := writtenB.pass cipherPass
    rw [← isB, ← sameP] at receivedC
    obtain ⟨linesC, stateC, writtenC, isC, infoC⟩ := writtenP.entries (plain none) receivedC
    refine ⟨_, linesC, stateC, rfl, writtenC, ?_, isC⟩
    rw [infoC, infoP, infoB, info]
    rfl

theorem infoNewLoad_saved (cryptoHash : Str → CText) (outside : Str → Except Error Variant)
    (cipherPass : Option CText) {entries : Option Str → List Entry}
    (plain : ∀ next, ∀ entry ∈ entries next, PlainEntry entry) {callbackData result : σ}
    (received : receiveAll callbackFunction callbackData (saved cipherPass entries) = .ok result)
    {bufferSize : Nat} (block : Bool) {fragments : List Bytes}
    (whole : fragments.flatten = toBytes (infoText cryptoHash cipherPass entries))
    (fits : LinesFit bufferSize fragments.flatten) :
    ∃ after, Returns (fun fuel => infoNewLoad callbackFunction (fun text => (cryptoHash text).1)
      outside fuel (ioReadOpen bufferSize block [] fragments) callbackData)
        (after, .ok (⟨some projectVersion, cipherPass.map Subtype.val⟩, result)) := by
  obtain ⟨data, lines, state, text, written, info, isResult⟩ :=
    @written_infoSave outside σ callbackFunction cryptoHash cipherPass entries plain _ _ received
  rw [text] at whole
  obtain ⟨after, returns⟩ := written.returns whole fits
  rw [info, isResult] at returns
  exact ⟨after, returns⟩

end Loaded

end InfoFile

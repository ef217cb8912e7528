import Backrest.InfoFile

/-!
# Loading what was saved

The callback of a load is given the entries that were saved, in the same order. This needs
sections that are not kept back, keys behind whose equals signs the parser fails with the
error that is caught, and lines that fit the buffer of the reader.
-/

namespace InfoFile

open Text FuelLoop StreamFilter FilterGroup ReadStream IniLoad Json

section ReadBack

/-- A section, a key and the variant of a value that the callback was given. -/
abbrev Received := Str × Str × Variant

def receive (received : List Received) (currentSection key : Str) (valueVar : Variant) :
    Except Error (List Received) :=
  .ok (received ++ [(currentSection, key, valueVar)])

/-- The triple is the entry. -/
def IsEntry (entry : Entry) (received : Received) : Prop :=
  received.1 = entry.currentSection ∧ received.2.1 = entry.key ∧
    jsonToVar (varSub entry.tree) = .ok received.2.2 ∧ Same entry.tree received.2.2

/-- The file is loaded, and the callback gets the entries in order. -/
def ReadBack (cryptoHash : Str → CText) (outside : Str → Except Error Variant)
    (cipherPass : Option CText) (entries : Option Str → List Entry) (read : IoRead) : Prop :=
  ∃ after received,
    Returns (fun fuel => infoNewLoad receive (fun text => (cryptoHash text).1) outside fuel read [])
      (after, .ok (⟨some projectVersion, cipherPass.map Subtype.val⟩, received)) ∧
    List.Forall₂ IsEntry (saved cipherPass entries) received

end ReadBack

theorem receive_saved (entries : List Entry) (received : List Received)
    (plain : ∀ entry ∈ entries, PlainEntry entry) :
    ∃ more, receiveAll receive received entries = .ok (received ++ more) ∧
      List.Forall₂ IsEntry entries more := by
  induction entries generalizing received with
  | nil => exact ⟨[], by rw [List.append_nil]; rfl, .nil⟩
  | cons entry entries ih =>
    rw [List.forall_mem_cons] at plain
    obtain ⟨more, all, isEntries⟩ :=
      ih (received ++ [(entry.currentSection, entry.key, parsed entry.tree)]) plain.2
    refine ⟨(entry.currentSection, entry.key, parsed entry.tree) :: more, ?_, .cons ?_ isEntries⟩
    · rw [List.append_assoc] at all
      exact all
    · exact ⟨rfl, rfl, plain.1.accepted, same_parsed _ plain.1.tree⟩

theorem saved_plain (cipherPass : Option CText) {entries : Option Str → List Entry}
    (plain : ∀ next, ∀ entry ∈ entries next, PlainEntry entry) :
    ∀ entry ∈ saved cipherPass entries, PlainEntry entry := by
  intro entry mem
  rcases List.mem_append.mp mem with before | last
  · rcases List.mem_append.mp before with first | second
    · exact plain _ entry first
    · split at second
      · exact plain _ entry second
      · cases second
  · exact plain _ entry last

/-- A file whose lines fit the buffer is read back. -/
theorem infoNewLoad_infoSave (cryptoHash : Str → CText) (outside : Str → Except Error Variant)
    (cipherPass : Option CText) {entries : Option Str → List Entry}
    (plain : ∀ next, ∀ entry ∈ entries next, PlainEntry entry) {bufferSize : Nat} (block : Bool)
    {fragments : List Bytes}
    (whole : fragments.flatten = toBytes (infoText cryptoHash cipherPass entries))
    (fits : LinesFit bufferSize fragments.flatten) :
    ReadBack cryptoHash outside cipherPass entries (ioReadOpen bufferSize block [] fragments) := by
  obtain ⟨received, all, isEntries⟩ :=
    receive_saved (saved cipherPass entries) [] (saved_plain cipherPass plain)
  rw [List.nil_append] at all
  obtain ⟨after, returns⟩ :=
    infoNewLoad_saved cryptoHash outside cipherPass plain all block whole fits
  exact ⟨after, received, returns, isEntries⟩

section Instance

def zeroHash : Str → CText := fun _ => ⟨['0'], by unfold ByteText; decide⟩

/-- The key has an equals sign of its own. -/
def equalsEntry : Entry := ⟨"db".toList, "a=b".toList, .string ['x']⟩

theorem equalsEntry_plain : PlainEntry equalsEntry := by
  refine ⟨⟨⟨?_, ?_, .string (by decide), by decide, ?_⟩, .string _, ?_⟩, by decide⟩
  · unfold ByteText
    decide
  · unfold ByteText
    decide
  · have text : varSub equalsEntry.tree = ['"', 'x', '"'] := rfl
    rw [text]
    unfold ByteText
    decide
  · intro front suffix fault attempt
    have behind : front = ['b'] := by
      rcases List.suffix_cons_iff.mp suffix with whole | suffix
      · cases whole
      · rcases List.suffix_cons_iff.mp suffix with same | suffix
        · exact (List.cons.inj same).2
        · rcases List.suffix_cons_iff.mp suffix with last | none
          · cases last
          · cases List.suffix_nil.mp none
    subst behind
    have refused : ∃ message, jsonToVar (['b'] ++ '=' :: varSub equalsEntry.tree) =
        .error (.error ⟨.jsonFormatError, message⟩) := ⟨_, rfl⟩
    obtain ⟨message, refused⟩ := refused
    rw [refused] at attempt
    cases attempt
    exact ⟨message, rfl⟩

def nullEntry : Entry := ⟨"archive".toList, "id".toList, .null⟩

theorem nullEntry_plain : PlainEntry nullEntry := by
  refine ⟨⟨⟨?_, ?_, .null, by decide, ?_⟩, .null, ?_⟩, by decide⟩
  · unfold ByteText
    decide
  · unfold ByteText
    decide
  · have text : varSub nullEntry.tree = ['n', 'u', 'l', 'l'] := rfl
    rw [text]
    unfold ByteText
    decide
  · intro front suffix
    exact absurd (suffix.subset List.mem_cons_self) (by decide)

/-- Entries of a section before the version and of one after it. -/
def bothEntries (next : Option Str) : List Entry :=
  if next = some infoSectionBackrest then [nullEntry]
  else if next = none then [equalsEntry, { equalsEntry with currentSection := "db:history".toList }]
  else []

def bothText : Bytes := toBytes (infoText zeroHash none bothEntries)

/-- The text in three fragments, and a buffer for all of it. -/
def bothRead : IoRead :=
  ioReadOpen (bothText.length + 1) false []
    [bothText.take 7, (bothText.drop 7).take 40, (bothText.drop 7).drop 40]

theorem infoNewLoad_infoSave_equals :
    ReadBack zeroHash (fun _ => .ok .null) none bothEntries bothRead := by
  have whole : [bothText.take 7, (bothText.drop 7).take 40, (bothText.drop 7).drop 40].flatten =
      bothText := by
    rw [List.flatten_cons, List.flatten_cons, List.flatten_singleton, List.take_append_drop,
      List.take_append_drop]
  refine infoNewLoad_infoSave zeroHash _ none ?_ false whole ?_
  · intro next entry mem
    rw [bothEntries] at mem
    split at mem
    · rw [List.mem_singleton.mp mem]
      exact nullEntry_plain
    · split at mem
      · rcases List.mem_cons.mp mem with rfl | mem
        · exact equalsEntry_plain
        · rw [List.mem_singleton.mp mem]
          refine { equalsEntry_plain with sectionText := ?_, open' := by decide }
          unfold ByteText
          decide
      · cases mem
  · rw [whole]
    exact linesFit_whole _

end Instance

end InfoFile

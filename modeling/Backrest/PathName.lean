import Backrest.Text
import Mathlib.Data.List.TakeWhile

/-!
# Names of paths

`strBaseZ` is the part of a name after its last slash, `strPath` the part before it.
`strPathAbsolute` goes from a base path to a relative one.
-/

namespace PathName

open Text

def strBaseZ (this : Str) : Str := (this.reverse.takeWhile (· ≠ '/')).reverse

def strBase (this : Str) : Str := strBaseZ this

/-- The size of a name up to its last slash and with it. -/
def pathSize (this : Str) : Nat := this.length - (strBaseZ this).length

/-- The slash is left out, unless it is the whole path. -/
def strPath (this : Str) : Str :=
  strSubN this 0 (if pathSize this ≤ 1 then pathSize this else pathSize this - 1)

def baseNotAbsoluteError (base : Str) : Error :=
  ⟨.assertError, "base path '".toList ++ base ++ "' is not absolute".toList⟩

def notRelativeError (this : Str) : Error :=
  ⟨.assertError, '\'' :: this ++ "' is not a valid relative path".toList⟩

def tooFarError (this base : Str) : Error :=
  ⟨.assertError, "relative path '".toList ++ this ++ "' goes back too far in base path '".toList ++
    base ++ ['\'']⟩

def notAbsoluteError (result : Str) : Error :=
  ⟨.assertError, "result path '".toList ++ result ++ "' is not absolute".toList⟩

def pathPartLoop (this base : Str) (baseList : List Str) : List Str → Except Error (List Str)
  | [] => .ok baseList
  | pathPart :: pathList =>
    if pathPart.length = 0 then
      -- The last part is empty when the path ends in a slash.
      if pathList.length = 0 then .ok baseList else .error (notRelativeError this)
    else if pathPart = "..".toList then
      if (baseList.getLastD []).length = 0 then .error (tooFarError this base)
      else pathPartLoop this base baseList.dropLast pathList
    else if pathPart ≠ ".".toList then pathPartLoop this base (baseList ++ [pathPart]) pathList
    else pathPartLoop this base baseList pathList

def strayCheck (result : Str) : Except Error Str :=
  if "/..".toList <:+: result ∨ "//".toList <:+: result then .error (notAbsoluteError result)
  else .ok result

def strPathAbsolute (this base : Str) : Except Error Str :=
  if strBeginsWith this ['/'] = true then strayCheck this
  else if strBeginsWith base ['/'] = true then
    match pathPartLoop this base (strLstNewSplit '/' base) (strLstNewSplit '/' this) with
    | .error e => .error e
    | .ok baseList => strayCheck (if baseList.length = 1 then ['/'] else strLstJoin baseList ['/'])
  else .error (baseNotAbsoluteError base)

theorem strBaseZ_append {path base : Str} (h : '/' ∉ base) :
    strBaseZ (path ++ '/' :: base) = base := by
  have text : (path ++ '/' :: base).reverse = base.reverse ++ '/' :: path.reverse := by simp
  have front : ∀ c ∈ base.reverse, decide (c ≠ '/') = true := by
    intro c hc
    exact decide_eq_true fun slash => h (slash ▸ List.mem_reverse.mp hc)
  unfold strBaseZ
  rw [text, List.takeWhile_append_of_pos front, List.takeWhile_cons_of_neg (by simp),
    List.append_nil, List.reverse_reverse]

theorem pathSize_append {path base : Str} (h : '/' ∉ base) :
    pathSize (path ++ '/' :: base) = path.length + 1 := by
  unfold pathSize
  rw [strBaseZ_append h, List.length_append, List.length_cons]
  omega

theorem take_pathSize {path base : Str} (h : '/' ∉ base) :
    strSubN (path ++ '/' :: base) 0 (pathSize (path ++ '/' :: base)) = path ++ ['/'] := by
  have text : path ++ '/' :: base = (path ++ ['/']) ++ base := by simp
  rw [pathSize_append h, strSubN, List.drop_zero, text]
  exact List.take_left' (by simp)

/-- The path before the last slash, empty only when there is no slash. -/
theorem strPath_append {path base : Str} (h : '/' ∉ base) :
    strPath (path ++ '/' :: base) = if path = [] then ['/'] else path := by
  have size : pathSize (path ++ '/' :: base) = path.length + 1 := pathSize_append h
  unfold strPath strSubN
  rw [size, List.drop_zero]
  by_cases empty : path = []
  · subst empty
    rfl
  · have long : 0 < path.length := List.length_pos_iff.mpr empty
    rw [if_neg (by omega), if_neg empty]
    exact List.take_left' (by omega)

theorem strPath_of_not_mem {name : Str} (h : '/' ∉ name) : strPath name = [] := by
  have whole : strBaseZ name = name := by
    unfold strBaseZ
    rw [List.takeWhile_eq_self_iff.mpr, List.reverse_reverse]
    intro c hc
    exact decide_eq_true fun slash => h (slash ▸ List.mem_reverse.mp hc)
  have size : pathSize name = 0 := by simp [pathSize, whole]
  simp [strPath, strSubN, size]

theorem slash_cases (name : Str) :
    '/' ∉ name ∨ ∃ path base, '/' ∉ base ∧ name = path ++ '/' :: base := by
  by_cases h : '/' ∈ name
  · right
    obtain ⟨front, back, split, absent⟩ :=
      List.eq_append_cons_of_mem (List.mem_reverse.mpr h)
    refine ⟨back.reverse, front.reverse, fun mem => absent (List.mem_reverse.mp mem), ?_⟩
    have text := congrArg List.reverse split
    simpa using text
  · exact Or.inl h

section Place

/-- What a path denotes whatever the file system holds: a slash more or less between
two parts makes no difference. -/
def place (path : Str) : Bool × List Str :=
  (strBeginsWith path ['/'], (strLstNewSplit '/' path).filter (· ≠ []))

theorem place_slash_slash (base : Str) : place ('/' :: '/' :: base) = place ('/' :: base) := by
  have more : strLstNewSplit '/' ('/' :: '/' :: base) = [] :: strLstNewSplit '/' ('/' :: base) := by
    rw [strLstNewSplit, if_pos rfl]
  simp [place, more, strBeginsWith]

/-- The directory and the name of a path together denote what it denotes. -/
theorem place_strPath_strBase {name : Str} (h : strPath name ≠ []) :
    place (strPath name ++ '/' :: strBase name) = place name := by
  rcases slash_cases name with none | ⟨path, base, absent, rfl⟩
  · exact absurd (strPath_of_not_mem none) h
  · have last : strBase (path ++ '/' :: base) = base := strBaseZ_append absent
    rw [last, strPath_append absent]
    by_cases empty : path = []
    · subst empty
      exact place_slash_slash base
    · rw [if_neg empty]

end Place

end PathName

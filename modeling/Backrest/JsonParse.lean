import Backrest.JsonRender
import Backrest.Convert
import Backrest.HttpUri

/-!
# Reading JSON text

The position in the text is what is left of it, and at the end stands the terminator. A read
behind the terminator or in front of the text is an outcome of its own. The recursion has fuel,
which `jsonToVar` takes from the length of the text.
-/

namespace Json

open Text HttpUri

inductive Fault where
  | error (e : Error)
  | outside
  | fuel
  deriving DecidableEq

/-- A value and what is left of the text. -/
abbrev Parsed (α : Type) := Except Fault (α × Str)

def jsonFormat (message : Str) : Fault := .error ⟨.jsonFormatError, message⟩

def isWhite (c : Char) : Bool := c = ' ' || c = '\t' || c = '\n' || c = '\r'

def jsonConsumeWhiteSpace (json : Str) : Str := json.dropWhile isWhite

def expectedAt (what json : Str) : Fault :=
  jsonFormat ("expected ".toList ++ what ++ " at '".toList ++ json ++ ['\''])

def jsonToBoolInternal (json : Str) : Parsed Bool :=
  if "true".toList <+: json then .ok (true, json.drop 4)
  else if "false".toList <+: json then .ok (false, json.drop 5)
  else .error (expectedAt "boolean".toList json)

/-- `cvtZToInt64` -/
def cvtZToInt64 (value : Str) : Except Error Int :=
  let negative := value.head? = some '-'
  let digits := if value.head? = some '-' ∨ value.head? = some '+' then value.tail else value
  if digits ≠ [] ∧ digits.all Char.isDigit = true ∧
      cvtDigits digits < (if negative then 2 ^ 63 + 1 else 2 ^ 63) then
    .ok (if negative then -(cvtDigits digits : Int) else cvtDigits digits)
  else .error ⟨.formatError,
    "unable to convert base 10 string '".toList ++ value ++ "' to int64".toList⟩

def orFault {α : Type} : Except Error α → Except Fault α
  | .ok a => .ok a
  | .error e => .error (.error e)

/-- The number that begins the text, where `before` is the character in front of it. -/
def jsonToNumberInternal (before : Option Char) (json : Str) : Parsed Scalar :=
  let minus := if json.head? = some '-' then ['-'] else []
  let unsigned := if json.head? = some '-' then json.tail else json
  let resultStr := minus ++ unsigned.takeWhile Char.isDigit
  let rest := unsigned.dropWhile Char.isDigit
  match resultStr.getLast?.or before with
  | none => .error .outside
  | some '-' =>
    .error (jsonFormat ("found '-' with no integer at '".toList ++ json ++ ['\'']))
  | some _ =>
    if json.head? = some '-' then
      (orFault (cvtZToInt64 resultStr)).map fun n => (.int64 (Int64.ofInt n), rest)
    else
      (orFault (Convert.cvtZToUInt64 resultStr)).map fun n => (.uint64 (UInt64.ofNat n), rest)

def escaped (c : Char) : Option Char :=
  if c = '"' then some '"'
  else if c = '\\' then some '\\'
  else if c = '/' then some '/'
  else if c = 'n' then some '\n'
  else if c = 'r' then some '\r'
  else if c = 't' then some '\t'
  else if c = 'b' then some '\x08'
  else if c = 'f' then some '\x0c'
  else none

def decodeChar (digits : Str) : Except Fault Char :=
  (orFault (cvtZToUIntBase digits)).map fun n => Char.ofNat (n % 256)

def unableError (json : Str) : Fault :=
  jsonFormat ("unable to decode '".toList ++ json.take 4 ++ ['\''])

def stringLoop : Str → Parsed Str
  | [] => .error (jsonFormat "expected '\"' but found null delimiter".toList)
  | c :: json =>
    if c = '"' then .ok ([], json)
    else if c = '\\' then
      match json with
      -- The terminator ends the message.
      | [] => .error (jsonFormat "invalid escape character '".toList)
      | e :: json =>
        match escaped e with
        | some d => (stringLoop json).map fun (result, rest) => (d :: result, rest)
        | none =>
          if e = 'u' then
            match json with
            | a :: b :: x :: y :: later =>
              if a = '0' ∧ b = '0' then
                match decodeChar [x, y] with
                | .error fault => .error fault
                | .ok d => (stringLoop later).map fun (result, rest) => (d :: result, rest)
              else .error (unableError json)
            -- The terminator is taken for the second digit, and the loop goes on behind it.
            | [a, b, x] =>
              if a = '0' ∧ b = '0' then (decodeChar [x]).bind fun _ => .error .outside
              else .error (unableError json)
            | [a, b] =>
              if a = '0' ∧ b = '0' then .error .outside else .error (unableError json)
            | _ => .error (unableError json)
          else .error (jsonFormat ("invalid escape character '".toList ++ [e, '\'']))
    else (stringLoop json).map fun (result, rest) => (c :: result, rest)

def jsonToStrInternal (json : Str) : Parsed Str :=
  match json with
  | '"' :: json => stringLoop json
  | _ => .error (expectedAt "'\"'".toList json)

/-- `kvPut` -/
def kvPut (kv : List (Str × Variant)) (key : Str) (value : Variant) : List (Str × Variant) :=
  match kv with
  | [] => [(key, value)]
  | pair :: kv => if pair.1 = key then (key, value) :: kv else pair :: kvPut kv key value

/-- A comma in front of an element is skipped, the white space behind it too. -/
def skipComma (json : Str) : Str :=
  if json.head? = some ',' then jsonConsumeWhiteSpace json.tail else json

def closed {α : Type} (bracket : Char) (result : α) (json : Str) : Parsed α :=
  if json.head? = some bracket then .ok (result, json.tail)
  else .error (expectedAt ['\'', bracket, '\''] json)

/-- The variant of a part, with the white space behind it skipped. -/
def asVariant {α : Type} (variant : α → Variant) (parsed : Parsed α) : Parsed Variant :=
  parsed.map fun (result, rest) => (variant result, jsonConsumeWhiteSpace rest)

mutual

def kvLoop : Nat → Str → List (Str × Variant) → Parsed (List (Str × Variant))
  | 0, _, _ => .error .fuel
  | fuel + 1, json, result =>
    match jsonToStrInternal (skipComma json) with
    | .error fault => .error fault
    | .ok (key, json) =>
      match jsonConsumeWhiteSpace json with
      | ':' :: json =>
        match jsonToVarInternal fuel (jsonConsumeWhiteSpace json) with
        | .error fault => .error fault
        | .ok (value, json) =>
          if json.head? = some ',' then kvLoop fuel json (kvPut result key value)
          else .ok (kvPut result key value, json)
      | json => .error (expectedAt "':'".toList json)

/-- The elements of an array. -/
def varLstLoop : Nat → Str → List Variant → Parsed (List Variant)
  | 0, _, _ => .error .fuel
  | fuel + 1, json, result =>
    match jsonToVarInternal fuel (skipComma json) with
    | .error fault => .error fault
    | .ok (value, json) =>
      let json := jsonConsumeWhiteSpace json
      if json.head? = some ',' then varLstLoop fuel json (result ++ [value])
      else .ok (result ++ [value], json)

def jsonToKvInternal : Nat → Str → Parsed (List (Str × Variant))
  | 0, _ => .error .fuel
  | fuel + 1, json =>
    let json := jsonConsumeWhiteSpace json.tail
    if json.head? = some '\x7d' then .ok ([], json.tail)
    else
      match kvLoop fuel json [] with
      | .error fault => .error fault
      | .ok (result, json) => closed '\x7d' result json

def jsonToVarLstInternal : Nat → Str → Parsed (List Variant)
  | 0, _ => .error .fuel
  | fuel + 1, json =>
    if json.head? = some '[' then
      let json := jsonConsumeWhiteSpace json.tail
      if json.head? = some ']' then .ok ([], json.tail)
      else
        match varLstLoop fuel json [] with
        | .error fault => .error fault
        | .ok (result, json) => closed ']' result json
    else .error (expectedAt "'['".toList json)

def jsonToVarInternal : Nat → Str → Parsed Variant
  | 0, _ => .error .fuel
  | fuel + 1, json =>
    let json := jsonConsumeWhiteSpace json
    match json with
    | [] => .error (jsonFormat "expected data".toList)
    | c :: _ =>
      if c = '"' then asVariant .string (jsonToStrInternal json)
      -- The character in front is not looked at: the text begins with a sign or a digit.
      else if c = '-' ∨ c.isDigit = true then asVariant .scalar (jsonToNumberInternal none json)
      else if c = 't' ∨ c = 'f' then
        asVariant (fun value => .scalar (.bool value)) (jsonToBoolInternal json)
      else if c = 'n' then
        if "null".toList <+: json then .ok (.null, jsonConsumeWhiteSpace (json.drop 4))
        else .error (expectedAt "null".toList json)
      else if c = '[' then asVariant .list (jsonToVarLstInternal fuel json)
      else if c = '\x7b' then asVariant .kv (jsonToKvInternal fuel json)
      else .error (jsonFormat ("invalid type at '".toList ++ json ++ ['\'']))

end

/-- Each character is entered and left by at most three calls. -/
def jsonToVar (json : Str) : Except Fault Variant :=
  match jsonToVarInternal (3 * json.length + 1) json with
  | .error fault => .error fault
  | .ok (result, rest) =>
    if rest = [] then .ok result
    else .error (jsonFormat ("unexpected characters after JSON at '".toList ++ rest ++ ['\'']))

end Json

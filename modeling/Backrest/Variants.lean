import Backrest.Text

/-!
# Variants

A variant is one of the values that configuration, info files and manifests
carry. The null pointer is a constructor of its own, so that an absent value in
a list or in a key/value store stays visible. An accessor asserts the type it
reads; a wrong type is the assertion error.
-/

namespace Variants

open Text

inductive Variant where
  | null
  | bool (value : Bool)
  | int (value : Int)
  | int64 (value : Int)
  | uint (value : Nat)
  | uint64 (value : Nat)
  | str (value : Option Str)
  | varLst (list : List Variant)
  | kv (list : List (Str × Variant))
  deriving Inhabited

def typeError : Error := ⟨.assertError, "assertion 'varType(this)' failed".toList⟩

def varBool : Variant → Except Error Bool
  | .bool value => .ok value
  | _ => .error typeError

end Variants

import GroovyWorkspace.Number.Binary64

/-!
# Settings values

The values that a settings document holds. An object is a list of entries in the order of their
keys, so two documents with the same contents are the same value; `Entries.insert` keeps that order
and `Entries.get?` reads one key.
-/

namespace GroovyWorkspace

/-- A value of a settings document. Whole numbers and binary64 numbers are told apart. -/
inductive Value where
  | null
  | bool (b : Bool)
  | int (n : Int)
  | float (x : Binary64)
  | string (s : String)
  | array (items : List Value)
  | object (entries : List (String × Value))
  deriving Repr, Inhabited

abbrev Entries := List (String × Value)

namespace Entries

def get? (entries : Entries) (key : String) : Option Value :=
  entries.lookup key

/-- Stores `value` under `key`, in place of any value it had. -/
def insert (key : String) (value : Value) : Entries → Entries
  | [] => [(key, value)]
  | (k, v) :: rest =>
    if k = key then (key, value) :: rest
    else if key < k then (key, value) :: (k, v) :: rest
    else (k, v) :: insert key value rest

/-- The entries given by a list of keys and values; of several values for one key the last counts. -/
def ofList (pairs : List (String × Value)) : Entries :=
  pairs.foldl (fun entries p => insert p.1 p.2 entries) []

end Entries

namespace Value

def isNull : Value → Bool
  | null => true
  | _ => false

def asString? : Value → Option String
  | string s => some s
  | _ => none

/-- A binary64 as a value; infinities and NaN have none and become null. -/
def ofBinary64 (x : Binary64) : Value := if x.isFinite then .float x else .null

def asObject? : Value → Option Entries
  | object entries => some entries
  | _ => none

end Value
end GroovyWorkspace

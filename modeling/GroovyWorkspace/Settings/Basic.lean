import GroovyWorkspace.Value

/-!
# Settings

A settings document is an object, looked up by dotted keys. A key matches flat, as nested sections, or
as any mixture: `a.b.c` is found in `{"a.b.c": v}`, `{"a": {"b.c": v}}`, `{"a.b": {"c": v}}` and
`{"a": {"b": {"c": v}}}`. Of several matches the one whose first section is longest wins. A null is
the same as no value.
-/

namespace GroovyWorkspace

structure Settings where
  entries : Entries := []
  deriving Repr, Inhabited

/-- Looks up the rest of a dotted key in an object, `back` being the start of the key, backwards,
that has not been settled as a section. A longer first section is tried before a shorter one. -/
def Entries.lookupFrom (entries : Entries) (back : List Char) : List Char → Option Value
  | [] => (entries.get? (String.ofList back.reverse)).filter fun v => !v.isNull
  | c :: rest =>
    match lookupFrom entries (c :: back) rest with
    | some v => some v
    | none =>
      if c = '.' then
        match entries.get? (String.ofList back.reverse) with
        | some (.object inner) => lookupFrom inner [] rest
        | _ => none
      else none

/-- Looks up a dotted key in an object. -/
def Entries.lookup (entries : Entries) (key : String) : Option Value :=
  entries.lookupFrom [] key.toList

/-- Something that settings can be looked up in. -/
structure Store where
  get? : String → Option Value

namespace Store

def getString? (s : Store) (key : String) : Option String := (s.get? key).bind Value.asString?

def contains (s : Store) (key : String) : Bool := (s.get? key).isSome

/-- A table of flat keys as a store; a null is the same as no value. -/
def ofEntries (entries : Entries) : Store :=
  ⟨fun key => (entries.get? key).filter fun v => !v.isNull⟩

end Store

namespace Settings

def empty : Settings := {}

def ofValue? (v : Value) : Option Settings := v.asObject?.map Settings.mk

/-- Stores a value under a flat key. -/
def insert (s : Settings) (key : String) (v : Value) : Settings := ⟨Entries.insert key v s.entries⟩

def isEmpty (s : Settings) : Bool := s.entries.isEmpty

def get? (s : Settings) (key : String) : Option Value := s.entries.lookup key

def toStore (s : Settings) : Store := ⟨s.get?⟩

end Settings
end GroovyWorkspace

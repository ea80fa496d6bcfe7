/-!
# Styled text

Weights and colours of terminal text. A style is a list of codes; text without a style, or on a
terminal without colours, stays plain.
-/

namespace GroovyWorkspace.CommandLine

/-- A weight or a colour. -/
inductive Attribute where
  | bold
  | dimmed
  | red
  | green
  | yellow
  | cyan
  deriving DecidableEq, Repr

namespace Attribute

/-- The number of an attribute. -/
def code : Attribute → String
  | bold => "1"
  | dimmed => "2"
  | red => "31"
  | green => "32"
  | yellow => "33"
  | cyan => "36"

end Attribute

/-- Whether styles are shown. -/
structure Palette where
  coloured : Bool
  deriving DecidableEq, Repr, Inhabited

namespace Palette

/-- The start of a control sequence. -/
def escape : String := "\x1b["

def paint (p : Palette) (attributes : List Attribute) (text : String) : String :=
  if p.coloured then
    escape ++ String.intercalate ";" (attributes.map Attribute.code) ++ "m" ++ text ++ escape ++ "0m"
  else text

end Palette
end GroovyWorkspace.CommandLine

import GroovyWorkspace.Text.Blank

/-!
# JSON with comments and trailing commas

People decorate settings files with `//` and `/* */` comments and leave commas behind the last item.
`plain` takes the decoration off. It works in two steps: `tagged` gives each character its role, and
`emit` writes the characters down, dropping comments and, at a closing bracket, the comma before it.
A comma is dropped only behind a value, so that `[,]` and `[1,,]` stay wrong.
-/

namespace GroovyWorkspace.Json.Decorated

/-- What a character is part of. -/
inductive Role where
  | code
  | quoted
  | comment
  deriving DecidableEq, Repr

/-- Where in the text a reader stands. `opener` is on the second character of a comment's opening;
`block star` is in a block comment, right behind an asterisk if `star` holds. -/
inductive Mode where
  | code
  | quoted
  | escaped
  | line
  | opener
  | block (star : Bool)
  deriving DecidableEq, Repr

/-- Gives each character its role, from `mode` onwards. The line break that ends a line comment is
code, and so is a slash that opens no comment. -/
def taggedFrom : Mode → List Char → List (Role × Char)
  | _, [] => []
  | .code, c :: rest =>
    if c = '"' then (.quoted, c) :: taggedFrom .quoted rest
    else if c = '/' ∧ rest.head? = some '/' then (.comment, c) :: taggedFrom .line rest
    else if c = '/' ∧ rest.head? = some '*' then (.comment, c) :: taggedFrom .opener rest
    else (.code, c) :: taggedFrom .code rest
  | .quoted, c :: rest =>
    (.quoted, c) ::
      taggedFrom (if c = '\\' then .escaped else if c = '"' then .code else .quoted) rest
  | .escaped, c :: rest => (.quoted, c) :: taggedFrom .quoted rest
  | .line, c :: rest =>
    if c = '\n' then (.code, c) :: taggedFrom .code rest
    else (.comment, c) :: taggedFrom .line rest
  | .opener, c :: rest => (.comment, c) :: taggedFrom (.block false) rest
  | .block star, c :: rest =>
    (.comment, c) ::
      taggedFrom (if star ∧ c = '/' then .code else .block (c = '*')) rest

/-- Gives each character of a text its role. -/
def tagged (text : List Char) : List (Role × Char) := taggedFrom .code text

/-- Whether a comma behind `before`, a text written backwards, may be dropped: it follows neither an
opening bracket nor another comma. -/
def endsValue (before : List Char) : Bool :=
  match before.dropWhile Text.isBlank with
  | c :: _ => !(c = '[' || c = '{' || c = ',')
  | [] => true

/-- Drops the comma at the end of a text written backwards, with the white space behind it, if it is a
trailing one. -/
def dropComma (out : List Char) : List Char :=
  match out.dropWhile Text.isBlank with
  | ',' :: before => if endsValue before then before else out
  | _ => out

/-- Writes one character to a text kept backwards. -/
def emit (out : List Char) : Role × Char → List Char
  | (.comment, _) => out
  | (.quoted, c) => c :: out
  | (.code, c) => if c = '}' ∨ c = ']' then c :: dropComma out else c :: out

/-- The text without comments and trailing commas. -/
def plain (text : List Char) : List Char :=
  ((tagged text).foldl emit []).reverse

end GroovyWorkspace.Json.Decorated

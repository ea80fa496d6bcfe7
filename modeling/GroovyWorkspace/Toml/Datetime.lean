import GroovyWorkspace.Toml.Text

/-!
# Dates and times in TOML

A date, a time of day, or both, the last with or without an offset from universal time. The value is
kept as text in one spelling: `T` between date and time, at most nine digits of a second and none of
them a closing zero, `Z` for an offset given so.
-/

namespace GroovyWorkspace.Toml

/-- A number with exactly `count` digits. -/
def fixedDigits (count : Nat) : Reader Nat := fun cs => do
  let ds ← (cs.take count).mapM fun c => if '0' ≤ c ∧ c ≤ '9' then some (c.toNat - 48) else none
  if ds.length = count then some (ds.foldl (fun n d => n * 10 + d) 0, cs.drop count) else none

/-- A number with two digits in a range. -/
def twoDigits (low high : Nat) : Reader Nat := fun cs => do
  let (n, rest) ← fixedDigits 2 cs
  if low ≤ n ∧ n ≤ high then some (n, rest) else none

/-- The text behind a given character. -/
def expect (c : Char) : List Char → Option (List Char)
  | d :: rest => if c = d then some rest else none
  | [] => none

def daysIn (year month : Nat) : Nat :=
  if month = 2 then
    if year % 4 = 0 ∧ (year % 100 ≠ 0 ∨ year % 400 = 0) then 29 else 28
  else if month = 4 ∨ month = 6 ∨ month = 9 ∨ month = 11 then 30
  else 31

/-- A number with at least `width` digits. -/
def padded (width n : Nat) : List Char :=
  let ds := (Nat.toDigits 10 n)
  List.replicate (width - ds.length) '0' ++ ds

def date : Reader (List Char) := fun cs => do
  let (year, rest) ← fixedDigits 4 cs
  let rest ← expect '-' rest
  let (month, rest) ← twoDigits 1 12 rest
  let rest ← expect '-' rest
  let (day, rest) ← twoDigits 1 31 rest
  if day ≤ daysIn year month then
    some (padded 4 year ++ '-' :: padded 2 month ++ '-' :: padded 2 day, rest)
  else none

/-- The digits behind the point of a second, of which nine count. Closing zeros are left out, and so
is the point if nothing stays. -/
def secondFraction : Reader (List Char) := fun cs =>
  match cs with
  | '.' :: rest =>
    let ds := rest.takeWhile fun c => '0' ≤ c && c ≤ '9'
    if ds = [] then some ([], cs)
    else
      let kept := ((ds.take 9).reverse.dropWhile (· = '0')).reverse
      some (if kept = [] then [] else '.' :: kept, rest.drop ds.length)
  | _ => some ([], cs)

def timeOfDay : Reader (List Char) := fun cs => do
  let (hour, rest) ← twoDigits 0 23 cs
  let rest ← expect ':' rest
  let (minute, rest) ← twoDigits 0 59 rest
  let rest ← expect ':' rest
  let (second, rest) ← twoDigits 0 60 rest
  let (fraction, rest) ← secondFraction rest
  some (padded 2 hour ++ ':' :: padded 2 minute ++ ':' :: padded 2 second ++ fraction, rest)

/-- An offset from universal time, as text; a negative offset of nothing is written as a positive
one. -/
def offset : Reader (List Char)
  | 'Z' :: rest | 'z' :: rest => some (['Z'], rest)
  | c :: rest =>
    if c = '+' ∨ c = '-' then do
      let (hour, rest) ← twoDigits 0 23 rest
      let rest ← expect ':' rest
      let (minute, rest) ← twoDigits 0 59 rest
      let sign := if c = '-' ∧ (hour ≠ 0 ∨ minute ≠ 0) then '-' else '+'
      some (sign :: padded 2 hour ++ ':' :: padded 2 minute, rest)
    else none
  | [] => none

def timeBehindDate : Reader (List Char)
  | c :: rest =>
    if c = 'T' ∨ c = 't' ∨ c = ' ' then do
      let (time, rest) ← timeOfDay rest
      match offset rest with
      | some (off, rest) => some ('T' :: time ++ off, rest)
      | none => some ('T' :: time, rest)
    else none
  | [] => none

/-- A date, a time, or both, as text. -/
def datetime : Reader String := fun cs =>
  let read : Option (List Char × List Char) :=
    match date cs with
    | some (day, rest) =>
      match timeBehindDate rest with
      | some (time, after) => some (day ++ time, after)
      | none => some (day, rest)
    | none => timeOfDay cs
  read.map fun r => (String.ofList r.1, r.2)

end GroovyWorkspace.Toml

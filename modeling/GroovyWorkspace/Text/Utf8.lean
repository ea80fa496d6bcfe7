/-!
# Text as bytes

Strings and their UTF-8 bytes. Decoding comes in two forms: `decode?` refuses bytes that are not
UTF-8, and `decodeLossy` shows each longest piece that begins a character and cannot complete it
as one replacement character.
-/

namespace GroovyWorkspace.Text

def encode (s : String) : List UInt8 :=
  s.toUTF8.data.toList

/-- The text with exactly these bytes, if they are valid UTF-8. -/
def decode? (bytes : List UInt8) : Option String :=
  String.fromUTF8? ⟨bytes.toArray⟩

/-- The number of bytes that a character takes in UTF-8. -/
def byteCount (c : Char) : Nat :=
  if c.toNat < 0x80 then 1 else if c.toNat < 0x800 then 2 else if c.toNat < 0x10000 then 3 else 4

/-- The number of bytes that a text takes in UTF-8. -/
def byteLength (cs : List Char) : Nat :=
  cs.foldl (fun n c => n + byteCount c) 0

/-- The text without a byte order mark at its start. -/
def dropMark : List Char → List Char
  | c :: rest => if c.toNat = 0xFEFF then rest else c :: rest
  | [] => []

/-- A character of which the first bytes have been read: the value so far, how many bytes are still
to come, and the range that the next of them must lie in. -/
structure Unfinished where
  value : Nat
  missing : Nat
  low : UInt8
  high : UInt8

/-- What a byte at the start of a character means. -/
inductive Lead where
  | single (c : Char)
  | start (u : Unfinished)
  | stray

/-- Reads the first byte of a character. The ranges for the second byte leave out overlong forms,
surrogates and values above U+10FFFF. -/
def Lead.ofByte (b : UInt8) : Lead :=
  if b < 0x80 then .single (Char.ofNat b.toNat)
  else if b < 0xC2 then .stray
  else if b < 0xE0 then .start ⟨b.toNat - 0xC0, 1, 0x80, 0xBF⟩
  else if b < 0xF0 then
    .start ⟨b.toNat - 0xE0, 2, if b = 0xE0 then 0xA0 else 0x80, if b = 0xED then 0x9F else 0xBF⟩
  else if b < 0xF5 then
    .start ⟨b.toNat - 0xF0, 3, if b = 0xF0 then 0x90 else 0x80, if b = 0xF4 then 0x8F else 0xBF⟩
  else .stray

/-- The character shown for bytes that are no text. -/
def replacement : Char := '�'

/-- Decodes bytes into characters, with `pending` the character that is being read. -/
def decodeLossyFrom (pending : Option Unfinished) : List UInt8 → List Char
  | [] => if pending.isSome then [replacement] else []
  | b :: rest =>
    match pending with
    | some u =>
      if u.low ≤ b ∧ b ≤ u.high then
        let value := u.value * 64 + (b.toNat - 0x80)
        if u.missing ≤ 1 then Char.ofNat value :: decodeLossyFrom none rest
        else decodeLossyFrom (some ⟨value, u.missing - 1, 0x80, 0xBF⟩) rest
      else
        replacement ::
          match Lead.ofByte b with
          | .single c => c :: decodeLossyFrom none rest
          | .start v => decodeLossyFrom (some v) rest
          | .stray => replacement :: decodeLossyFrom none rest
    | none =>
      match Lead.ofByte b with
      | .single c => c :: decodeLossyFrom none rest
      | .start v => decodeLossyFrom (some v) rest
      | .stray => replacement :: decodeLossyFrom none rest

/-- The text of some bytes, with a replacement character for what is not UTF-8. -/
def decodeLossy (bytes : List UInt8) : String :=
  match decode? bytes with
  | some s => s
  | none => String.ofList (decodeLossyFrom none bytes)

end GroovyWorkspace.Text

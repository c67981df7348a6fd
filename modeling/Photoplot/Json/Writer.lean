import Photoplot.Text.Basic

/-! # Writing JSON documents

Values in two layouts: on one line without blanks, or with one member on each
line and two spaces for each level. -/

namespace Photoplot.Json

inductive Document
  | scalar (written : Text)
  | string (contents : Text)
  | object (members : List (Text × Document))
  deriving Repr

namespace Document

def escaped (c : Char) : Text :=
  if c = '"' then ['\\', '"']
  else if c = '\\' then ['\\', '\\']
  else if c = '\n' then ['\\', 'n']
  else if c = '\r' then ['\\', 'r']
  else if c = '\t' then ['\\', 't']
  else if c.toNat = 8 then ['\\', 'b']
  else if c.toNat = 12 then ['\\', 'f']
  else if c.toNat < 32 then
    ['\\', 'u', '0', '0'] ++ (if c.toNat < 16 then ['0'] else []) ++
      Nat.toDigits 16 c.toNat
  else [c]

def quoted (contents : Text) : Text := '"' :: contents.flatMap escaped ++ ['"']

def bool (value : Bool) : Document :=
    .scalar (if value then "true".toList else "false".toList)

mutual

def compact : Document → Text
  | .scalar written => written
  | .string contents => quoted contents
  | .object members => '\x7b' :: compactMembers members ++ ['\x7d']

def compactMembers : List (Text × Document) → Text
  | [] => []
  | [(key, value)] => quoted key ++ ':' :: value.compact
  | (key, value) :: rest => quoted key ++ ':' :: value.compact ++
      ',' :: compactMembers rest

end

def newLine (level : Nat) : Text := '\n' :: List.replicate (2 * level) ' '

mutual

def indented (level : Nat) : Document → Text
  | .scalar written => written
  | .string contents => quoted contents
  | .object [] => ['\x7b', '\x7d']
  | .object (member :: rest) =>
      '\x7b' :: indentedMembers (level + 1) (member :: rest) ++ newLine level ++ ['\x7d']

def indentedMembers (level : Nat) : List (Text × Document) → Text
  | [] => []
  | [(key, value)] => newLine level ++ quoted key ++ [':', ' '] ++ value.indented level
  | (key, value) :: rest =>
      newLine level ++ quoted key ++ [':', ' '] ++ value.indented level ++
        ',' :: indentedMembers level rest

end

end Document

end Photoplot.Json

import LinkedCommit.Json.Basic
/-!
# Writing JSON text

The compact text of a value: no blanks, members in order, and in strings only the quote, the
backslash and the controls escaped.
-/

set_option autoImplicit false

namespace LinkedCommit.Json

def hexDigit (n : Nat) : Char := Nat.digitChar n

def escapeChar (c : Char) : List Char :=
  if c = '"' then ['\\', '"']
  else if c = '\\' then ['\\', '\\']
  else if c = '\x08' then ['\\', 'b']
  else if c = '\x0c' then ['\\', 'f']
  else if c = '\n' then ['\\', 'n']
  else if c = '\r' then ['\\', 'r']
  else if c = '\t' then ['\\', 't']
  else if c.toNat < 0x20 then
    ['\\', 'u', '0', '0', hexDigit (c.toNat / 16), hexDigit (c.toNat % 16)]
  else [c]

def stringText (s : String) : String :=
  String.ofList ('"' :: (s.toList.flatMap escapeChar ++ ['"']))

mutual

def text : Json → String
  | .null => "null"
  | .bool b => if b then "true" else "false"
  | .number n => n.text
  | .string s => stringText s
  | .array items => "[" ++ itemsText items ++ "]"
  | .object members => "\x7b" ++ membersText members ++ "\x7d"

def itemsText : List Json → String
  | [] => ""
  | [item] => text item
  | item :: rest => text item ++ "," ++ itemsText rest

def membersText : List (String × Json) → String
  | [] => ""
  | [(name, value)] => stringText name ++ ":" ++ text value
  | (name, value) :: rest => stringText name ++ ":" ++ text value ++ "," ++ membersText rest

end

end LinkedCommit.Json

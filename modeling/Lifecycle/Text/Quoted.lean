import Lifecycle.Text.Hidden

/-!
# Quoted and structured text

A quoted text stands between double quotes.  Quotes, backslashes, tabs, line ends and the null
character have escapes of two characters, other hidden characters are written by number, and all
else stands for itself.  Structured values are written as a name with its fields.
-/

namespace Lifecycle.Text

def hexDigits (n : Nat) : String :=
  String.ofList (Nat.toDigits 16 n)

def escape (c : Char) : String :=
  match c with
  | '"' => "\\\""
  | '\\' => "\\\\"
  | '\n' => "\\n"
  | '\r' => "\\r"
  | '\t' => "\\t"
  | _ =>
      if c.toNat = 0 then "\\0"
      else if isHidden c then "\\u\x7b" ++ hexDigits c.toNat ++ "\x7d"
      else c.toString

def quoted (s : String) : String :=
  "\"" ++ String.join (s.toList.map escape) ++ "\""

def optional (part : Option String) : String :=
  match part with
  | none => "None"
  | some s => "Some(" ++ s ++ ")"

def truth (b : Bool) : String :=
  if b then "true" else "false"

def applied (name part : String) : String :=
  name ++ "(" ++ part ++ ")"

def record (name : String) (fields : List (String × String)) : String :=
  name ++ " \x7b " ++ ", ".intercalate (fields.map fun (field, part) => field ++ ": " ++ part) ++
    " \x7d"

end Lifecycle.Text

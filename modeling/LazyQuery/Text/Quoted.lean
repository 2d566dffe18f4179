import LazyQuery.Text.Hidden

/-!
# Quoted text in messages

How a message shows a name that may hold anything: between double quotes, with quotes, backslashes
and the usual controls escaped, and with characters that do not show written by number.

* `quoted` shows one text, `quotedList` a bracketed list of them.
* `commaSeparated` joins parts with a comma and a blank.
-/

set_option autoImplicit false

namespace LazyQuery.Text

/-- Parts joined by a comma and a blank. -/
def commaSeparated (parts : List String) : String :=
  ", ".intercalate parts

/-- A number in lower-case hexadecimal without leading zeros. -/
def hexadecimal (n : Nat) : String :=
  String.ofList (Nat.toDigits 16 n)

/-- A character inside a quoted text. -/
def escaped (c : Char) : String :=
  match c with
  | '\x00' => "\\0"
  | '\t' => "\\t"
  | '\r' => "\\r"
  | '\n' => "\\n"
  | '\\' => "\\\\"
  | '"' => "\\\""
  | _ => if isHidden c then "\\u\x7b" ++ hexadecimal c.toNat ++ "\x7d" else c.toString

/-- A text between double quotes. -/
def quoted (s : String) : String :=
  "\"" ++ String.join (s.toList.map escaped) ++ "\""

/-- A list of quoted texts in brackets. -/
def quotedList (xs : List String) : String :=
  "[" ++ commaSeparated (xs.map quoted) ++ "]"

end LazyQuery.Text

import ModularEncryption.Text.Combining
import ModularEncryption.Text.Unprintable

/-! # Quoted text

Text inside a listing stands between double quotes. A quote, a backslash and the control characters
with a short form are written with a backslash before them or their letter; any other character that
is not printed is written by its number, `\u` and the hexadecimal digits in braces.

There are two ways to treat combining characters. In a name (`quote`) each is written by its number,
so that names that look alike are told apart. In a running text (`quoteRunning`) one that follows
another character is left in place; a running text has its single quotes escaped as well, so that it
may stand between quotes of either kind. -/

namespace ModularEncryption.Text

/-- The digits of a number in hexadecimal, in lower case. -/
def hexDigits (n : Nat) : String := String.ofList (Nat.toDigits 16 n)

/-- A character written by its number. -/
def numbered (c : Char) : String := "\\u\x7b" ++ hexDigits c.toNat ++ "\x7d"

/-- A character between quotes, where it may join the one before it. -/
def quoteNext (c : Char) : String :=
  if c = '"' then "\\\""
  else if c = '\\' then "\\\\"
  else if c = '\n' then "\\n"
  else if c = '\r' then "\\r"
  else if c = '\t' then "\\t"
  else if c.toNat = 0 then "\\0"
  else if isUnprintable c then numbered c
  else c.toString

/-- A character between quotes, where it may not join the one before it. -/
def quoteChar (c : Char) : String := if isCombining c then numbered c else quoteNext c

/-- A text between double quotes, each of its characters told apart. -/
def quote (s : String) : String := "\"" ++ String.join (s.toList.map quoteChar) ++ "\""

/-- A character between quotes of either kind, given how it is written between double quotes. -/
def quoteEither (write : Char → String) (c : Char) : String :=
  if c = '\x27' then "\\\x27" else write c

/-- The characters of a running text, of which all but the first may join the one before them. -/
def quoteChars : List Char → List String
  | [] => []
  | c :: rest => quoteEither quoteChar c :: rest.map (quoteEither quoteNext)

/-- A running text between double quotes. -/
def quoteRunning (s : String) : String := "\"" ++ String.join (quoteChars s.toList) ++ "\""

end ModularEncryption.Text

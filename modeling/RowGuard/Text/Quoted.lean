import RowGuard.Text.Unprintable

/-!
# Quoted text

Text between double quotes, as it is shown in diagnostics: the quote, the
backslash and the usual controls have two-character escapes, and every other
character without a visible form of its own is written as its code point in
hexadecimal.
-/

namespace RowGuard.Text

/-- The lower-case hexadecimal digits of `n`, without padding. -/
def hexDigits (n : Nat) : List Char :=
  Nat.toDigits 16 n

/-- How one character is written inside quotes. -/
def escape (c : Char) : List Char :=
  if c = '"' then ['\\', '"']
  else if c = '\\' then ['\\', '\\']
  else if c = '\n' then ['\\', 'n']
  else if c = '\r' then ['\\', 'r']
  else if c = '\t' then ['\\', 't']
  else if c = '\x00' then ['\\', '0']
  else if isPrintable c then [c]
  else ['\\', 'u', '\x7b'] ++ hexDigits c.toNat ++ ['\x7d']

/-- The text between double quotes, with escapes. -/
def quote (s : String) : String :=
  String.ofList ('"' :: s.toList.flatMap escape ++ ['"'])

end RowGuard.Text

import TolerantParser.Text.Unprintable

/-! # Quoted text

A quoted text stands between double quotes.  Inside, a quote and a backslash follow a backslash,
line feed, carriage return, tab and NUL have their short escapes, and a character without a glyph
of its own is written as its code point in lower-case hexadecimal.  Everything else, the single
quote included, stands for itself. -/

set_option autoImplicit false

namespace TolerantParser.Text

def hexEscape (c : Char) : List Char :=
  ['\\', 'u', '\x7b'] ++ Nat.toDigits 16 c.toNat ++ ['\x7d']

def escape (c : Char) : List Char :=
  if c = '"' then ['\\', '"']
  else if c = '\\' then ['\\', '\\']
  else if c = '\n' then ['\\', 'n']
  else if c = '\r' then ['\\', 'r']
  else if c = '\t' then ['\\', 't']
  else if c = '\x00' then ['\\', '0']
  else if isUnprintable c then hexEscape c
  else [c]

def quoted (s : String) : String :=
  String.ofList ('"' :: s.toList.flatMap escape ++ ['"'])

end TolerantParser.Text

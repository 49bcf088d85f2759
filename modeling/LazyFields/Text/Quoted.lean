import LazyFields.Text.Printable

/-!
Quoted texts. A text stands between double quotes; a quote, a backslash and the common
controls inside it have two-character escapes, and other unprintable characters are
written by their number in lower-case hexadecimal.
-/

namespace LazyFields.Text

def numbered (c : Char) : List Char :=
  '\\' :: 'u' :: '\x7b' :: Nat.toDigits 16 c.toNat ++ ['\x7d']

def escape (c : Char) : List Char :=
  if c = '"' then ['\\', '"']
  else if c = '\\' then ['\\', '\\']
  else if c = '\x00' then ['\\', '0']
  else if c = '\t' then ['\\', 't']
  else if c = '\r' then ['\\', 'r']
  else if c = '\n' then ['\\', 'n']
  else if isPrintable c then [c]
  else numbered c

def quoted (s : String) : String :=
  String.ofList ('"' :: s.toList.flatMap escape ++ ['"'])

theorem toList_quoted (s : String) :
    (quoted s).toList = '"' :: s.toList.flatMap escape ++ ['"'] := by
  simp [quoted]

theorem escape_ne_nil (c : Char) : escape c ≠ [] := by
  unfold escape numbered
  repeat' split
  all_goals simp

end LazyFields.Text

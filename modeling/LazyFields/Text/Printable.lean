import LazyFields.Text.Tables

/-!
Which characters a quoted text shows as they are. Controls, separators other than the plain
space, format characters, marks that combine with the character before them, private use and
unassigned codes are written by number.
-/

namespace LazyFields.Text

def unprintable : List Block :=
  controls ++ separators ++ formats ++ privateUse ++ combiningMarks ++ unassigned

def isPrintable (c : Char) : Bool := !unprintable.any (·.contains c.toNat)

end LazyFields.Text

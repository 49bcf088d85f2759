/-!
Numbers in plain decimal notation, the only form in which records and messages show them.
-/

namespace LazyFields.Text

def decimal (n : Int32) : String := n.toInt.repr

end LazyFields.Text

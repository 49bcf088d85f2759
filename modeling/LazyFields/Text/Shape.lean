/-!
The outline of a printed value: atoms, and groups of members in brackets. An outline is
written on one line, or with every member of a group on a line of its own.
-/

namespace LazyFields.Text

inductive Bracket
  | tuple (name : String)
  | record (name : String)
  | list
  deriving DecidableEq

inductive Shape
  | atom (text : String)
  | labelled (label : String) (item : Shape)
  | group (bracket : Bracket) (items : List Shape)

def Bracket.opening : Bracket → String
  | .tuple name => name ++ "("
  | .record name => name ++ " \x7b"
  | .list => "["

def Bracket.closing : Bracket → String
  | .tuple _ => ")"
  | .record _ => "\x7d"
  | .list => "]"

/-- Only the braces of a record stand apart from its members. -/
def Bracket.gap : Bracket → String
  | .record _ => " "
  | _ => ""

mutual

def Shape.inline : Shape → String
  | .atom text => text
  | .labelled label item => label ++ ": " ++ item.inline
  | .group b items => b.opening ++ b.gap ++ Shape.inlineAll items ++ b.gap ++ b.closing

def Shape.inlineAll : List Shape → String
  | [] => ""
  | [item] => item.inline
  | item :: rest => item.inline ++ ", " ++ Shape.inlineAll rest

end

def indent (depth : Nat) : String := String.ofList (List.replicate (4 * depth) ' ')

mutual

def Shape.indented (depth : Nat) : Shape → String
  | .atom text => text
  | .labelled label item => label ++ ": " ++ item.indented depth
  | .group b [] => b.opening ++ b.closing
  | .group b (item :: rest) =>
    b.opening ++ "\n" ++ Shape.indentedAll (depth + 1) (item :: rest) ++ indent depth ++ b.closing

def Shape.indentedAll (depth : Nat) : List Shape → String
  | [] => ""
  | item :: rest =>
    indent depth ++ item.indented depth ++ ",\n" ++ Shape.indentedAll depth rest

end

inductive Layout
  | inline
  | indented

def Shape.print (s : Shape) : Layout → String
  | .inline => s.inline
  | .indented => s.indented 0

end LazyFields.Text

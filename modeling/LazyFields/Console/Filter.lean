import LazyFields.Event

/-!
Which events a console shows. A setting is a list of directives parted by commas, each a
level for all targets or a level for the targets that begin with a given text. Of the
directives that match an event the one with the longest target decides, and an event that
none matches is not shown.
-/

namespace LazyFields

/-- Shows events up to the verbosity `limit`, at zero none at all. -/
structure Directive where
  target : String
  limit : Nat
  deriving DecidableEq

namespace Directive

def limit? (text : String) : Option Nat :=
  match text.map Char.toLower with
  | "off" | "0" => some 0
  | "error" | "1" => some Level.error.verbosity
  | "warn" | "2" => some Level.warn.verbosity
  | "info" | "3" => some Level.info.verbosity
  | "debug" | "4" => some Level.debug.verbosity
  | "trace" | "5" => some Level.trace.verbosity
  | _ => none

def isTargetChar (c : Char) : Bool := c.isAlphanum || c == '_' || c == ':' || c == '-'

def target? (text : String) : Option String :=
  if !text.isEmpty && text.toList.all isTargetChar then some text else none

/-- A level alone is for all targets, and a target alone is shown in full. -/
def parse? (text : String) : Option Directive :=
  match text.splitOn "=" with
  | [word] =>
    match limit? word with
    | some limit => some ⟨"", limit⟩
    | none => (target? word).map (⟨·, Level.trace.verbosity⟩)
  | [target, level] => do
    let target ← target? target
    let limit ← limit? level
    return ⟨target, limit⟩
  | _ => none

def covers (d : Directive) (e : Event) : Bool := d.target.toList.isPrefixOf e.target.toList

def admits (d : Directive) (e : Event) : Bool := e.level.verbosity ≤ d.limit

def weightier (d d' : Directive) : Directive :=
  if d.target.length ≤ d'.target.length then d' else d

end Directive

structure Filter where
  directives : List Directive
  deriving DecidableEq

namespace Filter

def upTo (l : Level) : Filter := ⟨[⟨"", l.verbosity⟩]⟩

def parse? (text : String) : Option Filter := do
  match ← ((text.splitOn ",").filter (!·.isEmpty)).mapM Directive.parse? with
  | [] => return .upTo .error
  | ds => return ⟨ds⟩

def ofSetting (setting : Option String) : Filter := (setting.bind parse?).getD (.upTo .info)

def deciding (f : Filter) (e : Event) : Option Directive :=
  (f.directives.filter (·.covers e)).foldl
    (fun best d => some (best.elim d (·.weightier d))) none

def shows (f : Filter) (e : Event) : Bool := (f.deciding e).any (·.admits e)

end Filter

end LazyFields

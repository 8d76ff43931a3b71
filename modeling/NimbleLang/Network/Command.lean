/-!
Lexer commands: what a lexical rule asks for once it has matched. A `custom` command calls back to the
host; `stamped` pins a command to the place, counted from the start of the match, at which it was met.
Commands that look at the current place are positional.
-/

namespace NimbleLang

inductive Command where
  | channel (channel : Int)
  | custom (rule index : Int)
  | mode (mode : Int)
  | more
  | popMode
  | pushMode (mode : Int)
  | skip
  | type (type : Int)
  | stamped (offset : Int) (command : Command)
  deriving DecidableEq, Repr, Inhabited

namespace Command

/-- The kind of a command; a stamped one is of the kind it wraps. -/
def kindName : Command → String
  | .channel _ => "CHANNEL"
  | .custom _ _ => "CUSTOM"
  | .mode _ => "MODE"
  | .more => "MORE"
  | .popMode => "POP_MODE"
  | .pushMode _ => "PUSH_MODE"
  | .skip => "SKIP"
  | .type _ => "TYPE"
  | .stamped _ c => c.kindName

/-- How a command is written in a grammar; the positional ones have no such form. -/
def spell? : Command → Option String
  | .channel c => some ("channel(" ++ toString c ++ ")")
  | .mode m => some ("mode(" ++ toString m ++ ")")
  | .more => some "more"
  | .popMode => some "popMode"
  | .pushMode m => some ("pushMode(" ++ toString m ++ ")")
  | .skip => some "skip"
  | .type t => some ("type(" ++ toString t ++ ")")
  | .custom _ _ | .stamped _ _ => none

/-- Whether a command depends on the place it runs at. -/
def positional : Command → Bool
  | .custom _ _ | .stamped _ _ => true
  | _ => false

end Command

end NimbleLang

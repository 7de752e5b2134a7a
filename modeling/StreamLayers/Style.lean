import StreamLayers.Environment

/-!
How words stand out on a terminal.
-/

namespace StreamLayers

inductive Style where
  | bold
  | dim
  | yellow
  deriving DecidableEq, Repr

namespace Style

def code : Style → String
  | .bold => "1"
  | .dim => "2"
  | .yellow => "33"

/-- The text in a style, if there are to be styles. -/
def paint (styled : Bool) (style : Style) (s : String) : String :=
  if styled then "\x1b[" ++ style.code ++ "m" ++ s ++ "\x1b[0m" else s

/-- Whether output has styles: they can be forced, and otherwise only a terminal gets them, unless
they are turned off. -/
def wanted (s : Surroundings) : Bool :=
  (s.env.lookup "CLICOLOR_FORCE").any (· ≠ "0")
    || (s.isTerminal && (s.env.lookup "CLICOLOR").all (· ≠ "0")
      && (s.env.lookup "NO_COLOR").isNone)

end Style

end StreamLayers

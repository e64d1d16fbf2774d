import ImplFamilies.Grammar.Token

/-!
What a configuration text may hold between its words: spaces and tabs, comments, and ends of
lines. A comment holds no control character but the tab.
-/

namespace ImplFamilies.Toml

open ImplFamilies.Grammar
open ImplFamilies.Grammar.Rule

def isSpace (c : Char) : Bool :=
  c == ' ' || c == '\t'

/-- Tabs and everything from the space on, but no control characters. -/
def isVisible (c : Char) : Bool :=
  c == '\t' || (' ' ≤ c && c != '\x7f')

def spaces : Rule Unit :=
  (run isSpace).map fun _ => ()

def newline : Rule Unit :=
  (literal ['\n']).orElse (literal ['\r', '\n'])

def comment : Rule Unit :=
  ((literal ['#']).keepRight (run isVisible)).map fun _ => ()

/-- The rest of a line that has nothing more to say. -/
def lineRest : Rule Unit :=
  ((spaces.andThen (optional comment)).andThen (newline.orElse endOfInput)).map fun _ => ()

/-- Spaces, comments and line ends in any number. -/
def gaps : Rule Unit :=
  (many ((((run₁ isSpace).map fun _ => ()).orElse newline).orElse
    (comment.keepLeft newline))).map fun _ => ()

end ImplFamilies.Toml

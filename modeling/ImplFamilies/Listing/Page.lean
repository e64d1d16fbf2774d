import ImplFamilies.Family.Fold

/-!
The plain listing of signatures: one a line, families folded behind a caption that tells how many
lines it hides, or opened with the hidden lines below it.
-/

namespace ImplFamilies

/-- A listing and what has been hidden in it so far; nodes are places of lines. -/
structure Page where
  lines : List String
  hidden : List Nat
  /-- The latest control at an anchor counts. -/
  toggles : List (Fold Nat)

/-- The texts next to the controls. -/
structure Captions where
  showLabel : String
  hideLabel : String
deriving DecidableEq, Repr

namespace Page

def ofLines (lines : List String) : Page := ⟨lines, [], []⟩

def candidates (p : Page) : List (Nat × String) :=
  p.lines.zipIdx.map fun (line, place) => (place, line)

def apply (p : Page) : Change Nat → Page
  | .hide node => { p with hidden := node :: p.hidden }
  | .toggle fold => { p with toggles := fold :: p.toggles }

def applyAll (p : Page) (changes : List (Change Nat)) : Page :=
  changes.foldl apply p

def toggleAt (p : Page) (place : Nat) : Option (Fold Nat) :=
  p.toggles.find? fun fold => fold.anchor == place

def captionIndent : String := "    "

def memberIndent : String := "        "

/-- The caption of a control, and below it the hidden lines when they are to be shown. -/
def captionLines (p : Page) (captions : Captions) (expanded : Bool) (fold : Fold Nat) :
    List String :=
  if expanded then
    (captionIndent ++ "[-] " ++ captions.hideLabel) ::
      (fold.hidden.filterMap (p.lines[·]?)).map (memberIndent ++ ·)
  else
    [captionIndent ++ "[+] " ++ captions.showLabel ++ " (" ++ toString fold.hidden.length ++ ")"]

def entryLines (p : Page) (captions : Captions) (expanded : Bool) (entry : Nat × String) :
    List String :=
  if p.hidden.contains entry.1 then []
  else
    entry.2 ::
      (match p.toggleAt entry.1 with
        | some fold => p.captionLines captions expanded fold
        | none => [])

def listing (p : Page) (captions : Captions) (expanded : Bool) : List String :=
  p.candidates.flatMap (p.entryLines captions expanded)

end Page

/-- Lines as a text, each with a line feed behind it. -/
def renderLines (lines : List String) : String :=
  String.join (lines.map (· ++ "\n"))

end ImplFamilies

import ImplFamilies.Command.Arguments
import ImplFamilies.Listing.GroupTree
import ImplFamilies.Listing.Reprint

/-!
Running a command. The settings are read first, then the signatures; what is printed, what is told
beside it and the exit code follow from the contents alone.
-/

namespace ImplFamilies.Command

/-- Where contents come from. -/
inductive Source
  | input
  | file (path : String)
deriving DecidableEq, Repr

namespace Source

/-- A dash stands for the input, also with slashes behind it. -/
def ofOperand (file : String) : Source :=
  match file.splitOn "/" with
  | "-" :: rest =>
    if rest.all fun part => part == "" || part == "." then .input else .file file
  | _ => .file file

def name : Source → String
  | .input => "<stdin>"
  | .file path => path

end Source

/-- What looking into a source gives. -/
inductive Contents
  | missing
  | unreadable
  | bytes (content : ByteArray)

namespace Contents

/-- Contents count as text only when all of them do. -/
def text? : Contents → Option String
  | .bytes content => String.fromUTF8? content
  | _ => none

end Contents

/-- Why a command fails. -/
inductive Fault
  | io (path : String)
  | config (path : String)
  | group (refusal : Refusal)
deriving DecidableEq, Repr

namespace Fault

def codes : Fault → List String
  | .io _ => ["implfold::cli::io_error"]
  | .config _ => ["implfold::cli::config_error"]
  | .group refusal => [refusal.code, refusal.violation.code]

def message : Fault → String
  | .io path => "Failed to read " ++ path
  | .config path => "Invalid configuration in " ++ path
  | .group refusal => refusal.message ++ ": " ++ refusal.violation.message

end Fault

inductive Level
  | error
  | warn
  | info
  | debug
  | trace
deriving DecidableEq, Repr

namespace Level

def rank : Level → Int
  | .error => 0
  | .warn => 1
  | .info => 2
  | .debug => 3
  | .trace => 4

end Level

/-- What is told beside the output. -/
inductive Notice
  /-- With the codes that name its causes. -/
  | diagnostic (codes : List String) (message : String)
  | log (level : Level) (message : String)
  | usage
deriving DecidableEq, Repr

namespace Notice

/-- Diagnostics are always shown. -/
def isShown (verbosity : Int) : Notice → Bool
  | .log level _ => level.rank ≤ verbosity
  | _ => true

def codes : Notice → List String
  | .diagnostic codes _ => codes
  | _ => []

def render : Notice → String
  | .diagnostic codes message => ", ".intercalate codes ++ ": " ++ message
  | .log _ message => message
  | .usage => "usage: [-c FILE] [-v|-q] parse FILE | group [-f text|tree] [-e] FILE"

end Notice

structure Result where
  exitCode : Nat
  output : String
  notices : List Notice
deriving DecidableEq, Repr

namespace Result

def ofStop : Stop → Result
  | .usage => ⟨2, "", [.usage]⟩
  | .help => ⟨0, Notice.usage.render ++ "\n", []⟩

def ofFault (notices : List Notice) (fault : Fault) : Result :=
  ⟨1, "", notices ++ [.diagnostic fault.codes fault.message]⟩

end Result

/-- One line of the parse command, or what is told about a text that is no signature. -/
def reprintNotice (settings : Settings) (report : ReadingReport) : Notice :=
  if settings.reportParseErrors then
    .diagnostic [report.error.code] (report.origin ++ ": " ++ report.error.message)
  else .log .info ("failed to parse " ++ Text.quoteText report.text)

def reprintNotices (settings : Settings) : Reprint → List Notice
  | .canonical _ => []
  | .failed report => [reprintNotice settings report]

/-- Every signature in canonical form, and how many of the texts were signatures. -/
def runParse (settings : Settings) (file contents : String) : Result :=
  let reprints := Reprint.ofTexts file (Text.signatureLines contents settings.commentMark)
  let canonical := reprints.filterMap Reprint.canonical?
  { exitCode := 0
    output := renderLines
      (canonical ++
        ["parsed " ++ toString canonical.length ++ " of " ++ toString reprints.length])
    notices := reprints.flatMap (reprintNotices settings) }

/-- The folded listing of signatures in one of its shapes. -/
def runGroup (settings : Settings) (format : Format) (expanded : Bool) (contents : String) :
    Except Refusal Result :=
  let page := Page.ofLines (Text.signatureLines contents settings.commentMark)
  match Folding.ofCandidates page.candidates with
  | .error refusal => .error refusal
  | .ok folding =>
    .ok
      { exitCode := 0
        output := renderLines
          (match format with
            | .text => (page.applyAll folding.changes).listing settings.captions expanded
            | .tree => Group.treeListing folding.groups)
        notices := [.log .info
          (toString page.lines.length ++ " signatures in " ++ toString folding.groups.length ++
            " groups")] }

namespace Task

def file : Task → String
  | .parse file => file
  | .group file _ _ => file

/-- The result of a task, once its settings and its contents are there. -/
def run (settings : Settings) (contents : String) : Task → Except Refusal Result
  | .parse file => .ok (runParse settings file contents)
  | .group _ format expanded => runGroup settings (format.getD settings.format) expanded contents

end Task

def defaultConfig : String := "implfold.toml"

/-- The settings of a configuration file. Only the default one may be missing. -/
def loadSettings (config : Option String) (contents : Contents) :
    Except Fault (Settings × Notice) :=
  let path := config.getD defaultConfig
  match config, contents with
  | none, .missing =>
    .ok (Settings.default, .log .debug ("no " ++ path ++ " found, using defaults"))
  | _, contents =>
    match contents.text? with
    | none => .error (.io path)
    | some text =>
      match Settings.ofText? text with
      | none => .error (.config path)
      | some settings => .ok (settings, .log .debug ("loaded configuration from " ++ path))

/-- Runs a task whose settings are there on the contents of its file. -/
def finish (task : Task) (settings : Settings) (notice : Notice) (contents : Contents) : Result :=
  match contents.text? with
  | none => .ofFault [notice] (.io (Source.ofOperand task.file).name)
  | some text =>
    match task.run settings text with
    | .ok result => { result with notices := notice :: result.notices }
    | .error refusal => .ofFault [notice] (.group refusal)

/-- Runs a command line, given how to look into a source; only notices that are shown remain. -/
def run {m : Type → Type} [Monad m] (look : Source → m Contents) (args : List String) :
    m Result := do
  match Invocation.ofArguments args with
  | .error stop => return .ofStop stop
  | .ok invocation =>
    let config ← look (.file (invocation.config.getD defaultConfig))
    let result ←
      match loadSettings invocation.config config with
      | .error fault => pure (.ofFault [] fault)
      | .ok (settings, notice) => do
        let contents ← look (Source.ofOperand invocation.task.file)
        pure (finish invocation.task settings notice contents)
    return { result with
      notices := result.notices.filter (Notice.isShown invocation.verbosity) }

end ImplFamilies.Command

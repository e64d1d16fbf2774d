import ImplFamilies.Settings

/-!
The command line. Options for every command may stand before or after its name; an option that is
not a counter may be given once on each side, and what stands after the name counts.
-/

namespace ImplFamilies.Command

/-- A command with its own arguments; no format means the one in the settings. -/
inductive Task
  | parse (file : String)
  | group (file : String) (format : Option Format) (expanded : Bool)
deriving DecidableEq, Repr

structure Invocation where
  task : Task
  config : Option String
  /-- How much is logged: nothing below zero, errors at zero, and so on. -/
  verbosity : Int
deriving DecidableEq, Repr

/-- Why there is nothing to run. -/
inductive Stop
  | usage
  | help
deriving DecidableEq, Repr

/-- Options without a value. -/
inductive Flag
  | verbose
  | quiet
  | expanded
  | help
deriving DecidableEq, Repr

/-- Options with a value. -/
inductive Setting
  | config
  | format
deriving DecidableEq, Repr

inductive Opt
  | flag (flag : Flag)
  | setting (setting : Setting)
deriving DecidableEq, Repr

/-- The part of a command line that is being read. -/
inductive Scope
  | top
  | parse
  | group
deriving DecidableEq, Repr

namespace Scope

def ofName? : String → Option Scope
  | "parse" => some .parse
  | "group" => some .group
  | _ => none

def allows : Scope → Opt → Bool
  | .group, _ => true
  | _, .flag .expanded => false
  | _, .setting .format => false
  | _, _ => true

end Scope

namespace Opt

def ofLong? : String → Option Opt
  | "verbose" => some (.flag .verbose)
  | "quiet" => some (.flag .quiet)
  | "expanded" => some (.flag .expanded)
  | "help" => some (.flag .help)
  | "config" => some (.setting .config)
  | "format" => some (.setting .format)
  | _ => none

def ofShort? : Char → Option Opt
  | 'v' => some (.flag .verbose)
  | 'q' => some (.flag .quiet)
  | 'e' => some (.flag .expanded)
  | 'h' => some (.flag .help)
  | 'c' => some (.setting .config)
  | 'f' => some (.setting .format)
  | _ => none

/-- The option that a lookup found, if the scope has it. -/
def within (scope : Scope) (opt? : Option Opt) : Except Stop Opt :=
  match opt? with
  | some opt => if scope.allows opt then .ok opt else .error .usage
  | none => .error .usage

end Opt

/-- What one side of the command line has given. -/
structure Given where
  verbose : Nat
  quiet : Nat
  expanded : Bool
  config : Option String
  format : Option Format
  operands : List String
deriving DecidableEq, Repr

namespace Given

def empty : Given := ⟨0, 0, false, none, none, []⟩

/-- A counter is a byte: at its largest value it stays. -/
def countUp (n : Nat) : Nat := min (n + 1) 255

/-- Counters count up; help ends everything; any other flag is given once. -/
def raise (g : Given) : Flag → Except Stop Given
  | .verbose => .ok { g with verbose := countUp g.verbose }
  | .quiet => .ok { g with quiet := countUp g.quiet }
  | .expanded => if g.expanded then .error .usage else .ok { g with expanded := true }
  | .help => .error .help

/-- The name of a file must not be empty, and a format must be known. -/
def set (g : Given) (value : String) : Setting → Except Stop Given
  | .config =>
    if g.config.isSome || value = "" then .error .usage else .ok { g with config := some value }
  | .format =>
    match g.format, Format.ofName? value with
    | none, some format => .ok { g with format := some format }
    | _, _ => .error .usage

/-- One file for each command, and none before its name. -/
def operand (g : Given) (scope : Scope) (value : String) : Except Stop Given :=
  if scope = .top ∨ g.operands ≠ [] ∨ value = "" then .error .usage
  else .ok { g with operands := [value] }

end Given

/-- Help on everything, on a command or on help itself. A command has no commands of its own. -/
def helpOn : List String → Stop
  | [] => .help
  | [topic] => if topic = "help" ∨ (Scope.ofName? topic).isSome then .help else .usage
  | _ => .usage

example : helpOn ["group"] = .help ∧ helpOn ["group", "a"] = .usage ∧ helpOn ["-h"] = .usage := by
  decide

/-- What an argument looks like; a lone dash is an operand. -/
inductive Shape
  | operand (text : String)
  | escape
  | long (name : String) (value : Option String)
  | short (cluster : List Char)
deriving DecidableEq, Repr

namespace Shape

/-- A name, and the value behind the first equals sign. -/
def splitValue (cs : List Char) : String × Option String :=
  match cs.dropWhile (· != '=') with
  | [] => (String.ofList cs, none)
  | _ :: value => (String.ofList (cs.takeWhile (· != '=')), some (String.ofList value))

def ofArgument (arg : String) : Shape :=
  match arg.toList with
  | ['-', '-'] => .escape
  | '-' :: '-' :: rest =>
    match splitValue rest with
    | (name, value) => .long name value
  | ['-'] => .operand arg
  | '-' :: cluster => .short cluster
  | _ => .operand arg

end Shape

/-- What is left after an option: nothing more, or a setting that waits for its value. -/
abbrev Pending := Option Setting

/-- The value that stands in the same argument as a short option. -/
def attachedValue : List Char → Option String
  | [] => none
  | '=' :: value => some (String.ofList value)
  | value => some (String.ofList value)

/-- Several short options in one argument; one with a value ends it. -/
def readCluster (scope : Scope) (g : Given) : List Char → Except Stop (Given × Pending)
  | [] => .ok (g, none)
  | c :: rest =>
    match Opt.within scope (Opt.ofShort? c) with
    | .error stop => .error stop
    | .ok (.flag flag) =>
      match g.raise flag with
      | .ok g => readCluster scope g rest
      | .error stop => .error stop
    | .ok (.setting setting) =>
      match attachedValue rest with
      | some value => (g.set value setting).map fun g => (g, none)
      | none => .ok (g, some setting)

def readLong (scope : Scope) (g : Given) (name : String) (value : Option String) :
    Except Stop (Given × Pending) :=
  match Opt.within scope (Opt.ofLong? name), value with
  | .error stop, _ => .error stop
  | .ok (.flag flag), none => (g.raise flag).map fun g => (g, none)
  | .ok (.flag _), some _ => .error .usage
  | .ok (.setting setting), some value => (g.set value setting).map fun g => (g, none)
  | .ok (.setting setting), none => .ok (g, some setting)

/-- After two dashes every argument is an operand. -/
def readOperands (scope : Scope) (g : Given) : List String → Except Stop Given
  | [] => .ok g
  | arg :: args =>
    match g.operand scope arg with
    | .ok g => readOperands scope g args
    | .error stop => .error stop

/-- One side of the command line: what it gives, and the command with what follows its name. -/
structure Side where
  given : Given
  next : Option (Scope × List String)

/-- Reads up to the name of a command, or to the end. -/
def readSide (scope : Scope) (g : Given) : Pending → List String → Except Stop Side
  | some _, [] => .error .usage
  | none, [] => .ok ⟨g, none⟩
  | some setting, arg :: args =>
    match Shape.ofArgument arg with
    | .operand value =>
      match g.set value setting with
      | .ok g => readSide scope g none args
      | .error stop => .error stop
    | _ => .error .usage
  | none, arg :: args =>
    match Shape.ofArgument arg with
    | .escape => (readOperands scope g args).map fun g => ⟨g, none⟩
    | .long name value =>
      match readLong scope g name value with
      | .ok (g, pending) => readSide scope g pending args
      | .error stop => .error stop
    | .short cluster =>
      match readCluster scope g cluster with
      | .ok (g, pending) => readSide scope g pending args
      | .error stop => .error stop
    | .operand value =>
      if scope = .top then
        match Scope.ofName? value with
        | some next => .ok ⟨g, some (next, args)⟩
        | none => .error (if value = "help" then helpOn args else .usage)
      else
        match g.operand scope value with
        | .ok g => readSide scope g none args
        | .error stop => .error stop

/-- One side must not ask for more and for less output at once. -/
def Given.consistent (g : Given) : Bool :=
  g.verbose == 0 || g.quiet == 0

def Given.task? (g : Given) : Scope → Option Task
  | .top => none
  | .parse => g.operands.head?.map Task.parse
  | .group => g.operands.head?.map fun file => .group file g.format g.expanded

/-- What stands after the name of the command counts, else what stands before it. -/
def combine (before after : Given) (task : Task) : Invocation :=
  { task
    config := after.config.or before.config
    verbosity :=
      ((if after.verbose = 0 then before.verbose else after.verbose : Nat) : Int) -
        (if after.quiet = 0 then before.quiet else after.quiet : Nat) }

/-- Reads a whole command line. -/
def Invocation.ofArguments (args : List String) : Except Stop Invocation :=
  match readSide .top Given.empty none args with
  | .error stop => .error stop
  | .ok ⟨_, none⟩ => .error .usage
  | .ok ⟨before, some (scope, args)⟩ =>
    match readSide scope Given.empty none args with
    | .error stop => .error stop
    | .ok ⟨after, _⟩ =>
      match after.task? scope with
      | none => .error .usage
      | some task =>
        if before.consistent && after.consistent then .ok (combine before after task)
        else .error .usage

end ImplFamilies.Command

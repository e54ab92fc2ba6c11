import DocTemplate.CommandLine.Extras

/-!
# Arguments

The command line names one of two commands with its template, and options
before or behind it.  A command line that starts with anything else than an
option or a command means the command `compile`.  An option is written
`--name value` or `--name=value`, and those that have a letter also
`-n value`, `-nvalue` or `-n=value`; none is given twice.  Behind `--`
everything is a plain argument.
-/

namespace DocTemplate
namespace CommandLine

inductive Command
  | compile
  | skeleton
deriving DecidableEq, Repr

inductive Flag
  | listBackends
  | config
  | backend
  | data
  | output
  | denyWarnings
  | help
  | version
deriving DecidableEq, Repr

def Flag.takesValue : Flag → Bool
  | .config | .backend | .data | .output => true
  | _ => false

/-- The option of a long name, before any command or behind one. -/
def longFlag? : Option Command → String → Option Flag
  | _, "list-backends" => some .listBackends
  | _, "config" => some .config
  | _, "help" => some .help
  | none, "version" => some .version
  | some .compile, "to" => some .backend
  | some .compile, "data" => some .data
  | some .compile, "output" => some .output
  | some .compile, "deny-warnings" => some .denyWarnings
  | _, _ => none

/-- The option of a letter, before any command or behind one. -/
def letterFlag? : Option Command → Char → Option Flag
  | _, 'h' => some .help
  | none, 'V' => some .version
  | some .compile, 'd' => some .data
  | some .compile, 'o' => some .output
  | _, _ => none

/-- Why the arguments ask for no work. -/
inductive Stop
  | help
  | version
  | misuse
deriving DecidableEq, Repr

/-! ## Words -/

/-- How a single argument is written. -/
inductive Word
  | separator
  | long (name : String) (value : Option String)
  | letters (letters : List Char)
  | plain (text : String)
deriving DecidableEq, Repr

def Word.ofArgument (argument : String) : Word :=
  match argument.toList with
  | ['-', '-'] => .separator
  | '-' :: '-' :: text =>
      let name := text.takeWhile (· != '=')
      match text.drop name.length with
      | _ :: value => .long (String.ofList name) (some (String.ofList value))
      | [] => .long (String.ofList name) none
  | '-' :: first :: others => .letters (first :: others)
  | _ => .plain argument

/-! ## Reading -/

/-- What has been given on one side of the command. -/
structure Given where
  options : List (Flag × String) := []
  template : Option String := none
deriving DecidableEq, Repr

namespace Given

def value? (given : Given) (flag : Flag) : Option String :=
  given.options.lookup flag

def has (given : Given) (flag : Flag) : Bool := (given.value? flag).isSome

/-- Gives an option, for the first time. -/
def give (given : Given) (flag : Flag) (value : String := "") :
    Except Stop Given :=
  match flag with
  | .help => .error .help
  | .version => .error .version
  | _ =>
      if given.has flag then .error .misuse
      else .ok { given with options := (flag, value) :: given.options }

/-- Gives a plain argument: the template of a command. -/
def giveTemplate (given : Given) (text : String) : Except Stop Given :=
  match given.template with
  | none => .ok { given with template := some text }
  | some _ => .error .misuse

end Given

/-- Gives the options of letters in one argument; an option that is left
without its value has it in the next one. -/
def readLetters (command : Option Command) :
    List Char → Given → Except Stop (Given × Option Flag)
  | [], given => .ok (given, none)
  | letter :: rest, given =>
      match letterFlag? command letter with
      | none => .error .misuse
      | some flag =>
          if flag.takesValue then
            match rest with
            | [] => .ok (given, some flag)
            | '=' :: value => do
                return (← given.give flag (String.ofList value), none)
            | value => do
                return (← given.give flag (String.ofList value), none)
          else do
            readLetters command rest (← given.give flag)

/-- Gives the option, or the options, of a word.  One that is left without its
value has it in the next argument. -/
def giveOptions (command : Option Command) (given : Given) :
    Word → Except Stop (Given × Option Flag)
  | .long name value? =>
      match longFlag? command name, value? with
      | none, _ => .error .misuse
      | some flag, some value =>
          if flag.takesValue then do
            return (← given.give flag value, none)
          else
            .error .misuse
      | some flag, none =>
          if flag.takesValue then .ok (given, some flag)
          else do return (← given.give flag, none)
  | .letters letters => readLetters command letters given
  | .separator | .plain _ => .error .misuse

/-- Gives an option the value that its argument was left without. -/
def giveValue (given : Given) (flag : Flag) (argument : String) :
    Except Stop Given :=
  match Word.ofArgument argument with
  | .plain value => given.give flag value
  | _ => .error .misuse

/-- Reads the arguments behind a command.  An option may be waiting for its
value. -/
def readBehind (command : Command) :
    Option Flag → List String → Given → Except Stop Given
  | none, [], given => .ok given
  | some _, [], _ => .error .misuse
  | some flag, argument :: rest, given => do
      readBehind command none rest (← giveValue given flag argument)
  | none, argument :: rest, given =>
      match Word.ofArgument argument with
      | .separator =>
          rest.foldlM (fun given text => given.giveTemplate text) given
      | .plain text => do
          readBehind command none rest (← given.giveTemplate text)
      | word => do
          let (given, waiting) ← giveOptions (some command) given word
          readBehind command waiting rest given

/-- What the arguments ask for. -/
structure Invocation where
  listBackends : Bool := false
  config : Option String := none
  /-- The command with its template and its options. -/
  command : Option (Command × String × Given) := none
deriving DecidableEq, Repr

/-- Reads a command with the arguments behind it.  Options that are known on
both sides of a command count behind it. -/
def readCommand (command : Command) (before : Given)
    (arguments : List String) : Except Stop Invocation := do
  let given ← readBehind command none arguments {}
  match given.template with
  | none => .error .misuse
  | some template =>
      return {
        listBackends := before.has .listBackends || given.has .listBackends
        config := (given.value? .config).or (before.value? .config)
        command := some (command, template, given) }

/-- What comes of asking for help, with the arguments behind. -/
def readHelp : List String → Stop
  | [] => .help
  | ["compile"] | ["skeleton"] | ["help"] => .help
  | _ => .misuse

/-- What options without a command ask for.  There has to be one. -/
def withoutCommand (given : Given) : Except Stop Invocation :=
  if given.options.isEmpty then
    .error .misuse
  else
    .ok {
      listBackends := given.has .listBackends
      config := given.value? .config }

/-- Reads the arguments before any command.  An option may be waiting for its
value. -/
def readBefore :
    Option Flag → List String → Given → Except Stop Invocation
  | none, [], given => withoutCommand given
  | some _, [], _ => .error .misuse
  | some flag, argument :: rest, given => do
      readBefore none rest (← giveValue given flag argument)
  | none, argument :: rest, given =>
      match Word.ofArgument argument with
      | .plain "compile" => readCommand .compile given rest
      | .plain "skeleton" => readCommand .skeleton given rest
      | .plain "help" => .error (readHelp rest)
      | .plain _ => .error .misuse
      | .separator =>
          if rest.isEmpty then withoutCommand given else .error .misuse
      | word => do
          let (given, waiting) ← giveOptions none given word
          readBefore waiting rest given

/-- The arguments with the command that they leave out. -/
def withCommand (arguments : List String) : List String :=
  match arguments with
  | first :: _ =>
      if isDashed first || ["compile", "skeleton", "help"].contains first then
        arguments
      else
        "compile" :: arguments
  | [] => []

/-- What arguments ask for. -/
def readArguments (arguments : List String) : Except Stop Invocation :=
  readBefore none (withCommand arguments) {}

end CommandLine
end DocTemplate

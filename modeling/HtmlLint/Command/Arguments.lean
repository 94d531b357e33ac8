/-!
# Arguments of the command

The arguments are read in order. An option that takes a value has it after `=` or as the next
argument, which then does not look like an option. After a lone `--` everything is a file. Every
option is given at most once, and a given document excludes files.

Asking for help or for the version ends the reading; faults in later arguments are not seen.
-/

namespace HtmlLint.Command

/-- How reports are written. -/
inductive Format where
  | text
  | json
  deriving DecidableEq, Repr

def Format.ofName? (name : String) : Option Format :=
  if name = "text" then some .text else if name = "json" then some .json else none

/-- What the arguments ask for, as far as they were read. -/
structure Options where
  files : List String := []
  html : Option String := none
  config : Option String := none
  rules : Option String := none
  format : Option Format := none
  listRules : Bool := false
  deriving DecidableEq, Repr

/-- What to do. -/
inductive Request where
  | help
  | version
  | run (options : Options)
  deriving DecidableEq, Repr

/-- The options that take a value. -/
inductive Valued where
  | html
  | config
  | rules
  | format
  deriving DecidableEq, Repr

namespace Valued

def ofName? (name : String) : Option Valued :=
  if name = "html" then some html
  else if name = "config" then some config
  else if name = "rules" then some rules
  else if name = "format" then some format
  else none

end Valued

namespace Options

/-- Takes the value of an option, unless it was given before or the value is refused. -/
def setValue (options : Options) (option : Valued) (value : String) : Option Options :=
  match option with
  | .html => if options.html.isSome then none else some { options with html := some value }
  | .config =>
    if options.config.isSome || value.isEmpty then none
    else some { options with config := some value }
  | .rules => if options.rules.isSome then none else some { options with rules := some value }
  | .format =>
    match options.format, Format.ofName? value with
    | none, some format => some { options with format := some format }
    | _, _ => none

/-- Takes a file, whose name is not empty. -/
def addFile (options : Options) (file : String) : Option Options :=
  if file.isEmpty then none else some { options with files := options.files ++ [file] }

def setListRules (options : Options) : Option Options :=
  if options.listRules then none else some { options with listRules := true }

end Options

/-- What an argument looks like. -/
inductive Argument where
  /-- A file, or the value of the option before it. -/
  | plain (s : String)
  /-- The lone `--`. -/
  | separator
  /-- An option by its long name, with the value after `=`. -/
  | long (name : String) (value : Option String)
  /-- Options by their letters. -/
  | short (letters : List Char)
  deriving DecidableEq, Repr

namespace Argument

/-- The name and the value around the first `=`. -/
def splitValue (s : List Char) : Argument :=
  match s.dropWhile (· != '=') with
  | [] => long (String.ofList s) none
  | _ :: value => long (String.ofList (s.takeWhile (· != '='))) (some (String.ofList value))

def ofString (s : String) : Argument :=
  match s.toList with
  | ['-', '-'] => separator
  | '-' :: '-' :: name => splitValue name
  | '-' :: c :: letters => short (c :: letters)
  | _ => plain s

end Argument

/-- The request of the letters of a short argument, if they start with one that is known. -/
def shortRequest? : List Char → Option Request
  | 'h' :: _ => some .help
  | 'V' :: _ => some .version
  | _ => none

/-- Takes the arguments after a lone `--`, all of which are files. -/
def readFiles (options : Options) : List String → Option Options
  | [] => some options
  | file :: files => do readFiles (← options.addFile file) files

/-- What all arguments together ask for. -/
def finishOptions (options : Options) : Option Request :=
  if options.html.isSome && !options.files.isEmpty then none else some (.run options)

/-- Reads the arguments that are left; nothing is returned when one of them is refused. -/
def readArguments (options : Options) : List String → Option Request
  | [] => finishOptions options
  | argument :: arguments =>
    match Argument.ofString argument with
    | .plain file => do readArguments (← options.addFile file) arguments
    | .separator => do finishOptions (← readFiles options arguments)
    | .short letters => shortRequest? letters
    | .long "help" none => some .help
    | .long "version" none => some .version
    | .long "list-rules" none => do readArguments (← options.setListRules) arguments
    | .long name value => do
      let option ← Valued.ofName? name
      match value, arguments with
      | some value, arguments => readArguments (← options.setValue option value) arguments
      | none, value :: arguments =>
        match Argument.ofString value with
        | .plain value => readArguments (← options.setValue option value) arguments
        | _ => none
      | none, [] => none

/-- What the arguments ask for; nothing when they are refused. -/
def request? (arguments : List String) : Option Request :=
  readArguments {} arguments

end HtmlLint.Command

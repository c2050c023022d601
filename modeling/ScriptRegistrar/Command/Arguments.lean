/-!
# Command lines

What the arguments of the program ask for.  Options have a long name, some also a short one;
a value stands behind an equals sign, directly behind a short name, or in the next argument.
Every option may be given once.
-/

namespace ScriptRegistrar.Command

inductive Request where
  /-- Generate registration code. -/
  | generate (project config : Option String)
  /-- Report what generation would register. -/
  | scan (project config : Option String) (json : Bool)
  /-- Validate a configuration file. -/
  | check (config : Option String)
  /-- Print the version. -/
  | version
  /-- Print how the program is used. -/
  | help
  deriving DecidableEq, Repr

/-- What arguments mean: a request, or nothing that can be done. -/
inductive Interpretation where
  | request (logLevel : Option String) (request : Request)
  | misuse
  deriving DecidableEq, Repr

inductive OptionName where
  | project
  | config
  | json
  | logLevel
  | help
  | version
  deriving DecidableEq, Repr

def OptionName.takesValue : OptionName → Bool
  | .project | .config | .logLevel => true
  | .json | .help | .version => false

/-- The part of a command line that decides which options are known. -/
inductive Scope where
  /-- The arguments before a command. -/
  | program
  | generate
  | scan
  | check
  deriving DecidableEq, Repr

def Scope.knows (scope : Scope) (option : OptionName) : Bool :=
  match scope, option with
  | _, .help | _, .logLevel => true
  | .program, .version => true
  | .generate, .project | .scan, .project => true
  | .generate, .config | .scan, .config | .check, .config => true
  | .scan, .json => true
  | _, _ => false

def OptionName.ofLong? (name : List Char) : Option OptionName :=
  if name = "project".toList then some .project
  else if name = "config".toList then some .config
  else if name = "json".toList then some .json
  else if name = "log-level".toList then some .logLevel
  else if name = "help".toList then some .help
  else if name = "version".toList then some .version
  else none

def OptionName.ofShort? (name : Char) : Option OptionName :=
  if name = 'p' then some .project
  else if name = 'c' then some .config
  else if name = 'h' then some .help
  else if name = 'V' then some .version
  else none

/-- An argument, read by its first characters. -/
inductive Token where
  /-- Two dashes: no options follow. -/
  | terminator
  /-- A long option, with the value behind its equals sign. -/
  | long (name : List Char) (value : Option String)
  /-- A short option, with what is written directly behind it. -/
  | short (name : Char) (behind : List Char)
  | word (text : String)
  deriving DecidableEq, Repr

def Token.ofArgument (argument : String) : Token :=
  match argument.toList with
  | ['-', '-'] => .terminator
  | '-' :: '-' :: rest =>
    let name := rest.takeWhile (· ≠ '=')
    match rest.dropWhile (· ≠ '=') with
    | [] => .long name none
    | _ :: value => .long name (some (String.ofList value))
  | '-' :: name :: behind => .short name behind
  | _ => .word argument

/-- The options given so far. -/
structure Given where
  project : Option String := none
  config : Option String := none
  json : Bool := false
  logLevel : Option String := none
  deriving DecidableEq, Repr

/-- Notes an option with its value; `none` if it was given before. -/
def Given.add? (given : Given) (option : OptionName) (value : String) : Option Given :=
  match option with
  | .project => if given.project.isSome then none else some { given with project := some value }
  | .config => if given.config.isSome then none else some { given with config := some value }
  | .logLevel =>
    if given.logLevel.isSome then none else some { given with logLevel := some value }
  | .json => if given.json then none else some { given with json := true }
  | .help | .version => some given

/-- What the arguments behind a command ask for once all of them are read. -/
def Scope.conclude (scope : Scope) (outer : Option String) (given : Given) : Interpretation :=
  let logLevel := given.logLevel <|> outer
  match scope with
  | .program => .misuse
  | .generate => .request logLevel (.generate given.project given.config)
  | .scan => .request logLevel (.scan given.project given.config given.json)
  | .check => .request logLevel (.check given.config)

def Scope.ofName? (name : String) : Option Scope :=
  if name = "generate" then some .generate
  else if name = "scan" then some .scan
  else if name = "check" then some .check
  else none

/-- What a request for help asks for: the help of the program or of a command. -/
def interpretHelp : List String → Interpretation
  | [] => .request none .help
  | [name] =>
    if (Scope.ofName? name).isSome || name = "help" then .request none .help else .misuse
  | _ => .misuse

/-- What follows an option: the rest of its argument, or the arguments behind it. -/
inductive Follow where
  /-- The text is the value of the option. -/
  | attached (text : String)
  /-- Nothing is written directly behind the option. -/
  | nothing
  /-- More short options are written directly behind it. -/
  | cluster (behind : List Char)
  deriving DecidableEq, Repr

def Follow.ofShort (option : OptionName) (behind : List Char) : Follow :=
  match behind with
  | [] => .nothing
  | next :: rest =>
    if !option.takesValue then .cluster behind
    else if next = '=' then .attached (String.ofList rest)
    else .attached (String.ofList behind)

inductive Step where
  /-- The interpretation is known. -/
  | finished (interpretation : Interpretation)
  /-- Go on with the next argument. -/
  | goOn (given : Given)
  /-- Go on with more short options of the same argument. -/
  | more (given : Given) (behind : List Char)
  /-- The value of the option is the next argument. -/
  | needsValue (option : OptionName)
  deriving DecidableEq, Repr

def Step.ofOption (scope : Scope) (given : Given) (option : OptionName) (follow : Follow) :
    Step :=
  if !scope.knows option then .finished .misuse
  else if option.takesValue then
    match follow with
    | .attached text =>
      match given.add? option text with
      | some given => .goOn given
      | none => .finished .misuse
    | _ => .needsValue option
  else
    match follow with
    | .attached _ => .finished .misuse
    | follow =>
      match option with
      | .help => .finished (.request none .help)
      | .version => .finished (.request none .version)
      | _ =>
        match given.add? option "", follow with
        | none, _ => .finished .misuse
        | some given, .cluster behind => .more given behind
        | some given, _ => .goOn given

/-- Handles short options that are written in one argument. -/
def Step.ofCluster (scope : Scope) (given : Given) (name : Char) : List Char → Step
  | [] =>
    match OptionName.ofShort? name with
    | none => .finished .misuse
    | some option => ofOption scope given option .nothing
  | next :: behind =>
    match OptionName.ofShort? name with
    | none => .finished .misuse
    | some option =>
      match ofOption scope given option (.ofShort option (next :: behind)) with
      | .more given _ => ofCluster scope given next behind
      | step => step

/-- Reads arguments.  `outer` is the log level given before the command. -/
def interpretFrom (scope : Scope) (outer : Option String) (given : Given)
    (pending : Option OptionName) : List String → Interpretation
  | [] => if pending.isSome then .misuse else scope.conclude outer given
  | argument :: rest =>
    match pending, Token.ofArgument argument with
    | some option, .word value =>
      match given.add? option value with
      | some given => interpretFrom scope outer given none rest
      | none => .misuse
    | some _, _ => .misuse
    | none, .terminator => if rest.isEmpty then scope.conclude outer given else .misuse
    | none, .long name value =>
      match OptionName.ofLong? name with
      | none => .misuse
      | some option =>
        proceed rest (Step.ofOption scope given option (value.elim .nothing .attached))
    | none, .short name behind => proceed rest (Step.ofCluster scope given name behind)
    | none, .word text =>
      match scope with
      | .program =>
        if text = "help" then interpretHelp rest
        else
          match Scope.ofName? text with
          | some command => interpretFrom command given.logLevel {} none rest
          | none => .misuse
      | _ => .misuse
where
  /-- Goes on after an option. -/
  proceed (rest : List String) : Step → Interpretation
    | .finished interpretation => interpretation
    | .goOn given => interpretFrom scope outer given none rest
    | .more given _ => interpretFrom scope outer given none rest
    | .needsValue option => interpretFrom scope outer given (some option) rest

def interpret (arguments : List String) : Interpretation :=
  interpretFrom .program none {} none arguments

end ScriptRegistrar.Command

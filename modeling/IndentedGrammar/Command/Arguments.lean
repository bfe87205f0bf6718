import IndentedGrammar.Text.Integer

namespace IndentedGrammar.Command

structure Choice where
  long : String
  short : Option Char
  takesValue : Bool
  deriving DecidableEq

inductive UsageError where
  | needsValue : String → UsageError
  | takesNoValue : String → UsageError
  | unknownOption : String → UsageError
  | unknownCommand : String → UsageError
  | missingCommand : UsageError
  | missingFile : UsageError
  | surplus : String → UsageError
  | badInteger : String → UsageError
  deriving DecidableEq

structure Given where
  options : List (String × String)
  others : List String

def Given.value? (given : Given) (long : String) : Option String :=
  (given.options.reverse.find? fun option => option.1 = long).map (·.2)

def Given.has (given : Given) (long : String) : Bool := (given.value? long).isSome

structure Letters where
  options : List (String × String)
  pending : Option Choice

def readLetters (choices : List Choice) : List Char → Except UsageError Letters
  | [] => .ok ⟨[], none⟩
  | letter :: letters =>
    match choices.find? fun choice => choice.short = some letter with
    | none => .error (.unknownOption (String.ofList ['-', letter]))
    | some choice =>
      if choice.takesValue then
        if letters.isEmpty then .ok ⟨[], some choice⟩
        else .ok ⟨[(choice.long, String.ofList letters)], none⟩
      else
        match readLetters choices letters with
        | .error e => .error e
        | .ok more => .ok { more with options := (choice.long, "") :: more.options }

def readOption (choices : List Choice) (arg : List Char) : Except UsageError Letters :=
  let name := arg.takeWhile (· ≠ '=')
  let joined := if name.length < arg.length then some (arg.drop (name.length + 1)) else none
  match choices.find? fun choice => choice.long = String.ofList name with
  | some choice =>
    match choice.takesValue, joined with
    | true, some value => .ok ⟨[(choice.long, String.ofList value)], none⟩
    | true, none => .ok ⟨[], some choice⟩
    | false, some _ => .error (.takesNoValue choice.long)
    | false, none => .ok ⟨[(choice.long, "")], none⟩
  | none =>
    if ['-', '-'].isPrefixOf arg then .error (.unknownOption (String.ofList name))
    else readLetters choices (arg.drop 1)

def shownName (choice : Choice) (arg : List Char) : String :=
  match choice.short with
  | some letter => if ['-', '-'].isPrefixOf arg then choice.long else String.ofList ['-', letter]
  | none => choice.long

/-- Splits arguments into options and others. Two hyphens end the options, and so does the first other
argument unless options may stand behind it. -/
def readArguments (choices : List Choice) (behind : Bool) : List String → Except UsageError Given
  | [] => .ok ⟨[], []⟩
  | arg :: args =>
    if arg = "--" then .ok ⟨[], args⟩
    else if arg.toList.head? = some '-' && arg ≠ "-" then
      match readOption choices arg.toList with
      | .error e => .error e
      | .ok ⟨options, none⟩ =>
        match readArguments choices behind args with
        | .error e => .error e
        | .ok given => .ok { given with options := options ++ given.options }
      | .ok ⟨options, some choice⟩ =>
        match args with
        | [] => .error (.needsValue (shownName choice arg.toList))
        | value :: args =>
          match readArguments choices behind args with
          | .error e => .error e
          | .ok given =>
            .ok { given with options := options ++ (choice.long, value) :: given.options }
    else if behind then
      match readArguments choices behind args with
      | .error e => .error e
      | .ok given => .ok { given with others := arg :: given.others }
    else .ok ⟨[], arg :: args⟩

structure CheckRequest where
  files : List String
  config : String
  format : String
  verbose : Bool
  deriving DecidableEq

structure DumpRequest where
  file : String
  format : String
  limit : Int
  verbose : Bool
  deriving DecidableEq

inductive Request where
  | version : Request
  | check : CheckRequest → Request
  | dump : DumpRequest → Request
  deriving DecidableEq

def settingsName : String := "rulegrammar.toml"

def versionChoice : Choice := ⟨"--version", some 'v', false⟩

def checkChoices : List Choice :=
  [⟨"--config", some 'c', true⟩, ⟨"--format", some 'f', true⟩, ⟨"--verbose", none, false⟩]

def dumpChoices : List Choice :=
  [⟨"--format", some 'f', true⟩, ⟨"--max-depth", none, true⟩, ⟨"--verbose", none, false⟩]

def readCheck (args : List String) : Except UsageError CheckRequest :=
  (readArguments checkChoices true args).map fun given =>
    ⟨given.others, (given.value? "--config").getD settingsName,
      (given.value? "--format").getD "human", given.has "--verbose"⟩

def readLimit (given : Given) (default : Int) : Except UsageError Int :=
  match given.value? "--max-depth" with
  | none => .ok default
  | some text =>
    match readInteger? text with
    | some limit => .ok limit
    | none => .error (.badInteger text)

def readDump (default : Int) (args : List String) : Except UsageError DumpRequest := do
  let given ← readArguments dumpChoices true args
  let limit ← readLimit given default
  match given.others with
  | [] => .error .missingFile
  | [file] => .ok ⟨file, (given.value? "--format").getD "text", limit, given.has "--verbose"⟩
  | _ :: extra :: _ => .error (.surplus extra)

/-- The request that a command line makes. Asking for the version comes before any command, also in place
of a command behind two hyphens. -/
def readRequest (limit : Int) (args : List String) : Except UsageError Request := do
  let given ← readArguments [versionChoice] false args
  if given.has "--version" then return .version
  match given.others with
  | [] => .error .missingCommand
  | "check" :: args => return .check (← readCheck args)
  | "dump" :: args => return .dump (← readDump limit args)
  | command :: args =>
    let again ← readArguments [versionChoice] false (command :: args)
    if again.has "--version" then return .version
    .error (.unknownCommand command)

end IndentedGrammar.Command

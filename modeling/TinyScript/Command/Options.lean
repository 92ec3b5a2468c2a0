import TinyScript.Text.Quoted
import TinyScript.Text.Similarity

/-!
# Command line arguments

`Options.ofArguments` reads the arguments of the command. An argument that starts with a hyphen is an option: a long name, with
its value behind an equals sign or in the next argument, or a bundle of short names, of which one with a value takes the rest
of the bundle or the next argument. All other arguments, and all behind a double hyphen, are positional.

`UsageFault.report` is what is said about arguments that make no sense.

Both are the work of the library of the command line, and the command has them from its `Console`.
-/

namespace TinyScript.Command

/-- The options of the command. -/
inductive Switch where
  | source
  | tokens
  | noTokens
  | ast
  | verbose
  | version
  | help
deriving DecidableEq, Repr

namespace Switch

/-- The long names, in the order of their declaration. -/
def longNames : List (String × Switch) :=
  [("--source", source), ("--tokens", tokens), ("--no-tokens", noTokens), ("--ast", ast), ("--verbose", verbose),
   ("--version", version), ("--help", help)]

/-- The option with a long name. -/
def ofLong? (name : String) : Option Switch := (longNames.find? (·.1 == name)).map (·.2)

/-- The option with a short name. -/
def ofShort? : Char → Option Switch
  | 's' => some source
  | 'v' => some verbose
  | _ => none

/-- The option takes a value. -/
def takesValue (s : Switch) : Bool := s == source

end Switch

/-- What the command says instead of doing its work. -/
inductive Notice where
  | version
  | help
deriving DecidableEq, Repr

/-- What the arguments ask for. -/
structure Options where
  source : Option String := none
  showTokens : Bool := true
  showTree : Bool := false
  verbose : Bool := false
  notice : Option Notice := none
  positional : List String := []
deriving DecidableEq, Repr

/-- What is wrong with the arguments. -/
inductive UsageFault where
  | noSuchOption (name : String) (similar : List String)
  | needsValue (name : String)
  | takesNoValue (name : String)
  | missingFile (path : String)
  | directory (path : String)
  | extraArguments (arguments : List String)
  | sourceTwice
deriving DecidableEq, Repr

namespace Options

/-- Sets an option that has no value. Of several notices the first one stands. -/
def set (o : Options) : Switch → Options
  | .source => o
  | .tokens => { o with showTokens := true }
  | .noTokens => { o with showTokens := false }
  | .ast => { o with showTree := true }
  | .verbose => { o with verbose := true }
  | .version => { o with notice := o.notice <|> some .version }
  | .help => { o with notice := o.notice <|> some .help }

/-- Sets the source text. The last one stands. -/
def setSource (o : Options) (text : String) : Options := { o with source := some text }

/-- Reads a bundle of short names. The second part of the result is the name of an option whose value is the next argument. -/
def bundle (o : Options) : List Char → Except UsageFault (Options × Option String)
  | [] => .ok (o, none)
  | c :: rest =>
    let name := String.ofList ['-', c]
    match Switch.ofShort? c with
    | none => .error (.noSuchOption name [])
    | some switch =>
      if switch.takesValue then
        if rest.isEmpty then .ok (o, some name) else .ok (o.setSource (String.ofList rest), none)
      else (o.set switch).bundle rest

/-- Divides an option at its first equals sign. -/
def splitValue (argument : List Char) : String × Option String :=
  match argument.dropWhile (· != '=') with
  | _ :: value => (String.ofList (argument.takeWhile (· != '=')), some (String.ofList value))
  | [] => (String.ofList argument, none)

/-- Reads one option. The second part of the result is the name of an option whose value is the next argument. -/
def option (o : Options) (argument : String) : Except UsageFault (Options × Option String) :=
  let (name, value) := splitValue argument.toList
  match Switch.ofLong? name with
  | some switch =>
    if switch.takesValue then
      match value with
      | some text => .ok (o.setSource text, none)
      | none => .ok (o, some name)
    else
      match value with
      | some _ => .error (.takesNoValue name)
      | none => .ok (o.set switch, none)
  | none =>
    if argument.startsWith "--" then
      .error (.noSuchOption name (Text.closeMatches name (Switch.longNames.map (·.1))))
    else o.bundle (argument.toList.drop 1)

/-- An argument that holds options: a hyphen and more. -/
def isOption (argument : String) : Bool := argument.startsWith "-" && argument != "-"

/-- Reads arguments on top of the options read before them. -/
def read (o : Options) : List String → Except UsageFault Options
  | [] => .ok o
  | argument :: rest =>
    if argument = "--" then .ok { o with positional := o.positional ++ rest }
    else if isOption argument then
      match o.option argument with
      | .error fault => .error fault
      | .ok (o, none) => o.read rest
      | .ok (o, some name) =>
        match rest with
        | [] => .error (.needsValue name)
        | text :: rest => (o.setSource text).read rest
    else { o with positional := o.positional ++ [argument] }.read rest

/-- Reads the arguments of the command. -/
def ofArguments (arguments : List String) : Except UsageFault Options := ({} : Options).read arguments

end Options

namespace UsageFault

/-- The fault in a sentence. -/
def message : UsageFault → String
  | noSuchOption name similar =>
    "No such option: " ++ name ++
      match similar.mergeSort (fun a b => a ≤ b) with
      | [] => ""
      | [one] => " Did you mean " ++ one ++ "?"
      | several => " (Possible options: " ++ ", ".intercalate several ++ ")"
  | needsValue name => "Option " ++ Text.quoted name ++ " requires an argument."
  | takesNoValue name => "Option " ++ Text.quoted name ++ " does not take a value."
  | missingFile path => "Invalid value for '[SOURCE_FILE]': File " ++ Text.quoted path ++ " does not exist."
  | directory path => "Invalid value for '[SOURCE_FILE]': File " ++ Text.quoted path ++ " is a directory."
  | extraArguments [one] => "Got unexpected extra argument (" ++ one ++ ")"
  | extraArguments several => "Got unexpected extra arguments (" ++ " ".intercalate several ++ ")"
  | sourceTwice => "Give either SOURCE_FILE or --source, not both."

/-- The fault is reported without saying how the command is used. -/
def isBrief : UsageFault → Bool
  | needsValue _ | takesNoValue _ => true
  | _ => false

/-- The lines about how the command is used. -/
def usage : String := "Usage: tinyscript [OPTIONS] [SOURCE_FILE]\n"

/-- The report on wrong arguments. -/
def report (fault : UsageFault) : String :=
  let error := "Error: " ++ fault.message ++ "\n"
  if fault.isBrief then error else usage ++ "Try 'tinyscript --help' for help.\n\n" ++ error

end UsageFault

end TinyScript.Command

import TinyScript.Command.Console
import TinyScript.Frontend
import TinyScript.Listing
import TinyScript.Tree.Outline

/-!
# The command

`runOn` is the command as a function: from its console, its arguments and what paths lead to, to what it prints and how it
ends. Without a file and without a source text it works on a demonstration program. `run` is the command on outputs that are no
terminals.
-/

namespace TinyScript.Command

/-- How the command ended: its exit code, its two outputs, and the failure it did not report itself. -/
structure Ending where
  exitCode : Nat
  stdout : String := ""
  stderr : String := ""
  unreported : Option Failure := none

/-- The demonstration program. -/
def demoSource : String :=
  "string myGreeting = \"Hello, world!\"; print(myGreeting); " ++
  "int myInt = 3; print(myInt); myInt = 4; print(myInt); " ++
  "bool myBool = true; print(myBool); " ++
  "if (myBool) \x7b print(myGreeting); \x7d"

/-- A text without the blanks and line ends at its end. -/
def trimmedEnd (text : String) : String := String.ofList (text.toList.reverse.dropWhile Char.isWhitespace).reverse

/-- The log line of a scan. -/
def scanLog (tokens : List Token) (name : String) : String :=
  "tinyscript.lexer.lexer: Scanned " ++ toString tokens.length ++ " tokens from " ++ name ++ "\n"

/-- The log line of a statement. -/
def statementLog (milestone : NodeKind × Int) : String :=
  "tinyscript.parser.parser: Parsed " ++ milestone.1.name ++ " starting at offset " ++ toString milestone.2 ++ "\n"

/-- The log line of a program. -/
def programLog (nodes : List Node) : String :=
  "tinyscript.parser.parser: Parsed " ++ toString nodes.length ++ " top-level nodes\n"

/-- The log lines of a parse. -/
def parseLog (slice : Slice) : String :=
  String.join (slice.milestones.map statementLog) ++
    match slice.parse with
    | .ok nodes => programLog nodes
    | .error _ => ""

/-- What the command works on: the text and the name of the source, or why there is none. -/
def chosenSource (look : String → Entry) (o : Options) : Except FileFault (String × String) :=
  match o.positional.head?, o.source with
  | some path, _ => (readSource look path).map (·, path)
  | none, some text => .ok (text, "<source>")
  | none, none => .ok (demoSource, "<demo>")

/-- The rules that hold between the options: the path is looked at first, then what is left over, then what excludes it. -/
def check (look : String → Entry) (o : Options) : Except UsageFault Unit :=
  match o.positional with
  | [] => .ok ()
  | path :: extra =>
    match look path with
    | .directory => .error (.directory path)
    | .missing | .throughFile | .tooLong => .error (.missingFile path)
    | .invalid => .ok ()
    | .file _ =>
      if !extra.isEmpty then .error (.extraArguments extra)
      else if o.source.isSome then .error .sourceTwice
      else .ok ()

/-- Works on a source: lists its tokens, parses them and prints the tree, as far as asked for. -/
def process (c : Console) (o : Options) (source name : String) : Ending :=
  match lexSource source name with
  | .error (.lexical error) => { exitCode := 1, stderr := c.err (trimmedEnd error.diagnostic.render) }
  | .error failure => { exitCode := 1, unreported := some failure }
  | .ok tokens =>
    let stdout := if o.showTokens then String.join ((listing tokens).map c.out) else ""
    let log (text : String) : String := if o.verbose then text else ""
    match Slice.ofTokens? tokens with
    | .error reason => { exitCode := 1, stdout, stderr := log (scanLog tokens name), unreported := some (.refused reason) }
    | .ok slice =>
      let stderr := log (scanLog tokens name ++ parseLog slice)
      match slice.parse with
      | .error error => { exitCode := 1, stdout, stderr := stderr ++ c.err (trimmedEnd error.diagnostic.render) }
      | .ok nodes =>
        { exitCode := 0, stdout := stdout ++ if o.showTree then c.out (outlineText nodes) else "", stderr }

/-- The command on a console, where `look` says what a path leads to. -/
def runOn (c : Console) (look : String → Entry) (arguments : List String) : Ending :=
  let rejected (fault : UsageFault) : Ending := { exitCode := 2, stderr := c.rejection fault }
  match c.options arguments with
  | .error fault => rejected fault
  | .ok o =>
    match o.notice with
    | some notice => { exitCode := 0, stdout := c.answer notice }
    | none =>
      match check look o with
      | .error fault => rejected fault
      | .ok _ =>
        match chosenSource look o with
        | .error fault => { exitCode := 1, unreported := some (.unreadable fault) }
        | .ok (source, name) => process c o source name

/-- The command on outputs that are no terminals. -/
def run (look : String → Entry) (arguments : List String) : Ending := runOn .piped look arguments

end TinyScript.Command

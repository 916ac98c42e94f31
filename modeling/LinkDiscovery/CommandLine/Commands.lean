import LinkDiscovery.CommandLine.Help
import LinkDiscovery.Configuration
import LinkDiscovery.Entity.Json
import LinkDiscovery.Execution.Engine
import LinkDiscovery.Json.Printer
import LinkDiscovery.Links.Selection
import LinkDiscovery.Plan.Canonical
import LinkDiscovery.Plan.Json
import LinkDiscovery.Specification.Comparison
import LinkDiscovery.Specification.Json
import LinkDiscovery.Specification.Printing
import LinkDiscovery.Specification.Reading
/-!
The subcommands. They read and write files through whatever they are given for it, so that they can
be carried out on a directory that is only a value.
-/

namespace LinkDiscovery.CommandLine

/-- Why a file cannot be read or written. -/
inductive FileFault where
  | notFound
  | notDirectory
  | isDirectory
  /-- The file does not hold text. -/
  | notText
  /-- The path holds the character NUL. -/
  | nulInPath
  /-- Another fault of the system, with its number. -/
  | other (text : String) (number : Nat)

def FileFault.message : FileFault → String
  | .notFound => "No such file or directory (os error 2)"
  | .notDirectory => "Not a directory (os error 20)"
  | .isDirectory => "Is a directory (os error 21)"
  | .notText => "stream did not contain valid UTF-8"
  | .nulInPath => "file name contained an unexpected NUL byte"
  | .other text number => s!"{text} (os error {number})"

/-- Reads and writes whole files by their paths. -/
structure Files (m : Type → Type) where
  read : String → m (Except FileFault String)
  write : String → String → m (Except FileFault Unit)

/-- Writes a file, unless there can be none with this path. -/
def Files.save {m : Type → Type} [Monad m] (files : Files m) (path text : String) :
    m (Except FileFault Unit) :=
  if path.toList.contains '\x00' then return .error .nulInPath else files.write path text

/-- What a run of the program leaves: its exit code, its output, and its remarks on it. -/
structure Report where
  code : Nat := 0
  output : String := ""
  remarks : String := ""

/-- A subcommand at work: it writes a report and may fail. -/
abbrev Session (m : Type → Type) := ExceptT Failure (StateT Report m)

variable {m : Type → Type} [Monad m]

def print (text : String) : Session m Unit :=
  modify fun r => { r with output := r.output ++ text }

def remark (text : String) : Session m Unit :=
  modify fun r => { r with remarks := r.remarks ++ text ++ "\n" }

/-- Fails while doing something, because of something else. -/
def failWhile {α : Type} (doing cause : String) : Session m α :=
  throw { text := doing, causes := [cause] }

/-- A text whose lines after the first are indented. -/
def indentLines (margin : String) (text : String) : String :=
  ("\n" ++ margin).intercalate (text.splitOn "\n")

/-- The causes of a failure; several are numbered. -/
def causeLines : List String → String
  | [cause] => "\n    " ++ indentLines "    " cause
  | causes =>
    String.join (causes.zipIdx.map fun (cause, n) =>
      let number := toString n
      let margin := String.ofList (List.replicate (5 - number.length) ' ')
      "\n" ++ margin ++ number ++ ": " ++ indentLines "       " cause)

/-- A failure as the program reports it. -/
def failureText (f : Failure) : String :=
  "Error: " ++ f.text ++
    (if f.causes.isEmpty then "" else "\n\nCaused by:" ++ causeLines f.causes) ++ "\n"

/-- Reads a specification from the command line. -/
def readSpecification (expression : String) (threshold : Float) : Session m Specification :=
  match Specification.parse expression threshold with
  | .ok s => return s
  | .error fault => failWhile s!"failed to parse specification `{expression}`" fault.message

/-- A specification with what can be said about it, as JSON. -/
def specificationJson (s : Specification) : Json :=
  .sortKeys (.object [
    ("expression", .string s.label.full), ("threshold", .ofFloat s.threshold),
    ("size", .ofNat s.size), ("digest", .string s.digest),
    ("redundant_properties", .bool s.isRedundant),
    ("leaves", .array (s.leafPaths.map fun (path, leaf) =>
      .object [("path", .string path),
        ("expression", (leaf.label.filter.map .string).getD .null),
        ("threshold", .ofFloat leaf.threshold)])),
    ("tree", s.toJson)])

/-- A specification with what can be said about it. -/
def specificationText (s : Specification) : String :=
  s!"{s.display}\ncanonical: {s.label.full}\nsize: {s.size}\ndigest: {s.digest}\n" ++
    String.join (s.leafPaths.map fun (path, leaf) =>
      s!"  {leaf.short.getD leaf.label.full} {path}\n")

/-- Shows how an expression is understood. -/
def showSpecification (expression : String) (threshold : Float) (json : Bool) :
    Session m Unit := do
  let s ← readSpecification expression threshold
  if json then print ((specificationJson s).pretty ++ "\n")
  else
    print (specificationText s)
    if s.isRedundant then remark "info: two leaves compare the same property pair"

/-- Shows the plan of an expression. -/
def showPlan (expression : String) (threshold : Float) (json : Bool) : Session m Unit := do
  let s ← readSpecification expression threshold
  let p := s.plan
  if json then print (p.tree.toJson.pretty ++ "\n")
  else
    print (p.summary ++ if p.isAtomic then "\n" else "")
    let measures := ", ".intercalate p.measures
    remark s!"ok {p.size} instructions, measures: {measures}"

/-- What a file holds, read as JSON. -/
def readFile {α : Type} (files : Files m) (decode : Json.Decoder α) (doing path : String) :
    Session m α := do
  match ← files.read path with
  | .error fault => failWhile s!"{doing} {path}" fault.message
  | .ok text =>
    match Json.decode? decode text with
    | some value => return value
    | none => failWhile s!"{doing} {path}" "the text is not the JSON of what is wanted"

/-- Prints links, or writes them to a file. -/
def emit (files : Files m) (kind : String) (links : Links) (path : Option String) :
    Session m Unit := do
  match path with
  | none => print s!"# {kind} ({links.size} links)\n{links.pairsText}"
  | some path =>
    match ← files.save path links.pairsText with
    | .ok _ => remark s!"wrote {links.size} {kind} links to {path}"
    | .error fault => failWhile s!"failed to write {path}" fault.message

/-- Links two collections as a configuration says. Links below the threshold of review are not
looked for. -/
def link (files : Files m) (configuration source target : String) : Session m Unit := do
  let doing := "failed to load run configuration"
  let c ← readFile files Configuration.ofJson? doing configuration
  if let some fault := c.fault? then failWhile s!"{doing} {configuration}" fault.message
  let source ← readFile files Collection.ofListJson? "failed to load source instances" source
  let target ← readFile files Collection.ofListJson? "failed to load target instances" target
  let s ←
    match Specification.parse c.metric c.verification with
    | .ok s => pure s
    | .error fault => failWhile s!"failed to parse metric `{c.metric}`" fault.message
  let engine := Engine.standard
    { source, target, sourceVar := c.source.var, targetVar := c.target.var }
  match engine.executeNested s.plan with
  | .error fault => throw fault.failure
  | .ok execution =>
    for warning in execution.warnings do
      remark s!"warning: {warning.text}"
    let (accepted, review) := execution.links.split c.acceptance c.verification
    emit files "accepted" accepted c.acceptanceFile
    emit files "review" review c.verificationFile

/-- Carries a session through to its report. -/
def Session.report (session : Session m Unit) : m Report := do
  match ← session.run {} with
  | (.ok _, report) => return report
  | (.error failure, report) =>
    return { report with code := 1, remarks := report.remarks ++ failureText failure }

/-- Does what is asked for. -/
def perform (files : Files m) : Request → m Report
  | .help topic => return { output := topic.text }
  | .version => return { output := versionText }
  | .parse expression threshold json => (showSpecification expression threshold json).report
  | .plan expression threshold json => (showPlan expression threshold json).report
  | .run configuration source target => (link files configuration source target).report
  | .misuse => return { code := 2 }

end LinkDiscovery.CommandLine

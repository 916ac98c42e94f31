import LinkDiscovery.Decimal.Numeral
/-!
The arguments of the command line. Options may stand before, between and after the other arguments;
after a double dash everything is an argument. The first argument that asks for help or that cannot
be used decides.
-/

namespace LinkDiscovery.CommandLine

/-- What the program can do. -/
inductive Subcommand where
  | parse
  | plan
  | run
  deriving DecidableEq

/-- What help can be about. -/
inductive Topic where
  | program
  | subcommand (s : Subcommand)
  | help

/-- What is asked for. -/
inductive Request where
  | help (topic : Topic)
  | version
  | parse (expression : String) (threshold : Float) (json : Bool)
  | plan (expression : String) (threshold : Float) (json : Bool)
  | run (configuration source target : String)
  /-- The arguments make no sense together. -/
  | misuse

/-- An option: its long and its short name, whether a value follows, and whether it may be given
several times. -/
structure Flag where
  long : String
  short : Option Char := none
  takesValue : Bool := false
  repeatable : Bool := false

def verbose : Flag := { long := "verbose", short := some 'v', repeatable := true }

def help : Flag := { long := "help", short := some 'h' }

def version : Flag := { long := "version", short := some 'V' }

/-- The options before the subcommand. -/
def mainFlags : List Flag :=
  [verbose, help, version]

/-- The options of a subcommand. -/
def Subcommand.flags : Subcommand → List Flag
  | .parse | .plan =>
    [{ long := "threshold", short := some 't', takesValue := true }, { long := "json" },
      verbose, help]
  | .run =>
    [{ long := "source", takesValue := true }, { long := "target", takesValue := true },
      verbose, help]

def Subcommand.text : Subcommand → String
  | .parse => "parse"
  | .plan => "plan"
  | .run => "run"

/-- Says whether the one argument that is no option names a file. -/
def Subcommand.operandIsPath : Subcommand → Bool
  | .parse | .plan => false
  | .run => true

def Subcommand.ofText? (word : String) : Option Subcommand :=
  [Subcommand.parse, .plan, .run].find? fun s => s.text == word

/-- What has been given so far. -/
structure Given where
  /-- Options with their values, last first. -/
  options : List (String × String) := []
  /-- The argument that is no option. -/
  operand : Option String := none
  /-- An option whose value has yet to come. -/
  pending : Option Flag := none

/-- Why reading stops before the last argument. -/
inductive Stop where
  | help
  | version
  | misuse

namespace Given

def value? (g : Given) (long : String) : Option String :=
  g.options.lookup long

/-- Adds an option. A threshold is a number, a path is not empty, and most options are given at most
once. -/
def setOption (g : Given) (flag : Flag) (value : String) : Except Stop Given :=
  if flag.long = "help" then .error .help
  else if flag.long = "version" then .error .version
  else if !flag.repeatable && (g.value? flag.long).isSome then .error .misuse
  else if flag.long = "threshold" && (Decimal.ofText? value).isNone then .error .misuse
  else if flag.takesValue && value.isEmpty then .error .misuse
  else .ok { g with options := (flag.long, value) :: g.options }

/-- Adds an argument that is no option. There is only one. -/
def setOperand (s : Subcommand) (g : Given) (operand : String) : Except Stop Given :=
  if g.operand.isSome || (s.operandIsPath && operand.isEmpty) then .error .misuse
  else .ok { g with operand := some operand }

end Given

/-- How an argument that looks like an option ends. -/
inductive Ending where
  | complete
  /-- The value of this option is the next argument. -/
  | pending (flag : Flag)
  /-- What stands at the end is no option, or not used as one can be. -/
  | unknown

/-- What an argument that looks like an option says: the options it sets, and how it ends. -/
structure Cluster where
  settings : List (Flag × String) := []
  ending : Ending := .complete

/-- Reads short options that share a dash. The first one that takes a value takes the rest. -/
def shortCluster (flags : List Flag) : List Char → Cluster
  | [] => {}
  | c :: rest =>
    match flags.find? (·.short = some c) with
    | none => { ending := .unknown }
    | some flag =>
      if flag.takesValue then
        match rest with
        | [] => { ending := .pending flag }
        | '=' :: value => { settings := [(flag, String.ofList value)] }
        | value => { settings := [(flag, String.ofList value)] }
      else
        let others := shortCluster flags rest
        { others with settings := (flag, "") :: others.settings }

/-- Reads a long option, with its value after an equals sign if there is one. -/
def longOption (flags : List Flag) (text : List Char) : Cluster :=
  let name := String.ofList (text.takeWhile (· ≠ '='))
  match flags.find? (·.long = name), text.dropWhile (· ≠ '=') with
  | some flag, [] =>
    if flag.takesValue then { ending := .pending flag } else { settings := [(flag, "")] }
  | some flag, _ :: value =>
    if flag.takesValue then { settings := [(flag, String.ofList value)] }
    else { ending := .unknown }
  | none, _ => { ending := .unknown }

/-- An argument: an option or a cluster of options, or anything else. A dash alone is no option. -/
inductive Shape where
  | escape
  | options (cluster : Cluster)
  | plain

def Shape.of (flags : List Flag) (argument : String) : Shape :=
  match argument.toList with
  | ['-', '-'] => .escape
  | '-' :: '-' :: rest => .options (longOption flags rest)
  | '-' :: c :: rest => .options (shortCluster flags (c :: rest))
  | _ => .plain

/-- Sets the options of a cluster in their order. -/
def Given.setCluster (g : Given) (cluster : Cluster) : Except Stop Given := do
  let g ← cluster.settings.foldlM (fun g (flag, value) => g.setOption flag value) g
  match cluster.ending with
  | .complete => return g
  | .pending flag => return { g with pending := some flag }
  | .unknown => throw .misuse

/-- Reads the arguments of a subcommand. The value of an option may follow it as an argument of its
own, which then does not look like an option. -/
def Subcommand.scan (s : Subcommand) (g : Given) : List String → Except Stop Given
  | [] => if g.pending.isSome then .error .misuse else .ok g
  | argument :: rest =>
    match g.pending, Shape.of s.flags argument with
    | some flag, .plain =>
      match { g with pending := none }.setOption flag argument with
      | .ok g => s.scan g rest
      | .error stop => .error stop
    | some _, _ => .error .misuse
    | none, .plain =>
      match g.setOperand s argument with
      | .ok g => s.scan g rest
      | .error stop => .error stop
    | none, .escape => rest.foldlM (·.setOperand s ·) g
    | none, .options cluster =>
      match g.setCluster cluster with
      | .ok g => s.scan g rest
      | .error stop => .error stop

/-- What a subcommand is asked to do. -/
def Subcommand.request (s : Subcommand) (g : Given) : Request :=
  let threshold := ((g.value? "threshold").bind Decimal.ofText?).getD 1
  let json := (g.value? "json").isSome
  match s, g.operand with
  | _, none => .misuse
  | .parse, some expression => .parse expression threshold json
  | .plan, some expression => .plan expression threshold json
  | .run, some configuration =>
    match g.value? "source", g.value? "target" with
    | some source, some target => .run configuration source target
    | _, _ => .misuse

/-- Reads the arguments after the name of a subcommand. -/
def Subcommand.read (s : Subcommand) (arguments : List String) : Request :=
  match s.scan {} arguments with
  | .ok g => s.request g
  | .error .help => .help (.subcommand s)
  | .error _ => .misuse

/-- Reads what follows the word that asks for help. -/
def Topic.read : List String → Request
  | [] => .help .program
  | [name] =>
    if name = "help" then .help .help
    else
      match Subcommand.ofText? name with
      | some s => .help (.subcommand s)
      | none => .misuse
  | _ => .misuse

/-- Reads all arguments: options, the name of a subcommand, and what belongs to it. -/
def Request.read : List String → Request
  | [] => .misuse
  | argument :: rest =>
    match Shape.of mainFlags argument with
    | .escape => .misuse
    | .options cluster =>
      match ({} : Given).setCluster cluster with
      | .ok _ => read rest
      | .error .help => .help .program
      | .error .version => .version
      | .error .misuse => .misuse
    | .plain =>
      if argument = "help" then Topic.read rest
      else
        match Subcommand.ofText? argument with
        | some s => s.read rest
        | none => .misuse

end LinkDiscovery.CommandLine

/-!
# LinkBridge.Cli.Options

The command line. Every option is given at most once. An option with a value takes it from behind an
equals sign or from the next argument, and a one-letter option also from the rest of its own
argument; a value that is an argument of its own does not start with a hyphen, unless it is a
hyphen alone. There are no positional arguments.
-/

namespace LinkBridge.Cli

/-- What the command line asks for. -/
structure Options where
  /-- Configuration file. -/
  config : Option String := none
  /-- File with a host byte stream. -/
  file : Option String := none
  /-- Run the built-in exchange. -/
  demo : Bool := false
  /-- Tick limit that replaces the configured one. -/
  ticks : Option Nat := none
  /-- Run the two clock domains side by side. -/
  threaded : Bool := false
  /-- Run the link alone. -/
  loopback : Bool := false
  /-- Write the counters as JSON. -/
  statsJson : Bool := false
  deriving DecidableEq, Inhabited

/-- What to do with a command line. -/
inductive Command where
  | run (options : Options)
  | help
  | version
  | refused
  deriving DecidableEq, Inhabited

namespace Options

/-- The configuration file that is read. -/
def configPath (o : Options) : String :=
  o.config.getD "configs/default.toml"

/-- Options that take a value. -/
inductive Key where
  | config
  | file
  | ticks
  deriving DecidableEq, Inhabited

/-- Options that take none. -/
inductive Flag where
  | demo
  | threaded
  | loopback
  | statsJson
  | help
  | version
  deriving DecidableEq, Inhabited

/-- The option behind two hyphens. -/
def longOption? : String → Option (Key ⊕ Flag)
  | "config" => some (.inl .config)
  | "file" => some (.inl .file)
  | "ticks" => some (.inl .ticks)
  | "demo" => some (.inr .demo)
  | "threaded" => some (.inr .threaded)
  | "loopback" => some (.inr .loopback)
  | "stats-json" => some (.inr .statsJson)
  | "help" => some (.inr .help)
  | "version" => some (.inr .version)
  | _ => none

/-- The option behind one hyphen. -/
def shortOption? : Char → Option (Key ⊕ Flag)
  | 'c' => some (.inl .config)
  | 'f' => some (.inl .file)
  | 'h' => some (.inr .help)
  | 'V' => some (.inr .version)
  | _ => none

/-- A decimal number below `2 ^ 64`, with at most one plus sign in front. -/
def number? (text : String) : Option Nat :=
  let digits := match text.toList with
    | '+' :: rest => rest
    | cs => cs
  if digits.isEmpty || !digits.all Char.isDigit then none
  else
    let n := digits.foldl (fun n d => n * 10 + (d.toNat - '0'.toNat)) 0
    if n < UInt64.size then some n else none

/-- Sets an option that takes a value, unless it was set before. -/
def setKey (o : Options) (key : Key) (value : String) : Option Options :=
  match key with
  | .config => if o.config.isNone then some { o with config := some value } else none
  | .file => if o.file.isNone then some { o with file := some value } else none
  | .ticks =>
    if o.ticks.isNone then (number? value).map fun n => { o with ticks := some n } else none

/-- Sets an option that takes no value, unless it was set before; the ones that end the reading of
the command line give a command. -/
def setFlag (o : Options) : Flag → Command ⊕ Options
  | .demo => if o.demo then .inl .refused else .inr { o with demo := true }
  | .threaded => if o.threaded then .inl .refused else .inr { o with threaded := true }
  | .loopback => if o.loopback then .inl .refused else .inr { o with loopback := true }
  | .statsJson => if o.statsJson then .inl .refused else .inr { o with statsJson := true }
  | .help => .inl .help
  | .version => .inl .version

/-- Whether an argument can be the value of the option in front of it. -/
def isValue (argument : String) : Bool :=
  !argument.startsWith "-" || argument == "-"

/-- The value joined to a one-letter option, with or without an equals sign. -/
def joinedValue? : List Char → Option String
  | [] => none
  | '=' :: rest => some (String.ofList rest)
  | rest => some (String.ofList rest)

/-- Splits at the first equals sign. -/
def splitEquals (cs : List Char) : String × Option String :=
  match cs.dropWhile (· ≠ '=') with
  | [] => (String.ofList cs, none)
  | _ :: value => (String.ofList (cs.takeWhile (· ≠ '=')), some (String.ofList value))

/-- The option an argument names, with the value joined to it. -/
def option? (argument : String) : Option ((Key ⊕ Flag) × Option String) :=
  match argument.toList with
  | '-' :: '-' :: rest =>
    let (name, value) := splitEquals rest
    (longOption? name).map fun option => (option, value)
  | '-' :: letter :: rest =>
    (shortOption? letter).map fun option =>
      match option with
      | .inl _ => (option, joinedValue? rest)
      | .inr _ => (option, none)
  | _ => none

/-- Reads the arguments one after the other. -/
def read (o : Options) : List String → Command
  | [] => .run o
  | argument :: rest =>
    if argument = "--" then (if rest.isEmpty then .run o else .refused)
    else
      match option? argument, rest with
      | none, _ => .refused
      | some (.inr _, some _), _ => .refused
      | some (.inr flag, none), rest =>
        match o.setFlag flag with
        | .inl command => command
        | .inr o => o.read rest
      | some (.inl key, some value), rest =>
        match o.setKey key value with
        | none => .refused
        | some o => o.read rest
      | some (.inl _, none), [] => .refused
      | some (.inl key, none), value :: rest =>
        if isValue value then
          match o.setKey key value with
          | none => .refused
          | some o => o.read rest
        else .refused

end Options

/-- What a command line asks for. -/
def Command.ofArguments (arguments : List String) : Command :=
  ({} : Options).read arguments

end LinkBridge.Cli

import LinkBridge.Cli.Options
import LinkBridge.Cli.Report
import LinkBridge.Config.OfToml
import LinkBridge.System.Loopback

/-!
# LinkBridge.Cli.Session

What the program does for a command line: it reads the configuration, runs the traffic asked for and
reports. A session is a function of the arguments and of the files it may read; the files it reads
are those in `Command.paths`.
-/

namespace LinkBridge.Cli

/-- What a session leaves behind. -/
structure Outcome where
  /-- Exit status. -/
  status : Nat := 0
  /-- Lines for standard output. -/
  output : List String := []
  /-- Lines for standard error. -/
  errors : List String := []
  deriving DecidableEq, Inhabited

/-- The files a session can see, by path. -/
abbrev Files := String → Option ByteArray

/-- The files that a command reads if it gets that far. -/
def Command.paths : Command → List String
  | .run options => options.configPath :: options.file.toList
  | _ => []

/-- A session that breaks off behind the given output. -/
def Outcome.fatal (output : List String) (e : Error) : Outcome :=
  { status := 1, output, errors := ["", s!"[!] FATAL: {e.message}"] }

namespace Session

/-! ## Input -/

/-- The settings in a file. -/
def loadConfig (files : Files) (path : String) : Except Error Config :=
  match (files path).bind String.fromUTF8? with
  | none => .error .unreadableFile
  | some text => Config.ofToml text

/-- The host byte stream in a file, as words. -/
def loadWords (files : Files) (path : String) : Except Error (List Word) :=
  match files path with
  | none => .error .unreadableFile
  | some bytes => .ok (Word.unpack bytes.toList)

/-! ## Runs -/

/-- What every complete run of the bridge ends with. -/
def closing (b : Bridge) (json : Bool) : List String :=
  endpointLines b.core.endpoint ++ reportLines b.counters json

/-- Runs the built-in exchange. -/
def runDemo (o : Options) (c : Config) (b : Bridge) (maxTicks : Nat) : Outcome :=
  let head := settingsLines c maxTicks ++ ["[*] Demo Mode"]
  match Demo.run c b maxTicks with
  | (.ok replies, b) =>
    { output := head ++ replies.flatMap replyLines ++ closing b o.statsJson }
  | (.error _, b) =>
    { status := 1, output := head ++ reportLines b.counters o.statsJson }

/-- Sends a host byte stream through the bridge. -/
def runFile (files : Files) (o : Options) (path : String) (c : Config) (b : Bridge)
    (maxTicks : Nat) : Outcome :=
  let head := settingsLines c maxTicks ++ ["[*] Stream Mode"]
  match loadWords files path with
  | .error e => .fatal head e
  | .ok words =>
    let b :=
      if o.threaded then (b.modifyHost (·.writeWords words)).runDomains maxTicks
      else (b.runStream words maxTicks).2
    let replies := Reply.ofWords c.core.ports b.host.sentWords
    { output := head ++ replies.flatMap replyLines ++ closing b o.statsJson }

/-- Sends words through the link alone and compares what comes back. -/
def runLoopback (files : Files) (o : Options) (c : Config) (maxTicks : Nat) : Outcome :=
  let head := settingsLines c maxTicks ++ ["[*] Loopback Mode"]
  let words := match o.file with
    | some path => loadWords files path
    | none => .ok ((List.range 64).map UInt32.ofNat)
  match words with
  | .error e => .fatal head e
  | .ok words =>
    let l := Loopback.ofConfig c
    let accepted := l.host.accepted words.length
    let (_, l) := { l with host := l.host.writeWords words }.runUntilIdle maxTicks
    let echoed := l.host.sentWords
    let verdict := if echoed = words.take accepted then "match" else "MISMATCH"
    { output := head
        ++ [s!"[*] Echoed {echoed.length} of {accepted} words ({verdict})"]
        ++ reportLines l.counters o.statsJson }

/-- Runs what the options ask for. -/
def run (files : Files) (o : Options) : Outcome :=
  match loadConfig files o.configPath with
  | .error e => .fatal [] e
  | .ok c =>
    let maxTicks := o.ticks.getD c.general.maxTicks
    if o.loopback then runLoopback files o c maxTicks
    else
      match Bridge.ofConfig c with
      | .error e => .fatal (settingsLines c maxTicks) e
      | .ok b =>
        if o.demo then runDemo o c b maxTicks
        else
          match o.file with
          | some path => runFile files o path c b maxTicks
          | none => { status := 1, output := settingsLines c maxTicks, errors := trafficHelp }

end Session

/-- What the program does for a command line. -/
def Command.perform (files : Files) : Command → Outcome
  | .run options => Session.run files options
  | .help => { output := optionHelp }
  | .version => { output := [versionText] }
  | .refused => { status := 2, errors := ["error: the arguments are not understood"] ++ optionHelp }

end LinkBridge.Cli

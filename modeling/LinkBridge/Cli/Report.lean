import LinkBridge.System.Demo
import LinkBridge.Text.Decimal

/-!
# LinkBridge.Cli.Report

The texts the command line prints, line by line: the settings of a run, the frames the host
received, what reached the endpoint, and the counters as a table or as JSON.
-/

namespace LinkBridge.Cli

/-! ## Values -/

/-- A truth value. -/
def truthText (b : Bool) : String :=
  if b then "true" else "false"

/-- A list between brackets. -/
def bracketed (items : List String) : String :=
  "[" ++ ", ".intercalate items ++ "]"

/-- Words as eight digits each. -/
def wordList (words : List Word) : String :=
  bracketed (words.map fun w => Text.hexDigits 8 w.toNat)

/-- A named group of fields. -/
def fieldGroup (name : String) (fields : List (String × String)) : String :=
  name ++ " \x7b " ++ ", ".intercalate (fields.map fun (k, v) => k ++ ": " ++ v) ++ " \x7d"

/-- The fields of a request. -/
def requestText (r : Tlp.Request) : String :=
  fieldGroup "RequestHeader"
    [("length", toString r.length.toNat), ("requester_id", toString r.requester.toNat),
      ("tag", toString r.tag.toNat), ("first_be", toString r.firstEnable.toNat),
      ("last_be", toString r.lastEnable.toNat), ("address", toString r.address.toNat)]

/-- The fields of a completion. -/
def completionText (c : Tlp.Completion) : String :=
  fieldGroup "CompletionHeader"
    [("length", toString c.length.toNat), ("completer_id", toString c.completer.toNat),
      ("status", toString c.status.toNat), ("bcm", truthText c.bcm),
      ("byte_count", toString c.byteCount.toNat), ("requester_id", toString c.requester.toNat),
      ("tag", toString c.tag.toNat), ("lower_address", toString c.lowerAddress.toNat)]

/-- The kind and the fields of a header. -/
def headerText : Tlp.Header → String
  | .memRead r => s!"MemRead32({requestText r})"
  | .memWrite r => s!"MemWrite32({requestText r})"
  | .completion c => s!"Completion({completionText c})"
  | .completionWithData c => s!"CompletionWithData({completionText c})"

/-- A TLP. -/
def tlpText (r : Tlp.Record) : String :=
  s!"{r.header.name} {headerText r.header} data={wordList r.data}"

/-! ## Frames and the endpoint -/

/-- The values an Etherbone record writes, each with the address it is for. -/
def recordLines (r : Etherbone.Record) : List String :=
  r.writes.words.zipIdx.map fun (w, i) =>
    s!"[Etherbone] {Text.hex w.toNat 8} -> {Text.hex (r.writes.base.toNat + 4 * i) 8}"

/-- A frame the host received. -/
def replyLines : Reply → List String
  | .etherbone packet => packet.records.flatMap recordLines
  | .tlp record => [s!"[TLP] {tlpText record}"]
  | .raw packet => [s!"[Raw] dst={Text.hex packet.dst.toNat} payload={wordList packet.payload}"]

/-- What reached the endpoint. -/
def endpointLines (e : Tlp.Endpoint) : List String :=
  e.received.map (fun r => s!"[Endpoint] {tlpText r}") ++
    if e.vectors.isEmpty then []
    else ["[Endpoint] MSI vectors: " ++ bracketed (e.vectors.map fun v => toString v.toNat)]

/-! ## Settings -/

/-- The settings of a run with the tick limit in force. -/
def settingsLines (c : Config) (maxTicks : Nat) : List String :=
  ["Global Configuration",
    "--------------------",
    "General:",
    s!"  Trace:              {truthText c.general.trace}",
    s!"  Max Ticks:          {maxTicks}",
    s!"  Clock Ratio:        {c.general.clockRatio}",
    "Link:",
    s!"  FIFO Depth:         {c.link.fifoDepth}",
    s!"  Read Time:          {c.link.readTime}",
    s!"  Write Time:         {c.link.writeTime}",
    "Core:",
    s!"  Timeout:            {c.core.frameTimeout}",
    s!"  Max Payload:        {c.core.maxPayloadWords} words",
    s!"  Ports:              etherbone={c.core.ports.etherbone.toNat} tlp={c.core.ports.tlp.toNat}",
    "--------------------"]

/-! ## Counters -/

/-- Words per link tick in percent, with two places. -/
def utilization (c : Counters) : String :=
  let words := Float.ofNat (c.linkWordsIn + c.linkWordsOut)
  let ticks := Float.ofNat (max c.linkTicks 1)
  Text.fixed 2 (words / ticks * 100.0)

/-- The counters as a table. -/
def counterLines (c : Counters) : List String :=
  let double := "=========================================================="
  let single := "----------------------------------------------------------"
  ["", double, "USB / PCIE BRIDGE SIMULATION STATISTICS", double,
    s!"sim_link_ticks           {c.linkTicks}",
    s!"sim_system_ticks         {c.systemTicks}",
    single, "LINK",
    s!"  words.in               {c.linkWordsIn}",
    s!"  words.out              {c.linkWordsOut}",
    s!"  bus.utilization        {utilization c}%",
    s!"  bus.turnarounds        {c.busTurnarounds}",
    s!"  dwell.receive_max      {c.receiveDwellMax}",
    s!"  dwell.transmit_max     {c.transmitDwellMax}",
    single, "FRAMING",
    s!"  packets.framed         {c.packetsFramed}",
    s!"  packets.deframed       {c.packetsDeframed}",
    s!"  resync.words_dropped   {c.resyncWordsDropped}",
    s!"  timeouts               {c.frameTimeouts}",
    s!"  oversize               {c.oversizePackets}",
    single, "CROSSBAR",
    s!"  packets.routed         {c.packetsRouted}",
    s!"  packets.unrouted       {c.packetsUnrouted}",
    s!"  packets.arbitrated     {c.packetsArbitrated}",
    single, "TLP",
    s!"  beats.in               {c.tlpBeatsIn}",
    s!"  beats.out              {c.tlpBeatsOut}",
    s!"  packets.sent           {c.tlpPacketsSent}",
    s!"  packets.received       {c.tlpPacketsReceived}",
    s!"  overflows              {c.tlpOverflows}",
    s!"  malformed              {c.tlpMalformed}",
    single, "ETHERBONE / WISHBONE",
    s!"  writes                 {c.etherboneWrites}",
    s!"  reads                  {c.etherboneReads}",
    s!"  malformed              {c.etherboneMalformed}",
    s!"  unmapped               {c.wishboneUnmapped}",
    s!"  msi.sent               {c.msiSent}",
    double]

/-- The counters as a JSON object, one member a line. -/
def counterJson (c : Counters) : String :=
  let members := c.entries.map fun (name, n) => s!"  \"{name}\": {n}"
  "\x7b\n" ++ ",\n".intercalate members ++ "\n\x7d"

/-- The counters in the form asked for. -/
def reportLines (c : Counters) (json : Bool) : List String :=
  if json then [counterJson c] else counterLines c

/-! ## Help -/

/-- What to do when no traffic was asked for. -/
def trafficHelp : List String :=
  ["Error: No traffic specified.",
    "Usage:",
    "  Stream mode:    --file <stream.bin> [--threaded]",
    "  Demo mode:      --demo",
    "  Loopback mode:  --loopback --file <stream.bin>"]

/-- The name and version of the program. -/
def versionText : String :=
  "pcie-injector 0.3.0"

/-- The options of the program. -/
def optionHelp : List String :=
  ["USB FIFO / PCIe TLP Bridge Simulator",
    "",
    "Usage: pcie-injector [OPTIONS]",
    "",
    "Options:",
    "  -c, --config <CONFIG>  [default: configs/default.toml]",
    "  -f, --file <FILE>      Raw host byte stream to inject into the link",
    "      --demo             Run the built-in Etherbone and TLP exchange",
    "      --ticks <TICKS>    Tick limit, overriding `general.max_ticks`",
    "      --threaded         Run the link domain on its own thread",
    "      --loopback         Run the PHY loopback design instead of the full bridge",
    "      --stats-json       Print the statistics as JSON instead of the text report",
    "  -h, --help             Print help",
    "  -V, --version          Print version"]

end LinkBridge.Cli

import LinkBridge.Config.Check
import LinkBridge.Toml.Document

/-!
# LinkBridge.Config.OfToml

Settings read from a TOML document. Every group of settings is a table, or an array with its
settings in order; what is not mentioned keeps its default, and what is not known is skipped. A
setting of the wrong type or out of its range spoils the whole document.
-/

namespace LinkBridge.Config

open LinkBridge.Toml (Value Entries)

/-- The members of a group, by name and by position. -/
structure Group where
  find : String → Nat → Option Value

namespace Group

/-- The group a value stands for. A date stands for one without members. -/
def ofValue? : Value → Option Group
  | .table _ entries => some ⟨fun name _ => Entries.get? entries name⟩
  | .array items => some ⟨fun _ i => items[i]?⟩
  | .tables items => some ⟨fun _ i => items[i]?.map (.table .heading)⟩
  | .datetime _ => some ⟨fun _ _ => none⟩
  | _ => none

/-- Reads a member; a missing one has its default, and one of the wrong type fails. -/
def read {α : Type} (g : Group) (name : String) (i : Nat) (type : Value → Option α)
    (default : α) : Option α :=
  match g.find name i with
  | none => some default
  | some v => type v

end Group

/-! ## Types of settings -/

/-- A truth value. -/
def boolean? : Value → Option Bool
  | .boolean b => some b
  | _ => none

/-- A text. -/
def string? : Value → Option String
  | .string s => some s
  | _ => none

/-- A natural number below `2 ^ bits`. -/
def natural? (bits : Nat) : Value → Option Nat
  | .integer n => if 0 ≤ n ∧ n.toNat < 1 <<< bits then some n.toNat else none
  | _ => none

/-! ## Groups of settings -/

/-- Settings of a whole run. -/
def General.ofValue? (v : Value) : Option General := do
  let g ← Group.ofValue? v
  let d : General := {}
  return {
    trace := ← g.read "trace" 0 boolean? d.trace
    maxTicks := ← g.read "max_ticks" 1 (natural? 64) d.maxTicks
    clockRatio := ← g.read "system_ticks_per_link_tick" 2 (natural? 32) d.clockRatio }

/-- Settings of the link. -/
def Link.ofValue? (v : Value) : Option Link := do
  let g ← Group.ofValue? v
  let d : Link := {}
  return {
    fifoDepth := ← g.read "fifo_depth" 0 (natural? 64) d.fifoDepth
    readTime := ← g.read "read_time" 1 (natural? 32) d.readTime
    writeTime := ← g.read "write_time" 2 (natural? 32) d.writeTime
    hostBufferWords := ← g.read "host_buffer_words" 3 (natural? 64) d.hostBufferWords }

/-- Destination tags. -/
def Ports.ofValue? (v : Value) : Option Ports := do
  let g ← Group.ofValue? v
  let d : Ports := {}
  let tag (v : Value) : Option UInt8 := (natural? 8 v).map UInt8.ofNat
  return {
    etherbone := ← g.read "etherbone" 0 tag d.etherbone
    tlp := ← g.read "tlp" 1 tag d.tlp }

/-- Settings of the packet core. -/
def Core.ofValue? (v : Value) : Option Core := do
  let g ← Group.ofValue? v
  let d : Core := {}
  return {
    frameTimeout := ← g.read "depacketizer_timeout" 0 (natural? 32) d.frameTimeout
    maxPayloadWords := ← g.read "max_payload_words" 1 (natural? 32) d.maxPayloadWords
    streamDepth := ← g.read "stream_depth" 2 (natural? 64) d.streamDepth
    ports := ← g.read "ports" 3 Ports.ofValue? d.ports }

/-- Settings of the TLP path. -/
def Tlp.ofValue? (v : Value) : Option Tlp := do
  let g ← Group.ofValue? v
  let d : Tlp := {}
  return {
    fifoDepth := ← g.read "fifo_depth" 0 (natural? 64) d.fifoDepth
    autoComplete := ← g.read "auto_complete" 1 boolean? d.autoComplete
    completerId :=
      ← g.read "completer_id" 2 (fun v => (natural? 16 v).map UInt16.ofNat) d.completerId }

/-- Settings of the Etherbone path. -/
def Etherbone.ofValue? (v : Value) : Option Etherbone := do
  let g ← Group.ofValue? v
  let d : Etherbone := {}
  return {
    sramBase := ← g.read "sram_base" 0 string? d.sramBase
    sramSize := ← g.read "sram_size" 1 string? d.sramSize
    msiBase := ← g.read "msi_base" 2 string? d.msiBase }

/-- The settings in a document. -/
def ofEntries? (entries : Entries) : Option Config := do
  let g : Group := ⟨fun name _ => entries.get? name⟩
  return {
    general := ← g.read "general" 0 General.ofValue? {}
    link := ← g.read "link" 1 Link.ofValue? {}
    core := ← g.read "core" 2 Core.ofValue? {}
    tlp := ← g.read "tlp" 3 Tlp.ofValue? {}
    etherbone := ← g.read "etherbone" 4 Etherbone.ofValue? {} }

/-- The settings a text holds, checked. -/
def ofToml (text : String) : Except Error Config := do
  match (Toml.parse text).bind ofEntries? with
  | none => throw .unparsableConfig
  | some config =>
    let _ ← config.check
    return config

end LinkBridge.Config

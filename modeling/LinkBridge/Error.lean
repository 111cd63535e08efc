import LinkBridge.Config.Fault
import LinkBridge.Crossbar
import LinkBridge.Etherbone.Packet
import LinkBridge.Tlp.Header

/-!
# LinkBridge.Error

Everything that can go wrong while a bridge is set up or what it sent is read. The data path itself
has no errors: what it cannot use it drops and counts.
-/

namespace LinkBridge

/-- The causes of a failure. -/
inductive Error where
  /-- A crossbar refused a request. -/
  | crossbar (fault : Crossbar.Fault)
  /-- Settings that cannot describe a working bridge. -/
  | invalidConfig (fault : Config.Fault)
  /-- A configuration that cannot be read as settings. -/
  | unparsableConfig
  /-- A file that cannot be read. -/
  | unreadableFile
  /-- Dwords that are no TLP. -/
  | malformedTlp (fault : Tlp.Fault)
  /-- Words that are no Etherbone packet. -/
  | malformedEtherbone (fault : Etherbone.Fault)
  /-- A run that ended with traffic under way. -/
  | notIdle (ticks : Nat)
  deriving DecidableEq, Inhabited

/-- What a crossbar objects to, in words. -/
def Crossbar.Fault.message : Crossbar.Fault → String
  | .assigned tag => s!"destination {Text.hex tag.toNat} already assigned"
  | .closed tag =>
    s!"cannot register destination {Text.hex tag.toNat}: crossbar already sealed"
  | .unknown tag => s!"no port registered for destination {Text.hex tag.toNat}"

/-- What went wrong, in words. -/
def Error.message : Error → String
  | .crossbar fault => fault.message
  | .invalidConfig fault => s!"invalid configuration: {fault.message}"
  | .unparsableConfig => "failed to parse config: the text holds no settings"
  | .unreadableFile => "i/o error: the file cannot be read"
  | .malformedTlp fault => s!"malformed TLP: {fault.message}"
  | .malformedEtherbone fault => s!"malformed Etherbone packet: {fault.message}"
  | .notIdle ticks => s!"simulation still busy after {ticks} ticks"

end LinkBridge

import LinkBridge.Config.Address

/-!
# LinkBridge.Config.Basic

The settings of a bridge, with the values they have when a configuration does not mention them.
-/

namespace LinkBridge

namespace Config

/-- Settings of a whole run. -/
structure General where
  /-- Asks for a log of every word; changes nothing else. -/
  trace : Bool := false
  maxTicks : Nat := 1000000
  /-- System ticks for every link tick. -/
  clockRatio : Nat := 1
  deriving DecidableEq, Inhabited

/-- Settings of the link. -/
structure Link where
  /-- Words each of the two queues between the clock domains holds. -/
  fifoDepth : Nat := 32
  /-- Link ticks a receive window may last; zero means no limit. -/
  readTime : Nat := 128
  /-- Link ticks a transmit window may last; zero means no limit. -/
  writeTime : Nat := 128
  /-- Words each queue of the host holds. -/
  hostBufferWords : Nat := 4096
  deriving DecidableEq, Inhabited

/-- Destination tags of the built-in users. -/
structure Ports where
  etherbone : UInt8 := 0
  tlp : UInt8 := 1
  deriving DecidableEq, Inhabited

/-- Settings of the packet core. -/
structure Core where
  /-- Ticks without a word after which a frame is abandoned; zero means never. -/
  frameTimeout : Nat := 1024
  maxPayloadWords : Nat := 1024
  /-- Depth of the channels between the components. -/
  streamDepth : Nat := 4
  ports : Ports := {}
  deriving DecidableEq, Inhabited

/-- Settings of the TLP path. -/
structure Tlp where
  /-- Depth of the buffer for outgoing TLPs, in beats. -/
  fifoDepth : Nat := 512
  /-- Whether the endpoint answers memory reads. -/
  autoComplete : Bool := true
  completerId : UInt16 := 256
  deriving DecidableEq, Inhabited

/-- Settings of the Etherbone path: where the Wishbone devices are. -/
structure Etherbone where
  sramBase : String := "0x10000000"
  sramSize : String := "0x8000"
  msiBase : String := "0xe0008000"
  deriving DecidableEq, Inhabited

end Config

/-- The settings of a bridge. -/
structure Config where
  general : Config.General := {}
  link : Config.Link := {}
  core : Config.Core := {}
  tlp : Config.Tlp := {}
  etherbone : Config.Etherbone := {}
  deriving DecidableEq, Inhabited

end LinkBridge

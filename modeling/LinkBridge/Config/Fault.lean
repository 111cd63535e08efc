import LinkBridge.Config.Address
import LinkBridge.Text.Quoted

/-!
# LinkBridge.Config.Fault

What can be wrong with settings that are well-formed one by one.
-/

namespace LinkBridge.Config

/-- Why settings cannot describe a working bridge. -/
inductive Fault where
  | zeroClockRatio
  | shallowLinkFifo
  | zeroHostBuffer
  | zeroStreamDepth
  | zeroMaxPayload
  | zeroTlpFifo
  /-- A setting that is no address. -/
  | badAddress (setting text : String) (fault : AddressFault)
  | badSramSize
  | unaligned
  /-- A device that reaches over the end of the address space. -/
  | outOfSpace (device : String) (base size : Nat)
  /-- Two devices that share addresses. -/
  | overlap (sramBase sramEnd msiBase msiEnd : Nat)
  deriving DecidableEq, Inhabited

/-- What is wrong, in words. -/
def Fault.message : Fault → String
  | .zeroClockRatio => "general.system_ticks_per_link_tick must be at least 1"
  | .shallowLinkFifo => "link.fifo_depth must be at least 2"
  | .zeroHostBuffer => "link.host_buffer_words must not be zero"
  | .zeroStreamDepth => "core.stream_depth must not be zero"
  | .zeroMaxPayload => "core.max_payload_words must not be zero"
  | .zeroTlpFifo => "tlp.fifo_depth must not be zero"
  | .badAddress setting text fault =>
    s!"{setting} is not a hex address ({Text.quote text}): {fault.message}"
  | .badSramSize => "etherbone.sram_size must be a non-zero multiple of 4"
  | .unaligned => "etherbone base addresses must be word aligned"
  | .outOfSpace device base size =>
    s!"{device} ({Text.hex base} + {Text.hex size}) exceeds the 32-bit Wishbone space"
  | .overlap sramBase sramEnd msiBase msiEnd =>
    s!"etherbone.sram ({Text.hex sramBase}..{Text.hex sramEnd}) overlaps " ++
      s!"etherbone.msi ({Text.hex msiBase}..{Text.hex msiEnd})"

end LinkBridge.Config

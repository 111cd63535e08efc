import LinkBridge.Main
import LinkBridge.Proofs.Crossbar.Rounds
import LinkBridge.Proofs.Etherbone.Grammar
import LinkBridge.Proofs.Etherbone.Requests
import LinkBridge.Proofs.Framing.Fates
import LinkBridge.Proofs.Framing.RoundTrip
import LinkBridge.Proofs.Safety.System
import LinkBridge.Proofs.System.Balance
import LinkBridge.Proofs.System.EndToEnd
import LinkBridge.Proofs.System.Finished
import LinkBridge.Proofs.System.Limits
import LinkBridge.Proofs.System.Loopback
import LinkBridge.Proofs.System.Order
import LinkBridge.Proofs.System.Restart
import LinkBridge.Proofs.Tlp.Completions
import LinkBridge.Proofs.Tlp.RoundTrip
import LinkBridge.Proofs.Wishbone.Vectors
import LinkBridge.Proofs.Config.Address
import LinkBridge.Proofs.Framing.Resync
import LinkBridge.Proofs.Stream.Crossing
import LinkBridge.Proofs.Stream.Registered

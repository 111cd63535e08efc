import LinkBridge.Proofs.Progress.Deadlock
import LinkBridge.Proofs.System.Supply

/-!
# LinkBridge.Proofs.System.Delivery

What becomes of a single TLP. Three limits lie on its way: a frame may announce so many words only,
the serializer stores so many beats only, and each of the two counts the header as well.
-/

namespace LinkBridge

namespace Trace

/-! ## traces that are served -/

/-- One tick after which the host takes what it is sent. -/
def serve (t : Trace) : Trace :=
  t.tick.move .drain

theorem bridge_serve (t : Trace) : t.serve.bridge = t.bridge.serve :=
  congrArg (·.modifyHost (·.drain)) t.bridge_tick

theorem bridge_iterate_serve (t : Trace) (n : Nat) :
    (serve^[n] t).bridge = Bridge.serve^[n] t.bridge := by
  induction n generalizing t with
  | zero => rfl
  | succ n ih => rw [Function.iterate_succ_apply, ih, bridge_serve, Function.iterate_succ_apply]

theorem Fed.iterate_serve {b : Bridge} {words : List Word} {t : Trace} (h : Fed b words t)
    (n : Nat) : Fed b words (serve^[n] t) := by
  induction n generalizing t with
  | zero => exact h
  | succ n ih => exact ih (h.tick.move .drain rfl)

theorem Timely.iterate_serve {c₀ : Core} {readTime writeTime : Nat} {t : Trace}
    (h : t.Timely c₀ readTime writeTime 0 []) (hpos : 1 ≤ writeTime) (n : Nat) :
    (serve^[n] t).Timely c₀ readTime writeTime 0 [] := by
  induction n generalizing t with
  | zero => exact h
  | succ n ih => exact ih (h.tick hpos fun _ => rfl).drain

end Trace

namespace Bridge

open Trace (fed)

/-! ## one TLP -/

/-- The packet a TLP travels in. -/
def packetOf (b : Bridge) (r : Tlp.Record) : Packet :=
  { dst := b.core.tlpTag, payload := r.toDwords }

/-- What the endpoint gets if the host sends a TLP: TLPs beyond the limit of the deframer are not
passed on. -/
def passed (b : Bridge) (r : Tlp.Record) : List Tlp.Record :=
  if r.toDwords.length ≤ b.core.deframer.maxPayload then [r] else []

/-- The completions for it. -/
def completions (b : Bridge) (r : Tlp.Record) : List Tlp.Record :=
  b.core.endpoint.completions (b.passed r)

/-- Whether the serializer can store a TLP. -/
def stores (b : Bridge) (r : Tlp.Record) : Bool :=
  decide (r.toBeats.length ≤ b.core.serializer.depth)

/-- What is left of a TLP when nothing is under way any more. -/
structure Delivers (b : Bridge) (r : Tlp.Record) (t : Trace) : Prop where
  received : t.bridge.core.endpoint.received = b.passed r
  hostWords : t.hostWords =
    ((b.completions r).filter b.stores).flatMap fun c => Frame.ofPacket (b.packetOf c)
  oversize : t.bridge.counters.oversizePackets = 1 - (b.passed r).length
  overflows : t.bridge.counters.tlpOverflows = (b.completions r).countP (!b.stores ·)
  others : t.bridge.counters.frameTimeouts = 0 ∧ t.bridge.counters.packetsUnrouted = 0

/-- Nothing else is dropped. -/
theorem Delivers.dropped {b : Bridge} {r : Tlp.Record} {t : Trace} (h : b.Delivers r t) :
    t.bridge.counters.dropped =
      1 - (b.passed r).length + (b.completions r).countP (!b.stores ·) := by
  rw [Counters.dropped, h.oversize, h.overflows, h.others.1, h.others.2]
  omega

section

variable {config : Config} {b : Bridge} (hb : ofConfig config = .ok b)
  (hpos : 1 ≤ config.link.writeTime)
  (hpatient : config.general.clockRatio * (config.link.writeTime + 3) ≤ config.core.frameTimeout)

include hb hpos hpatient

/-- A single frame is read as a whole. -/
theorem segments_iterate_serve {p : Packet} (hp : p.payload.length < 2 ^ 32)
    (hroom : (Frame.ofPacket p).length ≤ b.host.free) (n : Nat)
    (hidle : (Trace.serve^[n] (fed b (Frame.ofPacket p))).bridge.isIdle = true) :
    (Trace.serve^[n] (fed b (Frame.ofPacket p))).reader.cut = [] ∧
      (Trace.serve^[n] (fed b (Frame.ofPacket p))).reader.segments = [Frame.ofPacket p] := by
  have hfed := (Trace.fed_fed b (Frame.ofPacket p)).iterate_serve n
  obtain ⟨hfeed, -⟩ := (timely_start hb hpatient (Frame.position_ofPacket hp)).feed
  have hnone : (Frame.ofPacket p).drop (Trace.start b).bridge.host.free = [] :=
    List.drop_eq_nil_of_le hroom
  rw [hnone] at hfeed
  have hcut : (Trace.serve^[n] (fed b (Frame.ofPacket p))).reader.cut = [] :=
    (hfeed.iterate_serve hpos n).uncut
  have haccepted := (hfed.ends (fresh_ofConfig hb) hidle).accepted
  rw [hfed.accepted_eq, List.take_of_length_le hroom, Deframer.History.consumed,
    Deframer.History.segments, hcut] at haccepted
  have hcurrent : (Trace.serve^[n] (fed b (Frame.ofPacket p))).reader.current = Frame.ofPacket p := by
    simpa using haccepted.symm
  exact ⟨hcut, by rw [Deframer.History.segments, hcut, hcurrent, List.nil_append]⟩

/-- **A single TLP is handled and answered, or dropped and counted.** -/
theorem delivers_iterate_serve {r : Tlp.Record} (hr : Tlp.Record.ofDwords r.toDwords = .ok r)
    (hroom : (Frame.ofPacket (b.packetOf r)).length ≤ b.host.free) (n : Nat)
    (hidle : (Trace.serve^[n] (fed b (Frame.ofPacket (b.packetOf r)))).bridge.isIdle = true) :
    b.Delivers r (Trace.serve^[n] (fed b (Frame.ofPacket (b.packetOf r)))) := by
  have hfresh := fresh_ofConfig hb
  obtain ⟨hne, hlong⟩ := Tlp.Record.toDwords_bounds hr
  have hshort : (b.packetOf r).payload.length < 2 ^ 32 := Nat.lt_of_le_of_lt hlong (by decide)
  obtain ⟨hcut, hsegments⟩ := segments_iterate_serve hb hpos hpatient hshort hroom n hidle
  have hfed := (Trace.fed_fed b (Frame.ofPacket (b.packetOf r))).iterate_serve n
  obtain ⟨sent, htracks⟩ := hfed.tracks hfresh
  have hends := hfed.ends hfresh hidle
  generalize Trace.serve^[n] (fed b (Frame.ofPacket (b.packetOf r))) = t at *
  obtain ⟨hwithin, hbeyond⟩ := Frame.read_ofPacket hshort b.core.deframer.maxPayload
  have hwords : (b.packetOf r).words = r.toDwords := Packet.words_of_ne_nil hne
  rw [hwords] at hwithin hbeyond
  have hnormal : Frame.normalize (b.packetOf r) = b.packetOf r := by
    rw [Frame.normalize, hwords]
    rfl
  have hpackets : t.packets = (b.passed r).map b.packetOf := by
    rw [Trace.packets, hsegments, htracks.settings.2, List.flatMap_singleton, hwithin, hnormal,
      passed]
    split <;> rfl
  have hrecords : Tlp.Endpoint.records (Packet.payloadsFor b.core.tlpTag t.packets) =
      b.passed r := by
    rw [hpackets, passed]
    split <;> simp [Packet.payloadsFor, packetOf, Tlp.Endpoint.records, hr, Except.toOption]
  have hrequests : Packet.payloadsFor b.core.etherboneTag t.packets = [] := by
    rw [hpackets, passed]
    split <;> simp [Packet.payloadsFor, packetOf, hfresh.wired.distinct.symm]
  have hcompletions : Packet.completions b.core.tlpTag b.core.endpoint t.packets =
      b.completions r := congrArg b.core.endpoint.completions hrecords
  have hlosses := hends.losses
  exact
    { received := by
        have hnone : b.core.endpoint.received = [] := by
          obtain ⟨layout, -, rfl⟩ := exists_layout hb
          rfl
        have hendpoint := congrArg Tlp.Endpoint.received hends.endpoint
        rw [hrecords] at hendpoint
        refine hendpoint.trans ?_
        rw [passed]
        split
        · exact (b.core.endpoint.handle_spec r).2.trans (by rw [hnone]; rfl)
        · exact hnone
      hostWords := by
        obtain ⟨merged, hmerged, hhost⟩ := hends.words
        have hreplies : Packet.etherboneReplies b.core.etherboneTag b.core.bus t.packets = [] := by
          rw [Packet.etherboneReplies, hrequests]
          rfl
        rw [hreplies] at hmerged
        rw [hhost, hmerged.eq_append (.inl rfl), List.nil_append, Packet.completionReplies,
          hcompletions, List.flatMap_map]
        rfl
      oversize := by
        have hoversize : t.bridge.counters.losses.oversize = t.reader.losses.oversize := by
          rw [hlosses]
        refine hoversize.trans ?_
        rw [Deframer.History.losses, Deframer.History.findings, hsegments, htracks.settings.2,
          List.flatMap_singleton, hbeyond, passed]
        split <;> rfl
      overflows := by
        rw [hends.overflows, Packet.completionsTooLong, hcompletions]
        rfl
      others := by
        have hunrouted : t.bridge.counters.losses.unrouted = 0 := by
          rw [hlosses, hpackets, passed]
          split <;> simp [packetOf]
        rw [hends.frameTimeouts_eq, hcut]
        exact ⟨rfl, hunrouted⟩ }

end

end Bridge

end LinkBridge

import LinkBridge.Proofs.System.Forecast

/-!
# LinkBridge.Proofs.System.Service

What whole packets lead to. A domain with nothing under way handles the packets it is given
separately for its two users and, for each of them, one packet after the other: Etherbone requests
are served in order on the bus, and TLPs are handled in order by the endpoint (`Wired.foretells`).
With no packets to come this says that a domain with nothing under way will do nothing more.
-/

namespace LinkBridge

open Etherbone (Effect serving)
open Tlp.Endpoint (record)

/-! ## packets for packets -/

namespace Packet

/-- The payloads of the packets for a destination. -/
def payloadsFor (tag : UInt8) (ps : List Packet) : List (List Word) :=
  (ps.filter fun p => p.dst == tag).map (·.payload)

/-- The answers to the Etherbone packets among packets, which are served in order on a bus. -/
def etherboneReplies (tag : UInt8) (bus : Wishbone.Bus) (ps : List Packet) : List Packet :=
  (Effect.replies (serving.answers bus (payloadsFor tag ps))).map fun reply =>
    { dst := tag, payload := reply.encode }

/-- The completions for the TLPs among packets, which are handled in order by an endpoint. -/
def completions (tag : UInt8) (e : Tlp.Endpoint) (ps : List Packet) : List Tlp.Record :=
  e.completions (Tlp.Endpoint.records (payloadsFor tag ps))

/-- The packets for completions of at most `depth` beats. -/
def completionReplies (tag : UInt8) (depth : Nat) (e : Tlp.Endpoint) (ps : List Packet) :
    List Packet :=
  ((completions tag e ps).filter fun r => decide (r.toBeats.length ≤ depth)).map fun r =>
    { dst := tag, payload := r.toDwords }

/-- How many completions have more than `depth` beats. -/
def completionsTooLong (tag : UInt8) (depth : Nat) (e : Tlp.Endpoint) (ps : List Packet) : Nat :=
  (completions tag e ps).countP fun r => !decide (r.toBeats.length ≤ depth)

end Packet

namespace Core

/-! ## the forecast of an idle domain -/

/-- What the forecast is while nothing is under way. -/
structure Foretells (c : Core) (ps : List Packet) : Prop where
  refused : c.refused (ps.flatMap Packet.beats) =
    c.counters.packetsUnrouted + ps.countP fun p => !c.crossbar.tags.contains p.dst
  endpoint : c.endpointBehind (ps.flatMap Packet.beats) =
    ((Tlp.Endpoint.records (Packet.payloadsFor c.tlpTag ps)).foldl Tlp.Endpoint.handle
      c.endpoint).bare
  completions : c.completionsDue (ps.flatMap Packet.beats) =
    (Packet.completionReplies c.tlpTag c.serializer.depth c.endpoint ps).flatMap Packet.beats
  overflowed : c.overflowed (ps.flatMap Packet.beats) = (c.counters.tlpOverflows +
    Packet.completionsTooLong c.tlpTag c.serializer.depth c.endpoint ps : Nat)
  bus : c.busBehind (ps.flatMap Packet.beats) =
    (serving.after c.bus (Packet.payloadsFor c.etherboneTag ps), [])
  replies : c.repliesDue (ps.flatMap Packet.beats) =
    (Packet.etherboneReplies c.etherboneTag c.bus ps).flatMap Packet.beats
  vectors : c.vectorsBehind (ps.flatMap Packet.beats) =
    (Effect.vectors (serving.answers c.bus (Packet.payloadsFor c.etherboneTag ps))).foldl record
      c.endpoint.vectors

section

variable {c : Core} {ps : List Packet}

/-- What it means that nothing is under way. -/
theorem idle_parts (h : c.isIdle = true) :
    (c.inbound.contents = [] ∧ c.outbound.queue = [] ∧ c.deframer.isIdle = true ∧
      c.framer.isIdle = true) ∧
    (c.crossbar.isIdle = true ∧ c.arriving.contents = [] ∧ c.leaving.contents = []) ∧
    (c.serializer.isIdle = true ∧ c.deserializer.low = none ∧ c.endpoint.isIdle = true ∧
      c.down.contents = [] ∧ c.up.contents = []) ∧
    (c.responder.isIdle = true ∧ c.bus.isIdle = true ∧ c.interrupts.contents = []) := by
  simp only [isIdle, Bool.and_eq_true] at h
  obtain ⟨⟨⟨⟨⟨⟨⟨⟨⟨⟨⟨⟨⟨⟨hinbound, houtbound⟩, hdeframer⟩, hframer⟩, hcrossbar⟩, hserializer⟩,
    hdeserializer⟩, hresponder⟩, hendpoint⟩, hbus⟩, harriving⟩, hleaving⟩, hdown⟩, hup⟩,
    hinterrupts⟩ := h
  exact ⟨⟨CrossFifo.contents_of_readerEmpty hinbound, List.isEmpty_iff.mp houtbound, hdeframer,
      hframer⟩,
    ⟨hcrossbar, Channel.contents_of_isEmpty harriving, Channel.contents_of_isEmpty hleaving⟩,
    ⟨hserializer, Option.isNone_iff_eq_none.mp hdeserializer, hendpoint,
      Channel.contents_of_isEmpty hdown, Channel.contents_of_isEmpty hup⟩,
    ⟨hresponder, hbus, Channel.contents_of_isEmpty hinterrupts⟩⟩

/-- Where nothing is under way every length fits. -/
theorem Wired.measured (h : c.Wired) (hidle : c.isIdle = true) : c.Measured := by
  obtain ⟨-, -, ⟨hserializer, -, hendpoint, -, hup⟩, -⟩ := idle_parts hidle
  obtain ⟨-, houtbound⟩ : c.endpoint.inbound = #[] ∧ c.endpoint.outbound = [] := by
    simpa [Tlp.Endpoint.isIdle] using hendpoint
  rw [Measured, hup, houtbound]
  exact h.sound.measured hserializer

/-- Packets are routed as wholes. -/
theorem routed_packets (h : c.isIdle = true) :
    c.routed (ps.flatMap Packet.beats) = ps.flatMap (Crossbar.Routed.ofPacket c.crossbar.tags) := by
  obtain ⟨-, ⟨hcrossbar, harriving, -⟩, -, -⟩ := idle_parts h
  have hroute : c.crossbar.route = none := (Crossbar.none_of_isIdle hcrossbar).2
  rw [routed, harriving, hroute, List.nil_append, Crossbar.routing_packets]

/-- A user gets its packets. -/
theorem deliveries_packets (h : c.isIdle = true) {tag : UInt8} (htag : tag ∈ c.crossbar.tags) :
    c.deliveries tag (ps.flatMap Packet.beats) =
      (ps.filter fun p => p.dst == tag).flatMap Packet.beats := by
  obtain ⟨-, ⟨hcrossbar, -, -⟩, -, -⟩ := idle_parts h
  rw [deliveries, routed_packets h, Crossbar.Routed.sentTo_ofPacket htag,
    (Crossbar.contents_of_isIdle hcrossbar tag).2, List.nil_append]

/-- The words of packets are their payloads. -/
theorem words_packets (hps : ∀ p ∈ ps, p.payload ≠ [] ∧ p.payload.length < 2 ^ 32) (tag : UInt8) :
    (ps.filter fun p => p.dst == tag).map Packet.words = Packet.payloadsFor tag ps := by
  refine List.map_congr_left fun p hp => ?_
  exact Packet.words_of_ne_nil (hps p (List.mem_filter.mp hp).1).1

/-- The endpoint gets TLPs as wholes. -/
theorem downstream_packets (h : c.Wired) (hidle : c.isIdle = true)
    (hps : ∀ p ∈ ps, p.payload ≠ [] ∧ p.payload.length < 2 ^ 32) :
    c.downstream (ps.flatMap Packet.beats) =
      (Packet.payloadsFor c.tlpTag ps).flatMap Tlp.Beat.ofDwords := by
  obtain ⟨-, -, ⟨-, hlow, -, hdown, -⟩, -⟩ := idle_parts hidle
  have htag : c.tlpTag ∈ c.crossbar.tags := by simp [h.tags]
  rw [downstream, hdown, List.nil_append, deliveries_packets hidle htag,
    Tlp.Deserializer.future, hlow, Tlp.Deserializer.pairing_packets, ← words_packets hps,
    List.flatMap_map]

theorem payloadsFor_ne_nil (hps : ∀ p ∈ ps, p.payload ≠ [] ∧ p.payload.length < 2 ^ 32)
    (tag : UInt8) : ∀ ws ∈ Packet.payloadsFor tag ps, ws ≠ [] ∧ ws.length < 2 ^ 32 := by
  intro ws hws
  obtain ⟨p, hp, rfl⟩ := List.mem_map.mp hws
  exact hps p (List.mem_filter.mp hp).1

/-- **The endpoint handles TLPs one after the other, and their completions leave as packets.** -/
theorem completions_packets (h : c.Wired) (hidle : c.isIdle = true)
    (hps : ∀ p ∈ ps, p.payload ≠ [] ∧ p.payload.length < 2 ^ 32) :
    c.endpointBehind (ps.flatMap Packet.beats) =
        ((Tlp.Endpoint.records (Packet.payloadsFor c.tlpTag ps)).foldl Tlp.Endpoint.handle
          c.endpoint).bare ∧
      c.completionsDue (ps.flatMap Packet.beats) =
        (Packet.completionReplies c.tlpTag c.serializer.depth c.endpoint ps).flatMap
          Packet.beats ∧
      c.overflowed (ps.flatMap Packet.beats) = (c.counters.tlpOverflows +
        Packet.completionsTooLong c.tlpTag c.serializer.depth c.endpoint ps : Nat) := by
  obtain ⟨-, ⟨hcrossbar, -, -⟩, ⟨hserializer, -, hendpoint, -, hup⟩, -⟩ := idle_parts hidle
  obtain ⟨hcollected, hwaiting⟩ : c.endpoint.inbound = #[] ∧ c.endpoint.outbound = [] := by
    simpa [Tlp.Endpoint.isIdle] using hendpoint
  obtain ⟨hafter, hanswers⟩ := Tlp.Endpoint.absorbing_tlps c.endpoint hcollected
    fun ws hws => (payloadsFor_ne_nil hps c.tlpTag ws hws).1
  let rs := Packet.completions c.tlpTag c.endpoint ps
  have hlong : ∀ r ∈ rs, 3 < r.toDwords.length ∧ r.toDwords.length ≤ 1027 := fun r hr =>
    Tlp.Endpoint.length_toDwords_of_mem_completions hr
  have hupstream : c.upstream (ps.flatMap Packet.beats) =
      (rs.map Tlp.Record.toDwords).flatMap Tlp.Beat.ofDwords := by
    rw [upstream, hup, downstream_packets h hidle hps, Tlp.Endpoint.future, hwaiting, hanswers,
      List.flatMap_map]
    rfl
  have hne : ∀ ws ∈ rs.map Tlp.Record.toDwords, ws ≠ [] := by
    intro ws hws
    obtain ⟨r, hr, rfl⟩ := List.mem_map.mp hws
    exact List.ne_nil_of_length_pos (by have := hlong r hr; omega)
  refine ⟨?_, ?_, ?_⟩
  · rw [endpointBehind, downstream_packets h hidle hps, hafter]
  · rw [completionsDue, (Crossbar.contents_of_isIdle hcrossbar c.tlpTag).1, List.nil_append,
      Tlp.Serializer.future_of_isIdle hserializer, hupstream,
      Tlp.Serializer.packing_tlps _ h.sound.depth hne, h.serializer, List.filter_map,
      List.flatMap_map, Packet.completionReplies, List.flatMap_map]
    refine congrArg List.flatten (List.map_congr_left fun r hr => ?_)
    have hr := hlong r (List.mem_filter.mp hr).1
    exact Packet.beatsFor_eq (List.ne_nil_of_length_pos (by omega)) (by omega)
  · rw [overflowed, hupstream, Tlp.Serializer.overflowsDue_tlps h.sound hserializer hne,
      List.countP_map]
    rfl

/-- **Requests are served one after the other, and their answers leave as packets.** -/
theorem replies_packets (h : c.Wired) (hidle : c.isIdle = true)
    (hps : ∀ p ∈ ps, p.payload ≠ [] ∧ p.payload.length < 2 ^ 32) :
    c.busBehind (ps.flatMap Packet.beats) =
        (serving.after c.bus (Packet.payloadsFor c.etherboneTag ps), []) ∧
      c.effects (ps.flatMap Packet.beats) =
        serving.answers c.bus (Packet.payloadsFor c.etherboneTag ps) ∧
      c.repliesDue (ps.flatMap Packet.beats) =
        (Packet.etherboneReplies c.etherboneTag c.bus ps).flatMap Packet.beats := by
  obtain ⟨-, ⟨hcrossbar, -, -⟩, -, ⟨hresponder, hbus, -⟩⟩ := idle_parts hidle
  obtain ⟨hrequest, hresponse⟩ : c.responder.request = #[] ∧ c.responder.response = [] := by
    simpa [Etherbone.Responder.isIdle] using hresponder
  have htag : c.etherboneTag ∈ c.crossbar.tags := by simp [h.tags]
  obtain ⟨hafter, hanswers⟩ :=
    Etherbone.receiving_packets c.bus (ps.filter fun p => p.dst == c.etherboneTag)
  rw [words_packets hps] at hafter hanswers
  have hstanding : Etherbone.Responder.standing (c.responder, c.bus) = (c.bus, []) := by
    rw [Etherbone.Responder.standing_of_isIdle hbus, hrequest]
  have heffects : c.effects (ps.flatMap Packet.beats) =
      serving.answers c.bus (Packet.payloadsFor c.etherboneTag ps) := by
    rw [effects, deliveries_packets hidle htag, Etherbone.Responder.outlook_of_isIdle hbus,
      hrequest, ← hanswers]
  refine ⟨?_, heffects, ?_⟩
  · rw [busBehind, hstanding, deliveries_packets hidle htag, hafter]
  · have howed : c.responder.owed = [] := Etherbone.Responder.owed_of_response hresponse
    have hdue : c.repliesDue (ps.flatMap Packet.beats) =
        Effect.beats c.responder.tag (c.effects (ps.flatMap Packet.beats)) := by
      rw [repliesDue, (Crossbar.contents_of_isIdle hcrossbar c.etherboneTag).1,
        Etherbone.Responder.future, howed]
      rfl
    rw [hdue, heffects, h.responder, Effect.beats, Packet.etherboneReplies, List.flatMap_map]
    refine congrArg List.flatten (List.map_congr_left fun reply hreply => ?_)
    obtain ⟨hne, hlt⟩ := Etherbone.encode_of_mem_replies
      (fun request hrequest => (payloadsFor_ne_nil hps c.etherboneTag request hrequest).2) hreply
    exact Packet.beatsFor_eq hne hlt

/-- **A domain with nothing under way handles packets one after the other.** -/
theorem Wired.foretells (h : c.Wired) (hidle : c.isIdle = true) (ps : List Packet)
    (hps : ∀ p ∈ ps, p.payload ≠ [] ∧ p.payload.length < 2 ^ 32) : c.Foretells ps := by
  obtain ⟨hendpoint, hcompletions, hoverflowed⟩ := completions_packets h hidle hps
  obtain ⟨hbus, heffects, hreplies⟩ := replies_packets h hidle hps
  obtain ⟨-, -, -, ⟨-, -, hinterrupts⟩⟩ := idle_parts hidle
  refine ⟨?_, hendpoint, hcompletions, hoverflowed, hbus, hreplies, ?_⟩
  · rw [refused, routed_packets hidle, Crossbar.Routed.refusals_ofPacket]
  · rw [vectorsBehind, heffects, hinterrupts, List.nil_append]

end

end Core

end LinkBridge

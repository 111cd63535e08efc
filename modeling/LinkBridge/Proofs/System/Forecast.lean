import LinkBridge.Proofs.Crossbar.Outbound
import LinkBridge.Proofs.Etherbone.Responder
import LinkBridge.Proofs.Framing.Framer
import LinkBridge.Proofs.Tlp.Endpoint
import LinkBridge.Proofs.Tlp.Overflows
import LinkBridge.System.Core

/-!
# LinkBridge.Proofs.System.Forecast

What the system domain will have done once everything on its way has passed through. The futures of
the stages are substituted into one another, from the beats that leave the deframer to the words
that leave the framer; the result is the *forecast* of the domain. Only two things are still open
in a forecast: the beats to come, and the order in which the crossbar serves its ports. A step of
the domain lets beats enter and sends beats to the framer, and changes the forecast in no other way
(`Advances`).
-/

namespace LinkBridge

namespace Core

open Crossbar (Routed routing sentBy Served)
open Etherbone (Effect)
open Etherbone.Responder (standing outlook)
open Tlp.Endpoint (absorbing record)

/-! ## the forecast -/

section

variable (c : Core)

/-- Where the inbound beats go if `beats` are to come. -/
def routed (beats : List PacketBeat) : List Routed :=
  (routing c.crossbar.tags).answers c.crossbar.route (c.arriving.contents ++ beats)

/-- The packets the crossbar will have refused. -/
def refused (beats : List PacketBeat) : Nat :=
  c.counters.packetsUnrouted + Routed.refusals (c.routed beats)

/-- The beats the user of a destination will still get. -/
def deliveries (tag : UInt8) (beats : List PacketBeat) : List PacketBeat :=
  c.crossbar.sourceOf tag ++ Routed.sentTo tag (c.routed beats)

/-- The beats of TLPs the endpoint will still get. -/
def downstream (beats : List PacketBeat) : List Tlp.Beat :=
  c.down.contents ++ c.deserializer.future (c.deliveries c.tlpTag beats)

/-- The endpoint behind them. -/
def endpointBehind (beats : List PacketBeat) : Tlp.Endpoint :=
  absorbing.after c.endpoint.bare (c.downstream beats)

/-- The beats of completions the serializer will still get. -/
def upstream (beats : List PacketBeat) : List Tlp.Beat :=
  c.up.contents ++ c.endpoint.future (c.downstream beats)

/-- The beats the TLP port will still send. -/
def completionsDue (beats : List PacketBeat) : List PacketBeat :=
  c.crossbar.sinkOf c.tlpTag ++ c.serializer.future (c.upstream beats)

/-- The completions the serializer will have given up. -/
def overflowed (beats : List PacketBeat) : Int :=
  c.counters.tlpOverflows + c.serializer.overflowsDue (c.upstream beats)

/-- The bus, and the request left incomplete, behind the requests to come. -/
def busBehind (beats : List PacketBeat) : Wishbone.Bus × List Word :=
  Etherbone.receiving.after (standing (c.responder, c.bus)) (c.deliveries c.etherboneTag beats)

/-- What the requests to come lead to. -/
def effects (beats : List PacketBeat) : List Effect :=
  outlook (c.responder, c.bus) (c.deliveries c.etherboneTag beats)

/-- The beats the Etherbone port will still send. -/
def repliesDue (beats : List PacketBeat) : List PacketBeat :=
  c.crossbar.sinkOf c.etherboneTag ++
    Etherbone.Responder.future (c.responder, c.bus) (c.deliveries c.etherboneTag beats)

/-- The interrupts the endpoint will have received. -/
def vectorsBehind (beats : List PacketBeat) : List UInt8 :=
  (c.interrupts.contents ++ Effect.vectors (c.effects beats)).foldl record c.endpoint.vectors

/-- The words that will leave if the crossbar still sends `beats`. -/
def wording (beats : List PacketBeat) : List Word :=
  c.outbound.contents ++ c.framer.future (c.leaving.contents ++ beats)

end

/-! ## steps of the forecast -/

/-- What a step may do: the beats `entered` are no longer to come, the beats `sent`, each with its
port, are on their way to the framer, and the words `left` are on the link. -/
structure Advances (c c' : Core) (entered : List PacketBeat) (sent : List (UInt8 × PacketBeat))
    (left : List Word) : Prop where
  tags : c'.etherboneTag = c.etherboneTag ∧ c'.tlpTag = c.tlpTag
  refused (beats : List PacketBeat) : c.refused (entered ++ beats) = c'.refused beats
  endpoint (beats : List PacketBeat) : c.endpointBehind (entered ++ beats) = c'.endpointBehind beats
  completions (beats : List PacketBeat) :
    c.completionsDue (entered ++ beats) = sentBy c.tlpTag sent ++ c'.completionsDue beats
  overflowed (beats : List PacketBeat) : c.overflowed (entered ++ beats) = c'.overflowed beats
  bus (beats : List PacketBeat) : c.busBehind (entered ++ beats) = c'.busBehind beats
  replies (beats : List PacketBeat) :
    c.repliesDue (entered ++ beats) = sentBy c.etherboneTag sent ++ c'.repliesDue beats
  vectors (beats : List PacketBeat) : c.vectorsBehind (entered ++ beats) = c'.vectorsBehind beats
  wording (beats : List PacketBeat) : c.wording (sent.map (·.2) ++ beats) = left ++ c'.wording beats
  members : ∀ s ∈ sent, s.1 = c.etherboneTag ∨ s.1 = c.tlpTag
  served {owner : Option UInt8} {before : List (UInt8 × PacketBeat)} : Served none before owner →
    c.crossbar.Owned owner → ∃ owner', Served none (before ++ sent) owner' ∧ c'.crossbar.Owned owner'

theorem Advances.refl (c : Core) : c.Advances c [] [] [] where
  tags := ⟨rfl, rfl⟩
  refused _ := rfl
  endpoint _ := rfl
  completions _ := rfl
  overflowed _ := rfl
  bus _ := rfl
  replies _ := rfl
  vectors _ := rfl
  wording _ := rfl
  members := nofun
  served hserved howned := ⟨_, by rwa [List.append_nil], howned⟩

/-- One step after the other. -/
theorem Advances.trans {c c' c'' : Core} {entered more : List PacketBeat}
    {sent sent' : List (UInt8 × PacketBeat)} {left left' : List Word}
    (h : c.Advances c' entered sent left) (h' : c'.Advances c'' more sent' left') :
    c.Advances c'' (entered ++ more) (sent ++ sent') (left ++ left') where
  tags := ⟨h'.tags.1.trans h.tags.1, h'.tags.2.trans h.tags.2⟩
  refused beats := by rw [List.append_assoc, h.refused, h'.refused]
  endpoint beats := by rw [List.append_assoc, h.endpoint, h'.endpoint]
  completions beats := by
    rw [List.append_assoc, h.completions, h'.completions, h.tags.2, Crossbar.sentBy_append,
      List.append_assoc]
  overflowed beats := by rw [List.append_assoc, h.overflowed, h'.overflowed]
  bus beats := by rw [List.append_assoc, h.bus, h'.bus]
  replies beats := by
    rw [List.append_assoc, h.replies, h'.replies, h.tags.1, Crossbar.sentBy_append,
      List.append_assoc]
  vectors beats := by rw [List.append_assoc, h.vectors, h'.vectors]
  wording beats := by
    rw [List.map_append, List.append_assoc, h.wording, h'.wording, List.append_assoc]
  members s hs := by
    rcases List.mem_append.mp hs with hs | hs
    · exact h.members s hs
    · rw [← h.tags.1, ← h.tags.2]
      exact h'.members s hs
  served hserved howned := by
    obtain ⟨owner, hserved, howned⟩ := h.served hserved howned
    obtain ⟨owner', hserved', howned'⟩ := h'.served hserved howned
    exact ⟨owner', List.append_assoc .. ▸ hserved', howned'⟩

/-! ## users that a step does not touch -/

/-- The stages of the TLP port are the same. -/
structure SameTlp (c c' : Core) : Prop where
  tag : c'.tlpTag = c.tlpTag
  deserializer : c'.deserializer = c.deserializer
  down : c'.down.contents = c.down.contents
  endpoint : c'.endpoint = c.endpoint
  up : c'.up.contents = c.up.contents
  serializer : c'.serializer = c.serializer

/-- The stages of the Etherbone port are the same. -/
structure SameEtherbone (c c' : Core) : Prop where
  tag : c'.etherboneTag = c.etherboneTag
  responder : c'.responder = c.responder
  bus : c'.bus = c.bus
  interrupts : c'.interrupts.contents = c.interrupts.contents
  endpoint : c'.endpoint = c.endpoint

section

variable {c c' : Core} (entered : List PacketBeat) (sent : List (UInt8 × PacketBeat))

/-- What a step does to the forecast of the TLP port when it only touches the port itself. -/
theorem SameTlp.keeps (h : c.SameTlp c')
    (hdeliveries : ∀ beats, c'.deliveries c.tlpTag beats = c.deliveries c.tlpTag (entered ++ beats))
    (hsinks : c.crossbar.sinkOf c.tlpTag = sentBy c.tlpTag sent ++ c'.crossbar.sinkOf c.tlpTag)
    (beats : List PacketBeat) :
    c.endpointBehind (entered ++ beats) = c'.endpointBehind beats ∧
      c.completionsDue (entered ++ beats) = sentBy c.tlpTag sent ++ c'.completionsDue beats ∧
      c.serializer.overflowsDue (c.upstream (entered ++ beats)) =
        c'.serializer.overflowsDue (c'.upstream beats) := by
  have hdownstream : c'.downstream beats = c.downstream (entered ++ beats) := by
    rw [downstream, downstream, h.tag, h.down, h.deserializer, hdeliveries]
  have hupstream : c'.upstream beats = c.upstream (entered ++ beats) := by
    rw [upstream, upstream, hdownstream, h.endpoint, h.up]
  refine ⟨?_, ?_, ?_⟩
  · rw [endpointBehind, endpointBehind, hdownstream, h.endpoint]
  · rw [completionsDue, completionsDue, hupstream, h.tag, h.serializer, hsinks, List.append_assoc]
  · rw [hupstream, h.serializer]

/-- What a step does to the forecast of the Etherbone port when it only touches the port itself. -/
theorem SameEtherbone.keeps (h : c.SameEtherbone c')
    (hdeliveries : ∀ beats, c'.deliveries c.etherboneTag beats =
      c.deliveries c.etherboneTag (entered ++ beats))
    (hsinks : c.crossbar.sinkOf c.etherboneTag =
      sentBy c.etherboneTag sent ++ c'.crossbar.sinkOf c.etherboneTag)
    (beats : List PacketBeat) :
    c.busBehind (entered ++ beats) = c'.busBehind beats ∧
      c.repliesDue (entered ++ beats) =
        sentBy c.etherboneTag sent ++ c'.repliesDue beats ∧
      c.vectorsBehind (entered ++ beats) = c'.vectorsBehind beats := by
  refine ⟨?_, ?_, ?_⟩
  · rw [busBehind, busBehind, h.tag, h.responder, h.bus, hdeliveries]
  · rw [repliesDue, repliesDue, h.tag, h.responder, h.bus, hdeliveries, hsinks, List.append_assoc]
  · rw [vectorsBehind, vectorsBehind, effects, effects, h.tag, h.responder, h.bus, h.interrupts,
      h.endpoint, hdeliveries]

end

/-! ## how the domain is wired -/

/-- How the stages and the queues between them fit together. -/
structure Wired (c : Core) : Prop where
  distinct : c.etherboneTag ≠ c.tlpTag
  tags : c.crossbar.tags = [c.etherboneTag, c.tlpTag]
  responder : c.responder.tag = c.etherboneTag
  serializer : c.serializer.tag = c.tlpTag
  sound : c.serializer.Sound
  known : c.crossbar.GrantKnown
  inbound : c.inbound.IsOpen
  outbound : c.outbound.IsOpen
  /-- There is one interrupt controller at most. -/
  controllers : c.bus.kinds.count true ≤ 1

/-- The lengths of the TLPs on their way to the serializer fit. -/
def Measured (c : Core) : Prop :=
  c.serializer.Measured (c.up.contents ++ c.endpoint.outbound)

end Core

end LinkBridge

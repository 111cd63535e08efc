import LinkBridge.Proofs.Progress.Orderly

/-!
# LinkBridge.Proofs.Progress.Resting

A domain in which a tick works off nothing. Such a tick changes nothing but totals, and every stage
waits (`tick_works`). Nothing can wait for ever, though: once the link has taken the last word, every
stage waits for one behind it that waits as well, and following these waits from the link back to the
deframer shows that nothing is under way (`Resting.isIdle`).
-/

namespace LinkBridge

open Tlp (Beat)

namespace Core

variable {c : Core}

/-! ## between two ticks -/

/-- Between two ticks nothing has happened to a queue. -/
structure Settled (c : Core) : Prop where
  inbound : c.inbound.popped = false
  outbound : c.outbound.pushed = false
  arriving : c.arriving.Committed
  leaving : c.leaving.Committed
  down : c.down.Committed
  up : c.up.Committed
  interrupts : c.interrupts.Committed
  ports : ∀ p ∈ c.crossbar.ports, p.sink.Committed ∧ p.source.Committed

theorem settled_commit (c : Core) : c.commit.Settled where
  inbound := c.inbound.popped_commitReader
  outbound := rfl
  arriving := c.arriving.committed_commit
  leaving := c.leaving.committed_commit
  down := c.down.committed_commit
  up := c.up.committed_commit
  interrupts := c.interrupts.committed_commit
  ports := fun p hp => by
    obtain ⟨q, -, rfl⟩ := List.mem_map.mp hp
    exact ⟨q.sink.committed_commit, q.source.committed_commit⟩

/-- Ending another tick only presents the next word. -/
theorem Settled.commit_eq (h : c.Settled) :
    c.commit = { c with inbound := c.inbound.commitReader } := by
  have hports : c.crossbar.ports.map Port.commit = c.crossbar.ports := by
    refine (List.map_congr_left fun p hp => ?_).trans (List.map_id _)
    obtain ⟨hsink, hsource⟩ := h.ports p hp
    rw [Port.commit, hsink.commit_eq, hsource.commit_eq, id]
  have hcrossbar : c.crossbar.commit = c.crossbar := by rw [Crossbar.commit, hports]
  have houtbound : c.outbound.commitWriter = c.outbound := by
    rw [CrossFifo.commitWriter, ← h.outbound]
  rw [commit, hcrossbar, houtbound, h.arriving.commit_eq, h.leaving.commit_eq, h.down.commit_eq,
    h.up.commit_eq, h.interrupts.commit_eq]

/-! ## ticks -/

theorem commit_load_le (c : Core) (ahead : Nat) : c.commit.load ahead ≤ c.load ahead := by
  refine load_mono c.inbound.load_commitReader_le ?_ ?_ ?_ ahead <;>
    simp [commit, routingLoad, servingLoad, replyLoad, Channel.contents_commit]

/-- What a stage waits for does not depend on what has been counted. -/
theorem waits_counters (c : Core) (counters : Counters) (stage : Stage) :
    ({ c with counters } : Core).Waits stage ↔ c.Waits stage := by
  cases stage <;> rfl

theorem Works.load_le {c' : Core} {waits : Prop} (h : c.Works c' waits) (ahead : Nat) :
    c'.load ahead ≤ c.load ahead := by
  obtain hlighter | ⟨⟨counters, rfl⟩, -⟩ := h
  · exact (hlighter ahead).le
  · exact le_refl _

/-- **Stages one after the other work off the load, or all of them wait.** -/
theorem Orderly.foldl_works (h : c.Orderly) (stages : List Stage) :
    c.Works (stages.foldl Core.step c) (∀ stage ∈ stages, c.Waits stage) := by
  induction stages generalizing c with
  | nil => exact .inr ⟨⟨c.counters, rfl⟩, nofun⟩
  | cons stage stages ih =>
      have hothers := ih (h.step stage)
      obtain hlighter | ⟨⟨counters, hstep⟩, hwaits⟩ := step_works h.wired h.measured h.on stage
      · exact .inl fun ahead => (hothers.load_le ahead).trans_lt (hlighter ahead)
      · rw [hstep] at hothers
        rw [List.foldl_cons, hstep]
        obtain hlighter | ⟨⟨counters', hsteps⟩, hwaiting⟩ := hothers
        · exact .inl hlighter
        · refine .inr ⟨⟨counters', hsteps⟩, List.forall_mem_cons.mpr ⟨hwaits, fun s hs => ?_⟩⟩
          exact (c.waits_counters counters s).mp (hwaiting s hs)

/-- **A tick of a settled domain works off the load, or every stage waits and no word is left to be
presented.** -/
theorem Orderly.tick_works (h : c.Orderly) (hsettled : c.Settled) :
    c.Works c.tick
      ((∀ stage, c.Waits stage) ∧ (c.inbound.head = none → c.inbound.queue = [])) := by
  have hstages := h.foldl_works Stage.all
  have htick : c.tick = ((Stage.all.foldl Core.step c).count { systemTicks := 1 }).commit := rfl
  generalize Stage.all.foldl Core.step c = c' at hstages htick
  rw [htick]
  obtain hlighter | ⟨⟨counters, rfl⟩, hwaits⟩ := hstages
  · exact .inl fun ahead => (commit_load_le _ ahead).trans_lt (hlighter ahead)
  · let counted := counters + { systemTicks := 1 }
    have hcommit : (({ c with counters } : Core).count { systemTicks := 1 }).commit =
        { c with inbound := c.inbound.commitReader, counters := counted } :=
      congrArg (fun c : Core => { c with counters := counted }) hsettled.commit_eq
    rw [hcommit]
    obtain hlighter | ⟨hinbound, hempty⟩ := c.inbound.load_commitReader
    · exact .inl (load_lt_of_inbound hlighter)
    · refine .inr ⟨⟨counted, ?_⟩, fun stage => ?_, hempty h.wired.inbound.2⟩
      · rw [hinbound, ← hsettled.inbound]
      · exact hwaits stage (by cases stage <;> simp [Stage.all])

/-! ## nothing waits for ever -/

/-- A settled domain in which every stage waits. -/
structure Resting (c : Core) : Prop where
  orderly : c.Orderly
  settled : c.Settled
  waits : ∀ stage, c.Waits stage
  inbound : c.inbound.head = none → c.inbound.queue = []

/-- What the channels of a port store is known once nothing is presented. -/
theorem Resting.port (h : c.Resting) {tag : UInt8} {p : Port} (hport : c.crossbar.port? tag = some p) :
    (p.sink.peek = none → p.sink.contents = [] ∧ p.sink.ready = true) ∧
      (p.source.peek = none → p.source.contents = [] ∧ p.source.ready = true) := by
  obtain ⟨hsink, hsource⟩ := h.settled.ports p (List.mem_of_find?_eq_some hport)
  obtain ⟨hsinkRoom, hsourceRoom⟩ := Crossbar.room_of_port?
    (fun n hn => h.orderly.roomy n (List.mem_append_right _ hn)) hport
  constructor <;> intro hpeek
  · have hnil := hsink.contents_eq_nil hpeek
    exact ⟨hnil, hsink.ready hsinkRoom hnil⟩
  · have hnil := hsource.contents_eq_nil hpeek
    exact ⟨hnil, hsource.ready hsourceRoom hnil⟩

/-- A port that holds the grant has a beat to send: its user is not idle within a packet. -/
theorem Resting.grant_eq_none (h : c.Resting) (hleaving : c.leaving.ready = true) :
    c.crossbar.grant = none := by
  obtain ⟨-, -, hgranted⟩ : c.crossbar.Waits c.arriving.peek c.leaving.ready := h.waits .crossbar
  cases hgrant : c.crossbar.grant with
  | none => rfl
  | some tag =>
      exfalso
      have hmem := h.orderly.wired.known tag hgrant
      rw [h.orderly.wired.tags] at hmem
      obtain ⟨p, hport⟩ := h.orderly.wired.exists_port tag hmem
      obtain ⟨hnil, hready⟩ := (h.port hport).1 (hgranted tag p hgrant hport hleaving)
      have hsink : c.crossbar.sinkOf tag = [] := by
        rw [Crossbar.sinkOf, hport]
        exact hnil
      have hwithin : c.crossbar.within tag = true := by simp [Crossbar.within, hgrant]
      obtain rfl | rfl : tag = c.etherboneTag ∨ tag = c.tlpTag := by simpa using hmem
      · have hidle := (h.waits .responder p hport hready).1
        simpa [hsink, hwithin] using h.orderly.whole.answers hidle
      · have hidle := (h.waits .serializer p hport hready).1
        simpa [hsink, hwithin] using h.orderly.whole.packets hidle

/-- Behind a link that has taken every word nothing is on its way to it. -/
theorem Resting.outbound_half (h : c.Resting) (houtbound : c.outbound.queue = []) :
    c.leaving.contents = [] ∧ c.crossbar.grant = none ∧ c.framer.isIdle = true ∧
      ∀ p ∈ c.crossbar.ports, p.sink.contents = [] ∧ p.sink.ready = true := by
  have hroom : 0 < c.outbound.capacity - 1 := h.orderly.roomy _ (by simp [sizes])
  have hready : c.outbound.ready = true := by
    simpa [CrossFifo.ready, h.settled.outbound, houtbound] using hroom
  have hleaving : c.leaving.contents = [] :=
    h.settled.leaving.contents_eq_nil (h.waits .framer hready)
  have hgrant : c.crossbar.grant = none :=
    h.grant_eq_none (h.settled.leaving.ready (h.orderly.roomy _ (by simp [sizes])) hleaving)
  obtain ⟨-, hungranted, -⟩ : c.crossbar.Waits c.arriving.peek c.leaving.ready := h.waits .crossbar
  refine ⟨hleaving, hgrant, ?_, fun p hp => ?_⟩
  · simpa [hleaving] using h.orderly.whole.leaving hgrant
  · exact (h.port (Crossbar.port?_of_mem h.orderly.wired.nodup hp)).1 (hungranted hgrant p hp)

/-- Behind ports with nothing to send, nothing is on its way to them. -/
theorem Resting.users (h : c.Resting)
    (hsinks : ∀ p ∈ c.crossbar.ports, p.sink.contents = [] ∧ p.sink.ready = true) :
    (c.serializer.isIdle = true ∧ c.up.contents = [] ∧ c.endpoint.outbound = []) ∧
    (c.down.contents = [] ∧ c.interrupts.contents = [] ∧ c.bus.isIdle = true ∧
      c.responder.response = []) ∧
    ∀ p ∈ c.crossbar.ports, p.source.contents = [] ∧ p.source.ready = true := by
  have hroomy {n : Nat} (hn : n ∈ c.sizes) : 0 < n := h.orderly.roomy n hn
  obtain ⟨etherbone, hetherbone⟩ := h.orderly.wired.exists_port c.etherboneTag (by simp)
  obtain ⟨tlp, htlp⟩ := h.orderly.wired.exists_port c.tlpTag (by simp)
  obtain ⟨hresponse, hrequests⟩ := h.waits .responder etherbone hetherbone
    (hsinks _ (List.mem_of_find?_eq_some hetherbone)).2
  obtain ⟨hphase, hcomplete, hup⟩ := h.waits .serializer tlp htlp
    (hsinks _ (List.mem_of_find?_eq_some htlp)).2
  have hup := h.settled.up.contents_eq_nil hup
  obtain ⟨hdown, hinterrupts, houtbound⟩ := h.waits .endpoint
  have houtbound := houtbound (h.settled.up.ready (hroomy (by simp [sizes])) hup)
  have hdown := h.settled.down.contents_eq_nil hdown
  have hinterrupts := h.settled.interrupts.contents_eq_nil hinterrupts
  have htlps := h.waits .deserializer tlp htlp
    (h.settled.down.ready (hroomy (by simp [sizes])) hdown)
  have hbus := h.waits .bus (h.settled.interrupts.ready (hroomy (by simp [sizes])) hinterrupts)
  refine ⟨⟨?_, hup, houtbound⟩, ⟨hdown, hinterrupts, hbus, hresponse⟩, fun p hp => ?_⟩
  · -- an overlong TLP is skipped only until it ends, and one that is not whole yet is on its way
    obtain ⟨hskipping, hunfinished⟩ : c.serializer.skipping = false ∧
        unfinished Beat.last false c.serializer.buffer = false := by
      simpa [hup, houtbound, Tlp.Serializer.begun] using h.orderly.whole.completions
    have hbuffer : c.serializer.buffer = [] := by
      by_contra hne
      have hcount : c.serializer.buffer.countP Beat.last = 0 :=
        h.orderly.measured.complete_eq ▸ hcomplete
      rw [unfinished_of_countP hne hcount] at hunfinished
      contradiction
    simp [Tlp.Serializer.isIdle, hphase, hbuffer, hskipping]
  · have hport := Crossbar.port?_of_mem h.orderly.wired.nodup hp
    have hmem := Crossbar.mem_tags_of_port? hport
    refine (h.port hport).2 ?_
    obtain htag | htag : p.tag = c.etherboneTag ∨ p.tag = c.tlpTag := by
      simpa [h.orderly.wired.tags] using hmem
    · rw [Crossbar.eq_of_port? h.orderly.wired.nodup hetherbone hp htag]
      exact hrequests
    · rw [Crossbar.eq_of_port? h.orderly.wired.nodup htlp hp htag]
      exact htlps

/-- Behind users with nothing to take, nothing is on its way to them. -/
theorem Resting.inbound_half (h : c.Resting) (hdown : c.down.contents = [])
    (hsources : ∀ p ∈ c.crossbar.ports, p.source.contents = [] ∧ p.source.ready = true) :
    c.arriving.contents = [] ∧ c.crossbar.route = none ∧ c.deframer.isIdle = true ∧
      c.inbound.contents = [] ∧ c.responder.request = #[] ∧ c.deserializer.low = none ∧
      c.endpoint.inbound = #[] := by
  obtain ⟨hinbound, -, -⟩ : c.crossbar.Waits c.arriving.peek c.leaving.ready := h.waits .crossbar
  have hpeek : c.arriving.peek = none := by
    by_contra hne
    obtain ⟨beat, hbeat⟩ := Option.ne_none_iff_exists'.mp hne
    obtain ⟨tag, hroute, hfull⟩ := hinbound beat hbeat
    have hmem := h.orderly.routed tag hroute
    rw [h.orderly.wired.tags] at hmem
    obtain ⟨p, hport⟩ := h.orderly.wired.exists_port tag hmem
    have hready := (hsources p (List.mem_of_find?_eq_some hport)).2
    rw [hfull p hport] at hready
    contradiction
  have harriving := h.settled.arriving.contents_eq_nil hpeek
  obtain ⟨hphase, hword⟩ := h.waits .deframer
    (h.settled.arriving.ready (h.orderly.roomy _ (by simp [sizes])) harriving)
  have hhead : c.inbound.head = none := by
    simpa [CrossFifo.peek, h.settled.inbound] using hword
  have hroute : c.crossbar.route = none := by
    simpa [harriving, hphase, Deframer.Phase.owed] using h.orderly.whole.arriving
  have hsource {tag : UInt8} (htag : tag ∈ [c.etherboneTag, c.tlpTag]) :
      c.crossbar.sourceOf tag = [] := by
    obtain ⟨p, hport⟩ := h.orderly.wired.exists_port tag htag
    rw [Crossbar.sourceOf, hport]
    exact (hsources p (List.mem_of_find?_eq_some hport)).1
  have hrequests := h.orderly.whole.requests
  have htlps := h.orderly.whole.tlps
  simp only [Crossbar.Continues, hroute, hsource, hdown, List.mem_cons, true_or, or_true,
    unfinished_nil, reduceCtorEq, imp_false, Bool.or_eq_true, not_or] at hrequests htlps
  refine ⟨harriving, hroute, (Deframer.isIdle_iff _).mpr hphase, ?_, ?_, ?_, ?_⟩
  · rw [CrossFifo.contents, hhead, h.inbound hhead]
    rfl
  · simpa using hrequests
  · simpa using htlps.1
  · simpa using htlps.2

/-- **Once the link has taken every word, nothing is under way.** -/
theorem Resting.isIdle (h : c.Resting) (houtbound : c.outbound.queue = []) : c.isIdle = true := by
  obtain ⟨hleaving, hgrant, hframer, hsinks⟩ := h.outbound_half houtbound
  obtain ⟨⟨hserializer, hup, houtbound'⟩, ⟨hdown, hinterrupts, hbus, hresponse⟩, hsources⟩ :=
    h.users hsinks
  obtain ⟨harriving, hroute, hdeframer, hinbound, hrequest, hlow, hcollected⟩ :=
    h.inbound_half hdown hsources
  obtain ⟨hhead, hqueue⟩ : c.inbound.head = none ∧ c.inbound.queue = [] := by
    simpa [CrossFifo.contents] using hinbound
  have hports : c.crossbar.ports.all Port.isIdle = true := by
    rw [List.all_eq_true]
    intro p hp
    simp [Port.isIdle, Channel.isEmpty_of_contents, hsinks p hp, hsources p hp]
  have hcrossbar : c.crossbar.isIdle = true := by simp [Crossbar.isIdle, hgrant, hroute, hports]
  have hdeserializer : c.deserializer.isIdle = true := by simp [Tlp.Deserializer.isIdle, hlow]
  have hendpoint : c.endpoint.isIdle = true := by
    simp [Tlp.Endpoint.isIdle, hcollected, houtbound']
  have hresponder : c.responder.isIdle = true := by
    simp [Etherbone.Responder.isIdle, hrequest, hresponse]
  simp [Core.isIdle, CrossFifo.readerEmpty, CrossFifo.writerEmpty, Channel.isEmpty_of_contents,
    hhead, hqueue, houtbound, hdeframer, harriving, hcrossbar, hleaving, hframer, hdeserializer,
    hdown, hserializer, hup, hendpoint, hinterrupts, hbus, hresponder]

end Core

end LinkBridge

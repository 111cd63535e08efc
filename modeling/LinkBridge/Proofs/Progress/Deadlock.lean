import LinkBridge.Proofs.Progress.Link
import LinkBridge.Proofs.System.Fresh
import LinkBridge.Proofs.System.Held
import LinkBridge.Proofs.System.Reachable

/-!
# LinkBridge.Proofs.Progress.Deadlock

The bridge never deadlocks. Whatever has happened to it, once the host stops writing and takes what
it is sent, every tick of the bridge makes it lighter until none does; then no stage and neither
direction of the link has anything left to do (`Served.isIdle`).
-/

namespace LinkBridge

namespace Core

variable {c : Core}

/-! ## ticks one after the other -/

/-- No stage ends a tick of the link. -/
theorem step_link (c : Core) (stage : Stage) :
    (c.step stage).inbound.pushed = c.inbound.pushed ∧
      (c.step stage).outbound.popped = c.outbound.popped := by
  cases stage with
  | deframer => exact ⟨CrossFifo.pushed_drain _ _, rfl⟩
  | framer => exact ⟨rfl, CrossFifo.popped_fill _ _⟩
  | crossbar | bus | endpoint => exact ⟨rfl, rfl⟩
  | deserializer | serializer | responder =>
      simp only [step, stepDeserializer, stepSerializer, stepResponder]
      split <;> exact ⟨rfl, rfl⟩

theorem tick_link (c : Core) :
    c.tick.inbound.pushed = c.inbound.pushed ∧ c.tick.outbound.popped = c.outbound.popped := by
  have hstages (stages : List Stage) (c : Core) :
      (stages.foldl step c).inbound.pushed = c.inbound.pushed ∧
        (stages.foldl step c).outbound.popped = c.outbound.popped := by
    induction stages generalizing c with
    | nil => exact ⟨rfl, rfl⟩
    | cons stage stages ih =>
        obtain ⟨hpushed, hpopped⟩ := c.step_link stage
        exact ⟨(ih _).1.trans hpushed, (ih _).2.trans hpopped⟩
  obtain ⟨hpushed, hpopped⟩ := hstages Stage.all c
  exact ⟨(CrossFifo.pushed_commitReader _).trans hpushed, hpopped⟩

theorem ticks_link (c : Core) (n : Nat) :
    (Nat.repeat tick n c).inbound.pushed = c.inbound.pushed ∧
      (Nat.repeat tick n c).outbound.popped = c.outbound.popped := by
  induction n with
  | zero => exact ⟨rfl, rfl⟩
  | succ n ih =>
      obtain ⟨hpushed, hpopped⟩ := tick_link (Nat.repeat tick n c)
      exact ⟨hpushed.trans ih.1, hpopped.trans ih.2⟩

theorem settled_ticks (c : Core) {n : Nat} (h : 0 < n) : (Nat.repeat tick n c).Settled := by
  cases n with
  | zero => contradiction
  | succ n => exact settled_commit _

theorem Orderly.ticks (h : c.Orderly) (n : Nat) : (Nat.repeat Core.tick n c).Orderly := by
  induction n with
  | zero => exact h
  | succ n ih => exact ih.tick

/-- **Ticks of a settled domain work off the load, or change nothing but totals.** -/
theorem Orderly.ticks_works (h : c.Orderly) (hsettled : c.Settled) (n : Nat) :
    c.Works (Nat.repeat Core.tick n c)
      (0 < n → (∀ stage, c.Waits stage) ∧ (c.inbound.head = none → c.inbound.queue = [])) := by
  induction n with
  | zero => exact .inr ⟨⟨c.counters, rfl⟩, nofun⟩
  | succ n ih =>
      have hsettled' : (Nat.repeat Core.tick n c).Settled := by
        cases n with
        | zero => exact hsettled
        | succ n => exact settled_commit _
      have htick := (h.ticks n).tick_works hsettled'
      rw [Nat.repeat]
      obtain hlighter | ⟨⟨counters, hsame⟩, -⟩ := ih
      · exact .inl fun ahead => (htick.load_le ahead).trans_lt (hlighter ahead)
      · rw [hsame] at htick ⊢
        obtain hlighter | ⟨hcounters, hwaits, hempty⟩ := htick
        · exact .inl hlighter
        · refine .inr ⟨hcounters, fun _ => ⟨fun stage => ?_, hempty⟩⟩
          exact (c.waits_counters counters stage).mp (hwaits stage)

end Core

namespace Bridge

variable {b : Bridge}

/-! ## a bridge that is served -/

/-- One tick of a bridge whose host takes what it is sent. -/
def serve (b : Bridge) : Bridge :=
  b.tick.modifyHost (·.drain)

theorem serve_eq (b : Bridge) : b.serve = { b.linkTick with
    host := b.linkTick.host.drain
    core := Nat.repeat Core.tick b.ratio b.linkTick.core
    ticks := b.ticks + 1 } := by
  rw [serve, tick, advance, repeat_coreTick]
  rfl

/-- Serving a bridge are incidents like others. -/
theorem iterate_serve (b : Bridge) (n : Nat) :
    serve^[n] b = b.undergo (List.replicate n [.tick, .drain]).flatten := by
  induction n generalizing b with
  | zero => rfl
  | succ n ih =>
      rw [Function.iterate_succ_apply, ih, List.replicate_succ, List.flatten_cons]
      rfl

/-- What is true of a bridge at all times. -/
structure Live (b : Bridge) : Prop where
  core : b.core.Orderly
  host : 0 < b.host.capacity
  ratio : 0 < b.ratio

/-- What is true of a bridge that is served, between two ticks. -/
structure Served (b : Bridge) : Prop where
  live : b.Live
  settled : b.core.Settled
  inbound : b.core.inbound.pushed = false
  outbound : b.core.outbound.popped = false
  unpaused : b.host.paused = false
  drained : b.host.fromDevice = #[]

/-- A tick of the link leaves the domain in order. -/
theorem linkTick_orderly (h : b.core.Orderly) : b.linkTick.core.Orderly where
  wired := linkTick_wired h.wired
  measured := h.measured
  routed := h.routed
  roomy := by
    have hsizes : b.linkTick.core.sizes = b.core.sizes := by simp [linkTick_eq, Core.sizes]
    rw [hsizes]
    exact h.roomy
  whole := { h.whole with }

theorem linkTick_live (h : b.Live) : b.linkTick.Live where
  core := linkTick_orderly h.core
  host := by
    obtain ⟨hcapacity, -⟩ := b.bus.tick_settings b.host b.core.outbound.peek b.core.inbound.ready
    rw [linkTick_eq, linkMove, hcapacity]
    exact h.host
  ratio := h.ratio

/-- **A tick leaves a bridge served** whose host is not paused. -/
theorem Live.serve (h : b.Live) (hpaused : b.host.paused = false) : b.serve.Served := by
  obtain ⟨-, hunpaused⟩ := b.bus.tick_settings b.host b.core.outbound.peek b.core.inbound.ready
  obtain ⟨hpushed, hpopped⟩ := b.linkTick.core.ticks_link b.ratio
  have hlive := linkTick_live h
  rw [serve_eq]
  exact
    { live := ⟨hlive.core.ticks b.ratio, hlive.host, h.ratio⟩
      settled := Core.settled_ticks _ h.ratio
      inbound := hpushed
      outbound := hpopped.trans (CrossFifo.popped_commitReader _)
      unpaused := hunpaused.trans hpaused
      drained := rfl }

/-- A tick of a bridge on which nothing moves, neither on the link nor in the domain. -/
structure Still (b : Bridge) : Prop where
  moves : b.bus.moves b.host b.core.outbound.peek b.core.inbound.ready = false
  core : ∃ counters, b.serve.core = { b.core with counters }
  host : b.serve.host = b.host
  bus : b.serve.bus =
    Link.Bus.turned b.host b.core.outbound.peek b.core.inbound.ready b.bus
  resting : b.core.Resting
  outbound : b.core.outbound.head = none → b.core.outbound.queue = []

theorem linkTick_settled (h : b.core.Settled) : b.linkTick.core.Settled :=
  { h with
    inbound := (CrossFifo.popped_fill _ _).trans h.inbound
    outbound := (CrossFifo.pushed_commitReader _).trans
      ((CrossFifo.pushed_drain _ _).trans h.outbound) }

/-- **A tick of a served bridge makes it lighter, or nothing moves.** -/
theorem Served.serve_load (h : b.Served) : b.serve.load < b.load ∨ b.Still := by
  have hworks := (linkTick_orderly h.live.core).ticks_works (linkTick_settled h.settled) b.ratio
  have hload : b.serve.load ≤ b.linkTick.load := by
    rw [serve_eq]
    exact hworks.load_le _
  obtain hlighter | ⟨⟨htaken, hsent⟩, hcore, hempty⟩ := b.linkTick_load h.live.core.wired.outbound
  · exact .inl (hload.trans_lt hlighter)
  · have hinbound : b.core.inbound.commitWriter = b.core.inbound := by
      rw [CrossFifo.commitWriter, ← h.inbound]
    have houtbound : { b.core.outbound with popped := false } = b.core.outbound := by
      rw [← h.outbound]
    have hsame : b.linkTick.core = b.core := by rw [hcore, hinbound, houtbound]
    have hhost : b.linkTick.host = b.host := Link.Bus.tick_still htaken hsent
    rw [hsame] at hworks
    obtain hlighter | ⟨⟨counters, hcounters⟩, hwaits⟩ := hworks
    · refine .inl ?_
      rw [serve_eq, hhost, hsame]
      exact hlighter _
    · refine .inr ?_
      obtain ⟨hwaits, hqueue⟩ := hwaits h.live.ratio
      exact
        { moves := Link.Bus.moves_eq_false htaken hsent
          core := ⟨counters, by rw [serve_eq, hsame]; exact hcounters⟩
          host := by
            rw [serve_eq, hhost, Link.Host.drain, ← h.drained]
          bus := by
            rw [serve_eq]
            rfl
          resting := ⟨h.live.core, h.settled, hwaits, hqueue⟩
          outbound := hempty }

/-! ## nothing waits for ever -/

/-- A bridge that never gets lighter stays as it is, apart from totals and the windows of the bus. -/
theorem Served.iterate_still (h : b.Served) (hrest : ∀ k, ¬ (serve^[k] b).load < b.load) (k : Nat) :
    (serve^[k] b).Served ∧ (serve^[k] b).Still ∧ (serve^[k] b).host = b.host ∧
      (∃ counters, (serve^[k] b).core = { b.core with counters }) ∧
      (serve^[k] b).bus =
        (Link.Bus.turned b.host b.core.outbound.peek b.core.inbound.ready)^[k] b.bus := by
  induction k with
  | zero =>
      exact ⟨h, h.serve_load.resolve_left (hrest 1), rfl, ⟨b.core.counters, rfl⟩, rfl⟩
  | succ k ih =>
      obtain ⟨hserved, hstill, hhost, ⟨counters, hcore⟩, hbus⟩ := ih
      have hnext := hserved.live.serve hserved.unpaused
      obtain ⟨counters', hcore'⟩ := hstill.core
      rw [Function.iterate_succ_apply', Function.iterate_succ_apply']
      have hhost' : (serve^[k] b).serve.host = b.host := hstill.host.trans hhost
      have hcore'' : (serve^[k] b).serve.core = { b.core with counters := counters' } := by
        rw [hcore', hcore]
      have hload : (serve^[k] b).serve.load = b.load := by
        rw [load, hhost', hcore'']
        rfl
      refine ⟨hnext, ?_, hhost', ⟨counters', hcore''⟩, ?_⟩
      · refine hnext.serve_load.resolve_left ?_
        rw [hload, ← Function.iterate_succ_apply' serve, ← Function.iterate_succ_apply' serve]
        exact hrest (k + 2)
      · rw [hstill.bus, hhost, hcore, hbus]

/-- **A bridge that never gets lighter has nothing under way.** -/
theorem Served.isIdle (h : b.Served) (hrest : ∀ k, ¬ (serve^[k] b).load < b.load) :
    b.isIdle = true := by
  have hnone : ¬ ((b.host.hasRoom && b.core.outbound.peek.isSome) = true ∨
      (b.host.hasWord && b.core.inbound.ready) = true) := by
    intro hpending
    obtain ⟨k, hmoves⟩ := Link.Bus.exists_moves hpending b.bus
    obtain ⟨-, hstill, hhost, ⟨counters, hcore⟩, hbus⟩ := h.iterate_still hrest k
    have hstays := hstill.moves
    rw [hhost, hcore, hbus] at hstays
    exact absurd (hstays.symm.trans hmoves) nofun
  obtain ⟨htransmit, hreceive⟩ := not_or.mp hnone
  have hstill : b.Still := (h.iterate_still hrest 0).2.1
  have hroom : b.host.hasRoom = true := by
    simpa [Link.Host.hasRoom, h.unpaused, h.drained] using h.live.host
  have hhead : b.core.outbound.head = none := by
    simpa [hroom, CrossFifo.peek, h.outbound] using htransmit
  have houtbound := hstill.outbound hhead
  have hcore := hstill.resting.isIdle houtbound
  -- with nothing under way there is room for a word, so the host has none
  obtain ⟨⟨hinbound, -⟩, -⟩ := Core.idle_parts hcore
  have hready : b.core.inbound.ready = true := by
    have hcapacity : 0 < b.core.inbound.capacity - 1 :=
      h.live.core.roomy _ (by simp [Core.sizes])
    have hqueue := (List.append_eq_nil_iff.mp hinbound).2
    simpa [CrossFifo.ready, h.inbound, hqueue] using hcapacity
  have hdevice : b.host.toDevice.isEmpty = true := by
    simpa [hready, Link.Host.hasWord] using hreceive
  simp [Bridge.isIdle, linkIdle, hdevice, CrossFifo.readerEmpty, hhead, houtbound, hcore]

theorem Served.iterate (h : b.Served) (k : Nat) :
    (serve^[k] b).Served ∧ (serve^[k] b).load ≤ b.load := by
  induction k with
  | zero => exact ⟨h, le_refl _⟩
  | succ k ih =>
      obtain ⟨hserved, hle⟩ := ih
      rw [Function.iterate_succ_apply']
      refine ⟨hserved.live.serve hserved.unpaused, ?_⟩
      obtain hlighter | hstill := hserved.serve_load
      · exact hlighter.le.trans hle
      · obtain ⟨counters, hcore⟩ := hstill.core
        rw [load, hstill.host, hcore]
        exact hle

/-- **A bridge that is served has nothing under way in the end, and it stays so.** -/
theorem Served.eventually_idle (h : b.Served) :
    ∃ N, ∀ n, N ≤ n → (serve^[n] b).isIdle = true := by
  induction hload : b.load using WellFoundedLT.induction generalizing b with
  | _ load ih =>
      by_cases hlighter : ∃ k, (serve^[k] b).load < b.load
      · obtain ⟨k, hlighter⟩ := hlighter
        obtain ⟨N, hidle⟩ := ih _ (hload ▸ hlighter) (h.iterate k).1 rfl
        refine ⟨N + k, fun n hn => ?_⟩
        have hsplit : serve^[n] b = serve^[n - k] (serve^[k] b) := by
          rw [← Function.iterate_add_apply, Nat.sub_add_cancel (by omega)]
        rw [hsplit]
        exact hidle (n - k) (by omega)
      · refine ⟨0, fun n _ => ?_⟩
        obtain ⟨hserved, hle⟩ := h.iterate n
        refine hserved.isIdle fun k hk => hlighter ⟨k + n, ?_⟩
        rw [Function.iterate_add_apply]
        exact hk.trans_le hle

/-- A bridge that is in order has nothing under way in the end, once its host neither writes nor
pauses and takes what it is sent. -/
theorem Live.eventually_idle (h : b.Live) (hpaused : b.host.paused = false) :
    ∃ N, ∀ n, N ≤ n → (Bridge.serve^[n] b).isIdle = true := by
  obtain ⟨N, hidle⟩ := (h.serve hpaused).eventually_idle
  refine ⟨N + 1, fun n hn => ?_⟩
  obtain ⟨k, rfl⟩ := Nat.exists_eq_add_of_le hn
  rw [show N + 1 + k = (N + k) + 1 by omega, Function.iterate_succ_apply]
  exact hidle (N + k) (by omega)

/-! ## whatever has happened -/

theorem Live.tick (h : b.Live) : b.tick.Live := by
  have hlive := linkTick_live h
  rw [Bridge.tick, advance, repeat_coreTick]
  exact ⟨hlive.core.ticks b.ratio, hlive.host, h.ratio⟩

/-- TLPs that are added to those on their way to the host are whole, and their lengths fit. -/
theorem Live.modifyEndpoint (h : b.Live) (f : Tlp.Endpoint → Tlp.Endpoint)
    (more : List (List Tlp.Beat))
    (hinbound : (f b.core.endpoint).inbound = b.core.endpoint.inbound)
    (houtbound : (f b.core.endpoint).outbound = b.core.endpoint.outbound ++ more.flatten)
    (hmore : ∀ tlp ∈ more, Tlp.Serializer.Sendable b.core.serializer.depth tlp) :
    (b.modifyEndpoint f).Live where
  core :=
    { wired := { h.core.wired with }
      measured := by
        rw [Core.Measured, Bridge.modifyEndpoint, houtbound, ← List.append_assoc]
        exact Tlp.Serializer.Measured.append h.core.measured hmore
      routed := h.core.routed
      roomy := h.core.roomy
      whole := { h.core.whole with
        tlps := by
          have htlps := h.core.whole.tlps
          rw [← hinbound] at htlps
          exact htlps
        completions := by
          have hcompletions := h.core.whole.completions
          have hwhole : unfinished Tlp.Beat.last false more.flatten = false := by
            rw [← List.flatMap_id]
            refine unfinished_flatMap fun tlp htlp => ?_
            obtain ⟨⟨init, final, rfl, -, hfinal⟩, -⟩ := hmore tlp htlp
            simp [hfinal]
          simp only [Bridge.modifyEndpoint, houtbound, ← List.append_assoc]
          rw [unfinished_append, hcompletions, hwhole] } }
  host := h.host
  ratio := h.ratio

theorem Live.modifyBus (h : b.Live) (f : Wishbone.Bus → Wishbone.Bus)
    (hblank : (f b.core.bus).blank = b.core.bus.blank) : (b.modifyBus f).Live where
  core :=
    { wired := { h.core.wired with
        controllers := (Wishbone.Bus.kinds_congr hblank).symm ▸ h.core.wired.controllers }
      measured := h.core.measured
      routed := h.core.routed
      roomy := h.core.roomy
      whole := { h.core.whole with } }
  host := h.host
  ratio := h.ratio

/-- **No incident puts a bridge out of order**, unless it is a TLP too long to be counted. -/
theorem Live.meet (h : b.Live) (incident : Incident) (hlength : ∀ r, incident = .inject r →
    r.toBeats.length ≤ b.core.serializer.depth → r.toDwords.length < UInt32.size) :
    (b.meet incident).Live := by
  cases incident with
  | tick => exact h.tick
  | linkTick => exact linkTick_live h
  | coreTick => exact ⟨h.core.tick, h.host, h.ratio⟩
  | write words => exact ⟨h.core, h.host, h.ratio⟩
  | drain => exact ⟨h.core, h.host, h.ratio⟩
  | pause paused => exact ⟨h.core, h.host, h.ratio⟩
  | resetLink => exact ⟨h.core, h.host, h.ratio⟩
  | resetCore => exact ⟨h.core.reset, h.host, h.ratio⟩
  | inject r =>
      refine h.modifyEndpoint (·.inject r) [r.toBeats] rfl (by simp [Tlp.Endpoint.inject]) ?_
      refine List.forall_mem_singleton.mpr ?_
      exact Tlp.Serializer.sendable_ofDwords r.toDwords_ne_nil (hlength r rfl)
  | writeMemory address w =>
      exact h.modifyEndpoint (·.writeMemory address w) [] rfl (List.append_nil _).symm
        (List.forall_mem_nil _)
  | clearReceived =>
      exact h.modifyEndpoint (·.clearReceived) [] rfl (List.append_nil _).symm
        (List.forall_mem_nil _)
  | clearVectors =>
      exact h.modifyEndpoint (·.clearVectors) [] rfl (List.append_nil _).symm
        (List.forall_mem_nil _)
  | readBus address =>
      exact h.modifyBus (fun bus => (bus.read address).2) (b.core.bus.blank_read address)
  | writeBus address w =>
      exact h.modifyBus (fun bus => (bus.write address w).2) (b.core.bus.blank_write address w)
  | writeBusBlock address ws =>
      exact h.modifyBus (fun bus => (bus.writeBlock address ws).2)
        (b.core.bus.blank_writeBlock address ws)

theorem Live.undergo (h : b.Live) {incidents : List Incident}
    (hlengths : ∀ r, .inject r ∈ incidents → r.toBeats.length ≤ b.core.serializer.depth →
      r.toDwords.length < UInt32.size) : (b.undergo incidents).Live := by
  induction incidents generalizing b with
  | nil => exact h
  | cons incident incidents ih =>
      refine ih (h.meet incident fun r hr => hlengths r (hr ▸ List.mem_cons_self)) fun r hr => ?_
      rw [depth_meet h.core.wired]
      exact hlengths r (List.mem_cons_of_mem _ hr)

/-- The bridge of a checked configuration is in order, if the timer of the deframer is on. -/
theorem live_ofConfig {config : Config} (hb : ofConfig config = .ok b)
    (hon : 0 < config.core.frameTimeout) : b.Live := by
  have hfresh := fresh_ofConfig hb
  obtain ⟨-, -, hidle⟩ := isIdle_parts hfresh.idle
  obtain ⟨layout, hcheck, rfl⟩ := exists_layout hb
  obtain ⟨-, -, hratio, -⟩ := Config.check_ok hcheck
  refine ⟨hfresh.wired.orderly (fun n hn => ?_) hidle, ?_, Nat.pos_of_ne_zero hratio⟩
  · simp [assemble, Core.assemble, Core.sizes, Crossbar.rooms, Port.empty, Channel.empty,
      CrossFifo.empty] at hn
    omega
  · show 0 < max _ 1
    omega

/-- **The bridge never deadlocks.** Whatever has happened, once the host neither writes nor pauses and
takes what it is sent, nothing is under way in the end. The TLPs that were injected may have any
length, but a word must be able to hold the number of dwords of those that fit. -/
theorem never_deadlocks {config : Config} (hb : ofConfig config = .ok b)
    (hon : 0 < config.core.frameTimeout) {incidents : List Incident}
    (hlengths : ∀ r, .inject r ∈ incidents → r.toBeats.length ≤ config.tlp.fifoDepth →
      r.toDwords.length < UInt32.size) :
    ∃ N, ∀ n, N ≤ n →
      (serve^[n] ((b.undergo incidents).modifyHost (·.pause false))).isIdle = true := by
  obtain ⟨-, -, -, -, hdepth⟩ := settings_ofConfig hb
  have hlive := (live_ofConfig hb hon).undergo (hdepth ▸ hlengths)
  have hresumed : ((b.undergo incidents).modifyHost (·.pause false)).Live :=
    ⟨hlive.core, hlive.host, hlive.ratio⟩
  exact hresumed.eventually_idle rfl

/-- A domain that is reset within a frame goes on with what the host has sent. -/
theorem never_deadlocks_truncated :
    let b := assemble {} defaultLayout
    let incidents : List Incident :=
      [.pause true, .write (readFrame.take 4), .tick, .tick, .resetCore, .inject (.memRead 0 1 16)]
    ofConfig {} = .ok b ∧ 0 < ({} : Config).core.frameTimeout ∧
      (∀ r, .inject r ∈ incidents → r.toBeats.length ≤ ({} : Config).tlp.fifoDepth →
        r.toDwords.length < UInt32.size) ∧
      ∃ N, ∀ n, N ≤ n →
        (serve^[n] ((b.undergo incidents).modifyHost (·.pause false))).isIdle = true := by
  intro b incidents
  have hb : ofConfig {} = .ok b := rfl
  have hon : 0 < ({} : Config).core.frameTimeout := by decide
  have hlengths : ∀ r, .inject r ∈ incidents → r.toBeats.length ≤ ({} : Config).tlp.fifoDepth →
      r.toDwords.length < UInt32.size := by
    intro r hr _
    obtain rfl : r = .memRead 0 1 16 := by simpa [incidents] using hr
    decide
  exact ⟨hb, hon, hlengths, never_deadlocks hb hon hlengths⟩

/-- **Not every bridge comes to rest.** A TLP of `2 ^ 32` dwords fits into the buffer of this one, and
what is left of it behind the end of its packet stays there. Nor does every checked configuration
lead to a bridge. -/
theorem not_every_injected_leaves :
    let config : Config := { tlp := { fifoDepth := 0x80000000, autoComplete := false } }
    let r : Tlp.Record := .memWrite 0 1 16 (List.replicate 0xFFFFFFFD 0)
    (∃ b, ofConfig config = .ok b ∧ 0 < config.core.frameTimeout ∧
      ∀ n, (serve^[n] ((b.undergo [.inject r]).modifyHost (·.pause false))).isIdle = false) ∧
    (∃ layout, ({ tlp := { fifoDepth := Storage.maxBytes } } : Config).check = .ok layout) ∧
      ∀ a, ∃ s, construct a { tlp := { fifoDepth := Storage.maxBytes } } =
        .error (.exhausted s) := by
  intro config r
  have hlength : r.toDwords.length = 0x100000000 := by
    show (r.header.encode ++ List.replicate 0xFFFFFFFD 0).length = 0x100000000
    rw [List.length_append, Tlp.Header.length_encode, List.length_replicate]
    rfl
  have hlong : Tlp.Serializer.Unsendable config.tlp.fifoDepth r.toBeats :=
    r.unsendable_toBeats (Nat.le_of_eq (congrArg (fun n => (n + 1) / 2) hlength))
      (Nat.le_of_eq hlength.symm)
  have hb (tlp : Config.Tlp) (h : 1 ≤ tlp.fifoDepth) :
      ofConfig { tlp } = .ok (assemble { tlp } defaultLayout) := by
    rw [ofConfig, check_default tlp h]
    rfl
  refine ⟨⟨_, hb _ (by decide), by decide, fun n => ?_⟩, ⟨_, check_default _ (by decide)⟩,
    fun a => ?_⟩
  · let incidents : List Incident := .pause false :: (List.replicate n [.tick, .drain]).flatten
    have hserved : serve^[n] (((assemble config defaultLayout).undergo [.inject r]).modifyHost
        (·.pause false)) = (assemble config defaultLayout).undergo (.inject r :: incidents) :=
      iterate_serve _ n
    rw [hserved]
    exact isIdle_undergo_inject defaultLayout rfl hlong (by simp [incidents])
      (by simp [incidents])
  · let s : Storage := { items := Storage.maxBytes, itemBytes := Tlp.Beat.storedBytes }
    have hs : s ∈ (assemble { tlp := { fifoDepth := Storage.maxBytes } } defaultLayout).storages :=
      List.mem_append_left _ (List.mem_append_right _ (.tail _ (.tail _ (.head _))))
    exact exists_construct_exhausted a (hb _ (by decide)) hs (by decide)

/-- Without the timer a bridge waits for the rest of a frame. -/
example : (serve^[30] ((assemble { core := { frameTimeout := 0 } } defaultLayout).undergo
    [.write (readFrame.take 4)])).isIdle = false := by
  decide +kernel

end Bridge

end LinkBridge

import LinkBridge.Proofs.Progress.Deadlock
import LinkBridge.Proofs.System.Supply

/-!
# LinkBridge.Proofs.System.Finished

Idle means finished. A bridge in which nothing is under way stays so whatever its clocks do, and all
that changes is how many ticks there were and what the bus does with its windows
(`Poised.iterate_tick`). Every component does nothing where nothing is presented to it and it holds
nothing, so every stage leaves the domain as it is; that no queue hides an item from a stage is what
a bridge has to be *poised* for, and every bridge is between two ticks.

Main statement: `idle_is_finished`.
-/

namespace LinkBridge

/-! ## components -/

theorem Channel.peek_of_contents {α : Type} {c : Channel α} (h : c.contents = []) :
    c.peek = none := by
  obtain ⟨hqueue, -⟩ := List.append_eq_nil_iff.mp h
  simp [peek, hqueue]

theorem CrossFifo.peek_of_contents {α : Type} {q : CrossFifo α} (h : q.contents = []) :
    q.peek = none := by
  obtain ⟨hhead, -⟩ : q.head = none ∧ q.queue = [] := by simpa [contents] using h
  simp [peek, hhead]

/-- Nothing is there to be presented at the end of the reader's tick. -/
theorem CrossFifo.commitReader_of_contents {α : Type} {q : CrossFifo α} (h : q.contents = [])
    (hpopped : q.popped = false) : q.commitReader = q := by
  obtain ⟨hhead, hqueue⟩ : q.head = none ∧ q.queue = [] := by simpa [contents] using h
  obtain ⟨capacity, queue, head, pushed, popped, writerOpen, readerOpen⟩ := q
  cases readerOpen <;> simp_all [commitReader]

/-- A component that does nothing where nothing is presented to it leaves its queues alone. -/
theorem Transfer.between_still {S T α β σ : Type} [Source S α] [Sink T β]
    {component : Option α → Bool → Transfer σ β} {s : σ} (source : S) (sink : T)
    (hpeek : Source.peek source = none) (hstill : ∀ ready, component none ready = { next := s }) :
    Transfer.between component source sink = ({ next := s }, source, sink) := by
  simp only [between, hpeek, hstill, drain, fill, Bool.false_eq_true, if_false]

/-! A component that holds nothing does nothing where nothing is presented to it. -/

theorem Deframer.tick_of_isIdle {d : Deframer} (h : d.isIdle = true) (ready : Bool) :
    d.tick none ready = { next := d } := by
  simp only [tick, (isIdle_iff d).mp h]

theorem Framer.tick_of_isIdle {f : Framer} (h : f.isIdle = true) (ready : Bool) :
    f.tick none ready = { next := f } := by
  simp only [tick, (isIdle_iff f).mp h]

theorem Crossbar.tick_of_isIdle {x : Crossbar} (h : x.isIdle = true) (ready : Bool) :
    x.tick none ready = { next := x } := by
  simp only [isIdle, Bool.and_eq_true, List.all_eq_true, Option.isNone_iff_eq_none] at h
  obtain ⟨⟨hgrant, -⟩, hports⟩ := h
  have hround : x.rotation.find? (·.1.sink.peek.isSome) = none := by
    rw [List.find?_eq_none]
    intro s hs
    obtain ⟨hsink, -⟩ := Bool.and_eq_true_iff.mp (hports s.1 (mem_of_mem_rotation hs))
    simp [Channel.peek_of_contents (Channel.contents_of_isEmpty hsink)]
  simp only [tick, arbitrate, chooseGrant, sendGranted, hgrant, hround, dispatch]
  rfl

theorem Tlp.Serializer.tick_of_isIdle {s : Serializer} (hs : s.Sound) (h : s.isIdle = true)
    (ready : Bool) : s.tick none ready = { next := s } := by
  simp only [isIdle, Bool.and_eq_true, decide_eq_true_eq, List.isEmpty_iff, Bool.not_eq_true'] at h
  obtain ⟨⟨hphase, hbuffer⟩, hskipping⟩ := h
  have hcomplete : s.complete = 0 := by simpa [hbuffer] using hs.complete
  have hstart : s.start = s := by simp [start, hphase, hcomplete]
  have hsend : s.send ready = { next := s } := by simp only [send, hstart, hphase]
  have hdepth := hs.depth
  have hroom : s.overflowing = false := by
    simpa [overflowing, hphase, hcomplete, level, hbuffer] using hdepth.ne'
  simp only [tick, hsend, store, hskipping, hroom, Bool.false_eq_true, if_false]
  rfl

theorem Tlp.Endpoint.tick_of_isIdle {e : Endpoint} (h : e.isIdle = true) (ready : Bool) :
    e.tick none none ready = { next := e, taken := true } := by
  obtain ⟨-, houtbound⟩ : e.inbound.isEmpty = true ∧ e.outbound = [] := by
    simpa [isIdle] using h
  obtain ⟨autoComplete, completerId, inbound, outbound, memory, received, vectors⟩ := e
  obtain rfl : outbound = [] := houtbound
  cases ready <;> rfl

theorem Etherbone.Responder.tick_of_isIdle {r : Responder} (h : r.isIdle = true)
    (bus : Wishbone.Bus) (ready : Bool) : r.tick bus none ready = { next := (r, bus) } := by
  simp only [isIdle, Bool.and_eq_true, List.isEmpty_iff] at h
  simp only [tick, h.2]

/-! ## the domain -/

namespace Core

variable {c : Core}

/-- A domain between two ticks, with nothing under way. -/
structure Finished (c : Core) : Prop where
  wired : c.Wired
  settled : c.Settled
  idle : c.isIdle = true

theorem Finished.count (h : c.Finished) (counted : Counters) : (c.count counted).Finished where
  wired := h.wired.count counted
  settled := { h.settled with }
  idle := h.idle

/-- **Where nothing is under way a stage does nothing.** -/
theorem Finished.step_eq (h : c.Finished) (stage : Stage) : c.step stage = c := by
  obtain ⟨⟨hinbound, -, hdeframer, hframer⟩, ⟨hcrossbar, harriving, hleaving⟩,
    ⟨hserializer, -, hendpoint, hdown, hup⟩, ⟨hresponder, hbus, hinterrupts⟩⟩ := idle_parts h.idle
  have hcounters : c.counters + {} = c.counters := c.counters.add_zero
  have hports {p : Port} (hp : p ∈ c.crossbar.ports) : p.source.peek = none := by
    simp only [Crossbar.isIdle, Bool.and_eq_true, List.all_eq_true] at hcrossbar
    obtain ⟨-, hsource⟩ := Bool.and_eq_true_iff.mp (hcrossbar.2 p hp)
    exact Channel.peek_of_contents (Channel.contents_of_isEmpty hsource)
  cases stage with
  | deframer =>
      simp only [step, stepDeframer, Transfer.between_still c.inbound c.arriving
        (CrossFifo.peek_of_contents hinbound) (Deframer.tick_of_isIdle hdeframer), hcounters]
  | crossbar =>
      simp only [step, stepCrossbar, Transfer.between_still c.arriving c.leaving
        (Channel.peek_of_contents harriving) (Crossbar.tick_of_isIdle hcrossbar), hcounters]
  | framer =>
      simp only [step, stepFramer, Transfer.between_still c.leaving c.outbound
        (Channel.peek_of_contents hleaving) (Framer.tick_of_isIdle hframer), hcounters]
  | deserializer =>
      obtain ⟨p, hport⟩ := h.wired.exists_port c.tlpTag (by simp)
      have hpeek := hports (List.mem_of_find?_eq_some hport)
      rw [step, stepDeserializer_eq hport, hpeek]
      simp only [Tlp.Deserializer.tick, Transfer.drain, Transfer.fill, Bool.false_eq_true, if_false,
        hcounters, Crossbar.modifyPort_self h.wired.nodup hport]
  | serializer =>
      obtain ⟨p, hport⟩ := h.wired.exists_port c.tlpTag (by simp)
      rw [step, stepSerializer_eq hport, Channel.peek_of_contents hup]
      simp only [Tlp.Serializer.tick_of_isIdle h.wired.sound hserializer, Transfer.drain,
        Transfer.fill, Bool.false_eq_true, if_false, hcounters,
        Crossbar.modifyPort_self h.wired.nodup hport]
  | responder =>
      obtain ⟨p, hport⟩ := h.wired.exists_port c.etherboneTag (by simp)
      have hpeek := hports (List.mem_of_find?_eq_some hport)
      rw [step, stepResponder_eq hport, hpeek]
      simp only [Etherbone.Responder.tick_of_isIdle hresponder, Transfer.drain, Transfer.fill,
        Bool.false_eq_true, if_false, hcounters, Crossbar.modifyPort_self h.wired.nodup hport]
  | bus =>
      simp only [step, stepBus, Wishbone.Bus.tick_of_isIdle hbus, Transfer.fill, hcounters]
  | endpoint =>
      have hkeep {α : Type} (q : Channel α) (hnil : q.contents = []) : q.take = q := by
        simp [Channel.take, Channel.peek_of_contents hnil]
      simp only [step, stepEndpoint, Channel.peek_of_contents hdown,
        Channel.peek_of_contents hinterrupts, Tlp.Endpoint.tick_of_isIdle hendpoint, Transfer.fill,
        Transfer.drain, if_true, Source.take, hkeep _ hdown, hkeep _ hinterrupts, hcounters]

/-- **Where nothing is under way a tick only counts itself.** -/
theorem Finished.tick_eq (h : c.Finished) : c.tick = c.count { systemTicks := 1 } := by
  have hstages (stages : List Stage) : stages.foldl step c = c := by
    induction stages with
    | nil => rfl
    | cons stage stages ih => rw [List.foldl_cons, h.step_eq stage, ih]
  obtain ⟨⟨hinbound, -⟩, -⟩ := idle_parts h.idle
  rw [tick, hstages, (h.count _).settled.commit_eq]
  show { c.count { systemTicks := 1 } with inbound := c.inbound.commitReader } = _
  rw [CrossFifo.commitReader_of_contents hinbound h.settled.inbound]
  rfl

theorem Finished.ticks_eq (h : c.Finished) (n : Nat) :
    Nat.repeat Core.tick n c = c.count { systemTicks := n } := by
  induction n with
  | zero => exact (congrArg (fun counters => { c with counters }) c.counters.add_zero).symm
  | succ n ih =>
      rw [Nat.repeat, ih, (h.count _).tick_eq, Core.count, Core.count, Core.count,
        Counters.add_assoc]
      rfl

/-- A domain that is reset is settled. -/
theorem Settled.reset (h : c.Settled) : c.reset.Settled where
  inbound := h.inbound
  outbound := h.outbound
  arriving := ⟨rfl, rfl⟩
  leaving := ⟨rfl, rfl⟩
  down := ⟨rfl, rfl⟩
  up := ⟨rfl, rfl⟩
  interrupts := ⟨rfl, rfl⟩
  ports := fun p hp => by
    obtain ⟨q, -, rfl⟩ := List.mem_map.mp hp
    exact ⟨⟨rfl, rfl⟩, ⟨rfl, rfl⟩⟩

end Core

/-! ## the bus -/

/-- The bus after a tick on which neither direction has work. -/
def Link.Bus.idled (b : Bus) : Bus :=
  match b.phase with
  | .receive => b.enter .receive 0
  | .receiveToTransmit => b.enter .transmit b.dwell
  | .transmit => b.enter .transmit 0
  | .transmitToReceive => b.enter .receive b.dwell

/-- Without words a tick of the bus moves none. -/
theorem Link.Bus.tick_of_toDevice {host : Host} (h : host.toDevice = []) (b : Bus) (room : Bool) :
    b.tick host none room = { next := (b.idled, host), counted := { linkTicks := 1 } } := by
  cases hphase : b.phase <;> simp [tick, idled, hphase, Host.hasWord, h, dwelt]

/-- No tick changes the limits of the windows. -/
theorem Link.Bus.limits_idled (b : Bus) :
    b.idled.readWindow.limit = b.readWindow.limit ∧
      b.idled.writeWindow.limit = b.writeWindow.limit := by
  have htick (w : Window) (held : Bool) : (w.tick held).limit = w.limit := by
    cases held <;> rfl
  unfold idled
  split <;> exact ⟨htick _ _, htick _ _⟩

namespace Bridge

variable {b b' : Bridge}

/-! ## between two ticks -/

/-- A bridge between two ticks: its stages are wired together and nothing happened to a queue. -/
structure Poised (b : Bridge) : Prop where
  wired : b.core.Wired
  settled : b.core.Settled
  inbound : b.core.inbound.pushed = false
  outbound : b.core.outbound.popped = false

theorem Poised.linkTick (h : b.Poised) : b.linkTick.Poised where
  wired := linkTick_wired h.wired
  settled := linkTick_settled h.settled
  inbound := rfl
  outbound := CrossFifo.popped_commitReader _

theorem Poised.coreTick (h : b.Poised) : b.coreTick.Poised where
  wired := h.wired.tick
  settled := Core.settled_commit _
  inbound := b.core.tick_link.1.trans h.inbound
  outbound := b.core.tick_link.2.trans h.outbound

theorem Poised.tick (h : b.Poised) : b.tick.Poised := by
  have hticks (n : Nat) : (Nat.repeat Bridge.coreTick n b.linkTick).Poised := by
    induction n with
    | zero => exact h.linkTick
    | succ n ih => exact ih.coreTick
  exact { hticks b.ratio with }

/-- **A bridge is poised after every incident.** -/
theorem Poised.meet (h : b.Poised) (incident : Incident) : (b.meet incident).Poised := by
  have hwired := wired_meet h.wired incident
  cases incident with
  | tick => exact h.tick
  | linkTick => exact h.linkTick
  | coreTick => exact h.coreTick
  | write | drain | pause | resetLink => exact { h with }
  | resetCore => exact ⟨hwired, h.settled.reset, h.inbound, h.outbound⟩
  | inject | writeMemory | clearReceived | clearVectors | readBus | writeBus | writeBusBlock =>
      exact ⟨hwired, { h.settled with }, h.inbound, h.outbound⟩

theorem Poised.undergo (h : b.Poised) (incidents : List Incident) :
    (b.undergo incidents).Poised := by
  induction incidents generalizing b with
  | nil => exact h
  | cons incident incidents ih => exact ih (h.meet incident)

/-- The bridge of a checked configuration is poised. -/
theorem poised_ofConfig {config : Config} (hb : ofConfig config = .ok b) : b.Poised := by
  have hwired := (fresh_ofConfig hb).wired
  obtain ⟨layout, -, rfl⟩ := exists_layout hb
  have hempty {α : Type} (capacity : Nat) : (Channel.empty capacity : Channel α).Committed :=
    ⟨rfl, rfl⟩
  have hports : ∀ p ∈ (assemble config layout).core.crossbar.ports,
      p.sink.Committed ∧ p.source.Committed := by
    simp [assemble, Core.assemble, Port.empty, hempty]
  exact ⟨hwired, ⟨rfl, rfl, hempty _, hempty _, hempty _, hempty _, hempty _, hports⟩, rfl, rfl⟩

/-! ## ticks -/

/-- What `n` ticks of a bridge with nothing under way may change: the bus, apart from the limits of
its windows, and how many ticks there were. -/
structure SameButTicks (b b' : Bridge) (n : Nat) : Prop where
  limits : b'.bus.readWindow.limit = b.bus.readWindow.limit ∧
    b'.bus.writeWindow.limit = b.bus.writeWindow.limit
  eq : b' = { b with
    bus := b'.bus
    linkCounters := b.linkCounters + { linkTicks := n }
    core := { b.core with counters := b.core.counters + { systemTicks := n * b.ratio } }
    ticks := b.ticks + n }

theorem SameButTicks.refl (b : Bridge) : b.SameButTicks b 0 where
  limits := ⟨rfl, rfl⟩
  eq := by
    have hzero (counters : Counters) : counters + {} = counters := counters.add_zero
    rw [Nat.zero_mul]
    show b = { b with
      linkCounters := b.linkCounters + {}
      core := { b.core with counters := b.core.counters + {} } }
    rw [hzero, hzero]

theorem SameButTicks.trans {b'' : Bridge} {m n : Nat} (h : b.SameButTicks b' m)
    (h' : b'.SameButTicks b'' n) : b.SameButTicks b'' (m + n) where
  limits := ⟨h'.limits.1.trans h.limits.1, h'.limits.2.trans h.limits.2⟩
  eq := by
    have hlink : b.linkCounters + { linkTicks := m } + { linkTicks := n } =
        b.linkCounters + { linkTicks := m + n } := Counters.add_assoc ..
    have hcore : b.core.counters + { systemTicks := m * b.ratio } + { systemTicks := n * b.ratio } =
        b.core.counters + { systemTicks := (m + n) * b.ratio } := by
      rw [Nat.add_mul]
      exact Counters.add_assoc ..
    have heq := h'.eq
    rw [h.eq] at heq
    rw [heq]
    simp only [hlink, hcore, Nat.add_assoc]

/-- Where nothing is under way a tick of the link only counts itself and turns the bus. -/
theorem Poised.linkTick_eq (h : b.Poised) (hidle : b.isIdle = true) :
    b.linkTick = { b with
      bus := b.bus.idled, linkCounters := b.linkCounters + { linkTicks := 1 } } := by
  obtain ⟨htoDevice, houtbound, -⟩ := isIdle_parts hidle
  have hmove : b.linkMove = { next := (b.bus.idled, b.host), counted := { linkTicks := 1 } } := by
    rw [linkMove, CrossFifo.peek_of_contents houtbound, Link.Bus.tick_of_toDevice htoDevice]
  have hinbound : b.core.inbound.commitWriter = b.core.inbound := by
    rw [CrossFifo.commitWriter, ← h.inbound]
  rw [Bridge.linkTick_eq, hmove]
  simp only [Transfer.fill, Transfer.drain, Bool.false_eq_true, if_false, hinbound,
    CrossFifo.commitReader_of_contents houtbound h.outbound]

/-- **Where nothing is under way a tick only counts itself and turns the bus.** -/
theorem Poised.tick_eq (h : b.Poised) (hidle : b.isIdle = true) :
    b.tick = { b with
      bus := b.bus.idled
      linkCounters := b.linkCounters + { linkTicks := 1 }
      core := b.core.count { systemTicks := b.ratio }
      ticks := b.ticks + 1 } := by
  have hcore : b.core.Finished := ⟨h.wired, h.settled, (isIdle_parts hidle).2.2⟩
  rw [Bridge.tick, advance, repeat_coreTick, h.linkTick_eq hidle]
  simp only [hcore.ticks_eq]

theorem Poised.tick_same (h : b.Poised) (hidle : b.isIdle = true) : b.SameButTicks b.tick 1 where
  limits := by
    rw [h.tick_eq hidle]
    exact b.bus.limits_idled
  eq := by
    rw [h.tick_eq hidle, Nat.one_mul]
    rfl

theorem SameButTicks.isIdle_eq {n : Nat} (h : b.SameButTicks b' n) : b'.isIdle = b.isIdle := by
  rw [h.eq]
  rfl

/-- **Nothing comes of further ticks once nothing is under way.** -/
theorem Poised.iterate_tick (h : b.Poised) (hidle : b.isIdle = true) (n : Nat) :
    (Bridge.tick^[n] b).Poised ∧ b.SameButTicks (Bridge.tick^[n] b) n := by
  induction n with
  | zero => exact ⟨h, .refl b⟩
  | succ n ih =>
      obtain ⟨hpoised, hsame⟩ := ih
      rw [Function.iterate_succ_apply']
      exact ⟨hpoised.tick, hsame.trans (hpoised.tick_same (hsame.isIdle_eq.trans hidle))⟩

/-! ## runs -/

/-- A stream that is fed to a bridge: the number of ticks, the words that the host did not take, and
the bridge. -/
def streamRun (b : Bridge) (words : List Word) (maxTicks : Nat) : Nat × List Word × Bridge :=
  runUntil streamStep (fun s => s.1.isEmpty && s.2.isIdle) maxTicks 0 (words, b)

theorem runStream_eq_streamRun (b : Bridge) (words : List Word) (maxTicks : Nat) :
    b.runStream words maxTicks =
      ((b.streamRun words maxTicks).1, (b.streamRun words maxTicks).2.2) := by
  refine congrArg (fun step => let r := runUntil step _ maxTicks 0 (words, b); (r.1, r.2.2)) ?_
  funext ⟨words, b⟩
  cases words <;> rfl

/-- What a run is made for: the words for the host, and the TLPs and interrupts at the endpoint. -/
def harvest (b : Bridge) : List Word × List Tlp.Record × List UInt8 :=
  (b.host.sentWords, b.core.endpoint.received, b.core.endpoint.vectors)

/-- A run that is over: more ticks allowed are not used, and nothing comes of further ticks. -/
def Over (run : Nat → Nat × Bridge) (maxTicks : Nat) : Prop :=
  ∀ more, maxTicks ≤ more → run more = run maxTicks ∧
    ∀ n, (Bridge.tick^[n] (run more).2).harvest = (run maxTicks).2.harvest

theorem Poised.over {run : Nat → Nat × Bridge} {maxTicks : Nat} (h : (run maxTicks).2.Poised)
    (hidle : (run maxTicks).2.isIdle = true)
    (hsame : ∀ more, maxTicks ≤ more → run more = run maxTicks) : Over run maxTicks := by
  intro more hle
  refine ⟨hsame more hle, fun n => ?_⟩
  rw [hsame more hle, (h.iterate_tick hidle n).2.eq]
  rfl

theorem Poised.runUntilIdle (h : b.Poised) (maxTicks : Nat) : (b.runUntilIdle maxTicks).2.Poised :=
  runUntil_keeps _ _ (fun _ hs => hs.tick) maxTicks 0 h

theorem Poised.runStream (h : b.Poised) (words : List Word) (maxTicks : Nat) :
    (b.runStream words maxTicks).2.Poised := by
  rw [runStream_eq]
  let P (s : List Word × Bridge) : Prop := s.2.Poised
  have hstep : ∀ s, P s → P (streamStep s) := by
    rintro ⟨words, b⟩ hs
    cases words with
    | nil => exact Poised.tick hs
    | cons w words => exact (Poised.meet hs (.write (w :: words))).tick
  exact runUntil_keeps _ _ hstep maxTicks 0 (show P (words, b) from h)

/-- **Idle means finished.** In whatever state a bridge has nothing under way, it stays so whatever
the number of further ticks, and they change nothing but the windows of the bus and how many ticks
there were. So it makes no difference how many ticks a run may take once it ends with every word fed
and nothing under way. -/
theorem idle_is_finished {config : Config} (hb : ofConfig config = .ok b)
    (incidents : List Incident) :
    let s := b.undergo incidents
    (s.isIdle = true →
      ∀ n, (Bridge.tick^[n] s).isIdle = true ∧ s.SameButTicks (Bridge.tick^[n] s) n) ∧
    (∀ maxTicks, (s.runUntilIdle maxTicks).2.isIdle = true → Over s.runUntilIdle maxTicks) ∧
    ∀ words maxTicks, (s.streamRun words maxTicks).2.1 = [] →
      (s.runStream words maxTicks).2.isIdle = true → Over (s.runStream words) maxTicks := by
  intro s
  have hpoised : s.Poised := (poised_ofConfig hb).undergo incidents
  refine ⟨fun hidle n => ?_, fun maxTicks hidle => ?_, fun words maxTicks hfed hidle => ?_⟩
  · have hsame := (hpoised.iterate_tick hidle n).2
    exact ⟨hsame.isIdle_eq.trans hidle, hsame⟩
  · exact (hpoised.runUntilIdle maxTicks).over hidle fun more hle =>
      runUntil_of_done _ _ hle 0 s hidle
  · refine (hpoised.runStream words maxTicks).over hidle fun more hle => ?_
    rw [runStream_eq_streamRun] at hidle ⊢
    rw [runStream_eq_streamRun]
    have hrun : s.streamRun words more = s.streamRun words maxTicks := by
      refine runUntil_of_done _ _ hle 0 (words, s) ?_
      show ((s.streamRun words maxTicks).2.1.isEmpty && (s.streamRun words maxTicks).2.2.isIdle) = _
      rw [hfed, hidle]
      rfl
    rw [hrun]

/-- A request is fed and answered within 60 ticks, however many more a run may take. -/
theorem idle_is_finished_read :
    let s := (assemble {} defaultLayout).undergo [.writeMemory 16 7, .tick, .resetCore]
    ofConfig {} = .ok (assemble {} defaultLayout) ∧
      ((s.streamRun readFrame 60).2.1.isEmpty && (s.runStream readFrame 60).2.isIdle) = true ∧
      Over (s.runStream readFrame) 60 := by
  have hb : ofConfig {} = .ok (assemble {} defaultLayout) := rfl
  obtain ⟨-, -, hover⟩ := idle_is_finished hb [.writeMemory 16 7, .tick, .resetCore]
  have hdone : ((((assemble {} defaultLayout).undergo
      [.writeMemory 16 7, .tick, .resetCore]).streamRun readFrame 60).2.1.isEmpty &&
      (((assemble {} defaultLayout).undergo
        [.writeMemory 16 7, .tick, .resetCore]).runStream readFrame 60).2.isIdle) = true := by
    decide +kernel
  obtain ⟨hfed, hidle⟩ := Bool.and_eq_true_iff.mp hdone
  exact ⟨hb, hdone, hover readFrame 60 (List.isEmpty_iff.mp hfed) hidle⟩

end Bridge

end LinkBridge

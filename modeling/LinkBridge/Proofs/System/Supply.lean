import LinkBridge.Proofs.Link.Starvation
import LinkBridge.Proofs.Progress.Queues
import LinkBridge.Proofs.System.Outcome
import LinkBridge.Proofs.System.Threaded

/-!
# LinkBridge.Proofs.System.Supply

How long the deframer waits for a word that is on its way. The bus may be busy with device words for
a whole transmit window and two turnarounds, a word needs a tick to be presented, and every tick of
the link takes as many system ticks as the ratio of the clocks says. Together this is less than
`ratio * (writeTime + 3)`, so a timeout of that length never abandons a frame whose words have all
been written (`Supplied`).

Main statement: a stream of complete frames causes no timeout (`runStream_frameTimeouts`).
-/

namespace LinkBridge

open LinkBridge.Frame (position)

namespace CrossFifo

variable {α : Type}

/-- The end of the reader's tick presents an item if there is one. -/
theorem contents_eq_nil_of_commitReader {q : CrossFifo α} (hopen : q.readerOpen = true)
    (h : q.commitReader.head = none) : q.commitReader.contents = [] := by
  unfold commitReader at h ⊢
  split
  · next hnone =>
    rw [if_pos hnone] at h
    have hqueue : q.queue = [] := List.head?_eq_none_iff.mp h
    simp [contents, hqueue]
  · next hnone =>
    rw [if_neg hnone] at h
    simp_all

/-- Taking an item leaves the items behind it. -/
theorem queue_drain {β σ : Type} (t : Transfer σ β) (q : CrossFifo α) :
    (t.drain q).queue = q.queue := by
  show (if t.taken then q.take else q).queue = q.queue
  unfold take
  repeat' split
  all_goals rfl

/-- What is put into a queue is not presented yet. -/
theorem head_fill {σ : Type} (t : Transfer σ α) (q : CrossFifo α) : (t.fill q).head = q.head := by
  unfold Transfer.fill
  cases t.sent with
  | none => rfl
  | some item => exact q.head_push item

theorem queue_fill {σ : Type} (t : Transfer σ α) {q : CrossFifo α} (hopen : q.IsOpen)
    (hready : t.sent.isSome = true → q.ready = true) :
    (t.fill q).queue = q.queue ++ t.sent.toList := by
  have hcontents : (t.fill q).contents = q.contents ++ t.sent.toList :=
    t.contents_fill q hopen hready
  rw [contents, contents, head_fill, List.append_assoc] at hcontents
  exact List.append_cancel_left hcontents

end CrossFifo

/-- The bus turns to transmit in a receive window. -/
theorem Link.Bus.receive_of_turned {b : Link.Bus} {host : Link.Host} {word : Option Word}
    {room : Bool} (h : (b.tick host word room).next.1.phase = .receiveToTransmit) :
    b.phase = .receive := by
  cases hphase : b.phase with
  | receive => rfl
  | receiveToTransmit => simp [tick_receiveToTransmit hphase, enter] at h
  | transmitToReceive => simp [tick_transmitToReceive hphase, enter] at h
  | transmit =>
      rw [tick_transmit hphase, enter] at h
      simp only at h
      split at h <;> contradiction

namespace Deframer.History

/-! ## a deframer that is supplied in time -/

/-- Why a frame whose words have all been written is not abandoned, with `left` system ticks to go
until the next tick of the link: `q` is the inbound queue and `rest` are the words in front of the
bus. -/
structure Supplied (readTime writeTime ratio left : Nat) (r : History) (q : CrossFifo Word)
    (bus : Link.Bus) (rest : List Word) : Prop where
  faithful : r.Faithful
  timeout : ratio * (writeTime + 3) ≤ r.now.timeout
  /-- All words of every frame have been written. -/
  whole : position (r.current ++ (q.contents ++ rest)) = .outside
  period : left ≤ ratio
  isOpen : q.IsOpen
  settled : q.pushed = false ∧ q.popped = false
  room : 1 < q.capacity
  paced : bus.Paced readTime writeTime
  /-- The wait for the next receive window. -/
  awaited : r.now.phase.inFrame = true → q.contents = [] →
    r.silent + left + ratio * bus.receiveRank + 2 ≤ ratio * (writeTime + 3)
  /-- The wait for a word that has arrived. -/
  presented : r.now.phase.inFrame = true → q.head = none → r.silent + 2 ≤ r.now.timeout
  /-- A receive window ends with a word in the queue. -/
  turning : bus.phase = .receiveToTransmit → left = ratio → rest = [] ∨ q.queue ≠ []
  turned : bus.phase = .receiveToTransmit → left + 1 = ratio → rest = [] ∨ q.contents ≠ []

section

variable {readTime writeTime ratio left : Nat} {r : History} {q : CrossFifo Word} {bus : Link.Bus}
  {rest : List Word}

/-- Within a frame there are words to come. -/
theorem Supplied.words_ne_nil (h : Supplied readTime writeTime ratio left r q bus rest)
    (hframe : r.now.phase.inFrame = true) : q.contents ++ rest ≠ [] := by
  intro hnil
  have hwhole := h.whole
  rw [hnil, List.append_nil] at hwhole
  exact h.faithful.position.ne_outside hframe hwhole

/-- A system tick that does not stall leaves all the time there is. -/
theorem budget_of_turned (hleft : left < ratio) (hpos : 1 ≤ writeTime)
    (hpaced : bus.Paced readTime writeTime)
    (hturned : bus.phase = .receiveToTransmit → left + 1 ≠ ratio) :
    left + ratio * bus.receiveRank + 2 ≤ ratio * (writeTime + 3) := by
  have hlimit := hpaced.writeLimit
  have hremaining := hpaced.writeRemaining
  by_cases hphase : bus.phase = .receiveToTransmit
  · have hrank : bus.receiveRank = writeTime + 2 := by simp [Link.Bus.receiveRank, hphase, hlimit]
    have hsplit : ratio * (writeTime + 3) = ratio * (writeTime + 2) + ratio := Nat.mul_succ ..
    have hlate := hturned hphase
    rw [hrank]
    omega
  · have hrank : bus.receiveRank ≤ writeTime + 1 := by
      unfold Link.Bus.receiveRank
      cases hbus : bus.phase with
      | receiveToTransmit => contradiction
      | receive | transmitToReceive | transmit => simp only; omega
    have hmul := Nat.mul_le_mul_left ratio hrank
    have hsplit : ratio * (writeTime + 3) = ratio * (writeTime + 1) + ratio * 2 :=
      Nat.mul_add ratio (writeTime + 1) 2
    omega

/-- **A system tick uses up time, or a word arrives and all the time is there again.** -/
theorem Supplied.tick (h : Supplied readTime writeTime ratio (left + 1) r q bus rest)
    (hpos : 1 ≤ writeTime) (ready : Bool) :
    (r.tick q.peek ready).cut = r.cut ∧
      Supplied readTime writeTime ratio left (r.tick q.peek ready)
        ((r.now.tick q.peek ready).drain q).commitReader bus rest := by
  set t := r.now.tick q.peek ready
  set q' := (t.drain q).commitReader
  have hopen : q'.IsOpen := by simp [q', h.isOpen]
  have hcontents : q.contents = (if t.taken then q.peek.toList else []) ++ q'.contents := by
    rw [CrossFifo.contents_commitReader]
    exact Transfer.contents_eq_drain t q
  have hhead : q.peek = q.head := by simp [CrossFifo.peek, h.settled.2]
  have hperiod := h.period
  have htimeout := h.timeout
  -- the timer is far enough from its end
  have hab : r.now.abandons q.peek ready = false := by
    cases hab : r.now.abandons q.peek ready with
    | false => rfl
    | true =>
        obtain ⟨-, hstalls, hsilent⟩ := (abandons_iff_silent h.faithful).mp hab
        obtain ⟨hframe, hnone⟩ : r.now.phase.inFrame = true ∧ q.peek = none := by
          simpa [stalls] using hstalls
        have := h.presented hframe (hhead.symm.trans hnone)
        omega
  have hcut : (r.tick q.peek ready).cut = r.cut := by simp [History.tick, hab]
  have hcurrent : (r.tick q.peek ready).current =
      r.current ++ if t.taken then q.peek.toList else [] := by
    simp [History.tick, hab, t]
  have hwhole : position ((r.tick q.peek ready).current ++ (q'.contents ++ rest)) = .outside := by
    rw [hcurrent, List.append_assoc, ← List.append_assoc _ q'.contents, ← hcontents]
    exact h.whole
  have hfaithful := faithful_tick h.faithful q.peek ready
  have hsettings : (r.tick q.peek ready).now.timeout = r.now.timeout :=
    (tick_settings r.now q.peek ready).1
  have hturned : bus.phase = .receiveToTransmit → left + 1 = ratio → rest = [] ∨ q'.contents ≠ [] := by
    intro hphase hlast
    refine (h.turning hphase hlast).imp_right fun hqueue hnil => hqueue ?_
    have hqueue' : (t.drain q).contents = [] := by rwa [CrossFifo.contents_commitReader] at hnil
    rw [← CrossFifo.queue_drain t q]
    exact (List.append_eq_nil_iff.mp hqueue').2
  have hawaited : (r.tick q.peek ready).now.phase.inFrame = true → q'.contents = [] →
      (r.tick q.peek ready).silent + left + ratio * bus.receiveRank + 2 ≤
        ratio * (writeTime + 3) := by
    intro hframe hnil
    cases hstalls : r.now.stalls q.peek with
    | true =>
        obtain ⟨hframe', hnone⟩ : r.now.phase.inFrame = true ∧ q.peek = none := by
          simpa [stalls] using hstalls
        have hsilent : (r.tick q.peek ready).silent = r.silent + 1 := by simp [History.tick, hstalls]
        have hbefore := h.awaited hframe' (by rw [hcontents, hnil, hnone]; simp)
        omega
    | false =>
        have hsilent : (r.tick q.peek ready).silent = 0 := by simp [History.tick, hstalls]
        rw [hsilent, Nat.zero_add]
        refine budget_of_turned (by omega) hpos h.paced fun hphase hlast => ?_
        obtain hrest | hne := hturned hphase hlast
        · rw [hnil, hrest, List.append_nil, List.append_nil] at hwhole
          exact hfaithful.position.ne_outside hframe hwhole
        · exact hne hnil
  refine ⟨hcut, ?_⟩
  exact
    { faithful := hfaithful
      timeout := hsettings.symm ▸ h.timeout
      whole := hwhole
      period := by omega
      isOpen := hopen
      settled := ⟨by rw [CrossFifo.pushed_commitReader, CrossFifo.pushed_drain, h.settled.1],
        CrossFifo.popped_commitReader _⟩
      room := by simpa [q'] using h.room
      paced := h.paced
      awaited := hawaited
      presented := fun hframe hnone => by
        have hreader := ((CrossFifo.isOpen_drain t q).mpr h.isOpen).2
        have hnil := CrossFifo.contents_eq_nil_of_commitReader hreader hnone
        have := hawaited hframe hnil
        rw [hsettings]
        omega
      turning := fun _ hfirst => by omega
      turned := hturned }

/-- **A tick of the link brings a word or the next receive window nearer.** -/
theorem Supplied.linkTick {host : Link.Host} {unfed : List Word}
    (h : Supplied readTime writeTime ratio 0 r q bus (host.toDevice ++ unfed))
    (hpos : 1 ≤ writeTime) (hfed : host.toDevice = [] → unfed = []) (word : Option Word) :
    let m := bus.tick host word q.ready
    Supplied readTime writeTime ratio ratio r (m.fill q).commitWriter m.next.1
      (m.next.2.toDevice ++ unfed) := by
  intro m
  have hmoves : Link.Bus.Moves host word q.ready m := Link.Bus.tick_moves ..
  have hcontents : (m.fill q).commitWriter.contents = q.contents ++ m.sent.toList :=
    m.contents_fill q h.isOpen hmoves.room
  have hready : q.ready = decide (q.queue.length < q.capacity - 1) := by
    simp [CrossFifo.ready, h.settled.1]
  have hroom := h.room
  have htimeout := h.timeout
  have hpending (hframe : r.now.phase.inFrame = true) (hnil : q.contents = []) :
      (host.hasWord && q.ready) = true := by
    have hrest := h.words_ne_nil hframe
    rw [hnil, List.nil_append] at hrest
    have hword : host.toDevice ≠ [] := fun hnone => hrest (by rw [hfed hnone, hnone]; rfl)
    have hqueue : q.queue = [] := (List.append_eq_nil_iff.mp hnil).2
    simp [Link.Host.hasWord, hword, hready, hqueue]
    omega
  exact
    { faithful := h.faithful
      timeout := h.timeout
      whole := by
        rw [hcontents, List.append_assoc, ← List.append_assoc m.sent.toList, ← hmoves.toDevice]
        exact h.whole
      period := Nat.le_refl _
      isOpen := (CrossFifo.isOpen_fill m q).mpr h.isOpen
      settled := ⟨rfl, (CrossFifo.popped_fill q m).trans h.settled.2⟩
      room := by simpa using h.room
      paced := h.paced.tick
      awaited := fun hframe hnil => by
        rw [hcontents, List.append_eq_nil_iff] at hnil
        have hsent : m.sent.isSome = false := by simpa using hnil.2
        have hcloser : m.next.1.receiveRank + 1 ≤ bus.receiveRank :=
          h.paced.receiveRank_tick hpos (hpending hframe hnil.1) hsent
        have hbefore := h.awaited hframe hnil.1
        have hmul := Nat.mul_le_mul_left ratio hcloser
        have hsplit : ratio * (m.next.1.receiveRank + 1) = ratio * m.next.1.receiveRank + ratio :=
          Nat.mul_succ ..
        omega
      presented := fun hframe hnone =>
        h.presented hframe ((CrossFifo.head_fill m q).symm.trans hnone)
      turning := fun hphase _ => by
        have hreceive := Link.Bus.receive_of_turned hphase
        have hsent := @Link.Bus.isSome_sent_tick bus host word q.ready
        cases hword : host.hasWord with
        | false =>
            have hnone : host.toDevice = [] := by simpa [Link.Host.hasWord] using hword
            refine .inl ?_
            have htoDevice := hmoves.toDevice
            rw [hnone, List.nil_eq_append_iff] at htoDevice
            rw [htoDevice.2, hfed hnone]
            rfl
        | true =>
            refine .inr fun hnil => ?_
            have hnil' : (m.fill q).queue = [] := hnil
            rw [CrossFifo.queue_fill m h.isOpen hmoves.room, List.append_eq_nil_iff] at hnil'
            have hfull : q.ready = false := by
              have hnone : m.sent = none := by simpa using hnil'.2
              simpa [hreceive, hword, show (bus.tick host word q.ready).sent = none from hnone]
                using hsent
            simp [hready, hnil'.1] at hfull
            omega
      turned := fun _ hlast => by omega }

end

end Deframer.History

namespace Trace

/-! ## traces without a timeout -/

/-- A timeout of a trace is a cut. -/
theorem Tracks.frameTimeouts_eq {c₀ : Core} {t : Trace} {sent : List (UInt8 × PacketBeat)}
    (h : t.Tracks c₀ sent) : t.bridge.counters.frameTimeouts = t.reader.cut.length := by
  have hlink : t.bridge.linkCounters.frameTimeouts = 0 :=
    congrArg Counters.Losses.timeouts h.lossless.losses
  have hcore : t.bridge.core.counters.frameTimeouts = t.reader.cut.length :=
    congrArg Counters.Losses.timeouts h.losses
  show t.bridge.linkCounters.frameTimeouts + t.bridge.core.counters.frameTimeouts = _
  rw [hlink, hcore, Nat.zero_add]

/-- A trace of the domain `c₀` without a timeout, with `left` system ticks to go until the next tick
of the link; `unfed` are the words the host has yet to write. -/
structure Timely (c₀ : Core) (readTime writeTime left : Nat) (unfed : List Word) (t : Trace) :
    Prop where
  tracks : ∃ sent, t.Tracks c₀ sent
  uncut : t.reader.cut = []
  supplied : t.reader.Supplied readTime writeTime t.bridge.ratio left t.bridge.core.inbound
    t.bridge.bus (t.bridge.host.toDevice ++ unfed)
  host : 0 < t.bridge.host.capacity

section

variable {c₀ : Core} {readTime writeTime left : Nat} {unfed : List Word} {t : Trace}

theorem Timely.coreTick (h : t.Timely c₀ readTime writeTime (left + 1) unfed)
    (hpos : 1 ≤ writeTime) : (t.move .coreTick).Timely c₀ readTime writeTime left unfed := by
  obtain ⟨sent, htracks⟩ := h.tracks
  obtain ⟨more, htracks'⟩ := htracks.coreTick
  obtain ⟨hcut, hsupplied⟩ := h.supplied.tick hpos t.bridge.core.arriving.ready
  obtain ⟨-, -, -, -, hinbound, -, -⟩ :=
    Core.tick_advances htracks.wired htracks.measured htracks.calm
  rw [htracks.reader] at hsupplied
  refine ⟨⟨_, htracks'⟩, hcut.trans h.uncut, ?_, h.host⟩
  show Deframer.History.Supplied _ _ _ _ _ t.bridge.core.tick.inbound _ _
  rw [hinbound]
  exact hsupplied

theorem Timely.coreTicks (h : t.Timely c₀ readTime writeTime left unfed) (hpos : 1 ≤ writeTime) :
    (t.play (List.replicate left .coreTick)).Timely c₀ readTime writeTime 0 unfed := by
  induction left generalizing t with
  | zero => exact h
  | succ left ih => exact ih (h.coreTick hpos)

theorem Timely.linkTick (h : t.Timely c₀ readTime writeTime 0 unfed) (hpos : 1 ≤ writeTime)
    (hfed : t.bridge.host.toDevice = [] → unfed = []) :
    (t.move .linkTick).Timely c₀ readTime writeTime t.bridge.ratio unfed := by
  obtain ⟨sent, htracks⟩ := h.tracks
  refine ⟨⟨sent, htracks.linkTick⟩, h.uncut, ?_, ?_⟩
  · exact h.supplied.linkTick hpos hfed t.bridge.core.outbound.peek
  · have hcapacity := (t.bridge.bus.tick_settings t.bridge.host t.bridge.core.outbound.peek
      t.bridge.core.inbound.ready).1
    exact hcapacity.symm ▸ h.host

/-- **A tick of the whole bridge** on which the host has a word to offer if there is one. -/
theorem Timely.tick (h : t.Timely c₀ readTime writeTime 0 unfed) (hpos : 1 ≤ writeTime)
    (hfed : t.bridge.host.toDevice = [] → unfed = []) :
    t.tick.Timely c₀ readTime writeTime 0 unfed := by
  have hcore := (h.linkTick hpos hfed).coreTicks hpos
  have htick : t.tick =
      ((t.move .linkTick).play (List.replicate t.bridge.ratio .coreTick)).move .count := by
    rw [Trace.tick, wholeTick, play_append]
    rfl
  rw [htick]
  obtain ⟨sent, htracks⟩ := hcore.tracks
  exact ⟨⟨sent, { htracks with }⟩, hcore.uncut, hcore.supplied, hcore.host⟩

/-- Feeding the host leaves it with a word to offer. -/
theorem Timely.feed (h : t.Timely c₀ readTime writeTime left unfed) :
    (t.move (.write unfed)).Timely c₀ readTime writeTime left (unfed.drop t.bridge.host.free) ∧
      ((t.move (.write unfed)).bridge.host.toDevice = [] →
        unfed.drop t.bridge.host.free = []) := by
  obtain ⟨sent, htracks⟩ := h.tracks
  obtain ⟨sent', htracks'⟩ := htracks.move (.write unfed)
  refine ⟨⟨⟨sent', htracks'⟩, h.uncut, ?_, h.host⟩, fun hnone => ?_⟩
  · have hrest : t.bridge.host.toDevice ++ unfed.take t.bridge.host.free ++
        unfed.drop t.bridge.host.free = t.bridge.host.toDevice ++ unfed := by
      rw [List.append_assoc, List.take_append_drop]
    show Deframer.History.Supplied _ _ _ _ _ _ _
      (t.bridge.host.toDevice ++ unfed.take t.bridge.host.free ++ unfed.drop t.bridge.host.free)
    rw [hrest]
    exact h.supplied
  · obtain ⟨hempty, htake⟩ := List.append_eq_nil_iff.mp hnone
    have hcapacity := h.host
    have hfree : t.bridge.host.free = t.bridge.host.capacity := by simp [Link.Host.free, hempty]
    have hunfed : unfed = [] := by
      rw [hfree, List.take_eq_nil_iff] at htake
      exact htake.resolve_left (by omega)
    rw [hunfed, List.drop_nil]

theorem Timely.drain (h : t.Timely c₀ readTime writeTime left unfed) :
    (t.move .drain).Timely c₀ readTime writeTime left unfed := by
  obtain ⟨sent, htracks⟩ := h.tracks
  exact ⟨htracks.move .drain, h.uncut, h.supplied, h.host⟩

theorem Timely.frameTimeouts (h : t.Timely c₀ readTime writeTime left unfed) :
    t.bridge.counters.frameTimeouts = 0 := by
  obtain ⟨sent, htracks⟩ := h.tracks
  rw [htracks.frameTimeouts_eq, h.uncut, List.length_nil]

end

end Trace

namespace Bridge

/-- A bridge that is patient enough for the bus is in time for complete frames. -/
theorem timely_start {config : Config} {b : Bridge} (hb : ofConfig config = .ok b)
    (hpatient : config.general.clockRatio * (config.link.writeTime + 3) ≤ config.core.frameTimeout)
    {words : List Word} (hwords : position words = .outside) :
    (Trace.start b).Timely b.core config.link.readTime config.link.writeTime 0 words := by
  have hfresh := fresh_ofConfig hb
  have htracks := hfresh.tracks
  obtain ⟨-, -, htimeout, -, -⟩ := settings_ofConfig hb
  obtain ⟨layout, -, rfl⟩ := exists_layout hb
  refine ⟨⟨[], htracks⟩, rfl, ?_, ?_⟩
  · exact
      { faithful := htracks.faithful
        timeout := htimeout.symm ▸ hpatient
        whole := hwords
        period := Nat.zero_le _
        isOpen := htracks.wired.inbound
        settled := ⟨rfl, rfl⟩
        room := by
          show 1 < max _ 2
          omega
        paced := Link.Bus.paced_ofLimits _ _
        awaited := nofun
        presented := nofun
        turning := nofun
        turned := nofun }
  · show 0 < max _ 1
    omega

/-- What a stream does for each tick: it feeds the host, if there are words left, and ticks. -/
def streamStep : List Word × Bridge → List Word × Bridge
  | ([], b) => ([], b.tick)
  | (w :: words, b) => ((w :: words).drop b.host.free, (b.modifyHost (·.writeWords (w :: words))).tick)

theorem runStream_eq (b : Bridge) (words : List Word) (maxTicks : Nat) :
    (b.runStream words maxTicks).2 =
      (runUntil streamStep (fun s => s.1.isEmpty && s.2.isIdle) maxTicks 0 (words, b)).2.2 := by
  refine congrArg (fun step => (runUntil step _ maxTicks 0 (words, b)).2.2) ?_
  funext ⟨words, b⟩
  cases words <;> rfl

/-- **A busy link causes no timeout.** If the timeout covers a transmit window, two turnarounds and
the tick on which a word is presented, a stream of complete frames is received without one, whatever
is sent meanwhile. -/
theorem runStream_frameTimeouts {config : Config} {b : Bridge} (hb : ofConfig config = .ok b)
    (hpos : 1 ≤ config.link.writeTime)
    (hpatient : config.general.clockRatio * (config.link.writeTime + 3) ≤ config.core.frameTimeout)
    {words : List Word} (hwords : position words = .outside) (maxTicks : Nat) :
    (b.runStream words maxTicks).2.counters.frameTimeouts = 0 := by
  let P (s : List Word × Bridge) : Prop := ∃ t : Trace, t.bridge = s.2 ∧
    t.Timely b.core config.link.readTime config.link.writeTime 0 s.1
  have hstart : P (words, b) := ⟨Trace.start b, rfl, timely_start hb hpatient hwords⟩
  have hstep : ∀ s, P s → P (streamStep s) := by
    rintro ⟨unfed, _⟩ ⟨t, rfl, ht⟩
    cases unfed with
    | nil => exact ⟨t.tick, t.bridge_tick, ht.tick hpos fun _ => rfl⟩
    | cons w unfed =>
        obtain ⟨hfeed, hfed⟩ := ht.feed
        exact ⟨(t.move (.write (w :: unfed))).tick, Trace.bridge_tick _, hfeed.tick hpos hfed⟩
  obtain ⟨t, ht, htimely⟩ :=
    runUntil_keeps _ (fun s => s.1.isEmpty && s.2.isIdle) hstep maxTicks 0 hstart
  rw [runStream_eq, ← ht]
  exact htimely.frameTimeouts

/-- A bridge with the shortest transmit window and the shortest timeout that covers it. -/
def hasty : Config :=
  { link := { fifoDepth := 2, writeTime := 1 }, core := { frameTimeout := 4 } }

/-- Replies compete with requests for the bus. -/
theorem runStream_frameTimeouts_hasty :
    let b := assemble hasty defaultLayout
    let words := readFrame ++ [0, 0] ++ readFrame ++ readFrame
    ofConfig hasty = .ok b ∧ 1 ≤ hasty.link.writeTime ∧
      hasty.general.clockRatio * (hasty.link.writeTime + 3) ≤ hasty.core.frameTimeout ∧
      position words = .outside ∧ (b.runStream words 200).2.counters.frameTimeouts = 0 := by
  intro b words
  have hb : ofConfig hasty = .ok b := rfl
  have hpos : 1 ≤ hasty.link.writeTime := by decide
  have hpatient : hasty.general.clockRatio * (hasty.link.writeTime + 3) ≤
    hasty.core.frameTimeout := by decide
  have hwords : position words = .outside := rfl
  exact ⟨hb, hpos, hpatient, hwords, runStream_frameTimeouts hb hpos hpatient hwords 200⟩

end Bridge

end LinkBridge

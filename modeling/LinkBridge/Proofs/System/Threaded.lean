import LinkBridge.Proofs.System.Outcome

/-!
# LinkBridge.Proofs.System.Threaded

A run in which the two domains tick on threads of their own. The link hands over a token for every
tick, and the system domain evaluates its ticks token by token; the link may run ahead by a bounded
number of tokens. A run *in step* takes one token after the other.

Both runs lead to the same outcome if silence cuts the words in the same places
(`threaded_outcome_eq`). It need not: while the link is ahead, words pile up in front of the queue
between the domains, and the silence that follows can be as long as the link is ahead
(`threaded_outcome_ne`).
-/

namespace LinkBridge

/-! ## ticks of a trace -/

/-- Whether the host writes words. -/
def Action.isWrite : Action → Bool
  | .write _ => true
  | _ => false

namespace Trace

/-- The parts of a tick of the whole bridge. -/
def wholeTick (ratio : Nat) : List Action :=
  .linkTick :: List.replicate ratio .coreTick ++ [.count]

/-- One tick of the whole bridge. -/
def tick (t : Trace) : Trace :=
  t.play (wholeTick t.bridge.ratio)

/-- Ticks until nothing is under way, at most `limit` times. -/
def untilIdle (t : Trace) (limit : Nat) : Trace :=
  (runUntil tick (·.bridge.isIdle) limit 0 t).2

/-- A bridge whose host has written words. -/
def fed (b : Bridge) (words : List Word) : Trace :=
  (start b).move (.write words)

/-- The two domains tick in step. -/
def inStep (b : Bridge) (words : List Word) (linkTicks : Nat) : Trace :=
  Nat.repeat tick linkTicks (fed b words)

theorem play_append (t : Trace) (actions more : List Action) :
    t.play (actions ++ more) = (t.play actions).play more :=
  List.foldl_append

theorem bridge_play_replicate (t : Trace) (n : Nat) :
    (t.play (List.replicate n .coreTick)).bridge = Nat.repeat Bridge.coreTick n t.bridge := by
  induction n with
  | zero => rfl
  | succ n ih =>
      rw [List.replicate_succ', play_append, Nat.repeat, ← ih]
      rfl

/-- A tick of a trace is a tick of its bridge. -/
theorem bridge_tick (t : Trace) : t.tick.bridge = t.bridge.tick := by
  have hcore := bridge_play_replicate (t.move .linkTick) t.bridge.ratio
  have htick : t.tick =
      ((t.move .linkTick).play (List.replicate t.bridge.ratio .coreTick)).move .count := by
    rw [tick, wholeTick, play_append]
    rfl
  have hcount (t : Trace) :
      (t.move .count).bridge = { t.bridge with ticks := t.bridge.ticks + 1 } := rfl
  rw [htick, hcount, hcore]
  rfl

/-- A trace runs until its bridge is idle. -/
theorem bridge_untilIdle (t : Trace) (limit : Nat) :
    (t.untilIdle limit).bridge = (t.bridge.runUntilIdle limit).2 := by
  have hrun (ticks : Nat) (t : Trace) :
      (runUntil tick (·.bridge.isIdle) limit ticks t).2.bridge =
        (runUntil Bridge.tick Bridge.isIdle limit ticks t.bridge).2 := by
    induction limit generalizing ticks t with
    | zero => rfl
    | succ limit ih =>
        rw [runUntil, runUntil]
        split
        · rfl
        · rw [ih, bridge_tick]
  exact hrun 0 t

/-- A trace ticks in step with its bridge. -/
theorem bridge_inStep (b : Bridge) (words : List Word) (linkTicks : Nat) :
    (inStep b words linkTicks).bridge =
      Nat.repeat Bridge.tick linkTicks (b.modifyHost (·.writeWords words)) := by
  induction linkTicks with
  | zero => rfl
  | succ n ih => rw [inStep, Nat.repeat, bridge_tick, Nat.repeat, ← ih, inStep]

/-! ## traces without further words -/

/-- Whether the host has written nothing else since it wrote its words. -/
def Fed (b : Bridge) (words : List Word) (t : Trace) : Prop :=
  ∃ actions, (∀ a ∈ actions, Action.isWrite a = false) ∧ t = (fed b words).play actions

section

variable {b : Bridge} {words : List Word} {t t' : Trace}

theorem fed_fed (b : Bridge) (words : List Word) : Fed b words (fed b words) :=
  ⟨[], nofun, rfl⟩

theorem Fed.play (h : Fed b words t) {actions : List Action}
    (hactions : ∀ a ∈ actions, Action.isWrite a = false) : Fed b words (t.play actions) := by
  obtain ⟨before, hbefore, rfl⟩ := h
  refine ⟨before ++ actions, fun a ha => ?_, (play_append ..).symm⟩
  rcases List.mem_append.mp ha with ha | ha
  · exact hbefore a ha
  · exact hactions a ha

theorem Fed.move (h : Fed b words t) (action : Action) (haction : action.isWrite = false) :
    Fed b words (t.move action) := by
  have hplay : Fed b words (t.play [action]) :=
    h.play fun _ ha => List.mem_singleton.mp ha ▸ haction
  exact hplay

theorem Fed.tick (h : Fed b words t) : Fed b words t.tick := by
  refine h.play fun a ha => ?_
  simp only [wholeTick, List.cons_append, List.mem_cons, List.mem_append, List.mem_replicate,
    List.not_mem_nil, or_false] at ha
  rcases ha with rfl | ⟨-, rfl⟩ | rfl <;> rfl

theorem Fed.untilIdle (h : Fed b words t) (limit : Nat) : Fed b words (t.untilIdle limit) := by
  have hrun (ticks : Nat) (t : Trace) (h : Fed b words t) :
      Fed b words (runUntil Trace.tick (·.bridge.isIdle) limit ticks t).2 := by
    induction limit generalizing ticks t with
    | zero => exact h
    | succ limit ih =>
        rw [runUntil]
        split
        · exact h
        · exact ih _ _ h.tick
  exact hrun 0 t h

theorem fed_inStep (b : Bridge) (words : List Word) (linkTicks : Nat) :
    Fed b words (inStep b words linkTicks) := by
  induction linkTicks with
  | zero => exact fed_fed b words
  | succ n ih => exact ih.tick

/-- The host accepts words only when it writes them. -/
theorem Fed.accepted_eq (h : Fed b words t) : t.accepted = words.take b.host.free := by
  obtain ⟨actions, hactions, rfl⟩ := h
  have hplay (t : Trace) : (t.play actions).accepted = t.accepted := by
    induction actions generalizing t with
    | nil => rfl
    | cons a rest ih =>
        rw [List.forall_mem_cons] at hactions
        have hmove : (t.move a).accepted = t.accepted := by
          cases a with
          | linkTick | coreTick | drain | pause | count => rfl
          | write => exact absurd hactions.1.symm Bool.false_ne_true
        exact (ih hactions.2 (t.move a)).trans hmove
  rw [hplay]
  rfl

/-- What happened to a fresh bridge since its host wrote words. -/
theorem Fed.tracks (h : Fed b words t) (hfresh : b.Fresh) : ∃ sent, t.Tracks b.core sent := by
  obtain ⟨actions, -, rfl⟩ := h
  exact hfresh.tracks.play (.write words :: actions)

theorem Fed.ends (h : Fed b words t) (hfresh : b.Fresh) (hidle : t.bridge.isIdle = true) :
    t.Ends b := by
  obtain ⟨actions, -, rfl⟩ := h
  exact hfresh.ends (.write words :: actions) hidle

/-- **Two runs that are cut in the same places have the same outcome.** -/
theorem Fed.outcome_eq (h : Fed b words t) (h' : Fed b words t') (hfresh : b.Fresh)
    (hidle : t.bridge.isIdle = true) (hidle' : t'.bridge.isIdle = true)
    (hcut : t.reader.cut = t'.reader.cut) : t.outcome = t'.outcome := by
  have hends := h.ends hfresh hidle
  have hends' := h'.ends hfresh hidle'
  obtain ⟨sent, htracks⟩ := h.tracks hfresh
  obtain ⟨sent', htracks'⟩ := h'.tracks hfresh
  have hlimit : t.reader.now.maxPayload = t'.reader.now.maxPayload :=
    htracks.settings.2.trans htracks'.settings.2.symm
  have hconsumed : t.reader.consumed = t'.reader.consumed := by
    rw [← hends.accepted, ← hends'.accepted, h.accepted_eq, h'.accepted_eq]
  have hcurrent : t.reader.current = t'.reader.current := by
    simpa [Deframer.History.consumed, Deframer.History.segments, hcut] using hconsumed
  have hsegments : t.reader.segments = t'.reader.segments := by
    rw [Deframer.History.segments, Deframer.History.segments, hcut, hcurrent]
  have hpackets : t.packets = t'.packets := by
    rw [packets, packets, hsegments, hlimit]
  refine hends.outcome_eq hends' hfresh.wired.distinct hpackets ?_
  rw [Deframer.History.losses, Deframer.History.losses, Deframer.History.findings,
    Deframer.History.findings, hsegments, hlimit, hcut]

end

end Trace

/-! ## threads -/

/-- How many tokens the link may be ahead of the system domain. -/
def tokenSlack : Nat := 64

/-- The two threads with what they have done. -/
structure Threaded where
  trace : Trace
  /-- Ticks of the link domain. -/
  linked : Nat := 0
  /-- Tokens taken by the system domain. -/
  tokens : Nat := 0
  /-- System ticks still to be evaluated for the last token. -/
  owed : Nat := 0

namespace Threaded

/-- What may happen next in a run of `linkTicks` ticks. -/
inductive Step (ratio linkTicks : Nat) : Threaded → Threaded → Prop where
  /-- The link ticks, unless it is too far ahead. -/
  | link (s : Threaded) : s.linked < linkTicks → s.linked ≤ s.tokens + tokenSlack →
      Step ratio linkTicks s { s with trace := s.trace.move .linkTick, linked := s.linked + 1 }
  /-- The system domain takes the token of a tick that is complete. -/
  | token (s : Threaded) : s.owed = 0 → s.tokens < s.linked →
      Step ratio linkTicks s { s with tokens := s.tokens + 1, owed := ratio }
  /-- The system domain ticks. -/
  | core (s : Threaded) (n : Nat) : s.owed = n + 1 →
      Step ratio linkTicks s { s with trace := s.trace.move .coreTick, owed := n }

/-- What may happen sooner or later. -/
inductive Run (ratio linkTicks : Nat) (s : Threaded) : Threaded → Prop where
  | refl : Run ratio linkTicks s s
  | tail {s' s'' : Threaded} :
      Run ratio linkTicks s s' → Step ratio linkTicks s' s'' → Run ratio linkTicks s s''

/-- Whether both threads have come to their end. -/
def IsDone (s : Threaded) (linkTicks : Nat) : Prop :=
  s.linked = linkTicks ∧ s.tokens = linkTicks ∧ s.owed = 0

section

variable {ratio linkTicks : Nat} {s s' s'' : Threaded} {b : Bridge} {words : List Word}

/-- A thread does nothing but tick. -/
theorem Step.fed (h : Step ratio linkTicks s s') (hs : s.trace.Fed b words) :
    s'.trace.Fed b words := by
  cases h with
  | link hlink hslack => exact hs.move .linkTick rfl
  | token howed htoken => exact hs
  | core n howed => exact hs.move .coreTick rfl

/-- So do both together. -/
theorem Run.fed (h : Run ratio linkTicks s s') (hs : s.trace.Fed b words) :
    s'.trace.Fed b words := by
  induction h with
  | refl => exact hs
  | tail _ hstep ih => exact hstep.fed ih

theorem Run.trans (h : Run ratio linkTicks s s') (h' : Run ratio linkTicks s' s'') :
    Run ratio linkTicks s s'' := by
  induction h' with
  | refl => exact h
  | tail _ hstep ih => exact .tail ih hstep

/-- The link ticks before the system domain does. -/
theorem run_link (t : Trace) {n : Nat} (hle : n ≤ linkTicks) (hslack : n ≤ tokenSlack + 1) :
    Run ratio linkTicks { trace := t }
      { trace := t.play (List.replicate n .linkTick), linked := n } := by
  induction n with
  | zero => exact .refl
  | succ n ih =>
      rw [List.replicate_succ', Trace.play_append]
      have hmore : n < linkTicks := hle
      have hahead : n ≤ 0 + tokenSlack := by omega
      exact .tail (ih (by omega) (by omega)) (.link _ hmore hahead)

/-- The system domain evaluates the ticks of a token. -/
theorem run_core (t : Trace) (linked tokens n : Nat) :
    Run ratio linkTicks { trace := t, linked, tokens, owed := n }
      { trace := t.play (List.replicate n .coreTick), linked, tokens } := by
  induction n generalizing t with
  | zero => exact .refl
  | succ n ih => exact Run.trans (.tail .refl (.core _ n rfl)) (ih (t.move .coreTick))

/-- The system domain takes the tokens that are there. -/
theorem run_tokens (t : Trace) {linked n : Nat} (hle : n ≤ linked) :
    Run ratio linkTicks { trace := t, linked }
      { trace := t.play (List.replicate (n * ratio) .coreTick), linked, tokens := n } := by
  induction n with
  | zero =>
      rw [Nat.zero_mul]
      exact .refl
  | succ n ih =>
      rw [Nat.succ_mul, ← List.replicate_append_replicate, Trace.play_append]
      exact Run.trans (.tail (ih (by omega)) (.token _ rfl hle)) (run_core _ linked (n + 1) ratio)

/-- **The link may have ticked for good before the system domain begins.** -/
theorem run_ahead (t : Trace) (hslack : linkTicks ≤ tokenSlack + 1) :
    Run ratio linkTicks { trace := t }
      { trace := (t.play (List.replicate linkTicks .linkTick)).play
          (List.replicate (linkTicks * ratio) .coreTick)
        linked := linkTicks, tokens := linkTicks } :=
  Run.trans (run_link t (Nat.le_refl _) hslack) (run_tokens _ (Nat.le_refl _))

end

/-! ## the two kinds of run -/

/-- **A threaded run has the outcome of a run in step unless silence cuts the words elsewhere.**
For every checked configuration, all words the host has written, every number of ticks and every
order the threads allow: if both runs come to an end with nothing under way, they have the same
outcome when they abandon frames in the same places, which they do when there is no timeout. When
the same packets are left they have the same outcome exactly if they have lost the same, and when
the run in step abandons no frame exactly if the threaded run abandons none either. -/
theorem threaded_outcome_eq {config : Config} {b : Bridge} (h : Bridge.ofConfig config = .ok b)
    (words : List Word) (linkTicks limit limit' : Nat) {s : Threaded}
    (hrun : Run b.ratio linkTicks { trace := .fed b words } s) :
    let threaded := s.trace.untilIdle limit
    let inStep := (Trace.inStep b words linkTicks).untilIdle limit'
    threaded.bridge.isIdle = true → inStep.bridge.isIdle = true →
    (threaded.reader.cut = inStep.reader.cut → threaded.outcome = inStep.outcome) ∧
      (config.core.frameTimeout = 0 → threaded.outcome = inStep.outcome) ∧
      (threaded.packets = inStep.packets →
        (threaded.outcome = inStep.outcome ↔ threaded.reader.losses = inStep.reader.losses)) ∧
      (inStep.bridge.counters.frameTimeouts = 0 →
        (threaded.outcome = inStep.outcome ↔ threaded.bridge.counters.frameTimeouts = 0)) := by
  intro threaded inStep hidle hidle'
  have hfresh := Bridge.fresh_ofConfig h
  obtain ⟨-, -, htimeout, -, -⟩ := Bridge.settings_ofConfig h
  have hthreaded : threaded.Fed b words := (hrun.fed (Trace.fed_fed b words)).untilIdle limit
  have hinStep : inStep.Fed b words := (Trace.fed_inStep b words linkTicks).untilIdle limit'
  have heq : threaded.reader.cut = inStep.reader.cut → threaded.outcome = inStep.outcome :=
    hthreaded.outcome_eq hinStep hfresh hidle hidle'
  have hends := hthreaded.ends hfresh hidle
  have hends' := hinStep.ends hfresh hidle'
  have hcuts := hends.frameTimeouts_eq
  have hcuts' := hends'.frameTimeouts_eq
  have hiff (hpackets : threaded.packets = inStep.packets) :
      threaded.outcome = inStep.outcome ↔ threaded.reader.losses = inStep.reader.losses :=
    ⟨hends.losses_eq hends', hends.outcome_eq hends' hfresh.wired.distinct hpackets⟩
  refine ⟨heq, fun hoff => heq ?_, hiff, fun hnone => ⟨fun hsame => ?_, fun hnone' => heq ?_⟩⟩
  · obtain ⟨sent, htracks⟩ := hthreaded.tracks hfresh
    obtain ⟨sent', htracks'⟩ := hinStep.tracks hfresh
    rw [htracks.uncut (htimeout.trans hoff), htracks'.uncut (htimeout.trans hoff)]
  · have hlosses : threaded.bridge.counters.losses = inStep.bridge.counters.losses :=
      congrArg Outcome.losses hsame
    exact (congrArg Counters.Losses.timeouts hlosses).trans hnone
  · rw [List.length_eq_zero_iff.mp (hcuts.symm.trans hnone'),
      List.length_eq_zero_iff.mp (hcuts'.symm.trans hnone)]

/-- A trace in which the link has ticked for good before the system domain begins. -/
def ahead (b : Bridge) (words : List Word) (linkTicks : Nat) : Threaded where
  trace := ((Trace.fed b words).play (List.replicate linkTicks .linkTick)).play
    (List.replicate (linkTicks * b.ratio) .coreTick)
  linked := linkTicks
  tokens := linkTicks

/-- With a queue that holds a whole frame the link does no harm by being ahead. -/
theorem threaded_outcome_eq_read :
    let b := Bridge.assemble {} Bridge.defaultLayout
    let threaded := (ahead b Bridge.readFrame 20).trace.untilIdle 40
    let inStep := (Trace.inStep b Bridge.readFrame 20).untilIdle 40
    Bridge.ofConfig {} = .ok b ∧
      Run b.ratio 20 { trace := .fed b Bridge.readFrame } (ahead b Bridge.readFrame 20) ∧
      threaded.bridge.isIdle = true ∧ inStep.bridge.isIdle = true ∧
      threaded.outcome = inStep.outcome := by
  intro b threaded inStep
  have hb : Bridge.ofConfig {} = .ok b := rfl
  have hrun : Run b.ratio 20 { trace := .fed b Bridge.readFrame } (ahead b Bridge.readFrame 20) :=
    run_ahead _ (by decide)
  have hidle : threaded.bridge.isIdle = true := by decide +kernel
  have hidle' : inStep.bridge.isIdle = true := by decide +kernel
  have hnone : threaded.bridge.counters.frameTimeouts = 0 := by decide +kernel
  have hnone' : inStep.bridge.counters.frameTimeouts = 0 := by decide +kernel
  obtain ⟨-, -, -, hiff⟩ := threaded_outcome_eq hb Bridge.readFrame 20 40 40 hrun hidle hidle'
  exact ⟨hb, hrun, hidle, hidle', (hiff hnone').mpr hnone⟩

/-- A short queue between the domains and a short timeout. -/
def shallow : Config :=
  { link := { fifoDepth := 2 }, core := { frameTimeout := 8 } }

/-- **A threaded run can lose a frame that a run in step does not lose.** With a queue of two words
and a timeout of eight ticks, one word of the frame is all that the system domain sees of the link
being twenty ticks ahead. -/
theorem threaded_outcome_ne :
    let b := Bridge.assemble shallow Bridge.defaultLayout
    let s := ahead b Bridge.readFrame 20
    let threaded := s.trace.untilIdle 40
    let inStep := (Trace.inStep b Bridge.readFrame 20).untilIdle 40
    Bridge.ofConfig shallow = .ok b ∧
      Run b.ratio 20 { trace := .fed b Bridge.readFrame } s ∧ s.IsDone 20 ∧
      threaded.bridge.isIdle = true ∧ inStep.bridge.isIdle = true ∧
      threaded.hostWords = [] ∧ inStep.hostWords ≠ [] ∧ threaded.outcome ≠ inStep.outcome := by
  intro b s threaded inStep
  have hb : Bridge.ofConfig shallow = .ok b := rfl
  have hrun : Run b.ratio 20 { trace := .fed b Bridge.readFrame } s := run_ahead _ (by decide)
  have hlost : threaded.bridge.counters.losses.timeouts = 1 := by decide +kernel
  have hkept : inStep.bridge.counters.losses.timeouts = 0 := by decide +kernel
  refine ⟨hb, hrun, ⟨rfl, rfl, rfl⟩, by decide +kernel, by decide +kernel, ?_, ?_, fun hsame => ?_⟩
  · exact List.isEmpty_iff.mp (by decide +kernel)
  · exact List.isEmpty_eq_false_iff.mp (by decide +kernel)
  · have hlosses := congrArg (fun o : Outcome => o.losses.timeouts) hsame
    exact absurd (hlost.symm.trans (hlosses.trans hkept)) (by decide)

end Threaded

end LinkBridge

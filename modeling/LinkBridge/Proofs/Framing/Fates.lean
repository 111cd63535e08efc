import LinkBridge.Proofs.Framing.Deframer

/-!
# LinkBridge.Proofs.Framing.Fates

What becomes of the frames the deframer begins. Every frame ends in one of four ways (`Fate`), and
a frame is counted when it ends. Only one beyond the limit is counted earlier, when its length word
is read; when the stream falls silent before its last word, the timer counts it once more.

Main statement: `frames_accounted`. The counters tell how many frames came to which end, and exceed
the number of frames by those that were cut short.
-/

namespace LinkBridge

namespace Deframer

/-! ## how a frame ends -/

/-- How a frame ends. -/
inductive Fate where
  /-- Its packet was passed on. -/
  | delivered
  /-- The stream fell silent within it. -/
  | abandoned
  /-- It was beyond the limit and skipped to its last word. -/
  | skipped
  /-- It was beyond the limit, and the stream fell silent before its last word. -/
  | cutShort
  deriving DecidableEq

/-- How the frame of a phase has ended when the deframer hunts again; `taken` tells whether a word
was its end. -/
def Phase.fate (taken : Bool) : Phase → Option Fate
  | .hunt => none
  | .header .. | .collect .. => some .abandoned
  | .deliver .. => some .delivered
  | .discard .. => some (if taken then .skipped else .cutShort)

/-- How a step of the deframer ends the frame in progress. -/
def ending (d : Deframer) (t : Transfer Deframer PacketBeat) : Option Fate :=
  if t.next.isIdle then d.phase.fate t.taken else none

/-- Whether a word begins a frame. -/
def begins (d : Deframer) (input : Option Word) : Bool :=
  d.isIdle && input == some Frame.preamble

/-- The frames in progress that are not counted yet. -/
def Phase.uncounted : Phase → Nat
  | .header .. | .collect .. | .deliver .. => 1
  | .hunt | .discard .. => 0

/-- The frames in progress that are counted as beyond the limit. -/
def Phase.discarding : Phase → Nat
  | .discard .. => 1
  | .hunt | .header .. | .collect .. | .deliver .. => 0

/-! ## one tick -/

/-- Whether a step counts the frames it begins and ends: one beyond the limit when it is announced,
any other when it ends, and one that is cut short when it ends as well. -/
structure Accounts (d : Deframer) (input : Option Word) (t : Transfer Deframer PacketBeat) :
    Prop where
  frames : t.next.phase.uncounted + t.next.phase.discarding + (d.ending t).toList.length =
    d.phase.uncounted + d.phase.discarding + (d.begins input).toNat
  delivered : t.counted.packetsDeframed = (d.ending t).toList.count .delivered
  timeouts : t.counted.frameTimeouts =
    (d.ending t).toList.count .abandoned + (d.ending t).toList.count .cutShort
  oversize : t.counted.oversizePackets + d.phase.discarding =
    (d.ending t).toList.count .skipped + (d.ending t).toList.count .cutShort +
      t.next.phase.discarding

/-- A tick without a word keeps a frame or gives it up. -/
theorem wait_accounts {d : Deframer} {idle : Nat} {stay : Nat → Phase}
    (hsame : d.Accounts none { next := d })
    (hgone : d.Accounts none { next := d.goto .hunt, counted := { frameTimeouts := 1 } })
    (hlater : d.Accounts none { next := d.goto (stay (idle + 1)) }) :
    d.Accounts none (d.wait idle stay) := by
  unfold wait
  -- the timer is off, runs out, or goes on
  split
  · exact hsame
  · split
    · exact hgone
    · exact hlater

/-- **Every tick accounts for the frames it begins and ends.** -/
theorem tick_accounts {d : Deframer} {pos : Frame.Position} (h : d.phase.At d.maxPayload pos)
    (input : Option Word) (ready : Bool) : d.Accounts input (d.tick input ready) := by
  obtain ⟨timeout, limit, phase⟩ := d
  cases h with
  | hunt =>
      cases input with
      | none => exact ⟨rfl, rfl, rfl, rfl⟩
      | some w =>
          by_cases hw : w = Frame.preamble
          · subst hw
            exact ⟨rfl, rfl, rfl, rfl⟩
          · have hbegins : begins { timeout, maxPayload := limit } (some w) = false := by
              simp [begins, hw]
            simp only [tick, if_neg hw]
            exact ⟨by rw [hbegins]; rfl, rfl, rfl, rfl⟩
  | started idle =>
      cases input with
      | none =>
          exact wait_accounts ⟨rfl, rfl, rfl, rfl⟩ ⟨rfl, rfl, rfl, rfl⟩ ⟨rfl, rfl, rfl, rfl⟩
      | some w => exact ⟨rfl, rfl, rfl, rfl⟩
  | addressed dst idle =>
      cases input with
      | none =>
          exact wait_accounts ⟨rfl, rfl, rfl, rfl⟩ ⟨rfl, rfl, rfl, rfl⟩ ⟨rfl, rfl, rfl, rfl⟩
      | some w =>
          simp only [tick, announce]
          split <;> exact ⟨rfl, rfl, rfl, rfl⟩
  | collect dst length payload idle =>
      cases input with
      | none =>
          exact wait_accounts ⟨rfl, rfl, rfl, rfl⟩ ⟨rfl, rfl, rfl, rfl⟩ ⟨rfl, rfl, rfl, rfl⟩
      | some w =>
          simp only [tick]
          split <;> exact ⟨rfl, rfl, rfl, rfl⟩
  | discard dst length payload left idle =>
      cases input with
      | none =>
          exact wait_accounts ⟨rfl, rfl, rfl, rfl⟩ ⟨rfl, rfl, rfl, rfl⟩ ⟨rfl, rfl, rfl, rfl⟩
      | some w =>
          simp only [tick]
          split <;> exact ⟨rfl, rfl, rfl, rfl⟩
  | deliver dst length w rest =>
      cases ready with
      | false => exact ⟨rfl, rfl, rfl, rfl⟩
      | true => cases rest <;> exact ⟨rfl, rfl, rfl, rfl⟩

/-- A frame is cut short when it is given up while its words are skipped. -/
theorem cutShort_iff (d : Deframer) (input : Option Word) (ready : Bool) :
    d.ending (d.tick input ready) = some .cutShort ↔
      d.phase.discarding = 1 ∧ d.abandons input ready = true := by
  unfold ending abandons
  cases d.phase with
  | discard left idle =>
      simp only [Phase.fate, Phase.discarding, Phase.inFrame, Bool.true_and, true_and]
      cases (d.tick input ready).taken <;> cases (d.tick input ready).next.isIdle <;> decide
  | hunt | header | collect | deliver => simp [Phase.fate, Phase.discarding]

/-- A tick leaves the deframer at some position of the reader. -/
theorem exists_at_tick {d : Deframer} {pos : Frame.Position} (h : d.phase.At d.maxPayload pos)
    (input : Option Word) (ready : Bool) :
    ∃ pos', (d.tick input ready).next.phase.At d.maxPayload pos' := by
  cases tick_moves h input ready with
  | waits _ _ _ hat | sends _ _ _ _ _ _ hat => exact ⟨pos, hat⟩
  | reads w _ _ _ _ hat => exact ⟨_, hat⟩
  | abandons _ _ _ _ _ hhunt => exact ⟨.outside, hhunt ▸ .hunt⟩

/-! ## runs -/

/-- What a run of a deframer has shown of its frames. -/
structure Frames where
  /-- The deframer after the run. -/
  now : Deframer
  /-- The preambles that began a frame. -/
  begun : Nat := 0
  /-- How the frames ended that have ended. -/
  fates : List Fate := []
  /-- What the deframer has reported. -/
  counted : Counters := {}

namespace Frames

/-- A deframer before its first tick. -/
def start (timeout limit : Nat) : Frames :=
  { now := { timeout, maxPayload := limit } }

/-- One more tick. -/
def tick (f : Frames) (input : Option Word) (ready : Bool) : Frames :=
  let t := f.now.tick input ready
  { now := t.next
    begun := f.begun + (f.now.begins input).toNat
    fates := f.fates ++ (f.now.ending t).toList
    counted := f.counted + t.counted }

/-- Further ticks: on each one a word is presented or not, and there is room for a beat or not. -/
def run (f : Frames) (schedule : List (Option Word × Bool)) : Frames :=
  schedule.foldl (fun f s => f.tick s.1 s.2) f

/-- The frames that were thrown away, the one in progress included once that is decided. -/
def discarded (f : Frames) : Nat :=
  f.fates.count .abandoned + f.fates.count .skipped + f.fates.count .cutShort +
    f.now.phase.discarding

/-- The counters of a run tell how many of its frames came to which end. -/
structure Accounted (f : Frames) : Prop where
  position : ∃ pos, f.now.phase.At f.now.maxPayload pos
  begun : f.begun = f.fates.length + f.now.phase.uncounted + f.now.phase.discarding
  delivered : f.counted.packetsDeframed = f.fates.count .delivered
  timeouts : f.counted.frameTimeouts = f.fates.count .abandoned + f.fates.count .cutShort
  oversize : f.counted.oversizePackets =
    f.fates.count .skipped + f.fates.count .cutShort + f.now.phase.discarding
  others : f.counted.packetsUnrouted = 0 ∧ f.counted.tlpOverflows = 0
  timer : .cutShort ∈ f.fates → f.now.timeout ≠ 0

theorem accounted_start (timeout limit : Nat) : Accounted (start timeout limit) where
  position := ⟨.outside, .hunt⟩
  begun := rfl
  delivered := rfl
  timeouts := rfl
  oversize := rfl
  others := ⟨rfl, rfl⟩
  timer := nofun

/-- **A tick keeps the counters to the frames.** -/
theorem accounted_tick {f : Frames} (hf : Accounted f) (input : Option Word) (ready : Bool) :
    Accounted (f.tick input ready) := by
  obtain ⟨pos, hpos⟩ := hf.position
  obtain ⟨htimeout, hlimit⟩ := tick_settings f.now input ready
  obtain ⟨hframes, hdelivered, htimeouts, hoversize⟩ := tick_accounts hpos input ready
  obtain ⟨hunrouted, hoverflows⟩ := reports_tick f.now input ready
  have hbegun := hf.begun
  have hfates : (f.tick input ready).fates =
      f.fates ++ (f.now.ending (f.now.tick input ready)).toList := rfl
  refine ⟨hlimit ▸ exists_at_tick hpos input ready, ?_, ?_, ?_, ?_, ?_, ?_⟩
  · show f.begun + _ = _ + (f.now.tick input ready).next.phase.uncounted +
      (f.now.tick input ready).next.phase.discarding
    rw [hfates, List.length_append]
    omega
  · show f.counted.packetsDeframed + _ = _
    rw [hfates, hf.delivered, hdelivered, List.count_append]
  · show f.counted.frameTimeouts + _ = _
    rw [hfates, hf.timeouts, htimeouts, List.count_append, List.count_append]
    omega
  · show f.counted.oversizePackets + _ = _ + (f.now.tick input ready).next.phase.discarding
    rw [hfates, hf.oversize, List.count_append, List.count_append]
    omega
  · exact ⟨congrArg₂ (· + ·) hf.others.1 hunrouted, congrArg₂ (· + ·) hf.others.2 hoverflows⟩
  · show _ → (f.now.tick input ready).next.timeout ≠ 0
    rw [hfates, htimeout]
    intro hmem
    rcases List.mem_append.mp hmem with hold | hnew
    · exact hf.timer hold
    · have hab := ((cutShort_iff f.now input ready).mp (Option.mem_toList.mp hnew)).2
      exact ((f.now.abandons_iff input ready).mp hab).1

/-- **A run keeps the counters to the frames.** -/
theorem accounted_run {f : Frames} (hf : Accounted f) (schedule : List (Option Word × Bool)) :
    Accounted (f.run schedule) := by
  induction schedule generalizing f with
  | nil => exact hf
  | cons s schedule ih => exact ih (accounted_tick hf s.1 s.2)

/-- A run does not change the timeout. -/
theorem timeout_run (f : Frames) (schedule : List (Option Word × Bool)) :
    (f.run schedule).now.timeout = f.now.timeout := by
  induction schedule generalizing f with
  | nil => rfl
  | cons s schedule ih => exact (ih (f.tick s.1 s.2)).trans (tick_settings f.now s.1 s.2).1

/-- Every frame that has ended came to one of the four ends. -/
theorem length_fates (f : Frames) : f.fates.length = f.fates.count .delivered +
    f.fates.count .abandoned + f.fates.count .skipped + f.fates.count .cutShort := by
  induction f.fates with
  | nil => rfl
  | cons fate fates ih =>
      rw [List.length_cons, ih]
      cases fate <;> simp only [List.count_cons] <;> simp <;> omega

/-- **Every frame is accounted for.** However words and room come: as many frames were begun as have
ended, were delivered or thrown away, and are in progress, and the counters tell how many came to
which end. Of the frames thrown away those that were cut short are counted twice, so the counters
tell how many frames there were exactly if there are none of these; without a timeout there never
are. -/
theorem frames_accounted (timeout limit : Nat) (schedule : List (Option Word × Bool)) :
    let f := (start timeout limit).run schedule
    f.begun = f.fates.length + f.now.phase.uncounted + f.now.phase.discarding ∧
    f.counted.packetsDeframed = f.fates.count .delivered ∧
    f.counted.frameTimeouts = f.fates.count .abandoned + f.fates.count .cutShort ∧
    f.counted.oversizePackets =
      f.fates.count .skipped + f.fates.count .cutShort + f.now.phase.discarding ∧
    f.counted.packetsDeframed + f.counted.frameTimeouts + f.counted.oversizePackets +
      f.now.phase.uncounted = f.begun + f.fates.count .cutShort ∧
    f.counted.dropped = f.discarded + f.fates.count .cutShort ∧
    (.cutShort ∈ f.fates → timeout ≠ 0) ∧
    ∀ input ready, f.now.ending (f.now.tick input ready) = some .cutShort ↔
      f.now.phase.discarding = 1 ∧ f.now.abandons input ready = true := by
  intro f
  have hf : Accounted f := accounted_run (accounted_start timeout limit) schedule
  have htimeout : f.now.timeout = timeout := timeout_run (start timeout limit) schedule
  have hsum : f.counted.packetsDeframed + f.counted.frameTimeouts + f.counted.oversizePackets +
      f.now.phase.uncounted = f.begun + f.fates.count .cutShort := by
    rw [hf.delivered, hf.timeouts, hf.oversize, hf.begun, f.length_fates]
    omega
  have hdropped : f.counted.dropped = f.discarded + f.fates.count .cutShort := by
    rw [Counters.dropped, discarded, hf.timeouts, hf.oversize, hf.others.1, hf.others.2]
    omega
  exact ⟨hf.begun, hf.delivered, hf.timeouts, hf.oversize, hsum, hdropped, htimeout ▸ hf.timer,
    cutShort_iff f.now⟩

/-- A frame of two words with a limit of one, silent for one tick before the first of them. -/
theorem frame_counted_twice :
    let f := (start 1 1).run
      [(some Frame.preamble, true), (some 0, true), (some 2, true), (none, true)]
    f.begun = 1 ∧ f.fates = [.cutShort] ∧ f.now.isIdle = true ∧
      f.counted.frameTimeouts = 1 ∧ f.counted.oversizePackets = 1 ∧
      f.begun ≠ f.counted.packetsDeframed + f.counted.frameTimeouts + f.counted.oversizePackets +
        f.now.phase.uncounted ∧
      f.discarded = 1 ∧ f.counted.dropped = 2 := by
  decide

end Frames

end Deframer

end LinkBridge

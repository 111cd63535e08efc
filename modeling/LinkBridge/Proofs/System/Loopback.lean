import LinkBridge.Proofs.Link.Traffic
import LinkBridge.Proofs.Progress.Link
import LinkBridge.System.Loopback

/-!
# LinkBridge.Proofs.System.Loopback

The loopback sends every word back, in order, and comes to an end. Whatever the host does, the words
it got and those under way are the words that were accepted (`Traffic.Accounts`). Every word that
moves on towards the host makes the loopback lighter, and as long as the host has room for what is
under way a tick on which nothing moves leaves everything but the windows of the bus as it was; the
bus then turns around until a word moves (`Running.exists_lighter`).

Main statement: `loopback_echoes`.
-/

namespace LinkBridge

/-- A run whose end lies within its limit comes to it. -/
theorem done_runUntil {σ : Type} {step : σ → σ} {done : σ → Bool} {n limit : Nat} (hle : n ≤ limit)
    (ticks : Nat) {s : σ} (h : done (step^[n] s) = true) :
    done (runUntil step done limit ticks s).2 = true := by
  induction limit generalizing n ticks s with
  | zero =>
      obtain rfl : n = 0 := Nat.le_zero.mp hle
      exact h
  | succ limit ih =>
      rw [runUntil]
      split
      · assumption
      · next hgoes =>
        cases n with
        | zero => exact absurd h hgoes
        | succ n => exact ih (Nat.le_of_succ_le_succ hle) (ticks + 1) h

namespace Loopback

variable {l : Loopback}

/-! ## stages -/

/-- What a tick of the bus does. -/
def linkMove (l : Loopback) : Transfer (Link.Bus × Link.Host) Word :=
  l.bus.tick l.host l.outbound.peek l.inbound.ready

theorem stepLink_eq (l : Loopback) : l.stepLink = { l with
    bus := l.linkMove.next.1
    host := l.linkMove.next.2
    inbound := l.linkMove.fill l.inbound
    outbound := l.linkMove.drain l.outbound
    counters := l.counters + l.linkMove.counted } := rfl

/-- The oldest word of the loop is sent back, or there is none or no room for it. -/
theorem sendBack_cases (l : Loopback) :
    (∃ w, l.loop.peek = some w ∧ l.outbound.ready = true ∧
      l.sendBack = { l with outbound := l.outbound.push w, loop := l.loop.take }) ∨
    l.sendBack = l ∧ (l.outbound.ready = true → l.loop.queue = []) := by
  cases hpeek : l.loop.peek with
  | none => exact .inr ⟨by simp [sendBack, hpeek], fun _ => by simpa [Fifo.peek] using hpeek⟩
  | some w =>
      cases hready : l.outbound.ready with
      | true => exact .inl ⟨w, rfl, rfl, by simp [sendBack, hpeek, hready]⟩
      | false =>
          exact .inr ⟨by simp [sendBack, hpeek, hready], fun h => absurd h Bool.false_ne_true⟩

/-- A received word enters the loop, or there is none or no room for it. -/
theorem receive_cases (l : Loopback) :
    (∃ w, l.inbound.peek = some w ∧ l.loop.ready = true ∧
      l.receive = { l with loop := l.loop.push w, inbound := l.inbound.take }) ∨
    l.receive = l ∧ (l.loop.ready = true → l.inbound.peek = none) := by
  cases hpeek : l.inbound.peek with
  | none => exact .inr ⟨by simp [receive, hpeek], fun _ => rfl⟩
  | some w =>
      cases hready : l.loop.ready with
      | true => exact .inl ⟨w, rfl, rfl, by simp [receive, hpeek, hready]⟩
      | false =>
          exact .inr ⟨by simp [receive, hpeek, hready], fun h => absurd h Bool.false_ne_true⟩

/-! ## words -/

/-- The words in the loopback, in the order in which the host gets them. -/
def carried (l : Loopback) : List Word :=
  l.host.sentWords ++ l.outbound.contents ++ l.loop.queue ++ l.inbound.contents ++ l.host.toDevice

/-- Whether the queues between the domains are open. -/
structure IsOpen (l : Loopback) : Prop where
  inbound : l.inbound.IsOpen
  outbound : l.outbound.IsOpen

theorem carried_stepLink (h : l.IsOpen) : l.stepLink.carried = l.carried ∧ l.stepLink.IsOpen := by
  have hmoves := l.bus.tick_moves l.host l.outbound.peek l.inbound.ready
  have hin : (l.linkMove.fill l.inbound).contents = l.inbound.contents ++ l.linkMove.sent.toList :=
    Transfer.contents_fill l.linkMove l.inbound h.inbound hmoves.room
  have hout : l.outbound.contents = (if l.linkMove.taken then l.outbound.peek.toList else []) ++
      (l.linkMove.drain l.outbound).contents := Transfer.contents_eq_drain l.linkMove l.outbound
  have hdevice : l.host.toDevice = l.linkMove.sent.toList ++ l.linkMove.next.2.toDevice :=
    hmoves.toDevice
  have hsent : l.linkMove.next.2.sentWords = l.host.sentWords ++
      if l.linkMove.taken then l.outbound.peek.toList else [] := hmoves.sentWords
  refine ⟨?_, (CrossFifo.isOpen_fill _ _).mpr h.inbound, (CrossFifo.isOpen_drain _ _).mpr h.outbound⟩
  rw [stepLink_eq, carried, carried, hout, hdevice]
  simp only [hin, hsent, List.append_assoc]

theorem carried_sendBack (h : l.IsOpen) : l.sendBack.carried = l.carried ∧ l.sendBack.IsOpen := by
  obtain ⟨w, hpeek, hready, hmoved⟩ | ⟨hsame, -⟩ := l.sendBack_cases
  · have hpush : (l.outbound.push w).contents = l.outbound.contents ++ [w] :=
      Stores.contents_push l.outbound w h.outbound hready
    rw [hmoved]
    refine ⟨?_, h.inbound, (l.outbound.isOpen_push w).mpr h.outbound⟩
    rw [carried, carried, l.loop.queue_take, hpeek]
    simp only [hpush, List.append_assoc, Option.toList_some]
  · rw [hsame]
    exact ⟨rfl, h⟩

theorem carried_receive (h : l.IsOpen) : l.receive.carried = l.carried ∧ l.receive.IsOpen := by
  obtain ⟨w, hpeek, hready, hmoved⟩ | ⟨hsame, -⟩ := l.receive_cases
  · have hpush : (l.loop.push w).queue = l.loop.queue ++ [w] :=
      Stores.contents_push l.loop w trivial hready
    rw [hmoved]
    refine ⟨?_, l.inbound.isOpen_take.mpr h.inbound, h.outbound⟩
    rw [carried, carried, l.inbound.contents_take, hpeek]
    simp only [hpush, List.append_assoc, Option.toList_some]
  · rw [hsame]
    exact ⟨rfl, h⟩

theorem carried_commit (h : l.IsOpen) : l.commit.carried = l.carried ∧ l.commit.IsOpen := by
  refine ⟨?_, (CrossFifo.isOpen_commitReader _).mpr h.inbound,
    l.outbound.isOpen_commitReader.mpr h.outbound⟩
  simp only [commit, carried, CrossFifo.contents_commitReader, CrossFifo.contents_commitWriter]

/-- **A tick keeps the words and their order.** -/
theorem carried_tick (h : l.IsOpen) : l.tick.carried = l.carried ∧ l.tick.IsOpen := by
  obtain ⟨hlink, h⟩ := carried_stepLink h
  obtain ⟨hback, h⟩ := carried_sendBack h
  obtain ⟨hreceive, h⟩ := carried_receive h
  obtain ⟨hcommit, h⟩ := carried_commit h
  exact ⟨hcommit.trans (hreceive.trans (hback.trans hlink)), h⟩

/-! ## traffic -/

/-- What may happen to a loopback. -/
inductive Event where
  | tick
  | write (words : List Word)
  | drain
  | pause (paused : Bool)
  deriving DecidableEq

/-- A loopback and what has passed its end. -/
structure Traffic where
  loopback : Loopback
  /-- Words accepted from the host. -/
  accepted : List Word := []
  /-- Words the host has read. -/
  drained : List Word := []

namespace Traffic

/-- A loopback that nothing has passed. -/
def start (config : Config) : Traffic :=
  { loopback := .ofConfig config }

/-- One event. -/
def move (t : Traffic) : Event → Traffic
  | .tick => { t with loopback := t.loopback.tick }
  | .write words => { t with
      loopback := { t.loopback with host := t.loopback.host.writeWords words }
      accepted := t.accepted ++ words.take t.loopback.host.free }
  | .drain => { t with
      loopback := { t.loopback with host := t.loopback.host.drain }
      drained := t.drained ++ t.loopback.host.sentWords }
  | .pause paused => { t with
      loopback := { t.loopback with host := t.loopback.host.pause paused } }

/-- Events one after the other. -/
def play (t : Traffic) (events : List Event) : Traffic :=
  events.foldl move t

/-- Every word that was accepted is somewhere. -/
structure Accounts (t : Traffic) : Prop where
  isOpen : t.loopback.IsOpen
  words : t.drained ++ t.loopback.carried = t.accepted

theorem accounts_start (config : Config) : (start config).Accounts where
  isOpen := ⟨CrossFifo.isOpen_empty _, CrossFifo.isOpen_empty _⟩
  words := rfl

/-- **No event loses, duplicates or reorders a word.** -/
theorem Accounts.move {t : Traffic} (h : t.Accounts) (event : Event) : (t.move event).Accounts := by
  cases event with
  | tick =>
      obtain ⟨hcarried, hopen⟩ := carried_tick h.isOpen
      exact ⟨hopen, (congrArg (t.drained ++ ·) hcarried).trans h.words⟩
  | pause paused => exact ⟨⟨h.isOpen.inbound, h.isOpen.outbound⟩, h.words⟩
  | write words =>
      refine ⟨⟨h.isOpen.inbound, h.isOpen.outbound⟩, ?_⟩
      simp only [Traffic.move, ← h.words, carried, Link.Host.writeWords, Link.Host.sentWords,
        List.append_assoc]
  | drain =>
      refine ⟨⟨h.isOpen.inbound, h.isOpen.outbound⟩, ?_⟩
      simp only [Traffic.move, ← h.words, carried, Link.Host.drain, Link.Host.sentWords,
        List.append_assoc, List.nil_append]

theorem Accounts.play {t : Traffic} (h : t.Accounts) (events : List Event) :
    (t.play events).Accounts := by
  induction events generalizing t with
  | nil => exact h
  | cons event events ih => exact ih (h.move event)

end Traffic

/-! ## progress -/

/-- What there is to do: a word weighs the more the further it is from the host. -/
def load (l : Loopback) : Nat :=
  9 * l.host.toDevice.length + 4 * l.inbound.load + 3 * l.loop.queue.length + l.outbound.load

/-- Whether nothing has happened to the queues between the domains on this tick. -/
structure Settled (l : Loopback) : Prop where
  inbound : l.inbound.pushed = false ∧ l.inbound.popped = false
  outbound : l.outbound.pushed = false ∧ l.outbound.popped = false

theorem settled_commit (l : Loopback) : l.commit.Settled where
  inbound := ⟨l.inbound.commitWriter.pushed_commitReader, CrossFifo.popped_commitReader _⟩
  outbound := ⟨rfl, l.outbound.popped_commitReader⟩

/-- A tick of the bus moves a word, or nothing. -/
theorem load_stepLink (l : Loopback) : l.stepLink.load < l.load ∨
    l.bus.moves l.host l.outbound.peek l.inbound.ready = false ∧
      ∃ counters, l.stepLink =
        { l with bus := Link.Bus.turned l.host l.outbound.peek l.inbound.ready l.bus, counters } := by
  have hmoves := l.bus.tick_moves l.host l.outbound.peek l.inbound.ready
  have hdevice : l.host.toDevice.length =
      l.linkMove.sent.toList.length + l.linkMove.next.2.toDevice.length := by
    rw [← List.length_append]
    exact congrArg List.length hmoves.toDevice
  have hin := l.inbound.load_fill_le l.linkMove
  have hout := l.outbound.load_drain l.linkMove
  have hload : l.stepLink.load = 9 * l.linkMove.next.2.toDevice.length +
      4 * (l.linkMove.fill l.inbound).load + 3 * l.loop.queue.length +
        (l.linkMove.drain l.outbound).load := rfl
  cases hsent : l.linkMove.sent with
  | some w =>
      simp only [hsent, Option.toList_some, List.length_singleton] at hin hdevice
      refine .inl ?_
      rw [hload, load]
      omega
  | none =>
      cases htaken : l.linkMove.taken with
      | true =>
          obtain ⟨w, hword⟩ : ∃ w, l.outbound.peek = some w := by
            have hpending := Link.Bus.taken_tick.symm.trans htaken
            simp only [Bool.and_eq_true] at hpending
            exact Option.isSome_iff_exists.mp hpending.2.2
          rw [hword, Transfer.length_removed_of_taken htaken] at hout
          simp only [hsent, Option.toList_none, List.length_nil] at hin hdevice
          refine .inl ?_
          rw [hload, load]
          omega
      | false =>
          have hhost : l.linkMove.next.2 = l.host := Link.Bus.tick_still htaken hsent
          refine .inr ⟨Link.Bus.moves_eq_false htaken hsent, l.counters + l.linkMove.counted, ?_⟩
          rw [stepLink_eq, hhost]
          simp only [Transfer.fill, Transfer.drain, hsent, htaken, Bool.false_eq_true, if_false]
          rfl

/-- Sending back makes lighter what it moves. -/
theorem load_sendBack (l : Loopback) : l.sendBack.load < l.load ∨
    l.sendBack = l ∧ (l.outbound.ready = true → l.loop.queue = []) := by
  obtain ⟨w, hpeek, -, hmoved⟩ | hsame := l.sendBack_cases
  · refine .inl ?_
    have hpush := l.outbound.load_fill_le ({ next := (), sent := some w } : Transfer Unit Word)
    have htake := congrArg List.length l.loop.queue_take
    have hload : l.sendBack.load = 9 * l.host.toDevice.length + 4 * l.inbound.load +
        3 * l.loop.take.queue.length + (l.outbound.push w).load := by
      rw [hmoved]
      rfl
    simp only [hpeek, Option.toList_some, List.length_append, List.length_singleton] at htake hpush
    rw [hload, load, htake]
    have hpush : (l.outbound.push w).load ≤ l.outbound.load + 2 * 1 := hpush
    omega
  · exact .inr hsame

/-- Receiving makes lighter what it moves. -/
theorem load_receive (l : Loopback) : l.receive.load < l.load ∨
    l.receive = l ∧ (l.loop.ready = true → l.inbound.peek = none) := by
  obtain ⟨w, hpeek, hready, hmoved⟩ | hsame := l.receive_cases
  · refine .inl ?_
    have htake := l.inbound.load_drain ({ next := (), taken := true } : Transfer Unit Word)
    have hpush := l.loop.queue_push w
    rw [if_pos hready] at hpush
    have hload : l.receive.load = 9 * l.host.toDevice.length + 4 * l.inbound.take.load +
        3 * (l.loop.push w).queue.length + l.outbound.load := by
      rw [hmoved]
      rfl
    rw [hpeek, Transfer.length_removed_of_taken rfl] at htake
    rw [hload, load, hpush, List.length_append, List.length_singleton]
    have htake : l.inbound.take.load + 1 = l.inbound.load := htake
    omega
  · exact .inr hsame

theorem load_commit_le (l : Loopback) : l.commit.load ≤ l.load := by
  have hinbound := l.inbound.commitWriter.load_commitReader_le
  have houtbound := l.outbound.load_commitReader_le
  simp only [CrossFifo.load_commitWriter] at hinbound
  simp only [load, commit, CrossFifo.load_commitWriter]
  omega

/-- The end of a tick presents words to both ends, or changes nothing. -/
theorem load_commit (hopen : l.IsOpen) (hsettled : l.Settled) : l.commit.load < l.load ∨
    (∃ counters, l.commit = { l with counters }) ∧
      (l.inbound.head = none → l.inbound.queue = []) ∧
      (l.outbound.head = none → l.outbound.queue = []) := by
  have hwritten : l.inbound.commitWriter = l.inbound := by
    rw [CrossFifo.commitWriter, ← hsettled.inbound.1]
  have hinboundLe := l.inbound.load_commitReader_le
  have houtboundLe := l.outbound.load_commitReader_le
  have hload : l.commit.load = 9 * l.host.toDevice.length + 4 * l.inbound.commitReader.load +
      3 * l.loop.queue.length + l.outbound.commitReader.load := by
    simp only [load, commit, hwritten, CrossFifo.load_commitWriter]
  obtain hlighter | ⟨hinbound, hinboundQueue⟩ := l.inbound.load_commitReader
  · refine .inl ?_
    rw [hload, load]
    omega
  obtain hlighter | ⟨houtbound, houtboundQueue⟩ := l.outbound.load_commitReader
  · refine .inl ?_
    rw [hload, load]
    omega
  have hinboundSame : { l.inbound with popped := false } = l.inbound := by
    rw [← hsettled.inbound.2]
  have houtboundSame : { l.outbound with popped := false } = l.outbound := by
    rw [← hsettled.outbound.2]
  have hpresented : l.outbound.commitWriter = l.outbound := by
    rw [CrossFifo.commitWriter, ← hsettled.outbound.1]
  refine .inr ⟨⟨l.counters + { systemTicks := 1 }, ?_⟩, hinboundQueue hopen.inbound.2,
    houtboundQueue hopen.outbound.2⟩
  rw [commit, hwritten, hinbound, houtbound, hinboundSame, houtboundSame, hpresented]

/-- A loopback on which nothing moves, between two ticks. -/
structure Still (l : Loopback) : Prop where
  moves : l.bus.moves l.host l.outbound.peek l.inbound.ready = false
  tick : ∃ counters, l.tick =
    { l with bus := Link.Bus.turned l.host l.outbound.peek l.inbound.ready l.bus, counters }
  loop : l.outbound.ready = true → l.loop.queue = []
  inbound : l.loop.ready = true → l.inbound.peek = none
  inboundQueue : l.inbound.head = none → l.inbound.queue = []
  outboundQueue : l.outbound.head = none → l.outbound.queue = []

/-- **A tick makes the loopback lighter, or nothing moves.** -/
theorem tick_load (hopen : l.IsOpen) (hsettled : l.Settled) : l.tick.load < l.load ∨ l.Still := by
  have hback := l.stepLink.load_sendBack
  have hreceive := l.stepLink.sendBack.load_receive
  have hcommitLe := l.stepLink.sendBack.receive.load_commit_le
  have hbackLe : l.stepLink.sendBack.load ≤ l.stepLink.load :=
    hback.elim Nat.le_of_lt fun h => Nat.le_of_eq (congrArg load h.1)
  have hreceiveLe : l.stepLink.sendBack.receive.load ≤ l.stepLink.sendBack.load :=
    hreceive.elim Nat.le_of_lt fun h => Nat.le_of_eq (congrArg load h.1)
  have htick : l.tick = l.stepLink.sendBack.receive.commit := rfl
  obtain hlighter | ⟨hmoves, counters, hlink⟩ := l.load_stepLink
  · exact .inl (by rw [htick]; omega)
  have hload : l.stepLink.load = l.load := by rw [hlink]; rfl
  obtain hlighter | ⟨hbackSame, hloop⟩ := hback
  · exact .inl (by rw [htick]; omega)
  obtain hlighter | ⟨hreceiveSame, hinbound⟩ := hreceive
  · exact .inl (by rw [htick]; omega)
  rw [hbackSame] at hreceiveSame hinbound
  rw [htick, hbackSame, hreceiveSame, hlink]
  rw [hlink] at hloop hinbound
  obtain hlighter | ⟨⟨counters', hcommit⟩, hinboundQueue, houtboundQueue⟩ :=
    load_commit (l := { l with
      bus := Link.Bus.turned l.host l.outbound.peek l.inbound.ready l.bus
      counters }) ⟨hopen.inbound, hopen.outbound⟩ ⟨hsettled.inbound, hsettled.outbound⟩
  · exact .inl hlighter
  · refine .inr ⟨hmoves, ⟨counters', ?_⟩, hloop, hinbound, hinboundQueue, houtboundQueue⟩
    rw [htick, hbackSame, hreceiveSame, hlink, hcommit]

/-! ## settings -/

/-- What no tick changes. -/
def settings (l : Loopback) : Nat × Nat × Nat × Nat × Bool :=
  (l.inbound.capacity, l.outbound.capacity, l.loop.capacity, l.host.capacity, l.host.paused)

theorem settings_tick (l : Loopback) : l.tick.settings = l.settings := by
  have hlink : l.stepLink.settings = l.settings := by
    obtain ⟨hcapacity, hpaused⟩ := l.bus.tick_settings l.host l.outbound.peek l.inbound.ready
    rw [stepLink_eq]
    simp only [settings, CrossFifo.capacity_fill, CrossFifo.capacity_drain, linkMove, hcapacity,
      hpaused]
  have hback (l : Loopback) : l.sendBack.settings = l.settings := by
    obtain ⟨w, -, -, hmoved⟩ | ⟨hsame, -⟩ := l.sendBack_cases
    · rw [hmoved]
      simp only [settings, CrossFifo.capacity_push, Fifo.take]
    · rw [hsame]
  have hreceive (l : Loopback) : l.receive.settings = l.settings := by
    obtain ⟨w, -, hready, hmoved⟩ | ⟨hsame, -⟩ := l.receive_cases
    · rw [hmoved]
      simp only [settings, CrossFifo.capacity_take, Fifo.push, hready, if_true]
    · rw [hsame]
  have hcommit (l : Loopback) : l.commit.settings = l.settings := by
    simp only [settings, commit, CrossFifo.capacity_commitWriter, CrossFifo.capacity_commitReader]
  exact (hcommit _).trans ((hreceive _).trans ((hback _).trans hlink))

/-! ## the end -/

/-- A loopback between two ticks whose host has room for all that is under way. -/
structure Running (l : Loopback) : Prop where
  isOpen : l.IsOpen
  settled : l.Settled
  inbound : 2 ≤ l.inbound.capacity
  outbound : 2 ≤ l.outbound.capacity
  loop : 1 ≤ l.loop.capacity
  unpaused : l.host.paused = false
  room : l.carried.length ≤ l.host.capacity

theorem Running.tick (h : l.Running) : l.tick.Running := by
  obtain ⟨hcarried, hopen⟩ := carried_tick h.isOpen
  obtain ⟨hinbound, houtbound, hloop, hhost, hpaused⟩ :
      l.tick.inbound.capacity = l.inbound.capacity ∧ l.tick.outbound.capacity = l.outbound.capacity ∧
        l.tick.loop.capacity = l.loop.capacity ∧ l.tick.host.capacity = l.host.capacity ∧
        l.tick.host.paused = l.host.paused := by
    simpa only [settings, Prod.mk.injEq] using l.settings_tick
  exact
    { isOpen := hopen
      settled := settled_commit _
      inbound := hinbound ▸ h.inbound
      outbound := houtbound ▸ h.outbound
      loop := hloop ▸ h.loop
      unpaused := hpaused.trans h.unpaused
      room := hcarried ▸ hhost ▸ h.room }

/-- Where a word can be moved the loopback gets lighter. -/
theorem Running.exists_lighter (h : l.Running) {k : Nat}
    (hmoves : ((Link.Bus.turned l.host l.outbound.peek l.inbound.ready)^[k] l.bus).moves
      l.host l.outbound.peek l.inbound.ready = true) : ∃ n, (Loopback.tick^[n] l).load < l.load := by
  induction k generalizing l with
  | zero =>
      obtain hlighter | hstill := tick_load h.isOpen h.settled
      · exact ⟨1, hlighter⟩
      · exact absurd (hstill.moves.symm.trans hmoves) nofun
  | succ k ih =>
      obtain hlighter | hstill := tick_load h.isOpen h.settled
      · exact ⟨1, hlighter⟩
      · obtain ⟨counters, htick⟩ := hstill.tick
        have hnext := h.tick
        rw [htick] at hnext
        obtain ⟨n, hlighter⟩ := ih hnext hmoves
        refine ⟨n + 1, ?_⟩
        rw [Function.iterate_succ_apply, htick]
        exact hlighter

/-- With no word to move on the bus, and none in the domain, there is none. -/
theorem Running.isIdle_of_still (h : l.Running) (hstill : l.Still)
    (hnone : ¬ ((l.host.hasRoom && l.outbound.peek.isSome) = true ∨
      (l.host.hasWord && l.inbound.ready) = true)) : l.isIdle = true := by
  obtain ⟨htransmit, hreceive⟩ := not_or.mp hnone
  -- a word that waits for the host has a place in its queue
  have houtbound : l.outbound.head = none := by
    cases hhead : l.outbound.head with
    | none => rfl
    | some w =>
        have hroom := h.room
        simp only [carried, CrossFifo.contents, hhead, Option.toList_some, List.length_append,
          List.length_singleton, Link.Host.sentWords, Array.length_toList] at hroom
        refine absurd ?_ htransmit
        simp only [Link.Host.hasRoom, h.unpaused, CrossFifo.peek, h.settled.outbound.2, hhead,
          Bool.not_false, Bool.true_and, Bool.and_eq_true, decide_eq_true_eq]
        exact ⟨by omega, rfl⟩
  have hqueue := hstill.outboundQueue houtbound
  have hloop : l.loop.queue = [] := by
    refine hstill.loop ?_
    have hcapacity := h.outbound
    simp only [CrossFifo.ready, h.settled.outbound.1, hqueue, Bool.not_false, Bool.true_and,
      decide_eq_true_eq, List.length_nil]
    omega
  have hpeek : l.inbound.head = none := by
    have hready : l.loop.ready = true := by
      have hcapacity := h.loop
      simp only [Fifo.ready, Fifo.level, hloop, decide_eq_true_eq, List.length_nil]
      omega
    simpa [CrossFifo.peek, h.settled.inbound.2] using hstill.inbound hready
  have hinbound := hstill.inboundQueue hpeek
  have hdevice : l.host.toDevice.isEmpty = true := by
    have hready : l.inbound.ready = true := by
      have hcapacity := h.inbound
      simp only [CrossFifo.ready, h.settled.inbound.1, hinbound, Bool.not_false, Bool.true_and,
        decide_eq_true_eq, List.length_nil]
      omega
    simpa [hready, Link.Host.hasWord] using hreceive
  simp [isIdle, hdevice, CrossFifo.readerEmpty, hpeek, hinbound, Fifo.isEmpty, hloop, houtbound,
    hqueue]

/-- A loopback gets lighter, or it has nothing under way. -/
theorem Running.lighter_or_idle (h : l.Running) :
    (∃ n, (Loopback.tick^[n] l).load < l.load) ∨ l.isIdle = true := by
  by_cases hpending : (l.host.hasRoom && l.outbound.peek.isSome) = true ∨
      (l.host.hasWord && l.inbound.ready) = true
  · obtain ⟨k, hmoves⟩ := Link.Bus.exists_moves hpending l.bus
    exact .inl (h.exists_lighter hmoves)
  · obtain hlighter | hstill := tick_load h.isOpen h.settled
    · exact .inl ⟨1, hlighter⟩
    · exact .inr (h.isIdle_of_still hstill hpending)

theorem Running.iterate (h : l.Running) (n : Nat) : (Loopback.tick^[n] l).Running := by
  induction n with
  | zero => exact h
  | succ n ih =>
      rw [Function.iterate_succ_apply']
      exact ih.tick

/-- **A loopback has nothing under way in the end.** -/
theorem Running.eventually_idle (h : l.Running) : ∃ n, (Loopback.tick^[n] l).isIdle = true := by
  induction hload : l.load using Nat.strongRecOn generalizing l with
  | ind load ih =>
      obtain ⟨n, hlighter⟩ | hidle := h.lighter_or_idle
      · obtain ⟨m, hidle⟩ := ih _ (hload ▸ hlighter) (h.iterate n) rfl
        exact ⟨m + n, by rw [Function.iterate_add_apply]; exact hidle⟩
      · exact ⟨0, hidle⟩

/-- With nothing under way the host has every word. -/
theorem carried_of_isIdle (h : l.isIdle = true) : l.carried = l.host.sentWords := by
  simp only [isIdle, Bool.and_eq_true, List.isEmpty_iff, Fifo.isEmpty] at h
  obtain ⟨⟨⟨hdevice, hinbound⟩, hloop⟩, houtbound⟩ := h
  rw [carried, CrossFifo.contents_of_readerEmpty houtbound, CrossFifo.contents_of_readerEmpty hinbound,
    hloop, hdevice]
  simp only [List.append_nil]

/-! ## words accepted up front -/

namespace Traffic

/-- A loopback that was given words and nothing else. -/
def loaded (config : Config) (words : List Word) : Traffic :=
  let fresh := ofConfig config
  { loopback := { fresh with host := { fresh.host with toDevice := words } }, accepted := words }

/-- Writes, and nothing else, are as good as one write. -/
theorem play_writes (config : Config) (writes : List (List Word)) (words : List Word)
    (h : words.length ≤ max config.link.hostBufferWords 1) :
    ∃ words', words'.length ≤ max config.link.hostBufferWords 1 ∧
      (loaded config words).play (writes.map .write) = loaded config words' := by
  induction writes generalizing words with
  | nil => exact ⟨words, h, rfl⟩
  | cons more writes ih =>
      refine ih (words ++ more.take (max config.link.hostBufferWords 1 - words.length)) ?_
      rw [List.length_append, List.length_take]
      omega

theorem running_loaded (config : Config) {words : List Word}
    (h : words.length ≤ max config.link.hostBufferWords 1) :
    (loaded config words).loopback.Running where
  isOpen := ⟨CrossFifo.isOpen_empty _, CrossFifo.isOpen_empty _⟩
  settled := ⟨⟨rfl, rfl⟩, ⟨rfl, rfl⟩⟩
  inbound := Nat.le_max_right ..
  outbound := Nat.le_max_right ..
  loop := Nat.le_max_right ..
  unpaused := rfl
  room := h

end Traffic

/-- A run that is long enough ends with every word at the host. -/
theorem Running.exists_bound (h : l.Running) : ∃ N, ∀ maxTicks, N ≤ maxTicks →
    let ended := (l.runUntilIdle maxTicks).2
    ended.isIdle = true ∧ ended.host.sentWords = l.carried := by
  obtain ⟨N, hidle⟩ := h.eventually_idle
  refine ⟨N, fun maxTicks hle => ?_⟩
  intro ended
  have hended : ended.isIdle = true := done_runUntil hle 0 hidle
  have hkept : ended.carried = l.carried ∧ ended.IsOpen :=
    runUntil_keeps Loopback.tick isIdle (P := fun s => s.carried = l.carried ∧ s.IsOpen)
      (fun s hs => ⟨(carried_tick hs.2).1.trans hs.1, (carried_tick hs.2).2⟩) maxTicks 0
      ⟨rfl, h.isOpen⟩
  exact ⟨hended, (carried_of_isIdle hended).symm.trans hkept.1⟩

/-- **The loopback echoes, and comes to an end.** Whatever the host writes, reads and however it
pauses, the words it has read, those that wait for it, and those on their way through the three
queues and to the device are the words that were accepted. Of words accepted before the first tick
none is under way any more once enough ticks are allowed, and the host then reads exactly these. -/
theorem loopback_echoes (config : Config) :
    (∀ events : List Event,
      let t := (Traffic.start config).play events
      t.drained ++ (t.loopback.host.sentWords ++ t.loopback.outbound.contents ++
        t.loopback.loop.queue ++ t.loopback.inbound.contents ++ t.loopback.host.toDevice) =
          t.accepted) ∧
      ∀ writes : List (List Word),
        let t := (Traffic.start config).play (writes.map .write)
        ∃ N, ∀ maxTicks, N ≤ maxTicks →
          let ended := (t.loopback.runUntilIdle maxTicks).2
          ended.isIdle = true ∧ ended.host.sentWords = t.accepted := by
  refine ⟨fun events => ((Traffic.accounts_start config).play events).words, fun writes => ?_⟩
  obtain ⟨words, hlength, hloaded⟩ :=
    Traffic.play_writes config writes [] (Nat.zero_le _)
  have hstart : (Traffic.start config).play (writes.map .write) = Traffic.loaded config words :=
    hloaded
  rw [hstart]
  exact (Traffic.running_loaded config hlength).exists_bound

end Loopback

end LinkBridge

import Mathlib.Data.List.Chain
import LinkBridge.Proofs.Link.Domain

/-!
# LinkBridge.Proofs.Link.Starvation

How long either direction of the link waits for the other. The window timer counts from the start
of a window and the dwell counter from when the other direction got work, and together they never
exceed the limit of the window (`Bus.Paced`), which bounds the dwell. For the words themselves there
is a rank: the ticks until the bus is in the window of a direction (`Bus.transmitRank`,
`Bus.receiveRank`). It goes down on every tick on which that direction has work and moves no word.

Main statement: the bounds and the turnarounds of the bus, for every run of the link domain
(`neither_direction_starves`).
-/

namespace LinkBridge.Link

/-! ## windows -/

/-- The dwell of a window and what is left of it stay below its limit until the window is left. -/
theorem Window.dwell_tick {w : Window} {dwell : Nat} (h : dwell + w.remaining < w.limit)
    (pending idle : Bool) :
    (if pending then dwell + 1 else 0) ≤ w.limit ∧
      ((pending && (idle || w.expired)) = false →
        (if pending then dwell + 1 else 0) + (w.tick true).remaining < w.limit) := by
  cases pending with
  | false => simp [Window.tick]; omega
  | true =>
      refine ⟨by simp; omega, fun hstay => ?_⟩
      simp only [Bool.true_and, Bool.or_eq_false_iff, Window.expired, Bool.and_eq_false_iff] at hstay
      obtain ⟨-, hlimit | hremaining⟩ := hstay <;> simp_all [Window.tick]
      omega

@[simp] theorem Window.limit_tick (w : Window) (held : Bool) : (w.tick held).limit = w.limit := by
  cases held <;> rfl

theorem Window.remaining_tick {w : Window} (h : w.remaining ≤ w.limit - 1) (held : Bool) :
    (w.tick held).remaining ≤ w.limit - 1 := by
  cases held <;> simp [Window.tick, Window.reload, Window.ofLimit]
  omega

namespace Bus

/-- What the timers of a bus and its dwell have in common. -/
structure Paced (readTime writeTime : Nat) (b : Bus) : Prop where
  readLimit : b.readWindow.limit = readTime
  writeLimit : b.writeWindow.limit = writeTime
  readRemaining : b.readWindow.remaining ≤ readTime - 1
  writeRemaining : b.writeWindow.remaining ≤ writeTime - 1
  receiveDwell : b.phase = .receive → 1 ≤ readTime → b.dwell + b.readWindow.remaining < readTime
  transmitDwell :
    b.phase = .transmit → 1 ≤ writeTime → b.dwell + b.writeWindow.remaining < writeTime

section

variable {readTime writeTime : Nat} {b : Bus} {host : Host} {word : Option Word} {room : Bool}

theorem paced_ofLimits (readTime writeTime : Nat) :
    (ofLimits readTime writeTime).Paced readTime writeTime where
  readLimit := rfl
  writeLimit := rfl
  readRemaining := Nat.le_refl _
  writeRemaining := Nat.le_refl _
  receiveDwell := by
    intro _ hpos
    simp only [ofLimits, Window.ofLimit]
    omega
  transmitDwell := nofun

theorem Paced.reset (h : b.Paced readTime writeTime) : b.reset.Paced readTime writeTime := by
  have hreset : b.reset = ofLimits readTime writeTime := by
    rw [← h.readLimit, ← h.writeLimit]
    rfl
  rw [hreset]
  exact paced_ofLimits readTime writeTime

theorem readWindow_tick :
    (b.tick host word room).next.1.readWindow = b.readWindow.tick (b.phase = .receive) := by
  cases hphase : b.phase <;> simp [tick, hphase, enter]

theorem writeWindow_tick :
    (b.tick host word room).next.1.writeWindow = b.writeWindow.tick (b.phase = .transmit) := by
  cases hphase : b.phase <;> simp [tick, hphase, enter]

/-- **A tick keeps the pace**, and the dwells it reports are within the limits. -/
theorem Paced.tick (h : b.Paced readTime writeTime) :
    (b.tick host word room).next.1.Paced readTime writeTime where
  readLimit := by rw [readWindow_tick, Window.limit_tick, h.readLimit]
  writeLimit := by rw [writeWindow_tick, Window.limit_tick, h.writeLimit]
  readRemaining := by
    rw [readWindow_tick, ← h.readLimit]
    exact Window.remaining_tick (h.readLimit ▸ h.readRemaining) _
  writeRemaining := by
    rw [writeWindow_tick, ← h.writeLimit]
    exact Window.remaining_tick (h.writeLimit ▸ h.writeRemaining) _
  receiveDwell := by
    intro hnext hpos
    cases hphase : b.phase with
    | receive =>
        have hwindow := h.receiveDwell hphase hpos
        rw [← h.readLimit] at hwindow ⊢
        rw [tick_receive hphase] at hnext ⊢
        have hstay := (Window.dwell_tick hwindow (host.hasRoom && word.isSome)
          (!(host.hasWord && room))).2
        grind [enter, dwelt]
    | transmitToReceive =>
        have hlimit := h.readLimit
        rw [tick_transmitToReceive hphase]
        simp [enter, hphase, Window.tick, Window.reload, Window.ofLimit]
        omega
    | transmit =>
        rw [tick_transmit hphase] at hnext
        grind [enter]
    | receiveToTransmit =>
        rw [tick_receiveToTransmit hphase] at hnext
        exact nomatch hnext
  transmitDwell := by
    intro hnext hpos
    cases hphase : b.phase with
    | transmit =>
        have hwindow := h.transmitDwell hphase hpos
        rw [← h.writeLimit] at hwindow ⊢
        rw [tick_transmit hphase] at hnext ⊢
        have hstay := (Window.dwell_tick hwindow (host.hasWord && room)
          (!(host.hasRoom && word.isSome))).2
        grind [enter, dwelt]
    | receiveToTransmit =>
        have hlimit := h.writeLimit
        rw [tick_receiveToTransmit hphase]
        simp [enter, hphase, Window.tick, Window.reload, Window.ofLimit]
        omega
    | receive =>
        rw [tick_receive hphase] at hnext
        grind [enter]
    | transmitToReceive =>
        rw [tick_transmitToReceive hphase] at hnext
        exact nomatch hnext

/-- The time a tick reports for the receive window. -/
theorem Paced.receiveDwellMax_le (h : b.Paced readTime writeTime) (hpos : 1 ≤ readTime) :
    (b.tick host word room).counted.receiveDwellMax ≤ readTime := by
  cases hphase : b.phase with
  | receive =>
      have hwindow := h.receiveDwell hphase hpos
      rw [← h.readLimit] at hwindow ⊢
      have hreport := (Window.dwell_tick hwindow (host.hasRoom && word.isSome) true).1
      simpa only [Bus.tick, hphase, dwelt] using hreport
  | _ => simp [Bus.tick, hphase]

/-- The time a tick reports for the transmit window. -/
theorem Paced.transmitDwellMax_le (h : b.Paced readTime writeTime) (hpos : 1 ≤ writeTime) :
    (b.tick host word room).counted.transmitDwellMax ≤ writeTime := by
  cases hphase : b.phase with
  | transmit =>
      have hwindow := h.transmitDwell hphase hpos
      rw [← h.writeLimit] at hwindow ⊢
      have hreport := (Window.dwell_tick hwindow (host.hasWord && room) true).1
      simpa only [Bus.tick, hphase, dwelt] using hreport
  | _ => simp [Bus.tick, hphase]

/-! ## ranks -/

/-- How far the bus is from its transmit window while a word waits to be sent. -/
def transmitRank (b : Bus) : Nat :=
  match b.phase with
  | .transmit => 0
  | .receiveToTransmit => 1
  | .receive => b.readWindow.remaining + 2
  | .transmitToReceive => b.readWindow.limit + 2

/-- How far the bus is from its receive window while a word waits to be read. -/
def receiveRank (b : Bus) : Nat :=
  match b.phase with
  | .receive => 0
  | .transmitToReceive => 1
  | .transmit => b.writeWindow.remaining + 2
  | .receiveToTransmit => b.writeWindow.limit + 2

theorem Paced.transmitRank_lt (h : b.Paced readTime writeTime) (hpos : 1 ≤ readTime) :
    b.transmitRank < readTime + 3 := by
  have hlimit := h.readLimit
  have hremaining := h.readRemaining
  unfold transmitRank
  cases b.phase <;> simp only <;> omega

theorem Paced.receiveRank_lt (h : b.Paced readTime writeTime) (hpos : 1 ≤ writeTime) :
    b.receiveRank < writeTime + 3 := by
  have hlimit := h.writeLimit
  have hremaining := h.writeRemaining
  unfold receiveRank
  cases b.phase <;> simp only <;> omega

/-- While a word waits to be sent, it is sent or its window comes nearer. -/
theorem Paced.transmitRank_tick (h : b.Paced readTime writeTime) (hpos : 1 ≤ readTime)
    (hpending : (host.hasRoom && word.isSome) = true)
    (hheld : (b.tick host word room).taken = false) :
    (b.tick host word room).next.1.transmitRank < b.transmitRank := by
  have hlimit := h.readLimit
  cases hphase : b.phase with
  | transmit => simp [taken_tick, hphase, hpending] at hheld
  | receiveToTransmit =>
      rw [tick_receiveToTransmit hphase]
      simp [transmitRank, enter, hphase]
  | transmitToReceive =>
      rw [tick_transmitToReceive hphase]
      simp [transmitRank, enter, hphase, Window.tick, Window.reload, Window.ofLimit]
      omega
  | receive =>
      rw [tick_receive hphase, hpending]
      cases hexpired : b.readWindow.expired with
      | true => simp [transmitRank, enter, hphase]
      | false =>
          -- a window that has not expired has a tick left
          have hleft : b.readWindow.remaining ≠ 0 := by
            simp only [Window.expired, Bool.and_eq_false_iff, bne_eq_false_iff_eq,
              beq_eq_false_iff_ne] at hexpired
            omega
          cases host.hasWord && room <;> simp [transmitRank, enter, hphase, Window.tick]
          omega

/-- While a word waits to be read, it is read or its window comes nearer. -/
theorem Paced.receiveRank_tick (h : b.Paced readTime writeTime) (hpos : 1 ≤ writeTime)
    (hpending : (host.hasWord && room) = true)
    (hheld : (b.tick host word room).sent.isSome = false) :
    (b.tick host word room).next.1.receiveRank < b.receiveRank := by
  have hlimit := h.writeLimit
  cases hphase : b.phase with
  | receive => simp [isSome_sent_tick, hphase, hpending] at hheld
  | transmitToReceive =>
      rw [tick_transmitToReceive hphase]
      simp [receiveRank, enter, hphase]
  | receiveToTransmit =>
      rw [tick_receiveToTransmit hphase]
      simp [receiveRank, enter, hphase, Window.tick, Window.reload, Window.ofLimit]
      omega
  | transmit =>
      rw [tick_transmit hphase, hpending]
      cases hexpired : b.writeWindow.expired with
      | true => simp [receiveRank, enter, hphase]
      | false =>
          have hleft : b.writeWindow.remaining ≠ 0 := by
            simp only [Window.expired, Bool.and_eq_false_iff, bne_eq_false_iff_eq,
              beq_eq_false_iff_ne] at hexpired
            omega
          cases host.hasRoom && word.isSome <;> simp [receiveRank, enter, hphase, Window.tick]
          omega

/-- Without a limit the receive window lasts while words wait to be read. -/
theorem Paced.stays_receiving (h : b.Paced readTime writeTime) (hunlimited : readTime = 0)
    (hphase : b.phase = .receive) (hpending : (host.hasWord && room) = true) :
    (b.tick host word room).next.1.phase = .receive := by
  have hlimit : b.readWindow.limit = 0 := h.readLimit.trans hunlimited
  rw [tick_receive hphase, hpending]
  simp [enter, Window.expired, hlimit]

/-- Without a limit the transmit window lasts while words wait to be sent. -/
theorem Paced.stays_transmitting (h : b.Paced readTime writeTime) (hunlimited : writeTime = 0)
    (hphase : b.phase = .transmit) (hpending : (host.hasRoom && word.isSome) = true) :
    (b.tick host word room).next.1.phase = .transmit := by
  have hlimit : b.writeWindow.limit = 0 := h.writeLimit.trans hunlimited
  rw [tick_transmit hphase, hpending]
  simp [enter, Window.expired, hlimit]

end

end Bus

namespace Domain

/-- Whether the next tick moves no word. -/
def Still (d : Domain) : Prop :=
  d.received = none ∧ d.transmitted = none

/-- Whether `next` is a state of a run in which the bus is as a tick of `d` left it. -/
def Precedes (d next : Domain) : Prop :=
  next.bus = d.tick.bus

/-- Whether among any `limit` ticks in a row on which there is work one moves a word. -/
def ServedWithin (limit : Nat) (pending : Domain → Bool) (moved : Domain → Option Word)
    (ticks : List Domain) : Prop :=
  ∀ window, window <:+: ticks → window.length = limit → (∀ d ∈ window, pending d = true) →
    ∃ d ∈ window, (moved d).isSome = true

section

variable {readTime writeTime : Nat} {d : Domain}

/-! ## what moves in which phase -/

theorem isSome_received : d.received.isSome = (decide (d.bus.phase = .receive) && d.receivePending) :=
  Bus.isSome_sent_tick

theorem taken_transfer :
    d.transfer.taken = (decide (d.bus.phase = .transmit) && d.transmitPending) :=
  Bus.taken_tick

theorem isSome_transmitted :
    d.transmitted.isSome = (decide (d.bus.phase = .transmit) && d.transmitPending) := by
  rw [transmitted, taken_transfer]
  split
  · next h =>
    simp only [transmitPending, Bool.and_eq_true] at h
    rw [h.2.2]
    simp [transmitPending, h]
  · next h => simpa using h

/-- A turnaround moves nothing. -/
theorem still_of_turnaround
    (h : d.bus.phase = .receiveToTransmit ∨ d.bus.phase = .transmitToReceive) : d.Still := by
  have hreceived := d.isSome_received
  have htransmitted := d.isSome_transmitted
  obtain h | h := h <;> simp_all [Still]

/-! ## runs -/

theorem paced_apply (h : d.bus.Paced readTime writeTime) (event : Event) :
    (d.apply event).bus.Paced readTime writeTime := by
  cases event with
  | tick => exact h.tick
  | reset => exact h.reset
  | _ => exact h

/-- The bus keeps its pace on every tick of a run. -/
theorem paced_ticking (h : d.bus.Paced readTime writeTime) (events : List Event) :
    ∀ d' ∈ d.ticking events, d'.bus.Paced readTime writeTime := by
  induction events generalizing d with
  | nil => simp [ticking]
  | cons event events ih =>
      have hrest := ih (paced_apply h event)
      cases event with
      | tick => exact List.forall_mem_cons.mpr ⟨h, hrest⟩
      | _ => exact hrest

/-- The longest dwell in a receive window stays within its limit. -/
theorem receiveDwellMax_run (h : d.bus.Paced readTime writeTime) (hpos : 1 ≤ readTime)
    (hcount : d.counters.receiveDwellMax ≤ readTime) (events : List Event) :
    (d.run events).counters.receiveDwellMax ≤ readTime := by
  induction events generalizing d with
  | nil => exact hcount
  | cons event events ih =>
      refine ih (paced_apply h event) ?_
      cases event with
      | tick => exact Nat.max_le.mpr ⟨hcount, h.receiveDwellMax_le hpos⟩
      | _ => exact hcount

/-- The longest dwell in a transmit window stays within its limit. -/
theorem transmitDwellMax_run (h : d.bus.Paced readTime writeTime) (hpos : 1 ≤ writeTime)
    (hcount : d.counters.transmitDwellMax ≤ writeTime) (events : List Event) :
    (d.run events).counters.transmitDwellMax ≤ writeTime := by
  induction events generalizing d with
  | nil => exact hcount
  | cons event events ih =>
      refine ih (paced_apply h event) ?_
      cases event with
      | tick => exact Nat.max_le.mpr ⟨hcount, h.transmitDwellMax_le hpos⟩
      | _ => exact hcount

/-- Until the first tick of a run without resets the bus is left alone. -/
theorem bus_head_ticking {events : List Event} (hnoreset : .reset ∉ events) :
    ∀ d' ∈ (d.ticking events).head?, d'.bus = d.bus := by
  induction events generalizing d with
  | nil => simp [ticking]
  | cons event events ih =>
      have hrest := ih (d := d.apply event) fun h => hnoreset (List.mem_cons_of_mem _ h)
      cases event with
      | tick => simp [ticking]
      | reset => simp at hnoreset
      | _ => exact hrest

/-- Between two ticks of a run without resets the bus is left alone. -/
theorem isChain_ticking {events : List Event} (hnoreset : .reset ∉ events) :
    (d.ticking events).IsChain Precedes := by
  induction events generalizing d with
  | nil => exact .nil
  | cons event events ih =>
      have hrest := ih (d := d.apply event) fun h => hnoreset (List.mem_cons_of_mem _ h)
      cases event with
      | tick =>
          exact List.isChain_cons.mpr
            ⟨bus_head_ticking fun h => hnoreset (List.mem_cons_of_mem _ h), hrest⟩
      | _ => exact hrest

/-! ## waiting -/

/-- If a rank goes down on every tick that moves nothing, a word moves before it is used up. -/
theorem exists_moved {rank : Bus → Nat} {moved : Domain → Option Word} {rest : List Domain}
    (hchain : (d :: rest).IsChain Precedes)
    (hrank : ∀ d' ∈ d :: rest, (moved d').isSome = false → rank d'.tick.bus < rank d'.bus)
    (hlength : rank d.bus < (d :: rest).length) : ∃ d' ∈ d :: rest, (moved d').isSome = true := by
  induction rest generalizing d with
  | nil =>
      cases hmoved : (moved d).isSome with
      | true => exact ⟨d, List.mem_cons_self, hmoved⟩
      | false =>
          have hlt := hrank d List.mem_cons_self hmoved
          simp only [List.length_singleton] at hlength
          omega
  | cons next rest ih =>
      cases hmoved : (moved d).isSome with
      | true => exact ⟨d, List.mem_cons_self, hmoved⟩
      | false =>
          obtain ⟨hnext, hrest⟩ := List.isChain_cons_cons.mp hchain
          have hlt : rank next.bus < rank d.bus := hnext ▸ hrank d List.mem_cons_self hmoved
          simp only [List.length_cons] at hlength ih
          obtain ⟨d', hmem, hd'⟩ := ih hrest
            (fun d' hmem => hrank d' (List.mem_cons_of_mem _ hmem)) (by omega)
          exact ⟨d', List.mem_cons_of_mem _ hmem, hd'⟩

/-- A rank that bounds the wait of one direction bounds it on every stretch of a run. -/
theorem servedWithin_ticking {rank : Bus → Nat} {limit : Nat} {pending : Domain → Bool}
    {moved : Domain → Option Word} (h : d.bus.Paced readTime writeTime) {events : List Event}
    (hnoreset : .reset ∉ events) (hpos : 0 < limit)
    (hrank : ∀ d' : Domain, d'.bus.Paced readTime writeTime → pending d' = true →
      (moved d').isSome = false → rank d'.tick.bus < rank d'.bus)
    (hlimit : ∀ b : Bus, b.Paced readTime writeTime → rank b < limit) :
    ServedWithin limit pending moved (d.ticking events) := by
  intro window hwindow hlength hpending
  have hpaced : ∀ d' ∈ window, d'.bus.Paced readTime writeTime := fun d' hmem =>
    paced_ticking h events d' (hwindow.subset hmem)
  have hchain : window.IsChain Precedes := List.IsChain.infix (isChain_ticking hnoreset) hwindow
  cases window with
  | nil =>
      simp only [List.length_nil] at hlength
      omega
  | cons first rest =>
      exact exists_moved hchain (fun d' hmem => hrank d' (hpaced d' hmem) (hpending d' hmem))
        (hlength ▸ hlimit first.bus (hpaced first List.mem_cons_self))

/-! ## turning around -/

/-- Leaving a phase, a run comes through the turnaround before any other phase. -/
theorem exists_turnaround {held turn : Bus.Phase} {last : Domain} {between : List Domain}
    (hturn : ∀ d' : Domain, d'.bus.phase = held →
      d'.tick.bus.phase = held ∨ d'.tick.bus.phase = turn)
    (hfirst : d.bus.phase = held) (hlast : last.bus.phase ≠ held ∧ last.bus.phase ≠ turn)
    (hchain : (d :: (between ++ [last])).IsChain Precedes) :
    ∃ m ∈ between, m.bus.phase = turn := by
  induction between generalizing d with
  | nil =>
      have hnext : last.bus = d.tick.bus := (List.isChain_cons_cons.mp hchain).1
      have hphase := hturn d hfirst
      rw [← hnext] at hphase
      exact absurd hphase (not_or.mpr hlast)
  | cons m between ih =>
      obtain ⟨hnext, hrest⟩ := List.isChain_cons_cons.mp hchain
      have hphase := hturn d hfirst
      rw [← show m.bus = d.tick.bus from hnext] at hphase
      obtain hheld | hturned := hphase
      · obtain ⟨m', hmem, hm'⟩ := ih hheld hrest
        exact ⟨m', List.mem_cons_of_mem _ hmem, hm'⟩
      · exact ⟨m, List.mem_cons_self, hturned⟩

theorem phase_tick_receive (h : d.bus.phase = .receive) :
    d.tick.bus.phase = .receive ∨ d.tick.bus.phase = .receiveToTransmit := by
  rw [bus_tick, transfer, Bus.tick_receive h]
  simp only [Bus.enter]
  split <;> simp

theorem phase_tick_transmit (h : d.bus.phase = .transmit) :
    d.tick.bus.phase = .transmit ∨ d.tick.bus.phase = .transmitToReceive := by
  rw [bus_tick, transfer, Bus.tick_transmit h]
  simp only [Bus.enter]
  split <;> simp

/-- Between words of opposite directions there is a tick without any. -/
theorem exists_still {last : Domain} {between : List Domain}
    (hchain : (d :: (between ++ [last])).IsChain Precedes)
    (hmoved : d.received.isSome ∧ last.transmitted.isSome ∨
      d.transmitted.isSome ∧ last.received.isSome) : ∃ m ∈ between, m.Still := by
  simp only [isSome_received, isSome_transmitted, Bool.and_eq_true, decide_eq_true_eq] at hmoved
  obtain ⟨⟨hfirst, -⟩, hlast, -⟩ | ⟨⟨hfirst, -⟩, hlast, -⟩ := hmoved
  · obtain ⟨m, hmem, hphase⟩ := exists_turnaround (fun _ => phase_tick_receive) hfirst
      (by simp [hlast]) hchain
    exact ⟨m, hmem, still_of_turnaround (.inl hphase)⟩
  · obtain ⟨m, hmem, hphase⟩ := exists_turnaround (fun _ => phase_tick_transmit) hfirst
      (by simp [hlast]) hchain
    exact ⟨m, hmem, still_of_turnaround (.inr hphase)⟩

end

/-- **Neither direction starves the other.** Whatever host software and the system domain do between
the ticks, a window with a limit is not held longer than that against work of the other direction,
which moves a word within three ticks more; a window without a limit is held while it has work; and
words of opposite directions are kept apart by a turnaround. -/
theorem neither_direction_starves (settings : Config.Link) (events : List Event) :
    let d := ofSettings settings
    let ticks := d.ticking events
    (1 ≤ settings.readTime →
        (d.run events).counters.receiveDwellMax ≤ settings.readTime) ∧
      (1 ≤ settings.writeTime →
        (d.run events).counters.transmitDwellMax ≤ settings.writeTime) ∧
      (1 ≤ settings.readTime → .reset ∉ events →
        ServedWithin (settings.readTime + 3) transmitPending transmitted ticks) ∧
      (1 ≤ settings.writeTime → .reset ∉ events →
        ServedWithin (settings.writeTime + 3) receivePending received ticks) ∧
      (settings.readTime = 0 → ∀ d' ∈ ticks, d'.bus.phase = .receive → d'.receivePending = true →
        d'.tick.bus.phase = .receive) ∧
      (settings.writeTime = 0 → ∀ d' ∈ ticks, d'.bus.phase = .transmit →
        d'.transmitPending = true → d'.tick.bus.phase = .transmit) ∧
      (∀ d' ∈ ticks, d'.received = none ∨ d'.transmitted = none) ∧
      (∀ d' ∈ ticks, d'.bus.phase = .receiveToTransmit ∨ d'.bus.phase = .transmitToReceive →
        d'.Still) ∧
      (.reset ∉ events → ∀ first between last, first :: (between ++ [last]) <:+: ticks →
        (first.received.isSome ∧ last.transmitted.isSome ∨
          first.transmitted.isSome ∧ last.received.isSome) → ∃ m ∈ between, m.Still) := by
  intro d ticks
  have hpaced : d.bus.Paced settings.readTime settings.writeTime := Bus.paced_ofLimits _ _
  have hticks : ∀ d' ∈ ticks, d'.bus.Paced settings.readTime settings.writeTime :=
    paced_ticking hpaced events
  refine ⟨?dwellReceive, ?dwellTransmit, ?servedTransmit, ?servedReceive, ?holdsReceive,
    ?holdsTransmit, ?oneWay, ?turnaround, ?apart⟩
  case dwellReceive => exact fun hpos => receiveDwellMax_run hpaced hpos (Nat.zero_le _) events
  case dwellTransmit => exact fun hpos => transmitDwellMax_run hpaced hpos (Nat.zero_le _) events
  case servedTransmit =>
    intro hpos hnoreset
    refine servedWithin_ticking hpaced hnoreset (Nat.succ_pos _) (fun d' h hpending hheld => ?_)
      fun b h => h.transmitRank_lt hpos
    refine h.transmitRank_tick hpos hpending ?_
    rwa [isSome_transmitted, ← taken_transfer] at hheld
  case servedReceive =>
    intro hpos hnoreset
    exact servedWithin_ticking hpaced hnoreset (Nat.succ_pos _)
      (fun d' h hpending hheld => h.receiveRank_tick hpos hpending hheld)
      fun b h => h.receiveRank_lt hpos
  case holdsReceive =>
    exact fun hunlimited d' hmem hphase hpending =>
      (hticks d' hmem).stays_receiving hunlimited hphase hpending
  case holdsTransmit =>
    exact fun hunlimited d' hmem hphase hpending =>
      (hticks d' hmem).stays_transmitting hunlimited hphase hpending
  case oneWay =>
    intro d' _
    have hreceived := d'.isSome_received
    have htransmitted := d'.isSome_transmitted
    cases hphase : d'.bus.phase <;> simp_all
  case turnaround => exact fun d' _ => still_of_turnaround
  case apart =>
    intro hnoreset first between last hsublist
    have hchain := List.IsChain.infix (isChain_ticking hnoreset) hsublist
    exact exists_still hchain

/-- A window of one tick for the words of the host, then a window without a limit, in which both
words of the system domain leave; the first of them has waited for three ticks. -/
theorem neither_direction_starves_shortest :
    let d := ofSettings { readTime := 1, writeTime := 0 }
    let events := [.write [5, 6], .push 7, .commitOutbound, .push 8, .commitOutbound] ++
      List.replicate 6 .tick
    let ticks := d.ticking events
    ticks.map received = [some 5, some 6, none, none, none, none] ∧
      ticks.map transmitted = [none, none, none, some 7, some 8, none] ∧
      ticks.map transmitPending = [false, true, true, true, true, false] ∧
      (d.run events).counters.receiveDwellMax ≤ 1 ∧
      ServedWithin 4 transmitPending transmitted ticks ∧
      (∀ d' ∈ ticks, d'.bus.phase = .transmit → d'.transmitPending = true →
        d'.tick.bus.phase = .transmit) ∧
      ∀ first between last, first :: (between ++ [last]) <:+: ticks →
        (first.received.isSome ∧ last.transmitted.isSome ∨
          first.transmitted.isSome ∧ last.received.isSome) → ∃ m ∈ between, m.Still := by
  intro d events ticks
  obtain ⟨hdwell, -, hserved, -, -, hholds, -, -, hapart⟩ :=
    neither_direction_starves { readTime := 1, writeTime := 0 } events
  exact ⟨by decide, by decide, by decide, hdwell (Nat.le_refl 1),
    hserved (Nat.le_refl 1) (by decide), hholds rfl, hapart (by decide)⟩

end Domain

end LinkBridge.Link

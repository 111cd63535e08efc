import LinkBridge.Proofs.Link.Domain

/-!
# LinkBridge.Proofs.Link.Traffic

What goes in at one end of the link comes out at the other. `Traffic` records what host software
and the system domain have handed to the link and what they got from it; in between every word is
in one of the two queues on its way, in the order in which it came (`words_conserved`). Readiness is
only looked at once a tick, and it still holds when the word is stored, so no queue is ever asked to
hold more than it can.
-/

namespace LinkBridge

namespace Link

namespace Host

/-- Whether neither queue holds more than it can. -/
structure InBounds (h : Host) : Prop where
  toDevice : h.toDevice.length ≤ h.capacity
  fromDevice : h.fromDevice.size ≤ h.capacity

theorem inBounds_empty (capacity : Nat) : (empty capacity).InBounds :=
  ⟨Nat.zero_le _, Nat.zero_le _⟩

variable {h : Host}

theorem InBounds.takeWord (hb : h.InBounds) : h.takeWord.InBounds where
  toDevice := by
    have := hb.toDevice
    simp only [Host.takeWord, List.length_tail]
    omega
  fromDevice := hb.fromDevice

theorem InBounds.putWord (hb : h.InBounds) (w : Word) : (h.putWord w).InBounds := by
  unfold Host.putWord
  split
  · next hroom =>
    simp only [hasRoom, Bool.and_eq_true, decide_eq_true_eq] at hroom
    refine ⟨hb.toDevice, ?_⟩
    simp only [Array.size_push]
    omega
  · exact hb

theorem InBounds.writeWords (hb : h.InBounds) (words : List Word) : (h.writeWords words).InBounds where
  toDevice := by
    have hle := hb.toDevice
    have hlength := h.length_toDevice_writeWords words
    have hcapacity : (h.writeWords words).capacity = h.capacity := rfl
    simp only [accepted, free] at hlength
    omega
  fromDevice := hb.fromDevice

theorem InBounds.drain (hb : h.InBounds) : h.drain.InBounds :=
  ⟨hb.toDevice, Nat.zero_le _⟩

end Host

/-- The bus never asks the host to hold more than it can. -/
theorem Bus.tick_inBounds {host : Host} (h : host.InBounds) (b : Bus) (word : Option Word)
    (room : Bool) : (b.tick host word room).next.2.InBounds := by
  unfold tick
  cases b.phase with
  | receiveToTransmit => exact h
  | transmitToReceive => exact h
  | receive =>
      simp only
      split
      · exact h.takeWord
      · exact h
  | transmit =>
      cases word with
      | none => exact h
      | some w =>
          simp only
          split
          · exact h.putWord w
          · exact h

/-- A link domain and what has passed its ends. -/
structure Traffic where
  domain : Domain
  /-- Words accepted from host software. -/
  accepted : List Word := []
  /-- Words taken by the system domain. -/
  taken : List Word := []
  /-- Words accepted from the system domain. -/
  pushed : List Word := []
  /-- Words drained by host software. -/
  drained : List Word := []

namespace Traffic

/-- A link domain that nothing has passed. -/
def start (settings : Config.Link) : Traffic :=
  { domain := .ofSettings settings }

/-- One event. -/
def move (t : Traffic) (event : Event) : Traffic :=
  let domain := t.domain.apply event
  match event with
  | .write words => { t with domain, accepted := t.accepted ++ words.take t.domain.host.free }
  | .drain => { t with domain, drained := t.drained ++ t.domain.host.sentWords }
  | .take => { t with domain, taken := t.taken ++ t.domain.inbound.peek.toList }
  | .push word =>
    { t with domain, pushed := t.pushed ++ if t.domain.outbound.accepts then [word] else [] }
  | _ => { t with domain }

/-- Events one after the other. -/
def play (t : Traffic) (events : List Event) : Traffic :=
  events.foldl move t

/-- Where the words are that have passed an end of the link. -/
structure Accounts (settings : Config.Link) (t : Traffic) : Prop where
  inward : t.accepted = t.taken ++ t.domain.inbound.contents ++ t.domain.host.toDevice
  outward : t.pushed = t.drained ++ t.domain.host.sentWords ++ t.domain.outbound.contents
  wordsIn : t.domain.counters.linkWordsIn = (t.taken ++ t.domain.inbound.contents).length
  wordsOut : t.domain.counters.linkWordsOut = (t.drained ++ t.domain.host.sentWords).length
  isOpen : t.domain.inbound.IsOpen
  inbound : t.domain.inbound.InBounds
  outbound : t.domain.outbound.InBounds
  host : t.domain.host.InBounds
  capacities : t.domain.inbound.capacity = max settings.fifoDepth 2 ∧
    t.domain.outbound.capacity = max settings.fifoDepth 2 ∧
    t.domain.host.capacity = max settings.hostBufferWords 1

section

variable {settings : Config.Link} {t : Traffic}

theorem accounts_start (settings : Config.Link) : (start settings).Accounts settings where
  inward := rfl
  outward := rfl
  wordsIn := rfl
  wordsOut := rfl
  isOpen := CrossFifo.isOpen_empty _
  inbound := CrossFifo.inBounds_empty _
  outbound := CrossFifo.inBounds_empty _
  host := Host.inBounds_empty _
  capacities := ⟨rfl, rfl, rfl⟩

/-- A tick of the link moves words and loses none. -/
theorem Accounts.tick (h : t.Accounts settings) : (t.move .tick).Accounts settings := by
  have hwords := Domain.tick_words h.isOpen
  obtain ⟨hcapacity, -⟩ := t.domain.bus.tick_settings t.domain.host t.domain.outbound.peek
    t.domain.inbound.ready
  exact
    { inward := by
        show t.accepted = t.taken ++ t.domain.tick.inbound.contents ++ t.domain.tick.host.toDevice
        rw [h.inward, hwords.inbound, hwords.toDevice]
        simp only [List.append_assoc]
      outward := by
        show t.pushed = t.drained ++ t.domain.tick.host.sentWords ++
          t.domain.tick.outbound.contents
        rw [h.outward, hwords.sentWords, hwords.outbound]
        simp only [List.append_assoc]
      wordsIn := by
        show t.domain.tick.counters.linkWordsIn = (t.taken ++ t.domain.tick.inbound.contents).length
        rw [hwords.wordsIn, hwords.inbound, h.wordsIn]
        simp only [List.length_append, Nat.add_assoc]
      wordsOut := by
        show t.domain.tick.counters.linkWordsOut = (t.drained ++ t.domain.tick.host.sentWords).length
        rw [hwords.wordsOut, hwords.sentWords, h.wordsOut]
        simp only [List.length_append, Nat.add_assoc]
      isOpen := (CrossFifo.isOpen_fill _ _).mpr h.isOpen
      inbound := h.inbound.fill _
      outbound := (h.outbound.drain _).commitReader
      host := Bus.tick_inBounds h.host t.domain.bus t.domain.outbound.peek t.domain.inbound.ready
      capacities := by
        obtain ⟨hinbound, houtbound, hbuffer⟩ := h.capacities
        refine ⟨?_, ?_, hcapacity.trans hbuffer⟩
        · exact (CrossFifo.capacity_fill _ _).trans hinbound
        · exact (CrossFifo.capacity_commitReader _).trans
            ((CrossFifo.capacity_drain _ _).trans houtbound) }

/-- **No event loses, duplicates or reorders a word.** -/
theorem Accounts.move (h : t.Accounts settings) (event : Event) :
    (t.move event).Accounts settings := by
  cases event with
  | tick => exact h.tick
  | reset => exact { h with }
  | pause paused => exact { h with host := ⟨h.host.toDevice, h.host.fromDevice⟩ }
  | commitOutbound => exact { h with }
  | write words =>
      refine { h with inward := ?_, host := h.host.writeWords words }
      show t.accepted ++ words.take t.domain.host.free =
        t.taken ++ t.domain.inbound.contents ++
          (t.domain.host.toDevice ++ words.take t.domain.host.free)
      rw [h.inward, List.append_assoc]
  | drain =>
      have hwords : (t.move .drain).drained ++ (t.move .drain).domain.host.sentWords =
          t.drained ++ t.domain.host.sentWords :=
        List.append_nil _
      exact { h with
        outward := by
          rw [hwords]
          exact h.outward
        wordsOut := by
          rw [hwords]
          exact h.wordsOut
        host := h.host.drain }
  | take =>
      have hwords : (t.move .take).taken ++ (t.move .take).domain.inbound.contents =
          t.taken ++ t.domain.inbound.contents := by
        show t.taken ++ t.domain.inbound.peek.toList ++ t.domain.inbound.take.contents = _
        rw [t.domain.inbound.contents_take, List.append_assoc]
      exact { h with
        inward := by
          rw [hwords]
          exact h.inward
        wordsIn := by
          rw [hwords]
          exact h.wordsIn
        isOpen := t.domain.inbound.isOpen_take.mpr h.isOpen
        inbound := h.inbound.take
        capacities := ⟨(CrossFifo.capacity_take _).trans h.capacities.1, h.capacities.2⟩ }
  | push word =>
      exact { h with
        outward := by
          show t.pushed ++ (if t.domain.outbound.accepts then [word] else []) =
            t.drained ++ t.domain.host.sentWords ++ (t.domain.outbound.push word).contents
          rw [h.outward, CrossFifo.contents_push, List.append_assoc]
        outbound := h.outbound.push word
        capacities := ⟨h.capacities.1, (CrossFifo.capacity_push _ _).trans h.capacities.2.1,
          h.capacities.2.2⟩ }
  | commitInbound =>
      have hcontents : (t.move .commitInbound).domain.inbound.contents =
          t.domain.inbound.contents :=
        t.domain.inbound.contents_commitReader
      exact { h with
        inward := by
          rw [hcontents]
          exact h.inward
        wordsIn := by
          rw [hcontents]
          exact h.wordsIn
        isOpen := t.domain.inbound.isOpen_commitReader.mpr h.isOpen
        inbound := h.inbound.commitReader
        capacities := ⟨(CrossFifo.capacity_commitReader _).trans h.capacities.1, h.capacities.2⟩ }

theorem Accounts.play (h : t.Accounts settings) (events : List Event) :
    (t.play events).Accounts settings := by
  induction events generalizing t with
  | nil => exact h
  | cons event events ih => exact ih (h.move event)

end

/-- **The link moves words without loss, duplication or reordering.** Whatever host software, the
link and the system domain do in whatever order, the words accepted at one end are those that came
out at the other, followed by those on their way; no queue holds more than it can, and the counters
tell how many words have crossed the bus. -/
theorem words_conserved (settings : Config.Link) (hdepth : 2 ≤ settings.fifoDepth)
    (events : List Event) :
    let t := (start settings).play events
    let d := t.domain
    t.accepted = t.taken ++ d.inbound.contents ++ d.host.toDevice ∧
      t.pushed = t.drained ++ d.host.sentWords ++ d.outbound.contents ∧
      d.inbound.contents.length ≤ settings.fifoDepth ∧
      d.outbound.contents.length ≤ settings.fifoDepth ∧
      d.host.capacity = max settings.hostBufferWords 1 ∧
      d.host.toDevice.length ≤ d.host.capacity ∧ d.host.sentWords.length ≤ d.host.capacity ∧
      d.counters.linkWordsIn = (t.taken ++ d.inbound.contents).length ∧
      d.counters.linkWordsOut = (t.drained ++ d.host.sentWords).length := by
  intro t d
  have h : t.Accounts settings := (accounts_start settings).play events
  obtain ⟨hinbound, houtbound, hbuffer⟩ := h.capacities
  have hin := h.inbound.length_contents
  have hout := h.outbound.length_contents
  rw [hinbound, Nat.max_eq_left hdepth] at hin
  rw [houtbound, Nat.max_eq_left hdepth] at hout
  exact ⟨h.inward, h.outward, hin, hout, hbuffer, h.host.toDevice, h.host.fromDevice, h.wordsIn,
    h.wordsOut⟩

/-- Two words on their way through the shallowest queue: one arrived, one still with the host. -/
theorem words_conserved_shallow :
    let t := (start { fifoDepth := 2 }).play
      [.write [7, 9], .tick, .commitInbound, .take, .commitInbound]
    t.accepted = [7, 9] ∧ t.taken = [7] ∧ t.domain.counters.linkWordsIn = 1 ∧
      t.accepted = t.taken ++ t.domain.inbound.contents ++ t.domain.host.toDevice := by
  intro t
  exact ⟨rfl, rfl, rfl, (words_conserved { fifoDepth := 2 } (Nat.le_refl 2)
    [.write [7, 9], .tick, .commitInbound, .take, .commitInbound]).1⟩

end Traffic

end Link

end LinkBridge

import LinkBridge.Framing.Deframer
import LinkBridge.Framing.Framer
import LinkBridge.Proofs.Framing.Reading
import LinkBridge.Proofs.Safety.Access
import Mathlib.Data.List.Basic

/-!
# LinkBridge.Proofs.Safety.Framing

The deframer and the framer as register machines. The phases of the two carry exactly what a phase
needs; a register machine has one set of registers for all of its states, so it indexes its header
and its payload by counters and counts down the words to skip, and whether that is in order depends
on what earlier ticks left behind.

The registers are viewed as a deframer or a framer (`Registers.view`). As long as they are valid, no
access of a tick fails, the tick does what it does in the view, and the registers stay valid
(`Deframer.Registers.Valid.exists_tick`, `Framer.Registers.Valid.exists_tick`).
-/

namespace LinkBridge

open Access

/-! ## the deframer -/

namespace Deframer

/-- The states of the register machine. -/
inductive Registers.State where
  | idle
  | receiveHeader
  | copy
  | deliver
  | discard
  deriving DecidableEq

/-- The registers of a deframer. -/
structure Registers where
  /-- Ticks without a word after which a frame is abandoned; zero means never. -/
  timeout : Nat
  /-- Longest payload passed on, in words. -/
  maxPayload : Nat
  state : Registers.State := .idle
  /-- The two words behind the preamble. -/
  header : List Word := [0, 0]
  /-- Where the next header word goes. -/
  headerCount : Nat := 0
  dst : UInt8 := 0
  /-- Payload length of the packet. -/
  words : Word := 0
  payload : Array Word := #[]
  /-- Position of the next payload word to deliver. -/
  delivered : Nat := 0
  /-- Words still to skip. -/
  discardLeft : Nat := 0
  idleTicks : Nat := 0

namespace Registers

/-- A tick without a word inside a frame. -/
def countIdle (r : Registers) : Transfer Registers PacketBeat :=
  if r.timeout = 0 then { next := r }
  else if r.timeout ≤ r.idleTicks + 1 then
    { next := { r with state := .idle, payload := #[], idleTicks := 0 }
      counted := { frameTimeouts := 1 } }
  else { next := { r with idleTicks := r.idleTicks + 1 } }

/-- Acts on the two header words that were read. -/
def decodeHeader? (r : Registers) : Option (Transfer Registers PacketBeat) := do
  let first ← r.header[0]?
  let second ← r.header[1]?
  let r := { r with dst := Frame.destination first, words := Frame.payloadLength second }
  if r.maxPayload < r.words.toNat then
    return { next := { r with state := .discard, discardLeft := r.words.toNat }
             taken := true, counted := { oversizePackets := 1 } }
  else return { next := { r with state := .copy, payload := #[] }, taken := true }

/-- One tick. -/
def tick? (r : Registers) (input : Option Word) (ready : Bool) :
    Option (Transfer Registers PacketBeat) :=
  match r.state, input with
  | .idle, none => some { next := r }
  | .idle, some w =>
    if w = Frame.preamble then
      some { next := { r with state := .receiveHeader, headerCount := 0, idleTicks := 0 }
             taken := true }
    else some { next := r, taken := true, counted := { resyncWordsDropped := 1 } }
  | .receiveHeader, some w => do
    let header ← put? r.header r.headerCount w
    let r := { r with header, headerCount := r.headerCount + 1, idleTicks := 0 }
    if r.headerCount = 2 then r.decodeHeader? else return { next := r, taken := true }
  | .copy, some w =>
    let r := { r with payload := r.payload.push w, idleTicks := 0 }
    if r.payload.size = r.words.toNat then
      some { next := { r with state := .deliver, delivered := 0 }, taken := true }
    else some { next := r, taken := true }
  | .discard, some _ => do
    let discardLeft ← minus? r.discardLeft 1
    let r := { r with discardLeft, idleTicks := 0 }
    if r.discardLeft = 0 then return { next := { r with state := .idle }, taken := true }
    else return { next := r, taken := true }
  | .receiveHeader, none | .copy, none | .discard, none => some r.countIdle
  | .deliver, _ => do
    -- looked up on every tick, whether or not there is room for the beat
    let data ← r.payload[r.delivered]?
    let last := r.delivered + 1 == r.payload.size
    let beat : PacketBeat := { dst := r.dst, length := r.words, data, last }
    if !ready then return { next := r }
    else if last then
      return { next := { r with state := .idle, payload := #[], delivered := r.delivered + 1 }
               sent := some beat, counted := { packetsDeframed := 1 } }
    else return { next := { r with delivered := r.delivered + 1 }, sent := some beat }

/-- Gives up the frame in progress. -/
def reset (r : Registers) : Registers :=
  { r with
    state := .idle, headerCount := 0, payload := #[], delivered := 0, discardLeft := 0,
    idleTicks := 0 }

/-- The phase the registers amount to. -/
def phase (r : Registers) : Phase :=
  match r.state with
  | .idle => .hunt
  | .receiveHeader =>
    .header (if r.headerCount = 0 then none else r.header[0]?) r.idleTicks
  | .copy => .collect r.dst r.words r.payload r.idleTicks
  | .deliver => .deliver r.dst r.words (r.payload.toList.drop r.delivered)
  | .discard => .discard r.discardLeft r.idleTicks

/-- The deframer the registers amount to. -/
def view (r : Registers) : Deframer where
  timeout := r.timeout
  maxPayload := r.maxPayload
  phase := r.phase

/-- What the counters and the payload have to be in a state. -/
def Counted (r : Registers) : Prop :=
  match r.state with
  | .idle => True
  | .receiveHeader => r.headerCount < 2
  | .copy => r.payload.size < r.words.toNat ∧ r.words.toNat ≤ r.maxPayload
  | .deliver => r.delivered < r.payload.size
  | .discard => 1 ≤ r.discardLeft

/-- Registers as ticks leave them behind. -/
structure Valid (r : Registers) : Prop where
  header : r.header.length = 2
  payload : r.payload.size ≤ r.maxPayload
  counted : r.Counted

variable {r : Registers} {input : Option Word} {ready : Bool}

/-- A tick in order: no access failed, the view did its tick, and the registers are still valid. -/
def InOrder (r : Registers) (input : Option Word) (ready : Bool)
    (result : Option (Transfer Registers PacketBeat)) : Prop :=
  ∃ t, result = some t ∧ t.map view = r.view.tick input ready ∧ t.next.Valid

/-- Without a word the timer runs, in whatever state inside a frame. -/
theorem countIdle_inOrder (h : r.Valid) (hidle : r.tick? none ready = some r.countIdle)
    {stay : Nat → Phase} (hphase : ∀ idle, { r with idleTicks := idle }.phase = stay idle)
    (hwait : r.view.tick none ready = r.view.wait r.idleTicks stay) :
    r.InOrder none ready (r.tick? none ready) := by
  refine ⟨_, hidle, ?_, ?_⟩
  · rw [hwait]
    by_cases hoff : r.timeout = 0
    · simp only [countIdle, wait, view, hoff, if_true, Transfer.map]
    by_cases hover : r.timeout ≤ r.idleTicks + 1
    · simp only [countIdle, wait, view, hoff, hover, if_true, if_false, Transfer.map]
      rfl
    · simp only [countIdle, wait, view, hoff, hover, if_false, Transfer.map, goto, hphase]
  · unfold countIdle
    split
    · exact h
    · split
      · exact ⟨h.header, Nat.zero_le _, trivial⟩
      · exact { h with }

/-- Both header words are there when they are acted on. -/
theorem exists_decodeHeader {a b : Word} (hheader : r.header = [a, b])
    (hpayload : r.payload.size ≤ r.maxPayload) (hidle : r.idleTicks = 0) :
    ∃ t, r.decodeHeader? = some t ∧ t.map view = r.view.announce a b ∧ t.next.Valid := by
  have hlength : 1 ≤ (Frame.payloadLength b).toNat := by
    rw [Frame.toNat_payloadLength]
    exact Nat.le_max_right _ _
  have hsize : r.header.length = 2 := by rw [hheader]; rfl
  obtain ⟨hfirst, hsecond⟩ : r.header[0]? = some a ∧ r.header[1]? = some b := by simp [hheader]
  simp only [decodeHeader?, hfirst, hsecond, Option.bind_eq_bind, Option.bind_some, Option.pure_def]
  by_cases hlimit : r.maxPayload < (Frame.payloadLength b).toNat
  · refine ⟨_, if_pos hlimit, ?_, hsize, hpayload, hlength⟩
    simp only [announce, view, hlimit, if_true, Transfer.map, phase, hidle]
    rfl
  · refine ⟨_, if_neg hlimit, ?_, hsize, Nat.zero_le _, hlength, Nat.le_of_not_lt hlimit⟩
    simp only [announce, view, hlimit, if_false, Transfer.map, phase, hidle]
    rfl

/-! One lemma for each state. In `receiveHeader` the first word only fills the header, and the
second one completes it; in every other state inside a frame one word does one thing. -/

theorem idle_inOrder (h : r.Valid) (hstate : r.state = .idle) (input : Option Word) (ready : Bool) :
    r.InOrder input ready (r.tick? input ready) := by
  have hphase : r.view.phase = .hunt := by simp only [view, phase, hstate]
  cases input with
  | none =>
      refine ⟨{ next := r }, by simp only [tick?, hstate], ?_, h⟩
      simp only [Deframer.tick, hphase]
      rfl
  | some w =>
      by_cases hw : w = Frame.preamble
      · refine ⟨{ next := { r with state := .receiveHeader, headerCount := 0, idleTicks := 0 }
                  taken := true }, by simp only [tick?, hstate, hw, if_true], ?_, ?_⟩
        · simp only [Deframer.tick, hphase, hw, if_true]
          rfl
        · exact ⟨h.header, h.payload, Nat.two_pos⟩
      · refine ⟨{ next := r, taken := true, counted := { resyncWordsDropped := 1 } },
          by simp only [tick?, hstate, hw, if_false], ?_, h⟩
        simp only [Deframer.tick, hphase, hw, if_false]
        rfl

theorem receiveHeader_inOrder (h : r.Valid) (hstate : r.state = .receiveHeader)
    (input : Option Word) (ready : Bool) : r.InOrder input ready (r.tick? input ready) := by
  have hcount : r.headerCount < 2 := by simpa only [Counted, hstate] using h.counted
  have hphase : r.view.phase =
      .header (if r.headerCount = 0 then none else r.header[0]?) r.idleTicks := by
    simp only [view, phase, hstate]
  cases input with
  | none =>
      exact countIdle_inOrder h (by simp only [tick?, hstate])
        (fun idle => by simp only [phase, hstate]; rfl) (by simp only [Deframer.tick, hphase])
  | some w =>
      -- the stale word at the other position stays where it is
      have hput := put?_of_lt (h.header.symm ▸ hcount) w
      obtain ⟨a, b, hheader⟩ := List.length_eq_two.mp h.header
      obtain hzero | hone : r.headerCount = 0 ∨ r.headerCount = 1 := by omega
      · let addressed : Registers := { r with header := [w, b], headerCount := 1, idleTicks := 0 }
        have hsome : r.tick? (some w) ready = some { next := addressed, taken := true } := by
          rw [hzero, hheader] at hput
          simp only [tick?, hstate, hzero, hheader, hput, Option.bind_eq_bind, Option.bind_some]
          simp only [addressed, hstate]
          rfl
        refine ⟨_, hsome, ?_, rfl, h.payload, ?_⟩
        · simp only [Deframer.tick, hphase, hzero, if_true]
          simp only [Transfer.map, view, phase, addressed, hstate]
          rfl
        · simp only [Counted, addressed, hstate, Nat.one_lt_two]
      · let complete : Registers := { r with header := [a, w], headerCount := 2, idleTicks := 0 }
        have hsome : r.tick? (some w) ready = complete.decodeHeader? := by
          rw [hone, hheader] at hput
          simp only [tick?, hstate, hone, hheader, hput, Option.bind_eq_bind, Option.bind_some]
          simp only [complete, hstate]
          rfl
        have htick : r.view.tick (some w) ready = complete.view.announce a w := by
          rw [hone, hheader] at hphase
          simp only [Deframer.tick, hphase]
          rfl
        rw [hsome, InOrder, htick]
        exact exists_decodeHeader rfl h.payload rfl

theorem copy_inOrder (h : r.Valid) (hstate : r.state = .copy) (input : Option Word) (ready : Bool) :
    r.InOrder input ready (r.tick? input ready) := by
  obtain ⟨hsize, hlimit⟩ : r.payload.size < r.words.toNat ∧ r.words.toNat ≤ r.maxPayload := by
    simpa only [Counted, hstate] using h.counted
  have hphase : r.view.phase = .collect r.dst r.words r.payload r.idleTicks := by
    simp only [view, phase, hstate]
  cases input with
  | none =>
      exact countIdle_inOrder h (by simp only [tick?, hstate])
        (fun idle => by simp only [phase, hstate]; rfl) (by simp only [Deframer.tick, hphase])
  | some w =>
      have hpush : (r.payload.push w).size = r.payload.size + 1 := Array.size_push ..
      have hroom : (r.payload.push w).size ≤ r.maxPayload := by omega
      let more : Registers := { r with payload := r.payload.push w, idleTicks := 0 }
      by_cases hfull : (r.payload.push w).size = r.words.toNat
      · refine ⟨{ next := { more with state := .deliver, delivered := 0 }, taken := true },
          by simp only [tick?, hstate, hfull, if_true, more], ?_, h.header, hroom, ?_⟩
        · simp only [Deframer.tick, hphase, hfull, if_true]
          rfl
        · show 0 < (r.payload.push w).size
          omega
      · refine ⟨{ next := more, taken := true },
          by simp only [tick?, hstate, hfull, if_false, more], ?_, h.header, hroom, ?_⟩
        · simp only [Deframer.tick, hphase, hfull, if_false]
          simp only [Transfer.map, view, phase, hstate, more, goto]
        · simp only [Counted, hstate, more]
          omega

theorem discard_inOrder (h : r.Valid) (hstate : r.state = .discard) (input : Option Word)
    (ready : Bool) : r.InOrder input ready (r.tick? input ready) := by
  have hleft : 1 ≤ r.discardLeft := by simpa only [Counted, hstate] using h.counted
  have hphase : r.view.phase = .discard r.discardLeft r.idleTicks := by
    simp only [view, phase, hstate]
  cases input with
  | none =>
      exact countIdle_inOrder h (by simp only [tick?, hstate])
        (fun idle => by simp only [phase, hstate]; rfl) (by simp only [Deframer.tick, hphase])
  | some w =>
      let fewer : Registers := { r with discardLeft := r.discardLeft - 1, idleTicks := 0 }
      have hminus : minus? r.discardLeft 1 = some fewer.discardLeft := minus?_of_le hleft
      by_cases hlast : fewer.discardLeft = 0
      · have hle : r.discardLeft ≤ 1 := Nat.sub_eq_zero_iff_le.mp hlast
        refine ⟨{ next := { fewer with state := .idle }, taken := true }, ?_, ?_, h.header,
          h.payload, trivial⟩
        · simp only [tick?, hstate, hminus, Option.bind_eq_bind, Option.bind_some, hlast, if_true]
          rfl
        · simp only [Deframer.tick, hphase, hle, if_true]
          rfl
      · have hmore : ¬ r.discardLeft ≤ 1 := fun hle => hlast (Nat.sub_eq_zero_of_le hle)
        refine ⟨{ next := fewer, taken := true }, ?_, ?_, h.header, h.payload, ?_⟩
        · simp only [tick?, hstate, hminus, Option.bind_eq_bind, Option.bind_some, hlast, if_false]
          simp only [fewer, hstate]
          rfl
        · simp only [Deframer.tick, hphase, hmore, if_false]
          simp only [Transfer.map, view, phase, hstate, fewer, goto]
        · simp only [Counted, hstate, fewer]
          omega

theorem deliver_inOrder (h : r.Valid) (hstate : r.state = .deliver) (input : Option Word)
    (ready : Bool) : r.InOrder input ready (r.tick? input ready) := by
  have hlt : r.delivered < r.payload.size := by simpa only [Counted, hstate] using h.counted
  have hdata : r.payload[r.delivered]? = some r.payload[r.delivered] :=
    Array.getElem?_eq_getElem hlt
  have hdrop : r.payload.toList.drop r.delivered =
      r.payload[r.delivered] :: r.payload.toList.drop (r.delivered + 1) := by
    rw [List.drop_eq_getElem_cons (by simpa using hlt), Array.getElem_toList]
  have hphase : r.view.phase = .deliver r.dst r.words
      (r.payload[r.delivered] :: r.payload.toList.drop (r.delivered + 1)) := by
    simp only [view, phase, hstate, hdrop]
  have hlast : (r.payload.toList.drop (r.delivered + 1)).isEmpty =
      (r.delivered + 1 == r.payload.size) := by
    rw [Bool.eq_iff_iff, List.isEmpty_iff, List.drop_eq_nil_iff, Array.length_toList, beq_iff_eq]
    omega
  let beat : PacketBeat :=
    { dst := r.dst, length := r.words, data := r.payload[r.delivered]
      last := r.delivered + 1 == r.payload.size }
  cases ready with
  | false =>
      refine ⟨{ next := r }, ?_, ?_, h⟩
      · simp only [tick?, hstate, hdata, Option.bind_eq_bind, Option.bind_some]
        rfl
      · simp only [Deframer.tick, hphase]
        rfl
  | true =>
      cases hend : r.delivered + 1 == r.payload.size with
      | true =>
          refine ⟨{ next := { r with state := .idle, payload := #[], delivered := r.delivered + 1 }
                    sent := some beat, counted := { packetsDeframed := 1 } }, ?_, ?_, h.header,
            Nat.zero_le _, trivial⟩
          · simp only [tick?, hstate, hdata, hend, Option.bind_eq_bind, Option.bind_some, beat]
            rfl
          · simp only [Deframer.tick, hphase, hlast, hend, beat]
            rfl
      | false =>
          refine ⟨{ next := { r with delivered := r.delivered + 1 }, sent := some beat }, ?_, ?_,
            h.header, h.payload, ?_⟩
          · simp only [tick?, hstate, hdata, hend, Option.bind_eq_bind, Option.bind_some, beat]
            rfl
          · simp only [Deframer.tick, hphase, hlast, hend, beat]
            simp only [Transfer.map, view, phase, hstate, goto]
            rfl
          · have hne : r.delivered + 1 ≠ r.payload.size := ne_of_beq_false hend
            simp only [Counted, hstate]
            omega

/-- **No access of a deframer fails**: its registers do what a deframer does. -/
theorem Valid.exists_tick (h : r.Valid) (input : Option Word) (ready : Bool) :
    ∃ t, r.tick? input ready = some t ∧ t.map view = r.view.tick input ready ∧ t.next.Valid := by
  cases hstate : r.state with
  | idle => exact idle_inOrder h hstate input ready
  | receiveHeader => exact receiveHeader_inOrder h hstate input ready
  | copy => exact copy_inOrder h hstate input ready
  | deliver => exact deliver_inOrder h hstate input ready
  | discard => exact discard_inOrder h hstate input ready

/-- Registers that no tick leaves behind can fail: here no word is left to skip. -/
example : tick? { timeout := 0, maxPayload := 4, state := .discard } (some 7) true = none := rfl

theorem view_reset (r : Registers) : r.reset.view = r.view.reset := rfl

theorem Valid.reset (h : r.Valid) : r.reset.Valid :=
  ⟨h.header, Nat.zero_le _, trivial⟩

/-- The registers of a deframer that waits for its first frame. -/
theorem valid_start (timeout maxPayload : Nat) : Valid { timeout, maxPayload } :=
  ⟨rfl, Nat.zero_le _, trivial⟩

end Registers

end Deframer

/-! ## the framer -/

namespace Framer

/-- The states of the register machine; `insertHeader` counts the header words sent. -/
inductive Registers.State where
  | idle
  | insertHeader (sent : Nat)
  | copy
  deriving DecidableEq

/-- The registers of a framer. -/
structure Registers where
  state : Registers.State := .idle
  header : List Word := [0, 0, 0]

namespace Registers

/-- One tick. The header word is looked up whether or not there is room for it. -/
def tick? (r : Registers) (input : Option PacketBeat) (ready : Bool) :
    Option (Transfer Registers Word) :=
  match r.state, input with
  | .idle, none => some { next := r }
  | .idle, some beat =>
    some { next := { state := .insertHeader 0, header := Frame.header beat.dst beat.length } }
  | .insertHeader sent, _ => do
    let word ← r.header[sent]?
    if ready then
      return { next := { r with state := if sent + 1 = 3 then .copy else .insertHeader (sent + 1) }
               sent := some word }
    else return { next := r }
  | .copy, none => some { next := r }
  | .copy, some beat =>
    if !ready then some { next := r }
    else if beat.last then
      some { next := { r with state := .idle }, taken := true, sent := some beat.data
             counted := { packetsFramed := 1 } }
    else some { next := r, taken := true, sent := some beat.data }

/-- Gives up the frame in progress. -/
def reset (r : Registers) : Registers :=
  { r with state := .idle }

/-- The framer the registers amount to. -/
def view (r : Registers) : Framer where
  phase :=
    match r.state with
    | .idle => .idle
    | .insertHeader sent => .sending (r.header.drop sent)
    | .copy => .payload

/-- Registers as ticks leave them behind. -/
structure Valid (r : Registers) : Prop where
  header : r.header.length = 3
  sent (n : Nat) : r.state = .insertHeader n → n < 3

variable {r : Registers}

/-- The header is looked up within its bounds. -/
theorem Valid.exists_tick_insertHeader (h : r.Valid) {n : Nat} (hstate : r.state = .insertHeader n)
    (input : Option PacketBeat) (ready : Bool) :
    ∃ t, r.tick? input ready = some t ∧ t.map view = r.view.tick input ready ∧ t.next.Valid := by
  have hlt : n < r.header.length := h.header.symm ▸ h.sent n hstate
  have hword : r.header[n]? = some r.header[n] := List.getElem?_eq_getElem hlt
  have hphase : r.view.phase = .header r.header[n] (r.header.drop (n + 1)) := by
    simp only [view, hstate, List.drop_eq_getElem_cons hlt]
    rfl
  cases ready with
  | false =>
      refine ⟨{ next := r }, ?_, ?_, h⟩
      · simp only [tick?, hstate, hword, Option.bind_eq_bind, Option.bind_some]
        rfl
      · simp only [Framer.tick, hphase]
        rfl
  | true =>
      by_cases hend : n + 1 = 3
      · refine ⟨{ next := { r with state := .copy }, sent := some r.header[n] }, ?_, ?_,
          h.header, nofun⟩
        · simp only [tick?, hstate, hword, Option.bind_eq_bind, Option.bind_some, hend, if_true]
          rfl
        · have hsize := h.header
          have hnil : r.header.drop (n + 1) = [] := List.drop_of_length_le (by omega)
          simp only [Framer.tick, hphase, hnil]
          rfl
      · refine ⟨{ next := { r with state := .insertHeader (n + 1) }, sent := some r.header[n] },
          ?_, ?_, h.header, ?_⟩
        · simp only [tick?, hstate, hword, Option.bind_eq_bind, Option.bind_some, hend, if_true,
            if_false]
          rfl
        · simp only [Framer.tick, hphase]
          rfl
        · rintro m ⟨⟩
          have := h.sent n hstate
          omega

/-- **No access of a framer fails**: its registers do what a framer does. -/
theorem Valid.exists_tick (h : r.Valid) (input : Option PacketBeat) (ready : Bool) :
    ∃ t, r.tick? input ready = some t ∧ t.map view = r.view.tick input ready ∧ t.next.Valid := by
  cases hstate : r.state with
  | idle =>
      have hphase : r.view.phase = .idle := by simp only [view, hstate]
      cases input with
      | none =>
          refine ⟨{ next := r }, by simp only [tick?, hstate], ?_, h⟩
          simp only [Framer.tick, hphase]
          rfl
      | some beat =>
          let header := Frame.header beat.dst beat.length
          refine ⟨{ next := { state := .insertHeader 0, header } }, ?_, ?_, rfl, ?_⟩
          · simp only [tick?, hstate, header]
          · simp only [Framer.tick, hphase]
            rfl
          · rintro n ⟨⟩
            exact Nat.succ_pos 2
  | insertHeader n => exact h.exists_tick_insertHeader hstate input ready
  | copy =>
      have hphase : r.view.phase = .payload := by simp only [view, hstate]
      cases input with
      | none =>
          refine ⟨{ next := r }, by simp only [tick?, hstate], ?_, h⟩
          simp only [Framer.tick, hphase]
          rfl
      | some beat =>
          cases ready with
          | false =>
              refine ⟨{ next := r }, by simp only [tick?, hstate]; rfl, ?_, h⟩
              simp only [Framer.tick, hphase]
              rfl
          | true =>
              cases hlast : beat.last with
              | true =>
                  refine ⟨{ next := { r with state := .idle }, taken := true, sent := some beat.data
                            counted := { packetsFramed := 1 } },
                    by simp only [tick?, hstate, hlast]; rfl, ?_, h.header, nofun⟩
                  simp only [Framer.tick, hphase, hlast]
                  rfl
              | false =>
                  refine ⟨{ next := r, taken := true, sent := some beat.data },
                    by simp only [tick?, hstate, hlast]; rfl, ?_, h⟩
                  simp only [Framer.tick, hphase, hlast]
                  rfl

theorem view_reset (r : Registers) : r.reset.view = r.view.reset := rfl

theorem Valid.reset (h : r.Valid) : r.reset.Valid :=
  ⟨h.header, nofun⟩

/-- The registers of a framer that waits for its first packet. -/
theorem valid_start : Valid {} :=
  ⟨rfl, nofun⟩

end Registers

end Framer

end LinkBridge

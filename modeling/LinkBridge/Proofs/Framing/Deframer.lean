import LinkBridge.Framing.Deframer
import LinkBridge.Proofs.Framing.Reading
import LinkBridge.Proofs.Losses
import LinkBridge.Proofs.Stream.Contents

/-!
# LinkBridge.Proofs.Framing.Deframer

The deframer against the reading of whole streams. On every tick the deframer may be shown a word or
not, and the next stage may have room or not; a `History` records what a run shows: the words
consumed up to every frame that was abandoned and since then, the beats passed on, and for how many
ticks the stream has been silent within a frame.

The invariant (`History.Faithful`) puts the deframer at the position of `Frame.reader` behind the
words consumed since the last abandoned frame, and says that the beats passed on, together with
those still owed, are the beats of the packets that fit.
-/

namespace LinkBridge

namespace Frame

/-- The packets of a word stream whose payload is within a limit. -/
def packetsWithin (limit : Nat) (ws : List Word) : List Packet :=
  (packets ws).filter fun p => decide (p.payload.length ≤ limit)

/-- The beats of the packets a reader completes, as far as they are within a limit. -/
def Finding.beats (limit : Nat) (fs : List Finding) : List PacketBeat :=
  ((fs.filterMap packet?).filter fun p => decide (p.payload.length ≤ limit)).flatMap Packet.beats

/-- The words a reader skips. -/
def Finding.skips (fs : List Finding) : Nat :=
  fs.count .skipped

/-- The payloads a reader finds announced that are beyond a limit. -/
def Finding.oversizes (limit : Nat) (fs : List Finding) : Nat :=
  fs.countP fun
    | .announced length => decide (limit < length.toNat)
    | _ => false

@[simp] theorem Finding.beats_append (limit : Nat) (fs gs : List Finding) :
    beats limit (fs ++ gs) = beats limit fs ++ beats limit gs := by
  simp [beats]

theorem Finding.beats_findings (limit : Nat) (ws : List Word) :
    beats limit (findings ws) = (packetsWithin limit ws).flatMap Packet.beats := by
  rw [beats, filterMap_packet?_findings, packetsWithin]

/-- The frame of a packet beyond a limit is reported, and the packet is not passed on. -/
theorem read_ofPacket {p : Packet} (h : p.payload.length < 2 ^ 32) (limit : Nat) :
    packetsWithin limit (ofPacket p) =
        (if p.words.length ≤ limit then [normalize p] else []) ∧
      Finding.oversizes limit (findings (ofPacket p)) = if p.words.length ≤ limit then 0 else 1 := by
  have hfindings := findings_ofPacket_append h []
  rw [List.append_nil] at hfindings
  have hpackets : packets (ofPacket p) = [normalize p] := by
    rw [← filterMap_packet?_findings, hfindings]
    rfl
  constructor
  · simp [packetsWithin, hpackets, normalize, List.filter_cons]
  · rw [hfindings, Finding.oversizes, ← Packet.toNat_length h]
    by_cases hfits : p.length.toNat ≤ limit
    · simp [hfits, Nat.not_lt.mpr hfits, findings]
    · simp [hfits, Nat.not_le.mp hfits, findings]

end Frame

namespace Deframer

open LinkBridge.Frame (Position Finding reader)

/-! ## phases -/

/-- Whether a phase lies between a preamble and the last payload word. -/
def Phase.inFrame : Phase → Bool
  | .header .. | .collect .. | .discard .. => true
  | .hunt | .deliver .. => false

/-- The ticks without a word a phase has counted. -/
def Phase.idle? : Phase → Option Nat
  | .header _ idle | .collect _ _ _ idle | .discard _ idle => some idle
  | .hunt | .deliver .. => none

/-- The beats of the packet that is being passed on. -/
def Phase.owed : Phase → List PacketBeat
  | .deliver dst length rest => Packet.beatsOf dst length rest
  | _ => []

/-- Within a frame nothing is owed. -/
theorem Phase.owed_of_inFrame {phase : Phase} (h : phase.inFrame = true) : phase.owed = [] := by
  cases phase with
  | hunt | deliver => contradiction
  | header | collect | discard => rfl

/-- A phase and the position of a reader behind the same words. -/
inductive Phase.At (limit : Nat) : Phase → Position → Prop where
  | hunt : At limit .hunt .outside
  | started (idle : Nat) : At limit (.header none idle) .started
  | addressed (dst : Word) (idle : Nat) : At limit (.header (some dst) idle) (.addressed dst)
  | collect (dst : UInt8) (length : Word) (payload : Array Word) (idle : Nat) :
      length.toNat ≤ limit → payload.size < length.toNat →
      At limit (.collect dst length payload idle) (.inside dst length payload.toList)
  | discard (dst : UInt8) (length : Word) (payload : List Word) (left idle : Nat) :
      limit < length.toNat → 0 < left → payload.length + left = length.toNat →
      At limit (.discard left idle) (.inside dst length payload)
  | deliver (dst : UInt8) (length w : Word) (rest : List Word) :
      At limit (.deliver dst length (w :: rest)) .outside

/-- Within a frame the reader stands inside of it. -/
theorem Phase.At.ne_outside {limit : Nat} {phase : Phase} {pos : Position}
    (h : phase.At limit pos) (hframe : phase.inFrame = true) : pos ≠ .outside := by
  cases h with
  | hunt | deliver => contradiction
  | started | addressed | collect | discard => exact nofun

/-- While the deframer hunts, the reader stands outside of every frame. -/
theorem Phase.At.outside_of_hunt {limit : Nat} {pos : Position}
    (h : Phase.At limit .hunt pos) : pos = .outside := by
  cases h
  rfl

/-! ## one tick -/

/-- Whether a tick brings no word to a frame in progress. -/
def stalls (d : Deframer) (input : Option Word) : Bool :=
  d.phase.inFrame && input.isNone

/-- Whether a tick ends a frame in progress without a word. -/
def abandons (d : Deframer) (input : Option Word) (ready : Bool) : Bool :=
  let t := d.tick input ready
  d.phase.inFrame && !t.taken && t.next.isIdle

/-- What a tick does, seen from the reader of the same words. -/
inductive Moves (d : Deframer) (pos : Position) (input : Option Word)
    (t : Transfer Deframer PacketBeat) : Prop where
  /-- The deframer waits for a word or for room. -/
  | waits : t.taken = false → t.sent = none → t.counted = {} →
      t.next.phase.At d.maxPayload pos → t.next.phase.owed = d.phase.owed → Moves d pos input t
  /-- The deframer takes a word and owes what the word completes. -/
  | reads (w : Word) : input = some w → t.taken = true → t.sent = none →
      t.counted =
        { resyncWordsDropped := Finding.skips (reader.step pos w).2
          oversizePackets := Finding.oversizes d.maxPayload (reader.step pos w).2 } →
      t.next.phase.At d.maxPayload (reader.step pos w).1 → d.phase.owed = [] →
      t.next.phase.owed = Finding.beats d.maxPayload (reader.step pos w).2 → Moves d pos input t
  /-- The deframer passes on the first beat it owes. -/
  | sends (beat : PacketBeat) : t.taken = false → t.sent = some beat →
      t.counted.frameTimeouts = 0 → t.counted.resyncWordsDropped = 0 →
      t.counted.oversizePackets = 0 →
      t.next.phase.At d.maxPayload pos → d.phase.owed = beat :: t.next.phase.owed →
      Moves d pos input t
  /-- The deframer gives a frame up. -/
  | abandons : input = none → d.phase.inFrame = true → t.taken = false → t.sent = none →
      t.counted = { frameTimeouts := 1 } → t.next.phase = .hunt → d.phase.owed = [] →
      Moves d pos input t

/-- The beats of a packet whose payload is as long as a length word says. -/
theorem beats_of_length {dst : UInt8} {length : Word} {payload : List Word} (hne : payload ≠ [])
    (h : payload.length = length.toNat) :
    Packet.beats { dst, payload } = Packet.beatsOf dst length payload := by
  have hlt : payload.length < 2 ^ 32 := h ▸ length.toNat_lt
  rw [← Packet.beatsFor_eq hne hlt, Packet.beatsFor, h, UInt32.ofNat_toNat]

/-- A tick without a word leaves a frame where it is or gives it up. -/
theorem wait_moves {d : Deframer} {pos : Position} (idle : Nat) (stay : Nat → Phase)
    (hd : d.phase = stay idle) (hat : ∀ n, (stay n).At d.maxPayload pos)
    (hframe : ∀ n, (stay n).inFrame = true) : Moves d pos none (d.wait idle stay) := by
  have howed (n : Nat) : (stay n).owed = [] := Phase.owed_of_inFrame (hframe n)
  unfold wait
  split
  · exact .waits rfl rfl rfl (hd ▸ hat idle) rfl
  · split
    · exact .abandons rfl (hd ▸ hframe idle) rfl rfl rfl rfl (hd ▸ howed idle)
    · exact .waits rfl rfl rfl (hat (idle + 1)) ((howed (idle + 1)).trans (hd ▸ howed idle).symm)

/-- A length word starts a payload that is collected or skipped. -/
theorem announce_moves {d : Deframer} {idle : Nat} (dst w : Word)
    (hd : d.phase = .header (some dst) idle) :
    Moves d (.addressed dst) (some w) (d.announce dst w) := by
  have hpos : 1 ≤ (Frame.payloadLength w).toNat := by
    rw [Frame.toNat_payloadLength]; omega
  unfold announce
  by_cases hlong : d.maxPayload < (Frame.payloadLength w).toNat
  · simp only [hlong, if_pos]
    refine .reads w rfl rfl rfl ?_ ?_ (by rw [hd]; rfl) rfl
    · simp [reader, Finding.skips, Finding.oversizes, hlong]
    · exact .discard _ _ [] _ 0 hlong hpos (by simp)
  · simp only [hlong, if_neg, not_false_eq_true]
    refine .reads w rfl rfl rfl ?_ ?_ (by rw [hd]; rfl) rfl
    · simp [reader, Finding.skips, Finding.oversizes, hlong]
    · exact .collect _ _ #[] 0 (by omega) (by simp; omega)

/-- A payload word is collected or completes the packet. -/
theorem collect_moves {timeout limit : Nat} (dst : UInt8) (length w : Word)
    (payload : Array Word) (idle : Nat) (ready : Bool) (hfits : length.toNat ≤ limit)
    (hmore : payload.size < length.toNat) :
    let d : Deframer := { timeout, maxPayload := limit, phase := .collect dst length payload idle }
    Moves d (.inside dst length payload.toList) (some w) (d.tick (some w) ready) := by
  intro d
  have hsize : (payload.push w).size = payload.toList.length + 1 := by simp
  have hlist : (payload.push w).toList = payload.toList ++ [w] := by simp
  by_cases hdone : (payload.push w).size = length.toNat
  · have hstep : reader.step (.inside dst length payload.toList) w =
        (.outside, [.packet { dst, payload := payload.toList ++ [w] }]) := by
      simp only [reader, ← hsize, if_pos hdone]
    have hlen : (payload.toList ++ [w]).length = length.toNat := by
      rw [← hlist, Array.length_toList, hdone]
    refine .reads w rfl ?_ ?_ ?_ ?_ rfl ?_ <;>
      simp only [d, tick, if_pos hdone, hstep, goto, hlist]
    · simp [Finding.skips, Finding.oversizes]
    · cases h : payload.toList ++ [w] with
      | nil => simp at h
      | cons x rest => exact .deliver dst length x rest
    · rw [Phase.owed, ← beats_of_length (by simp) hlen]
      simp [Finding.beats, Finding.packet?, hlen, hfits]
  · have hstep : reader.step (.inside dst length payload.toList) w =
        (.inside dst length (payload.toList ++ [w]), []) := by
      simp only [reader, ← hsize, if_neg hdone]
    refine .reads w rfl ?_ ?_ ?_ ?_ rfl ?_ <;>
      simp only [d, tick, if_neg hdone, hstep, goto]
    · rfl
    · rw [← hlist]
      exact .collect dst length (payload.push w) 0 hfits (by simp at hdone ⊢; omega)
    · rfl

/-- A word of a payload that is too long is skipped. -/
theorem discard_moves {timeout limit : Nat} (dst : UInt8) (length w : Word)
    (payload : List Word) (left idle : Nat) (ready : Bool) (hlong : limit < length.toNat)
    (hleft : 0 < left) (htotal : payload.length + left = length.toNat) :
    let d : Deframer := { timeout, maxPayload := limit, phase := .discard left idle }
    Moves d (.inside dst length payload) (some w) (d.tick (some w) ready) := by
  intro d
  by_cases hlast : left ≤ 1
  · have hdone : payload.length + 1 = length.toNat := by omega
    have hstep : reader.step (.inside dst length payload) w =
        (.outside, [.packet { dst, payload := payload ++ [w] }]) := by
      simp only [reader, if_pos hdone]
    have htoolong : ¬ payload.length + 1 ≤ limit := by omega
    refine .reads w rfl ?_ ?_ ?_ ?_ rfl ?_ <;>
      simp only [d, tick, if_pos hlast, hstep, goto]
    · simp [Finding.skips, Finding.oversizes]
    · exact .hunt
    · simp [Phase.owed, Finding.beats, Finding.packet?, htoolong]
  · have hmore : ¬ payload.length + 1 = length.toNat := by omega
    have hstep : reader.step (.inside dst length payload) w =
        (.inside dst length (payload ++ [w]), []) := by
      simp only [reader, if_neg hmore]
    refine .reads w rfl ?_ ?_ ?_ ?_ rfl ?_ <;>
      simp only [d, tick, if_neg hlast, hstep, goto]
    · rfl
    · refine .discard dst length _ _ 0 hlong (by omega) ?_
      rw [List.length_append, List.length_singleton]
      omega
    · rfl

/-- A collected packet is passed on beat by beat. -/
theorem deliver_moves {timeout limit : Nat} (dst : UInt8) (length w : Word) (rest : List Word)
    (input : Option Word) (ready : Bool) :
    let d : Deframer := { timeout, maxPayload := limit, phase := .deliver dst length (w :: rest) }
    Moves d .outside input (d.tick input ready) := by
  intro d
  cases ready with
  | false => exact .waits rfl rfl rfl (.deliver dst length w rest) rfl
  | true =>
      cases rest with
      | nil => exact .sends _ rfl rfl rfl rfl rfl .hunt rfl
      | cons x rest => exact .sends _ rfl rfl rfl rfl rfl (.deliver dst length x rest) rfl

/-- **Every tick is one of the moves.** -/
theorem tick_moves {d : Deframer} {pos : Position} (h : d.phase.At d.maxPayload pos)
    (input : Option Word) (ready : Bool) : Moves d pos input (d.tick input ready) := by
  obtain ⟨timeout, limit, phase⟩ := d
  cases h with
  | hunt =>
      cases input with
      | none => exact .waits rfl rfl rfl .hunt rfl
      | some w =>
          by_cases hw : w = Frame.preamble
          · subst hw
            exact .reads Frame.preamble rfl rfl rfl rfl (.started 0) rfl rfl
          · simp only [tick, hw, if_neg, not_false_eq_true]
            refine .reads w rfl rfl rfl ?_ ?_ rfl ?_
            · simp [reader, hw, Finding.skips, Finding.oversizes]
            · simpa [reader, hw] using .hunt
            · simp [reader, hw, Phase.owed, Finding.beats, Finding.packet?]
  | started idle =>
      cases input with
      | none => exact wait_moves idle _ rfl .started fun _ => rfl
      | some w => exact .reads w rfl rfl rfl rfl (.addressed w 0) rfl rfl
  | addressed dst idle =>
      cases input with
      | none => exact wait_moves idle _ rfl (.addressed dst) fun _ => rfl
      | some w => exact announce_moves dst w rfl
  | collect dst length payload idle hfits hmore =>
      cases input with
      | none => exact wait_moves idle _ rfl (.collect dst length payload · hfits hmore) fun _ => rfl
      | some w => exact collect_moves dst length w payload idle ready hfits hmore
  | discard dst length payload left idle hlong hleft htotal =>
      cases input with
      | none =>
          exact wait_moves idle _ rfl (.discard dst length payload left · hlong hleft htotal)
            fun _ => rfl
      | some w => exact discard_moves dst length w payload left idle ready hlong hleft htotal
  | deliver dst length w rest => exact deliver_moves dst length w rest input ready

/-- A tick changes neither the timeout nor the limit. -/
theorem tick_settings (d : Deframer) (input : Option Word) (ready : Bool) :
    (d.tick input ready).next.timeout = d.timeout ∧
      (d.tick input ready).next.maxPayload = d.maxPayload := by
  obtain ⟨timeout, limit, phase⟩ := d
  unfold tick wait announce
  simp only [goto]
  repeat' split
  all_goals exact ⟨rfl, rfl⟩

/-- Without room no beat is passed on. -/
theorem ready_of_sent {d : Deframer} {input : Option Word} {ready : Bool}
    (h : (d.tick input ready).sent.isSome = true) : ready = true := by
  cases ready with
  | true => rfl
  | false =>
      unfold tick wait announce at h
      simp only at h
      split at h <;> repeat' split at h
      all_goals contradiction

/-- The deframer knows nothing of ports and of TLPs. -/
theorem reports_tick (d : Deframer) (input : Option Word) (ready : Bool) :
    (d.tick input ready).counted.packetsUnrouted = 0 ∧
      (d.tick input ready).counted.tlpOverflows = 0 := by
  unfold tick wait announce
  simp only
  repeat' split
  all_goals exact ⟨rfl, rfl⟩

@[simp] theorem taken_wait (d : Deframer) (idle : Nat) (stay : Nat → Phase) :
    (d.wait idle stay).taken = false := by
  unfold wait
  repeat' split
  all_goals rfl

/-- A word is only taken when there is one. -/
theorem taken_tick_none (d : Deframer) (ready : Bool) : (d.tick none ready).taken = false := by
  obtain ⟨timeout, limit, phase⟩ := d
  cases phase with
  | hunt => rfl
  | header dst idle => cases dst <;> exact taken_wait ..
  | collect | discard => exact taken_wait ..
  | deliver dst length rest =>
      cases rest with
      | nil => rfl
      | cons w rest => cases ready <;> cases rest <;> rfl

/-! ## the timer -/

theorem isIdle_iff (d : Deframer) : d.isIdle = true ↔ d.phase = .hunt := by
  unfold isIdle
  cases d.phase <;> simp

/-- Within a frame a tick without a word waits. -/
theorem tick_none_of_inFrame {d : Deframer} (h : d.phase.inFrame = true) :
    ∃ idle stay, d.phase = stay idle ∧
      (∀ n, (stay n).inFrame = true ∧ (stay n).idle? = some n) ∧
      ∀ ready, d.tick none ready = d.wait idle stay := by
  obtain ⟨timeout, limit, phase⟩ := d
  cases phase with
  | hunt | deliver => contradiction
  | header dst idle =>
      exact ⟨idle, .header dst, rfl, fun _ => ⟨rfl, rfl⟩, fun _ => by cases dst <;> rfl⟩
  | collect dst length payload idle =>
      exact ⟨idle, .collect dst length payload, rfl, fun _ => ⟨rfl, rfl⟩, fun _ => rfl⟩
  | discard left idle => exact ⟨idle, .discard left, rfl, fun _ => ⟨rfl, rfl⟩, fun _ => rfl⟩

/-- Within a frame a word is taken. -/
theorem taken_of_inFrame {d : Deframer} (h : d.phase.inFrame = true) (w : Word) (ready : Bool) :
    (d.tick (some w) ready).taken = true := by
  obtain ⟨timeout, limit, phase⟩ := d
  unfold tick announce
  cases phase with
  | hunt | deliver => contradiction
  | header dst idle =>
      cases dst with
      | none => rfl
      | some dst =>
          simp only
          split <;> rfl
  | collect | discard =>
      simp only
      split <;> rfl

/-- A tick that does not stall stops the timer or starts it over. -/
theorem idle?_tick_of_not_stalls {d : Deframer} {input : Option Word} (ready : Bool)
    (h : d.stalls input = false) :
    (d.tick input ready).next.phase.idle? = none ∨
      (d.tick input ready).next.phase.idle? = some 0 := by
  obtain ⟨timeout, limit, phase⟩ := d
  unfold tick announce
  cases phase with
  | hunt =>
      cases input with
      | none => exact .inl rfl
      | some w =>
          simp only
          split
          · exact .inr rfl
          · exact .inl rfl
  | header dst idle =>
      cases input with
      | none => contradiction
      | some w =>
          cases dst with
          | none => exact .inr rfl
          | some dst => simp only; split <;> exact .inr rfl
  | collect | discard =>
      cases input with
      | none => contradiction
      | some w =>
          simp only
          split
          · exact .inl rfl
          · exact .inr rfl
  | deliver dst length rest =>
      cases rest with
      | nil => exact .inl rfl
      | cons w rest =>
          simp only
          repeat' split
          all_goals exact .inl rfl

/-- A frame is given up when the timer is on and one more silent tick is one too many. -/
theorem abandons_iff (d : Deframer) (input : Option Word) (ready : Bool) :
    d.abandons input ready = true ↔
      d.timeout ≠ 0 ∧ d.stalls input = true ∧ ∃ n, d.phase.idle? = some n ∧ d.timeout ≤ n + 1 := by
  cases hframe : d.phase.inFrame with
  | false => simp [abandons, stalls, hframe]
  | true =>
      cases input with
      | some w => simp [abandons, stalls, taken_of_inFrame hframe]
      | none =>
          obtain ⟨idle, stay, hd, hstay, htick⟩ := tick_none_of_inFrame hframe
          have hbusy (e : Deframer) (n : Nat) (he : e.phase = stay n) : ¬ e.isIdle = true := by
            intro hidle
            have := (hstay n).1
            rw [← he, (isIdle_iff e).mp hidle] at this
            contradiction
          simp only [abandons, stalls, hframe, htick]
          simp only [hd, (hstay idle).2, Option.some.injEq, exists_eq_left']
          unfold wait
          split
          · next h => simp [h, hbusy d idle hd]
          · next h =>
            split
            · next hle => simp [h, hle, isIdle, goto]
            · next hle => simp [hle, hbusy (d.goto (stay (idle + 1))) (idle + 1) rfl]

/-- The timer of the next phase: started over, or one tick further. -/
theorem idle?_tick {d : Deframer} {input : Option Word} {ready : Bool} {n : Nat}
    (hon : d.timeout ≠ 0) (h : (d.tick input ready).next.phase.idle? = some n) :
    (d.stalls input = false ∧ n = 0) ∨
      (d.stalls input = true ∧ n < d.timeout ∧ ∃ m, d.phase.idle? = some m ∧ n = m + 1) := by
  cases hstalls : d.stalls input with
  | false =>
      rcases idle?_tick_of_not_stalls ready hstalls with hidle | hidle <;>
        rw [hidle] at h
      · contradiction
      · exact .inl ⟨rfl, (Option.some.inj h).symm⟩
  | true =>
      obtain ⟨hframe, hnone⟩ : d.phase.inFrame = true ∧ input = none := by
        simpa [stalls] using hstalls
      obtain ⟨idle, stay, hd, hstay, htick⟩ := tick_none_of_inFrame hframe
      refine .inr ⟨rfl, ?_⟩
      rw [hnone, htick, wait, if_neg hon] at h
      split at h
      · contradiction
      · next hlt =>
        simp only [goto, (hstay (idle + 1)).2, Option.some.injEq] at h
        exact ⟨by omega, idle, by rw [hd, (hstay idle).2], h.symm⟩

/-! ## runs -/

/-- What a run of a deframer has shown so far. -/
structure History where
  /-- The deframer after the run. -/
  now : Deframer
  /-- The words consumed up to every frame that was abandoned, from one to the next. -/
  cut : List (List Word) := []
  /-- The words consumed since then. -/
  current : List Word := []
  /-- The beats passed on. -/
  passed : List PacketBeat := []
  /-- The ticks in a row on which a frame in progress got no word. -/
  silent : Nat := 0

namespace History

/-- A deframer before its first tick. -/
def start (timeout limit : Nat) : History :=
  { now := { timeout, maxPayload := limit } }

/-- One more tick. -/
def tick (h : History) (input : Option Word) (ready : Bool) : History :=
  let t := h.now.tick input ready
  let words := h.current ++ if t.taken then input.toList else []
  let abandoned := h.now.abandons input ready
  { now := t.next
    cut := if abandoned then h.cut ++ [words] else h.cut
    current := if abandoned then [] else words
    passed := h.passed ++ t.sent.toList
    silent := if h.now.stalls input then h.silent + 1 else 0 }

/-- Further ticks: on each one a word is presented or not, and there is room for a beat or not. -/
def run (h : History) (schedule : List (Option Word × Bool)) : History :=
  schedule.foldl (fun h s => h.tick s.1 s.2) h

/-- The consumed words, cut behind every abandoned frame. -/
def segments (h : History) : List (List Word) :=
  h.cut ++ [h.current]

/-- All words consumed. -/
def consumed (h : History) : List Word :=
  h.segments.flatten

/-- The beats of all packets in the consumed words that are within the limit. -/
def due (h : History) : List PacketBeat :=
  h.segments.flatMap fun ws => (Frame.packetsWithin h.now.maxPayload ws).flatMap Packet.beats

/-- Everything the consumed words tell a reader that starts over behind every abandoned frame. -/
def findings (h : History) : List Finding :=
  h.segments.flatMap Frame.findings

/-- The deframer is where a reader of the same words is, and it passed on or still owes every beat
of every packet that is due. -/
structure Faithful (h : History) : Prop where
  position : h.now.phase.At h.now.maxPayload (Frame.position h.current)
  passed : h.passed ++ h.now.phase.owed = h.due
  silent : h.now.timeout ≠ 0 →
    ∀ n, h.now.phase.idle? = some n → n = h.silent ∧ n < h.now.timeout

theorem faithful_start (timeout limit : Nat) : Faithful (start timeout limit) where
  position := .hunt
  passed := by simp [start, due, segments, Frame.packetsWithin, Frame.packets, Phase.owed]
  silent := nofun

theorem due_eq (h : History) : h.due = Finding.beats h.now.maxPayload h.findings := by
  rw [due, findings]
  induction h.segments with
  | nil => rfl
  | cons ws rest ih =>
      simp only [List.flatMap_cons, ih, Finding.beats_append, Finding.beats_findings]

/-- A run without abandoned frames owes the packets of all words consumed. -/
theorem due_of_uncut {h : History} (hcut : h.cut = []) :
    h.due = (Frame.packetsWithin h.now.maxPayload h.consumed).flatMap Packet.beats := by
  simp [due, consumed, segments, hcut]

/-- A word is consumed or left where it is. -/
theorem consumed_tick (h : History) (input : Option Word) (ready : Bool) :
    (h.tick input ready).consumed ++ (h.now.tick input ready).left input =
      h.consumed ++ input.toList := by
  unfold consumed segments tick Transfer.left
  cases htaken : (h.now.tick input ready).taken <;>
    cases h.now.abandons input ready <;> simp [htaken]

/-! ## what one tick adds to a run -/

section

variable {h : History} {input : Option Word} {ready : Bool}

/-- A tick that leaves the position of the reader alone abandons nothing. -/
theorem abandons_eq_false (hf : Faithful h)
    (hat : (h.now.tick input ready).next.phase.At h.now.maxPayload (Frame.position h.current)) :
    h.now.abandons input ready = false := by
  cases hab : h.now.abandons input ready with
  | false => rfl
  | true =>
      simp only [abandons, Bool.and_eq_true, isIdle_iff] at hab
      obtain ⟨⟨hframe, -⟩, hhunt⟩ := hab
      rw [hhunt] at hat
      exact absurd hat.outside_of_hunt (hf.position.ne_outside hframe)

/-- A tick that takes no word and abandons no frame consumes nothing. -/
theorem tick_of_not_taken (htaken : (h.now.tick input ready).taken = false)
    (hab : h.now.abandons input ready = false) :
    (h.tick input ready).cut = h.cut ∧ (h.tick input ready).current = h.current := by
  simp [tick, htaken, hab]

/-- A tick that takes a word consumes it. -/
theorem tick_of_taken {w : Word} (htaken : (h.now.tick (some w) ready).taken = true) :
    (h.tick (some w) ready).cut = h.cut ∧ (h.tick (some w) ready).current = h.current ++ [w] := by
  have hab : h.now.abandons (some w) ready = false := by simp [abandons, htaken]
  simp [tick, htaken, hab]

/-- A tick that abandons a frame cuts the consumed words. -/
theorem tick_of_abandons (hab : h.now.abandons input ready = true) :
    (h.tick input ready).cut = h.cut ++ [h.current] ∧ (h.tick input ready).current = [] := by
  have htaken : (h.now.tick input ready).taken = false := by
    simp only [abandons, Bool.and_eq_true, Bool.not_eq_true'] at hab
    exact hab.1.2
  simp [tick, htaken, hab]

/-- A word adds what it tells the reader. -/
theorem findings_of_taken {h' : History} {w : Word} (hcut : h'.cut = h.cut)
    (hcurrent : h'.current = h.current ++ [w]) :
    h'.findings = h.findings ++ (reader.step (Frame.position h.current) w).2 := by
  simp only [findings, segments, hcut, hcurrent, List.flatMap_append, List.flatMap_cons,
    List.flatMap_nil, List.append_nil, List.append_assoc]
  rw [Frame.findings, Frame.findings, Transducer.answers_concat]
  rfl

/-- A cut adds nothing. -/
theorem findings_of_cut {h' : History} (hcut : h'.cut = h.cut ++ [h.current])
    (hcurrent : h'.current = []) : h'.findings = h.findings := by
  simp [findings, segments, hcut, hcurrent, Frame.findings]

theorem findings_congr {h' : History} (hcut : h'.cut = h.cut)
    (hcurrent : h'.current = h.current) : h'.findings = h.findings := by
  simp only [findings, segments, hcut, hcurrent]

/-- The silent ticks are those the timer has counted. -/
theorem silent_tick (hf : Faithful h) (hon : h.now.timeout ≠ 0) {n : Nat}
    (hn : (h.tick input ready).now.phase.idle? = some n) :
    n = (h.tick input ready).silent ∧ n < h.now.timeout := by
  rcases idle?_tick hon hn with ⟨hstalls, rfl⟩ | ⟨hstalls, hlt, m, hm, rfl⟩
  · exact ⟨by simp [tick, hstalls], by omega⟩
  · obtain ⟨rfl, -⟩ := hf.silent hon m hm
    exact ⟨by simp [tick, hstalls], hlt⟩

/-- **A tick keeps the deframer faithful.** -/
theorem faithful_tick (hf : Faithful h) (input : Option Word) (ready : Bool) :
    Faithful (h.tick input ready) := by
  obtain ⟨htimeout, hlimit⟩ := tick_settings h.now input ready
  have hsilent : (h.tick input ready).now.timeout ≠ 0 →
      ∀ n, (h.tick input ready).now.phase.idle? = some n →
        n = (h.tick input ready).silent ∧ n < (h.tick input ready).now.timeout := by
    intro hon n hn
    have hnow : (h.tick input ready).now.timeout = h.now.timeout := htimeout
    rw [hnow] at hon ⊢
    exact silent_tick hf hon hn
  have hnow : (h.tick input ready).now = (h.now.tick input ready).next := rfl
  have hpassed : (h.tick input ready).passed =
      h.passed ++ (h.now.tick input ready).sent.toList := rfl
  have hdue := hf.passed
  rw [due_eq] at hdue
  cases tick_moves hf.position input ready with
  | waits htaken hsent _ hat howed =>
      obtain ⟨hcut, hcurrent⟩ := tick_of_not_taken htaken (abandons_eq_false hf hat)
      refine ⟨by rw [hnow, hlimit, hcurrent]; exact hat, ?_, hsilent⟩
      rw [due_eq, findings_congr hcut hcurrent, hpassed, hnow, hlimit, hsent, howed]
      simpa using hdue
  | reads w hinput htaken hsent _ hat howed hnew =>
      subst hinput
      obtain ⟨hcut, hcurrent⟩ := tick_of_taken htaken
      refine ⟨?_, ?_, hsilent⟩
      · rw [hnow, hlimit, hcurrent, Frame.position, Transducer.after_concat]
        exact hat
      · rw [howed, List.append_nil] at hdue
        rw [due_eq, findings_of_taken hcut hcurrent, Finding.beats_append, hpassed, hnow, hlimit,
          hsent, hnew, hdue]
        simp
  | sends beat htaken hsent _ _ _ hat howed =>
      obtain ⟨hcut, hcurrent⟩ := tick_of_not_taken htaken (abandons_eq_false hf hat)
      refine ⟨by rw [hnow, hlimit, hcurrent]; exact hat, ?_, hsilent⟩
      rw [due_eq, findings_congr hcut hcurrent, hpassed, hnow, hlimit, hsent, ← hdue, howed]
      simp
  | abandons hinput hframe htaken hsent _ hhunt howed =>
      have hab : h.now.abandons input ready = true := by
        simp [Deframer.abandons, isIdle_iff, hframe, htaken, hhunt]
      obtain ⟨hcut, hcurrent⟩ := tick_of_abandons hab
      refine ⟨by rw [hnow, hcurrent, hhunt]; exact .hunt, ?_, hsilent⟩
      rw [due_eq, findings_of_cut hcut hcurrent, hpassed, hnow, hlimit, hsent, hhunt, ← hdue, howed]
      simp [Phase.owed]

/-- **The counters of a tick are what it adds to the history.** -/
theorem counted_tick (hf : Faithful h) (input : Option Word) (ready : Bool) :
    let c := (h.now.tick input ready).counted
    let h' := h.tick input ready
    h'.cut.length = h.cut.length + c.frameTimeouts ∧
      Finding.skips h'.findings = Finding.skips h.findings + c.resyncWordsDropped ∧
      Finding.oversizes h.now.maxPayload h'.findings =
        Finding.oversizes h.now.maxPayload h.findings + c.oversizePackets := by
  intro c h'
  cases tick_moves hf.position input ready with
  | waits htaken hsent hcounted hat howed =>
      obtain ⟨hcut, hcurrent⟩ := tick_of_not_taken htaken (abandons_eq_false hf hat)
      have hc : c = {} := hcounted
      rw [hcut, findings_congr hcut hcurrent, hc]
      exact ⟨rfl, rfl, rfl⟩
  | reads w hinput htaken hsent hcounted hat howed hnew =>
      subst hinput
      obtain ⟨hcut, hcurrent⟩ := tick_of_taken htaken
      have hc : c = _ := hcounted
      rw [hcut, findings_of_taken hcut hcurrent, hc]
      exact ⟨rfl, List.count_append, List.countP_append⟩
  | sends beat htaken hsent htimeouts hskips hoversizes hat howed =>
      obtain ⟨hcut, hcurrent⟩ := tick_of_not_taken htaken (abandons_eq_false hf hat)
      rw [hcut, findings_congr hcut hcurrent, htimeouts, hskips, hoversizes]
      exact ⟨rfl, rfl, rfl⟩
  | abandons hinput hframe htaken hsent hcounted hhunt howed =>
      have hab : h.now.abandons input ready = true := by
        simp [Deframer.abandons, isIdle_iff, hframe, htaken, hhunt]
      obtain ⟨hcut, hcurrent⟩ := tick_of_abandons hab
      have hc : c = { frameTimeouts := 1 } := hcounted
      rw [hcut, findings_of_cut hcut hcurrent, hc, List.length_append]
      exact ⟨rfl, rfl, rfl⟩

/-- What a run has lost. -/
def losses (h : History) : Counters.Losses where
  timeouts := h.cut.length
  skipped := Finding.skips h.findings
  oversize := Finding.oversizes h.now.maxPayload h.findings

/-- Counters that agree with the history agree with it one tick later. -/
theorem losses_tick (hf : Faithful h) {c : Counters} (hc : c.losses.framing = h.losses)
    (input : Option Word) (ready : Bool) :
    (c + (h.now.tick input ready).counted).losses.framing = (h.tick input ready).losses := by
  obtain ⟨hcut, hskips, hoversizes⟩ := counted_tick hf input ready
  have hlimit : (h.tick input ready).now.maxPayload = h.now.maxPayload :=
    (tick_settings h.now input ready).2
  simp only [Counters.Losses.framing, losses, Counters.Losses.mk.injEq] at hc
  obtain ⟨htimeouts, hskipped, hoversize, -⟩ := hc
  rw [losses, hcut, hskips, hlimit, hoversizes, ← htimeouts, ← hskipped, ← hoversize]
  rfl

/-- A frame is abandoned on the tick that makes the silence within it as long as the timeout. -/
theorem abandons_iff_silent (hf : Faithful h) :
    h.now.abandons input ready = true ↔
      h.now.timeout ≠ 0 ∧ h.now.stalls input = true ∧ h.silent + 1 = h.now.timeout := by
  rw [abandons_iff]
  constructor
  · rintro ⟨hon, hstalls, n, hn, hle⟩
    obtain ⟨rfl, hlt⟩ := hf.silent hon n hn
    exact ⟨hon, hstalls, by omega⟩
  · rintro ⟨hon, hstalls, heq⟩
    have hframe : h.now.phase.inFrame = true := by
      simp only [stalls, Bool.and_eq_true] at hstalls
      exact hstalls.1
    obtain ⟨idle, stay, hd, hstay, -⟩ := tick_none_of_inFrame hframe
    have hidle : h.now.phase.idle? = some idle := by rw [hd, (hstay idle).2]
    obtain ⟨rfl, -⟩ := hf.silent hon idle hidle
    exact ⟨hon, hstalls, h.silent, hidle, by omega⟩

/-- Without a timeout no frame is abandoned. -/
theorem cut_tick_of_timeout_eq_zero (hf : Faithful h) (hoff : h.now.timeout = 0)
    (input : Option Word) (ready : Bool) : (h.tick input ready).cut = h.cut := by
  have hab : h.now.abandons input ready = false := by
    cases hab : h.now.abandons input ready with
    | false => rfl
    | true => exact absurd hoff ((abandons_iff_silent hf).mp hab).1
  simp [tick, hab]

/-- A tick reports a timeout exactly when it abandons a frame. -/
theorem frameTimeouts_tick (hf : Faithful h) (input : Option Word) (ready : Bool) :
    (h.now.tick input ready).counted.frameTimeouts = (h.now.abandons input ready).toNat := by
  obtain ⟨hlength, -, -⟩ := counted_tick hf input ready
  cases hab : h.now.abandons input ready with
  | false =>
      have hcut : (h.tick input ready).cut = h.cut := by simp [tick, hab]
      rw [hcut] at hlength
      simp only [Bool.toNat_false]
      omega
  | true =>
      obtain ⟨hcut, -⟩ := tick_of_abandons hab
      rw [hcut, List.length_append, List.length_singleton] at hlength
      simp only [Bool.toNat_true]
      omega

end

/-! ## whole runs -/

/-- A run changes neither the timeout nor the limit. -/
theorem run_settings (h : History) (schedule : List (Option Word × Bool)) :
    (h.run schedule).now.timeout = h.now.timeout ∧
      (h.run schedule).now.maxPayload = h.now.maxPayload := by
  induction schedule generalizing h with
  | nil => exact ⟨rfl, rfl⟩
  | cons s schedule ih =>
      obtain ⟨htimeout, hlimit⟩ := ih (h.tick s.1 s.2)
      obtain ⟨htimeout', hlimit'⟩ := tick_settings h.now s.1 s.2
      exact ⟨htimeout.trans htimeout', hlimit.trans hlimit'⟩

/-- **A run keeps the deframer faithful.** -/
theorem faithful_run {h : History} (hf : Faithful h) (schedule : List (Option Word × Bool)) :
    Faithful (h.run schedule) := by
  induction schedule generalizing h with
  | nil => exact hf
  | cons s schedule ih => exact ih (faithful_tick hf s.1 s.2)

/-- Unless a packet is being passed on, nothing is owed. -/
theorem owed_eq_nil {phase : Phase} (h : ∀ dst length rest, phase ≠ .deliver dst length rest) :
    phase.owed = [] := by
  cases phase with
  | deliver dst length rest => exact absurd rfl (h dst length rest)
  | hunt | header | collect | discard => rfl

/-- **The deframer refines the reading of whole streams.** However words and room come, a frame is
abandoned exactly on the tick that completes `timeout` ticks without a word within it, and never
with a timeout of zero. Cut behind every abandoned frame, the consumed words hold the packets whose
beats are passed on: a prefix of them at any moment, and all of them unless the last packet is just
being passed on. -/
theorem refines_reading (timeout limit : Nat) (schedule : List (Option Word × Bool)) :
    let h := (start timeout limit).run schedule
    (∀ input ready,
      (h.now.abandons input ready = true ↔
        timeout ≠ 0 ∧ h.now.stalls input = true ∧ h.silent + 1 = timeout) ∧
      (h.now.tick input ready).counted.frameTimeouts = (h.now.abandons input ready).toNat) ∧
    h.passed <+: (h.segments.flatMap (Frame.packetsWithin limit)).flatMap Packet.beats ∧
    ((∀ dst length rest, h.now.phase ≠ .deliver dst length rest) →
      h.passed = (h.segments.flatMap (Frame.packetsWithin limit)).flatMap Packet.beats) := by
  intro h
  have hf : Faithful h := faithful_run (faithful_start timeout limit) schedule
  obtain ⟨htimeout, hlimit⟩ : h.now.timeout = timeout ∧ h.now.maxPayload = limit :=
    run_settings (start timeout limit) schedule
  have hdue : h.passed ++ h.now.phase.owed =
      (h.segments.flatMap (Frame.packetsWithin limit)).flatMap Packet.beats := by
    rw [hf.passed, due, hlimit, List.flatMap_assoc]
  refine ⟨fun input ready => ⟨?_, frameTimeouts_tick hf input ready⟩, ?_, ?_⟩
  · rw [← htimeout]
    exact abandons_iff_silent hf
  · rw [← hdue]
    exact List.prefix_append ..
  · intro hphase
    rw [← hdue, owed_eq_nil hphase, List.append_nil]

end History

end Deframer

end LinkBridge

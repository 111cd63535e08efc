import LinkBridge.Proofs.Safety.Access
import LinkBridge.Proofs.Tlp.Serializer
import LinkBridge.Tlp.Endpoint

/-!
# LinkBridge.Proofs.Safety.Tlp

The accesses on the way of the TLPs. The serializer counts the whole TLPs in its buffer and counts
one less when a packet ends; it only starts on a packet when there is one, so the count is not zero
there (`Serializer.tick?_eq`). The endpoint looks the dwords of a header up
only if there are enough of them (`Endpoint.tick?_eq`).
-/

namespace LinkBridge.Tlp

open Access

/-! ## the serializer -/

namespace Serializer

variable {s : Serializer}

/-- Sends one word; with the last word of a packet there is one TLP less in the buffer. -/
def send? (s : Serializer) (ready : Bool) : Option (Transfer Serializer PacketBeat) := do
  let t := s.send ready
  if t.sent.any (·.last) then
    let complete ← minus? s.complete 1
    return { t with next := { t.next with complete } }
  else return t

/-- One tick. -/
def tick? (s : Serializer) (input : Option Beat) (ready : Bool) :
    Option (Transfer Serializer PacketBeat) := do
  let sending ← s.send? ready
  let storing := sending.next.store input
  return { next := storing.next, taken := storing.taken, sent := sending.sent,
           counted := sending.counted + storing.counted }

/-- Starting on a TLP does not change how many there are. -/
theorem complete_start (s : Serializer) : s.start.complete = s.complete := by
  unfold start
  repeat' split
  all_goals rfl

/-- The last word of a packet is only sent of a whole TLP, which is then counted off. -/
theorem complete_send (h : Sound s) {ready : Bool} {word : PacketBeat}
    (hsent : (s.send ready).sent = some word) (hlast : word.last = true) :
    1 ≤ s.complete ∧ (s.send ready).next.complete = s.complete - 1 := by
  have hstart := (start_keeps h).sound
  rw [← s.complete_start]
  unfold send at hsent ⊢
  simp only at hsent ⊢
  generalize s.start = s at hstart hsent ⊢
  cases hphase : s.phase with
  | idle => simp [hphase] at hsent
  | sending length sent high =>
      refine ⟨(hstart.sending _ _ _ hphase).1, ?_⟩
      cases hbuffer : s.buffer with
      | nil => simp [hphase, hbuffer] at hsent
      | cons beat rest =>
          cases ready with
          | false => simp [hphase, hbuffer] at hsent
          | true =>
              simp only [hphase, hbuffer, if_true] at hsent ⊢
              by_cases hend : (sent + 1 == length) = true
              · simp only [hend, if_true]
                split <;> rfl
              · simp only [hend] at hsent
                obtain rfl := Option.some.inj hsent
                contradiction

theorem send?_eq (h : Sound s) (ready : Bool) : s.send? ready = some (s.send ready) := by
  unfold send?
  cases hends : (s.send ready).sent.any (·.last) with
  | false =>
      simp only [hends]
      rfl
  | true =>
      obtain ⟨word, hsent, hlast⟩ := (Option.any_eq_true _ _).mp hends
      obtain ⟨hcomplete, hnext⟩ := complete_send h hsent hlast
      simp only [hends, if_true, minus?_of_le hcomplete, Option.bind_eq_bind, Option.bind_some,
        ← hnext]
      rfl

/-- **When a packet ends there is a whole TLP to count off.** -/
theorem tick?_eq (h : Sound s) (input : Option Beat) (ready : Bool) :
    s.tick? input ready = some (s.tick input ready) := by
  rw [tick?, send?_eq h]
  rfl

end Serializer

/-! ## the endpoint -/

/-- The header at the front of a run of dwords. -/
def Header.decode? (dwords : List Word) : ExceptT Fault Option Header := do
  if dwords.length < Header.size then throw (.shortHeader dwords.length)
  else
    let dw0 ← (dwords[0]? : Option Word)
    let dw1 ← (dwords[1]? : Option Word)
    let dw2 ← (dwords[2]? : Option Word)
    sure (Header.decode [dw0, dw1, dw2])

theorem Header.decode?_eq (dwords : List Word) :
    Header.decode? dwords = sure (Header.decode dwords) := by
  match dwords with
  | [] => rfl
  | [_] => rfl
  | [_, _] => rfl
  | dw0 :: dw1 :: dw2 :: rest =>
      have henough : ¬ (dw0 :: dw1 :: dw2 :: rest).length < Header.size := by
        simp only [List.length_cons, Header.size]
        omega
      rw [Header.decode?, if_neg henough]
      rfl

/-- The TLP made of exactly the given dwords. -/
def Record.ofDwords? (dwords : List Word) : ExceptT Fault Option Record := do
  let header ← Header.decode? dwords
  let expected := Header.size + header.dataDwords
  if dwords.length = expected then
    let data ← slice? dwords Header.size dwords.length
    return { header, data }
  else throw (.wrongLength header.name expected dwords.length)

theorem Record.ofDwords?_eq (dwords : List Word) :
    Record.ofDwords? dwords = sure (Record.ofDwords dwords) := by
  rw [Record.ofDwords?, Header.decode?_eq]
  refine sure_bind _ fun header => ?_
  simp only
  split
  · next hlength =>
    rw [slice?_length (hlength ▸ Nat.le_add_right ..)]
    rfl
  · rfl

namespace Endpoint

/-- Appends to a history that keeps the last `historyLimit` items. -/
def record? {α : Type} (history : List α) (item : α) : Option (List α) := do
  if historyLimit ≤ history.length then
    let kept ← slice? history 1 history.length
    return kept ++ [item]
  else return history ++ [item]

/-- A history is not empty when it is full. -/
theorem record?_eq {α : Type} (history : List α) (item : α) :
    record? history item = some (record history item) := by
  unfold record? record
  split
  · next hfull =>
    have hone : 1 ≤ history.length := Nat.le_trans (by decide) hfull
    rw [slice?_length hone, List.drop_one]
    rfl
  · rfl

/-- Performs a TLP and keeps it. -/
def handle? (e : Endpoint) (r : Record) : Option Endpoint := do
  let e := e.perform r
  let received ← record? e.received r
  return { e with received }

/-- Keeps an interrupt. -/
def interrupt? (e : Endpoint) (vector : UInt8) : Option Endpoint := do
  let vectors ← record? e.vectors vector
  return { e with vectors }

/-- Takes one beat of an arriving TLP and handles the TLP when it is complete. -/
def accept? (e : Endpoint) (beat : Beat) : Option (Endpoint × Counters) := do
  let inbound := e.inbound.push beat
  if beat.last then
    let e := { e with inbound := #[] }
    match ← (Record.ofDwords? (inbound.toList.flatMap Beat.dwords)).run with
    | .ok r => return (← e.handle? r, {})
    | .error _ => return (e, { tlpMalformed := 1 })
  else return ({ e with inbound }, {})

/-- One tick. -/
def tick? (e : Endpoint) (input : Option Beat) (vector : Option UInt8) (ready : Bool) :
    Option (Transfer Endpoint Beat) := do
  let sent := if ready then e.outbound.head? else none
  let e := { e with outbound := e.outbound.drop sent.toList.length }
  let (e, counted) ← match input with
    | some beat => e.accept? beat
    | none => pure (e, {})
  let e ← match vector with
    | some v => e.interrupt? v
    | none => pure e
  return { next := e, taken := true, sent, counted }

theorem handle?_eq (e : Endpoint) (r : Record) : e.handle? r = some (e.handle r) := by
  simp only [handle?, record?_eq]
  rfl

theorem interrupt?_eq (e : Endpoint) (vector : UInt8) :
    e.interrupt? vector = some (e.interrupt vector) := by
  simp only [interrupt?, record?_eq]
  rfl

theorem accept?_eq (e : Endpoint) (beat : Beat) : e.accept? beat = some (e.accept beat) := by
  unfold accept? accept
  simp only [handle?_eq]
  split
  · rw [Record.ofDwords?_eq, ← Record.ofBeats]
    cases Record.ofBeats (e.inbound.push beat).toList <;> rfl
  · rfl

/-- **The dwords of a TLP are looked up within their bounds.** -/
theorem tick?_eq (e : Endpoint) (input : Option Beat) (vector : Option UInt8) (ready : Bool) :
    e.tick? input vector ready = some (e.tick input vector ready) := by
  cases input with
  | none =>
      cases vector with
      | none => rfl
      | some v =>
          simp only [tick?, interrupt?_eq]
          rfl
  | some beat =>
      simp only [tick?, accept?_eq, Option.bind_eq_bind, Option.bind_some]
      cases vector with
      | none => rfl
      | some v =>
          simp only [interrupt?_eq]
          rfl

end Endpoint

end LinkBridge.Tlp

import LinkBridge.Etherbone.Responder
import LinkBridge.Proofs.Safety.Wishbone

/-!
# LinkBridge.Proofs.Safety.Etherbone

The accesses of the Etherbone responder. A section is split off the words of a packet only if there
are enough of them, and then it has a first word and a rest (`Section.decode?_eq`); performing a
packet accesses the Wishbone bus, whose accesses are in order as well (`Responder.tick?_eq`).
-/

namespace LinkBridge.Etherbone

open Access
open LinkBridge.Wishbone (Bus)

/-! ## packets -/

/-- The section with the given count at the front of `words`: a base address and the words behind
it. -/
def Section.decode? (count : Nat) (words : List Word) : ExceptT Fault Option Section := do
  if count = 0 then return {}
  else if words.length < count + 1 then throw (.shortSection (count + 1) words.length)
  else
    let front ← slice? words 0 (count + 1)
    let base ← (front[0]? : Option Word)
    let words ← slice? front 1 front.length
    return { base, words }

/-- **A section is sliced within its bounds.** -/
theorem Section.decode?_eq (count : Nat) (words : List Word) :
    Section.decode? count words = sure (Section.decode count words) := by
  unfold Section.decode? Section.decode
  split
  · rfl
  · split
    · rfl
    · next hshort =>
      have henough : count + 1 ≤ words.length := Nat.le_of_not_lt hshort
      cases words with
      | nil => exact absurd henough (Nat.not_succ_le_zero count)
      | cons base rest =>
          have hrest : slice? (base :: rest.take count) 1 (base :: rest.take count).length =
              some (rest.take count) := slice?_length (Nat.succ_le_succ (Nat.zero_le _))
          rw [slice?_zero henough, lift_some_bind, List.take_succ_cons, List.getElem?_cons_zero,
            lift_some_bind, hrest]
          rfl

/-- The records that exactly make up `words`. -/
def Record.decodeAll? : List Word → ExceptT Fault Option (List Record)
  | [] => return []
  | head :: rest => do
    let writeCount := Word.field head 8 8
    let readCount := Word.field head 0 8
    let writes ← Section.decode? writeCount rest
    let rest := rest.drop (Section.span writeCount)
    let reads ← Section.decode? readCount rest
    let others ← decodeAll? (rest.drop (Section.span readCount))
    return { flags := UInt8.ofNat (Word.field head 24 8),
             byteEnable := UInt8.ofNat (Word.field head 16 8), writes, reads } :: others
termination_by words => words.length
decreasing_by simp only [List.length_drop, List.length_cons]; omega

theorem Record.decodeAll?_eq (words : List Word) :
    Record.decodeAll? words = sure (Record.decodeAll words) := by
  fun_induction Record.decodeAll words with
  | case1 =>
      rw [Record.decodeAll?]
      rfl
  | case2 head rest writeCount readCount ih =>
      rw [Record.decodeAll?, Section.decode?_eq]
      refine sure_bind _ fun writes => ?_
      simp only
      rw [Section.decode?_eq]
      refine sure_bind _ fun reads => ?_
      rw [ih]
      exact sure_bind _ fun others => rfl

/-- The packet that exactly `words` make up. -/
def Packet.decode? (words : List Word) : ExceptT Fault Option Packet := do
  if words.length < 2 then throw (.shortHeader words.length)
  else
    let head ← (words[0]? : Option Word)
    if Word.field head 16 16 ≠ magic then throw (.badMagic (Word.field head 16 16))
    else if Word.field head 0 8 ≠ sizes then throw (.badSizes (Word.field head 0 8))
    else
      let rest ← slice? words 2 words.length
      let records ← Record.decodeAll? rest
      return { flags := UInt8.ofNat (Word.field head 8 4), records }

theorem Packet.decode?_eq (words : List Word) :
    Packet.decode? words = sure (Packet.decode words) := by
  match words with
  | [] => rfl
  | [_] => rfl
  | head :: padding :: rest =>
      have henough : ¬ (head :: padding :: rest).length < 2 := by
        simp only [List.length_cons]
        omega
      have hrest : slice? (head :: padding :: rest) 2 (head :: padding :: rest).length =
          some rest := slice?_length (Nat.le_of_not_lt henough)
      rw [Packet.decode?, if_neg henough, List.getElem?_cons_zero, lift_some_bind, Packet.decode]
      split
      · rfl
      · split
        · rfl
        · rw [hrest, lift_some_bind, Record.decodeAll?_eq]
          exact sure_bind _ fun records => rfl

/-! ## performing requests -/

/-- Reads the words at `addresses`; those that no device holds read zero and are counted. -/
def readAll? (bus : Bus) : List Word → Option (List Word × Bus × Nat)
  | [] => some ([], bus, 0)
  | a :: rest => do
    let (value, bus) ← bus.read? a.toNat
    let (values, bus, missed) ← readAll? bus rest
    return (value.getD 0 :: values, bus, missed + value.isNone.toNat)

theorem readAll?_eq (bus : Bus) (addresses : List Word) :
    readAll? bus addresses = some (readAll bus addresses) := by
  induction addresses generalizing bus with
  | nil => rfl
  | cons a rest ih =>
      simp only [readAll?, Bus.read?_eq, ih, Option.bind_eq_bind, Option.bind_some]
      rfl

/-- Performs the writes of a record. -/
def performWrites? (bus : Bus) (s : Section) : Option Performed :=
  if s.words.isEmpty then some { bus }
  else do
    let (missed, bus) ← bus.writeBlock? s.base.toNat s.words
    return { bus
             counted := { wishboneUnmapped := missed, etherboneWrites := s.words.length } }

/-- Performs the reads of a record. -/
def performReads? (bus : Bus) (s : Section) : Option Performed :=
  if s.words.isEmpty then some { bus }
  else do
    let (values, bus, missed) ← readAll? bus s.words
    return { bus
             replies := [.write s.base values]
             counted := { wishboneUnmapped := missed, etherboneReads := s.words.length } }

/-- Performs one record: its writes, then its reads. -/
def performRecord? (bus : Bus) (r : Record) : Option Performed := do
  let written ← performWrites? bus r.writes
  let read ← performReads? written.bus r.reads
  return { read with counted := written.counted + read.counted }

theorem performRecord?_eq (bus : Bus) (r : Record) :
    performRecord? bus r = some (performRecord bus r) := by
  have hwrites : performWrites? bus r.writes = some (performWrites bus r.writes) := by
    simp only [performWrites?, performWrites, Bus.writeBlock?_eq]
    split <;> rfl
  have hreads (bus : Bus) : performReads? bus r.reads = some (performReads bus r.reads) := by
    simp only [performReads?, performReads, readAll?_eq]
    split <;> rfl
  simp only [performRecord?, hwrites, hreads, Option.bind_eq_bind, Option.bind_some]
  rfl

/-- Performs records in order. -/
def performAll? (bus : Bus) : List Record → Option Performed
  | [] => some { bus }
  | r :: rest => do
    let first ← performRecord? bus r
    let others ← performAll? first.bus rest
    return { bus := others.bus
             replies := first.replies ++ others.replies
             counted := first.counted + others.counted }

theorem performAll?_eq (bus : Bus) (rs : List Record) :
    performAll? bus rs = some (performAll bus rs) := by
  induction rs generalizing bus with
  | nil => rfl
  | cons r rest ih =>
      simp only [performAll?, performRecord?_eq, ih, Option.bind_eq_bind, Option.bind_some]
      rfl

namespace Responder

/-- Performs a complete request and prepares the answer, if there is anything to answer. -/
def perform? (r : Responder) (bus : Bus) (words : List Word) :
    Option (Transfer (Responder × Bus) PacketBeat) := do
  match ← (Packet.decode? words).run with
  | .error _ => return { next := (r, bus), counted := { etherboneMalformed := 1 } }
  | .ok packet =>
    let done ← performAll? bus packet.records
    if done.replies.isEmpty then return { next := (r, done.bus), counted := done.counted }
    else
      let response := Packet.encode { records := done.replies }
      return { next := ({ r with response, responseLength := UInt32.ofNat response.length },
                 done.bus)
               counted := done.counted }

theorem perform?_eq (r : Responder) (bus : Bus) (words : List Word) :
    r.perform? bus words = some (r.perform bus words) := by
  unfold perform? perform
  rw [Packet.decode?_eq, sure, ExceptT.run_mk]
  cases Packet.decode words with
  | error e => rfl
  | ok packet =>
      simp only [performAll?_eq, Option.bind_eq_bind, Option.bind_some]
      split <;> rfl

/-- One tick: sends a word of the answer, if there is one, and else takes a word of a request. -/
def tick? (r : Responder) (bus : Bus) (input : Option PacketBeat) (ready : Bool) :
    Option (Transfer (Responder × Bus) PacketBeat) :=
  match r.response, input with
  | data :: rest, _ =>
    if ready then
      some { next := ({ r with response := rest }, bus)
             sent := some
               { dst := r.tag, length := r.responseLength, data, last := rest.isEmpty } }
    else some { next := (r, bus) }
  | [], none => some { next := (r, bus) }
  | [], some beat =>
    let request := r.request.push beat.data
    if beat.last then do
      let t ← ({ r with request := #[] } : Responder).perform? bus request.toList
      return { t with taken := true }
    else some { next := ({ r with request }, bus), taken := true }

/-- **No access of a responder fails.** -/
theorem tick?_eq (r : Responder) (bus : Bus) (input : Option PacketBeat) (ready : Bool) :
    r.tick? bus input ready = some (r.tick bus input ready) := by
  unfold tick? tick
  cases r.response with
  | cons data rest => cases ready <;> rfl
  | nil =>
      cases input with
      | none => rfl
      | some beat =>
          simp only [perform?_eq, Option.bind_eq_bind, Option.bind_some]
          split <;> rfl

end Responder

end LinkBridge.Etherbone

import LinkBridge.Proofs.Progress.Etherbone
import LinkBridge.Proofs.Stream.Intake
import LinkBridge.Proofs.Wishbone.Decoding
import Mathlib.Algebra.Ring.Nat

/-!
# LinkBridge.Proofs.Etherbone.Requests

Requests and their answers, whenever beats and room come. What a request leads to is said on the
devices alone (`outcome`): its records are performed in order, each with its writes first and word
by word, and every record that reads is answered by one that writes the values read. A responder
in front of a bus whose devices share no address does just that (`perform_outcome`); it is fed with
requests beat by beat, and at every moment it has sent, or is about to send, the answers to the
requests it has taken to their ends (`Answering`).

Main statement: `requests_answered_in_order`.
-/

namespace LinkBridge.Etherbone

open LinkBridge.Wishbone

/-! ## what requests lead to -/

/-- What a request leads to. -/
structure Outcome where
  /-- The devices behind it. -/
  devices : List Device
  /-- The records that answer it. -/
  replies : List Record := []
  /-- How many of the words it accesses no device holds. -/
  unmapped : Nat := 0
  /-- Whether it is no packet. -/
  malformed : Bool := false

/-- What a record leads to: its words are written, then its addresses are read. -/
def Record.outcome (ds : List Device) (r : Record) : Outcome :=
  let written := ds.map (Device.storeAll r.writes.base.toNat r.writes.words)
  let addresses := r.reads.words.map UInt32.toNat
  { devices := written
    replies := if r.reads.words.isEmpty then [] else
      [.write r.reads.base (addresses.map fun a => (fetch written a).getD 0)]
    unmapped := (wordAddresses r.writes.base.toNat r.writes.words.length ++ addresses).countP
      fun a => !isMapped ds a }

/-- What records lead to, one after the other. -/
def outcomeAll (ds : List Device) : List Record → Outcome
  | [] => { devices := ds }
  | r :: rest =>
    let first := r.outcome ds
    let others := outcomeAll first.devices rest
    { devices := others.devices
      replies := first.replies ++ others.replies
      unmapped := first.unmapped + others.unmapped }

/-- What a request leads to. Words that are no packet lead to nothing. -/
def outcome (ds : List Device) (request : List Word) : Outcome :=
  match Packet.decode request with
  | .error _ => { devices := ds, malformed := true }
  | .ok packet => outcomeAll ds packet.records

/-- The beats that answer a request. -/
def Outcome.response (tag : UInt8) (o : Outcome) : List PacketBeat :=
  if o.replies.isEmpty then []
  else LinkBridge.Packet.beatsFor tag (Packet.encode { records := o.replies })

/-- Performs requests, each of them on the devices that those before it left. -/
def handling : Transducer (List Device) (List PacketBeat) Outcome where
  step ds request :=
    let o := outcome ds (request.map (·.data))
    (o.devices, [o])

@[simp] theorem handling_step (ds : List Device) (request : List PacketBeat) :
    handling.step ds request =
      ((outcome ds (request.map (·.data))).devices, [outcome ds (request.map (·.data))]) :=
  rfl

/-! ## records on a bus -/

theorem isNone_fetch (ds : List Device) (address : Nat) :
    (fetch ds address).isNone = !isMapped ds address := by
  cases h : isMapped ds address with
  | false => simpa [fetch, isMapped] using h
  | true => simpa [fetch, isMapped] using h

/-- Addresses are read one after the other, and reading changes nothing. -/
theorem readAll_spec {bus : Bus} (h : bus.Apart) (addresses : List Word) :
    (readAll bus addresses).1 =
        (addresses.map UInt32.toNat).map (fun a => (fetch bus.devices a).getD 0) ∧
      (readAll bus addresses).2.1.devices = bus.devices ∧
      (readAll bus addresses).2.2 =
        (addresses.map UInt32.toNat).countP (fun a => !isMapped bus.devices a) := by
  induction addresses generalizing bus with
  | nil => exact ⟨rfl, rfl, rfl⟩
  | cons a rest ih =>
      obtain ⟨hvalue, hsame⟩ := Bus.read_spec h a.toNat
      obtain ⟨hvalues, hdevices, hmissed⟩ := ih (h.of_blank (bus.blank_read a.toNat))
      rw [hsame] at hvalues hdevices hmissed
      refine ⟨?_, hdevices, ?_⟩
      · simp only [readAll, hvalue, hvalues, List.map_cons]
      · simp only [readAll, hvalue, hmissed, isNone_fetch, List.map_cons, List.countP_cons]
        cases isMapped bus.devices a.toNat <;> rfl

/-- What is performed on a bus leads to what it should. -/
structure Performed.Leads (p : Performed) (o : Outcome) : Prop where
  apart : p.bus.Apart
  devices : p.bus.devices = o.devices
  replies : p.replies = o.replies
  unmapped : p.counted.wishboneUnmapped = o.unmapped
  malformed : p.counted.etherboneMalformed = 0

theorem performWrites_spec {bus : Bus} (h : bus.Apart) (s : Section) :
    (performWrites bus s).bus.Apart ∧
      (performWrites bus s).bus.devices =
        bus.devices.map (Device.storeAll s.base.toNat s.words) ∧
      (performWrites bus s).counted.wishboneUnmapped =
        (wordAddresses s.base.toNat s.words.length).countP (fun a => !isMapped bus.devices a) ∧
      (performWrites bus s).counted.etherboneMalformed = 0 := by
  unfold performWrites
  split
  · next hempty =>
    rw [List.isEmpty_iff.mp hempty]
    exact ⟨h, (List.map_id' bus.devices).symm, rfl, rfl⟩
  · obtain ⟨hmissed, hdevices⟩ := Bus.writeBlock_spec h s.base.toNat s.words
    exact ⟨h.of_blank (bus.blank_writeBlock s.base.toNat s.words), hdevices, hmissed, rfl⟩

theorem performReads_spec {bus : Bus} (h : bus.Apart) (s : Section) :
    (performReads bus s).bus.Apart ∧ (performReads bus s).bus.devices = bus.devices ∧
      (performReads bus s).replies = (if s.words.isEmpty then [] else
        [.write s.base ((s.words.map UInt32.toNat).map
          fun a => (fetch bus.devices a).getD 0)]) ∧
      (performReads bus s).counted.wishboneUnmapped =
        (s.words.map UInt32.toNat).countP (fun a => !isMapped bus.devices a) ∧
      (performReads bus s).counted.etherboneMalformed = 0 := by
  unfold performReads
  split
  · next hempty =>
    rw [List.isEmpty_iff.mp hempty]
    exact ⟨h, rfl, rfl, rfl, rfl⟩
  · obtain ⟨hvalues, hdevices, hmissed⟩ := readAll_spec h s.words
    refine ⟨h.of_blank (blank_readAll bus s.words), hdevices, ?_, hmissed, rfl⟩
    simp only [hvalues]

/-- A record performed on a bus is performed on its devices. -/
theorem performRecord_leads {bus : Bus} (h : bus.Apart) (r : Record) :
    (performRecord bus r).Leads (r.outcome bus.devices) := by
  obtain ⟨hapart, hwritten, hmissed, hnone⟩ := performWrites_spec h r.writes
  obtain ⟨hapart', hread, hreplies, hmissed', hnone'⟩ := performReads_spec hapart r.reads
  have hsame (a : Nat) : isMapped (performWrites bus r.writes).bus.devices a =
      isMapped bus.devices a := by
    rw [hwritten, isMapped_map (Device.blank_storeAll _ _)]
  simp only [hsame] at hmissed'
  refine ⟨hapart', hread.trans hwritten, ?_, ?_, ?_⟩
  · exact hreplies.trans (by rw [hwritten]; rfl)
  · show _ + _ = List.countP _ _
    rw [hmissed, hmissed', List.countP_append]
  · exact congrArg₂ (· + ·) hnone hnone'

/-- Records performed on a bus are performed on its devices. -/
theorem performAll_leads {bus : Bus} (h : bus.Apart) (rs : List Record) :
    (performAll bus rs).Leads (outcomeAll bus.devices rs) := by
  induction rs generalizing bus with
  | nil => exact ⟨h, rfl, rfl, rfl, rfl⟩
  | cons r rest ih =>
      have hfirst := performRecord_leads h r
      have hothers := ih hfirst.apart
      rw [hfirst.devices] at hothers
      refine ⟨hothers.apart, hothers.devices, ?_, ?_, ?_⟩
      · exact congrArg₂ (· ++ ·) hfirst.replies hothers.replies
      · exact congrArg₂ (· + ·) hfirst.unmapped hothers.unmapped
      · exact congrArg₂ (· + ·) hfirst.malformed hothers.malformed

/-! ## answers that can be read -/

theorem execute_spec {bus : Bus} (h : bus.Apart) (request : List Word) :
    (execute bus request).1.Apart ∧
      (execute bus request).1.devices = (outcome bus.devices request).devices ∧
      (execute bus request).2 = (outcome bus.devices request).replies := by
  unfold execute outcome
  cases Packet.decode request with
  | error fault => exact ⟨h, rfl, rfl⟩
  | ok packet =>
      have hdone := performAll_leads h packet.records
      exact ⟨hdone.apart, hdone.devices, hdone.replies⟩

theorem response_eq (tag : UInt8) (o : Outcome) :
    o.response tag = Effect.beats tag ((replyOf o.replies).map .reply) := by
  unfold Outcome.response replyOf
  split <;> simp [Effect.beats, Effect.replies]

namespace Responder

/-- **A request is performed on the devices of the bus.** -/
theorem perform_outcome {r : Responder} (hresponse : r.response = []) {bus : Bus} (h : bus.Apart)
    (request : List Word) :
    let t := r.perform bus request
    let o := outcome bus.devices request
    t.next.2.Apart ∧ t.next.2.devices = o.devices ∧ t.next.1.owed = o.response r.tag ∧
      t.counted.etherboneMalformed = (if o.malformed then 1 else 0) ∧
      t.counted.wishboneUnmapped = o.unmapped := by
  intro t o
  obtain ⟨hbus, -, -, howed, -, -⟩ := perform_spec hresponse bus request
  obtain ⟨hapart, hdevices, hreplies⟩ := execute_spec h request
  refine ⟨by rwa [hbus], by rw [hbus, hdevices], by rw [howed, hreplies, response_eq], ?_⟩
  unfold t o perform outcome
  cases Packet.decode request with
  | error fault => exact ⟨rfl, rfl⟩
  | ok packet =>
      have hdone := performAll_leads h packet.records
      have hmalformed : (outcomeAll bus.devices packet.records).malformed = false := by
        cases packet.records <;> rfl
      simp only [hmalformed]
      split <;> exact ⟨hdone.malformed, hdone.unmapped⟩

/-! ## feeding -/

/-- A responder and its bus on a tick; there is room for a beat or not. -/
def ticking (room : Bool) (s : Responder × Bus) (input : Option PacketBeat) :
    Transfer (Responder × Bus) PacketBeat :=
  s.1.tick s.2 input room

/-- A responder in front of a bus, and of requests. -/
def facing (tag : UInt8) (bus : Bus) (requests : List (List PacketBeat)) :
    Intake (Responder × Bus) PacketBeat PacketBeat where
  now := ({ tag }, bus)
  rest := requests.flatten

/-- Collects requests, and performs those that are complete. -/
def collecting : Transducer (List Device × List PacketBeat) PacketBeat Outcome :=
  .blockwise (·.last) handling

/-- What a tick makes of a beat, no answer being under way: the next request so far, or its
outcome. -/
structure Collects (tag : UInt8) (t : Transfer (Responder × Bus) PacketBeat)
    (c : (List Device × List PacketBeat) × List Outcome) : Prop where
  taken : t.taken = true
  tag_eq : t.next.1.tag = tag
  apart : t.next.2.Apart
  devices : t.next.2.devices = c.1.1
  request : t.next.1.request.toList = c.1.2.map (·.data)
  sent : t.sent.toList ++ t.next.1.owed = c.2.flatMap (Outcome.response tag)
  malformed : t.counted.etherboneMalformed = c.2.countP (·.malformed)
  unmapped : t.counted.wishboneUnmapped = (c.2.map (·.unmapped)).sum

theorem tick_collects {r : Responder} (hresponse : r.response = []) {bus : Bus} (h : bus.Apart)
    {begun : List PacketBeat} (hbegun : r.request.toList = begun.map (·.data)) (beat : PacketBeat)
    (room : Bool) :
    Collects r.tag (r.tick bus (some beat) room) (collecting.step (bus.devices, begun) beat) := by
  obtain ⟨tag, request, response, length⟩ := r
  obtain rfl : response = [] := hresponse
  have hwords : (begun ++ [beat]).map (·.data) = (request.push beat.data).toList := by
    rw [List.map_append, ← hbegun]
    exact (Array.toList_push ..).symm
  cases hlast : beat.last with
  | false =>
      have hstep : collecting.step (bus.devices, begun) beat =
          ((bus.devices, begun ++ [beat]), []) :=
        Transducer.step_blockwise_of_not_ends handling hlast ..
      have ht : (Responder.mk tag request [] length).tick bus (some beat) room =
          { next := (⟨tag, request.push beat.data, [], length⟩, bus), taken := true } := by
        simp [Responder.tick, hlast]
      rw [hstep, ht]
      exact ⟨rfl, rfl, h, rfl, hwords.symm, rfl, rfl, rfl⟩
  | true =>
      let words := (request.push beat.data).toList
      let o := outcome bus.devices words
      have hstep : collecting.step (bus.devices, begun) beat = ((o.devices, []), [o]) := by
        have hends := Transducer.step_blockwise_of_ends handling hlast bus.devices begun
        rwa [handling_step, hwords] at hends
      have ht : (Responder.mk tag request [] length).tick bus (some beat) room =
          { (Responder.mk tag #[] [] length).perform bus words with taken := true } := by
        simp [Responder.tick, hlast, words]
      obtain ⟨-, hrequest, htag, -, hsent, -⟩ :=
        perform_spec (r := ⟨tag, #[], [], length⟩) rfl bus words
      obtain ⟨hapart, hdevices, howed, hmalformed, hunmapped⟩ :=
        perform_outcome (r := ⟨tag, #[], [], length⟩) rfl h words
      rw [hstep, ht]
      refine ⟨rfl, htag, hapart, hdevices, congrArg Array.toList hrequest, ?_, ?_, ?_⟩
      · simpa [hsent] using howed
      · simpa [List.countP_singleton] using hmalformed
      · simpa using hunmapped

/-- What a responder has done with the beats it has taken. -/
structure Answering (tag : UInt8) (ds : List Device)
    (x : Intake (Responder × Bus) PacketBeat PacketBeat) : Prop where
  tag_eq : x.now.1.tag = tag
  apart : x.now.2.Apart
  devices : x.now.2.devices = (collecting.after (ds, []) x.taken).1
  request : x.now.1.request.toList = (collecting.after (ds, []) x.taken).2.map (·.data)
  sent : x.sent ++ x.now.1.owed =
    (collecting.answers (ds, []) x.taken).flatMap (Outcome.response tag)
  malformed : x.counted.etherboneMalformed =
    (collecting.answers (ds, []) x.taken).countP (·.malformed)
  unmapped : x.counted.wishboneUnmapped =
    ((collecting.answers (ds, []) x.taken).map (·.unmapped)).sum

section

variable {tag : UInt8} {ds : List Device} {x : Intake (Responder × Bus) PacketBeat PacketBeat}

/-- A tick that takes nothing sends a beat of the answer at most. -/
theorem Answering.of_not_taken (h : Answering tag ds x) (input : Option PacketBeat)
    {t : Transfer (Responder × Bus) PacketBeat} (htaken : t.taken = false)
    (hbus : t.next.2 = x.now.2) (hrequest : t.next.1.request = x.now.1.request)
    (htag : t.next.1.tag = x.now.1.tag) (howed : t.sent.toList ++ t.next.1.owed = x.now.1.owed)
    (hcounted : t.counted = {}) : Answering tag ds (x.step input t) := by
  have hremoved : t.removed input = [] := by simp [Transfer.removed, htaken]
  have hnothing : x.counted + t.counted = x.counted := by
    rw [hcounted]
    exact Counters.add_zero x.counted
  unfold Intake.step
  rw [hremoved, hnothing, List.append_nil]
  refine ⟨htag.trans h.tag_eq, hbus ▸ h.apart, hbus ▸ h.devices, hrequest ▸ h.request, ?_,
    h.malformed, h.unmapped⟩
  rw [List.append_assoc, howed, h.sent]

/-- A tick that takes a beat does with it what the requests ask for. -/
theorem Answering.of_beat (h : Answering tag ds x) (hresponse : x.now.1.response = [])
    (beat : PacketBeat) (room : Bool) :
    Answering tag ds (x.step (some beat) (ticking room x.now (some beat))) := by
  let s := collecting.after (ds, []) x.taken
  let t := ticking room x.now (some beat)
  -- The bus stands for the devices, so the tick may be compared with a step of the requests.
  have hs : (x.now.2.devices, s.2) = s := Prod.ext h.devices rfl
  have ht : Collects tag t (collecting.step s beat) := by
    rw [← h.tag_eq, ← hs]
    exact tick_collects hresponse h.apart h.request beat room
  have hremoved : t.removed (some beat) = [beat] := if_pos ht.taken
  have hsofar : x.sent = (collecting.answers (ds, []) x.taken).flatMap (Outcome.response tag) := by
    simpa [owed_of_response hresponse] using h.sent
  show Answering tag ds (x.step (some beat) t)
  unfold Intake.step
  rw [hremoved]
  constructor
  · exact ht.tag_eq
  · exact ht.apart
  · rw [Transducer.after_concat]
    exact ht.devices
  · rw [Transducer.after_concat]
    exact ht.request
  · rw [Transducer.answers_concat, List.flatMap_append, List.append_assoc, ht.sent, hsofar]
  · rw [Transducer.answers_concat, List.countP_append, ← ht.malformed, ← h.malformed]
    rfl
  · rw [Transducer.answers_concat, List.map_append, List.sum_append, ← ht.unmapped, ← h.unmapped]
    rfl

/-- **A tick keeps to the requests.** -/
theorem Answering.tick (h : Answering tag ds x) (m : Intake.Moment Bool) :
    Answering tag ds (Intake.tick ticking x m) := by
  unfold Intake.tick
  generalize x.shown m.available = input
  cases hresponse : x.now.1.response with
  | cons data tail =>
      have hsends : ticking m.around x.now input =
          if m.around then
            { next := ({ x.now.1 with response := tail }, x.now.2)
              sent := some {
                dst := x.now.1.tag, length := x.now.1.responseLength, data, last := tail.isEmpty } }
          else { next := x.now } := by
        simp [ticking, Responder.tick, hresponse]
      rw [hsends]
      cases m.around with
      | false => exact h.of_not_taken input rfl rfl rfl rfl rfl rfl
      | true =>
          refine h.of_not_taken input rfl rfl rfl rfl ?_ rfl
          simp [owed, hresponse, LinkBridge.Packet.beatsOf]
  | nil =>
      cases input with
      | none =>
          have hwaits : ticking m.around x.now none = { next := x.now } := by
            simp [ticking, Responder.tick, hresponse]
          rw [hwaits]
          exact h.of_not_taken none rfl rfl rfl rfl rfl rfl
      | some beat => exact h.of_beat hresponse beat m.around

/-- **A run keeps to the requests.** -/
theorem Answering.run (h : Answering tag ds x) (moments : List (Intake.Moment Bool)) :
    Answering tag ds (Intake.run ticking x moments) :=
  Intake.run_keeps (fun _ m h => h.tick m) h moments

/-- **At every moment the requests taken to their ends were performed**, and their answers are sent
or under way. -/
theorem Answering.ended (h : Answering tag ds x) {done : List (List PacketBeat)}
    {part : List PacketBeat} (hdone : ∀ request ∈ done, IsBlock (·.last) request)
    (htaken : x.taken = done.flatten ++ part) (hpart : part.countP (·.last) = 0) :
    x.now.2.devices = handling.after ds done ∧
      x.sent ++ x.now.1.owed = (handling.answers ds done).flatMap (Outcome.response tag) ∧
      x.counted.etherboneMalformed = (handling.answers ds done).countP (·.malformed) ∧
      x.counted.wishboneUnmapped = ((handling.answers ds done).map (·.unmapped)).sum := by
  obtain ⟨hafter, hanswers⟩ := Transducer.blockwise_blocks handling hdone hpart ds
  rw [← htaken] at hafter hanswers
  have hdevices := h.devices
  have hsent := h.sent
  have hmalformed := h.malformed
  have hunmapped := h.unmapped
  simp only [collecting, hafter, hanswers] at hdevices hsent hmalformed hunmapped
  exact ⟨hdevices, hsent, hmalformed, hunmapped⟩

/-- A responder works as long as beats come and there is room. -/
theorem exists_drained (x : Intake (Responder × Bus) PacketBeat PacketBeat) :
    ∃ n, let y := Intake.run ticking x (List.replicate n ⟨true, true⟩)
      y.taken = x.taken ++ x.rest ∧ y.rest = [] ∧ y.now.1.owed = [] := by
  let load (s : Responder × Bus) : Nat := s.1.response.length
  have hload (s : Responder × Bus) (input : Option PacketBeat) :
      (ticking true s input).removed input ≠ [] ∨
        load (ticking true s input).next < load s ∨ input = none ∧ load s = 0 := by
    obtain htaken | ⟨-, hsent⟩ | ⟨-, hwaits⟩ := tick_load s.1 s.2 input true
    · exact .inl htaken
    · exact .inr (.inl (by simp only [load, ticking]; omega))
    · exact .inr (.inr ⟨(hwaits rfl).2, by simp [load, (hwaits rfl).1]⟩)
  obtain ⟨n, hall, hrest, hzero⟩ : ∃ n,
      let y := Intake.run ticking x (List.replicate n ⟨true, true⟩)
      y.taken = x.taken ++ x.rest ∧ y.rest = [] ∧ load y.now = 0 :=
    Intake.exists_drained load rfl hload x
  exact ⟨n, hall, hrest, owed_of_response (List.length_eq_zero_iff.mp hzero)⟩

end

end Responder

end LinkBridge.Etherbone

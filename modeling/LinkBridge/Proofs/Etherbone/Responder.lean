import LinkBridge.Etherbone.Responder
import LinkBridge.Proofs.Etherbone.RoundTrip
import LinkBridge.Proofs.Framing.Reading
import LinkBridge.Proofs.Stream.Contents
import LinkBridge.Proofs.Wishbone.Interrupts

/-!
# LinkBridge.Proofs.Etherbone.Responder

The responder against the serving of whole requests. Requests are served one after the other: the
records of a request are performed on the bus, the reads are answered, and an interrupt the request
raised is delivered before the next request is looked at (`serving`). The responder takes a request
word by word and sends its answer word by word; as long as the bus is idle when a tick begins, no
tick changes what becomes of the requests (`tick_conserves`).
-/

namespace LinkBridge.Etherbone

open LinkBridge.Wishbone (Bus)

/-! ## whole requests -/

/-- What performing a request does to the bus, and the records that answer it. -/
def execute (bus : Bus) (request : List Word) : Bus × List Record :=
  match Packet.decode request with
  | .error _ => (bus, [])
  | .ok packet =>
    let done := performAll bus packet.records
    (done.bus, done.replies)

/-- What a request leads to outside of the bus. -/
inductive Effect where
  | reply (packet : Packet)
  | interrupt (vector : UInt8)

/-- The answer that records make, if there are any. -/
def replyOf (records : List Record) : List Packet :=
  if records.isEmpty then [] else [{ records }]

/-- Serves requests in order; an interrupt is delivered before the next request. -/
def serving : Transducer Bus (List Word) Effect where
  step bus request :=
    let done := execute bus request
    let delivery := done.1.tick true
    (delivery.next, (replyOf done.2).map .reply ++ delivery.sent.toList.map .interrupt)

/-- The answers among effects. -/
def Effect.replies (effects : List Effect) : List Packet :=
  effects.filterMap fun
    | .reply packet => some packet
    | .interrupt _ => none

/-- The interrupts among effects. -/
def Effect.vectors (effects : List Effect) : List UInt8 :=
  effects.filterMap fun
    | .reply _ => none
    | .interrupt vector => some vector

/-- The beats of the answers among effects. -/
def Effect.beats (tag : UInt8) (effects : List Effect) : List PacketBeat :=
  (replies effects).flatMap fun packet => LinkBridge.Packet.beatsFor tag packet.encode

@[simp] theorem Effect.vectors_append (es fs : List Effect) :
    vectors (es ++ fs) = vectors es ++ vectors fs :=
  List.filterMap_append

@[simp] theorem Effect.replies_append (es fs : List Effect) :
    replies (es ++ fs) = replies es ++ replies fs :=
  List.filterMap_append

@[simp] theorem Effect.beats_append (tag : UInt8) (es fs : List Effect) :
    beats tag (es ++ fs) = beats tag es ++ beats tag fs := by
  simp [beats, replies]

@[simp] theorem Effect.vectors_reply (packets : List Packet) :
    vectors (packets.map .reply) = [] := by
  induction packets with
  | nil => rfl
  | cons p rest ih => exact ih

@[simp] theorem Effect.vectors_interrupt (vs : List UInt8) : vectors (vs.map .interrupt) = vs := by
  induction vs with
  | nil => rfl
  | cons v rest ih => exact congrArg (v :: ·) ih

@[simp] theorem Effect.replies_interrupt (vs : List UInt8) : replies (vs.map .interrupt) = [] := by
  induction vs with
  | nil => rfl
  | cons v rest ih => exact ih

@[simp] theorem Effect.replies_reply (packets : List Packet) :
    replies (packets.map .reply) = packets := by
  induction packets with
  | nil => rfl
  | cons p rest ih => exact congrArg (p :: ·) ih

/-! ## devices -/

theorem blank_readAll (bus : Bus) (addresses : List Word) :
    (readAll bus addresses).2.1.blank = bus.blank := by
  induction addresses generalizing bus with
  | nil => rfl
  | cons a rest ih => exact (ih (bus.read a.toNat).2).trans (bus.blank_read a.toNat)

theorem blank_performRecord (bus : Bus) (r : Record) :
    (performRecord bus r).bus.blank = bus.blank := by
  have hwrites : (performWrites bus r.writes).bus.blank = bus.blank := by
    unfold performWrites
    split
    · rfl
    · exact bus.blank_writeBlock _ _
  have hreads (b : Bus) : (performReads b r.reads).bus.blank = b.blank := by
    unfold performReads
    split
    · rfl
    · exact blank_readAll b _
  exact (hreads _).trans hwrites

theorem blank_performAll (bus : Bus) (rs : List Record) :
    (performAll bus rs).bus.blank = bus.blank := by
  induction rs generalizing bus with
  | nil => rfl
  | cons r rest ih => exact (ih _).trans (blank_performRecord bus r)

@[simp] theorem blank_execute (bus : Bus) (request : List Word) :
    (execute bus request).1.blank = bus.blank := by
  unfold execute
  split
  · rfl
  · exact blank_performAll bus _

@[simp] theorem kinds_execute (bus : Bus) (request : List Word) :
    (execute bus request).1.kinds = bus.kinds :=
  Bus.kinds_congr (blank_execute bus request)

/-! ## losses -/

theorem lossless_performRecord (bus : Bus) (r : Record) :
    (performRecord bus r).counted.Lossless := by
  refine Counters.Lossless.add ?_ ?_
  · unfold performWrites
    split <;> rfl
  · unfold performReads
    split <;> rfl

theorem lossless_performAll (bus : Bus) (rs : List Record) :
    (performAll bus rs).counted.Lossless := by
  induction rs generalizing bus with
  | nil => rfl
  | cons r rest ih => exact (lossless_performRecord bus r).add (ih _)

/-! ## requests word by word -/

/-- Collects the words of a request and serves it when it is complete. -/
def receiving : Transducer (Bus × List Word) PacketBeat Effect where
  step s beat :=
    let request := s.2 ++ [beat.data]
    if beat.last then (((serving.step s.1 request).1, []), (serving.step s.1 request).2)
    else ((s.1, request), [])

theorem receiving_beatsOf (dst : UInt8) (length : Word) (bus : Bus) (request : List Word)
    {ws : List Word} (hne : ws ≠ []) :
    receiving.after (bus, request) (LinkBridge.Packet.beatsOf dst length ws) =
        ((serving.step bus (request ++ ws)).1, []) ∧
      receiving.answers (bus, request) (LinkBridge.Packet.beatsOf dst length ws) =
        (serving.step bus (request ++ ws)).2 := by
  induction ws generalizing request with
  | nil => exact absurd rfl hne
  | cons w rest ih =>
      cases rest with
      | nil =>
          constructor
          · rfl
          · exact List.append_nil _
      | cons x rest =>
          have hrest := ih (request ++ [w]) (List.cons_ne_nil x rest)
          rw [List.append_assoc] at hrest
          exact hrest

/-- **Packets are served one after the other.** -/
theorem receiving_packets (bus : Bus) (ps : List LinkBridge.Packet) :
    receiving.after (bus, []) (ps.flatMap LinkBridge.Packet.beats) =
        (serving.after bus (ps.map LinkBridge.Packet.words), []) ∧
      receiving.answers (bus, []) (ps.flatMap LinkBridge.Packet.beats) =
        serving.answers bus (ps.map LinkBridge.Packet.words) := by
  induction ps generalizing bus with
  | nil => exact ⟨rfl, rfl⟩
  | cons p ps ih =>
      obtain ⟨hafter, hanswers⟩ := receiving_beatsOf p.dst p.length bus [] p.words_ne_nil
      obtain ⟨hafter', hanswers'⟩ := ih (serving.step bus p.words).1
      rw [List.nil_append] at hafter hanswers
      rw [List.flatMap_cons, List.map_cons, Transducer.after_append, Transducer.answers_append,
        LinkBridge.Packet.beats, hafter, hanswers, hafter', hanswers']
      exact ⟨rfl, rfl⟩

/-! ## the responder -/

namespace Responder

/-- Where a responder and its bus stand, an interrupt under way being delivered. -/
def standing (s : Responder × Bus) : Bus × List Word :=
  ((s.2.tick true).next, s.1.request.toList)

/-- What will become of the words a responder has not taken, the answer under way apart. -/
def outlook (s : Responder × Bus) (words : List PacketBeat) : List Effect :=
  (s.2.tick true).sent.toList.map .interrupt ++ receiving.answers (standing s) words

/-- The words of the answer under way. -/
def owed (r : Responder) : List PacketBeat :=
  LinkBridge.Packet.beatsOf r.tag r.responseLength r.response

theorem owed_of_response {r : Responder} (h : r.response = []) : r.owed = [] := by
  rw [owed, h]
  rfl

theorem owed_of_isIdle {r : Responder} (h : r.isIdle = true) : r.owed = [] := by
  simp only [isIdle, Bool.and_eq_true, List.isEmpty_iff] at h
  exact owed_of_response h.2

/-- The words a responder will still send for those it has not taken. -/
def future (s : Responder × Bus) (words : List PacketBeat) : List PacketBeat :=
  s.1.owed ++ Effect.beats s.1.tag (outlook s words)

theorem standing_of_isIdle {r : Responder} {bus : Bus} (h : bus.isIdle = true) :
    standing (r, bus) = (bus, r.request.toList) := by
  rw [standing, Bus.tick_of_isIdle h]

theorem outlook_of_isIdle {r : Responder} {bus : Bus} (h : bus.isIdle = true)
    (words : List PacketBeat) :
    outlook (r, bus) words = receiving.answers (bus, r.request.toList) words := by
  rw [outlook, standing_of_isIdle h, Bus.tick_of_isIdle h]
  rfl

/-- What a tick of the responder keeps. -/
structure Keeps (s : Responder × Bus) (input : Option PacketBeat) (ready : Bool)
    (t : Transfer (Responder × Bus) PacketBeat) : Prop where
  conserves : t.Conserves future s input ready
  vectors (xs : List PacketBeat) : Effect.vectors (outlook t.next (t.left input ++ xs)) =
    Effect.vectors (outlook s (input.toList ++ xs))
  standing (xs : List PacketBeat) : receiving.after (standing t.next) (t.left input ++ xs) =
    receiving.after (standing s) (input.toList ++ xs)
  tag : t.next.1.tag = s.1.tag
  kinds : t.next.2.kinds = s.2.kinds
  lossless : t.counted.Lossless
  /-- The bus is used at the end of a request only. -/
  request : t.next.2 = s.2 ∨ t.next.1.request = #[]
  /-- A request of one word does not use it. -/
  short : s.1.request = #[] → t.next.2 = s.2

/-- Performing a request puts the bus where executing it does and prepares the answer. -/
theorem perform_spec {r : Responder} (hresponse : r.response = []) (bus : Bus)
    (request : List Word) :
    (r.perform bus request).next.2 = (execute bus request).1 ∧
      (r.perform bus request).next.1.request = r.request ∧
      (r.perform bus request).next.1.tag = r.tag ∧
      (r.perform bus request).next.1.owed =
        Effect.beats r.tag ((replyOf (execute bus request).2).map .reply) ∧
      (r.perform bus request).sent = none ∧ (r.perform bus request).counted.Lossless := by
  have howed : r.owed = [] := owed_of_response hresponse
  unfold perform execute
  cases Packet.decode request with
  | error fault => exact ⟨rfl, rfl, rfl, howed, rfl, rfl⟩
  | ok packet =>
      simp only
      split
      · next hempty =>
        refine ⟨rfl, rfl, rfl, ?_, rfl, lossless_performAll bus packet.records⟩
        rw [replyOf, if_pos hempty]
        exact howed
      · next hempty =>
        refine ⟨rfl, rfl, rfl, ?_, rfl, lossless_performAll bus packet.records⟩
        rw [replyOf, if_neg hempty]
        simp [owed, Effect.beats, Effect.replies, LinkBridge.Packet.beatsFor]

/-- A request of one word is no packet. -/
theorem execute_singleton (bus : Bus) (w : Word) : execute bus [w] = (bus, []) := rfl

/-- Performing a complete request. -/
theorem perform_keeps {r : Responder} {bus : Bus} (hresponse : r.response = [])
    (hbus : bus.isIdle = true) {beat : PacketBeat} (hlast : beat.last = true) (ready : Bool) :
    Keeps (r, bus) (some beat) ready
      { ({ r with request := #[] } : Responder).perform bus (r.request.push beat.data).toList with
        taken := true } := by
  let request := (r.request.push beat.data).toList
  have hrequest : r.request.toList ++ [beat.data] = request := by simp [request]
  obtain ⟨hnext, hcleared, htag, howed, hsent, hcounted⟩ :=
    perform_spec (r := { r with request := #[] }) hresponse bus request
  have hstep : receiving.step (bus, r.request.toList) beat =
      (((serving.step bus request).1, []), (serving.step bus request).2) := by
    simp only [receiving, if_pos hlast, hrequest]
  have hstanding : standing (({ r with request := #[] } : Responder).perform bus request).next =
      ((serving.step bus request).1, []) := by
    rw [standing, hnext, hcleared]
    rfl
  have houtlook (xs : List PacketBeat) :
      outlook (({ r with request := #[] } : Responder).perform bus request).next xs =
        ((execute bus request).1.tick true).sent.toList.map .interrupt ++
          receiving.answers ((serving.step bus request).1, []) xs := by
    rw [outlook, hstanding, hnext]
  have hbefore (xs : List PacketBeat) : outlook (r, bus) (beat :: xs) =
      (replyOf (execute bus request).2).map .reply ++
        (((execute bus request).1.tick true).sent.toList.map .interrupt ++
          receiving.answers ((serving.step bus request).1, []) xs) := by
    rw [outlook_of_isIdle hbus, Transducer.answers, hstep, ← List.append_assoc]
    rfl
  have hnothing : r.owed = [] := owed_of_response hresponse
  constructor
  · constructor
    · intro hsome
      rw [show Transfer.sent _ = none from hsent] at hsome
      contradiction
    · intro xs
      show (Transfer.sent _).toList ++ future (Transfer.next _) xs = future (r, bus) (beat :: xs)
      rw [hsent, future, howed, htag, houtlook, future, hbefore, hnothing, ← Effect.beats_append]
      rfl
  · intro xs
    show Effect.vectors (outlook _ xs) = Effect.vectors (outlook (r, bus) (beat :: xs))
    rw [houtlook, hbefore, Effect.vectors_append, Effect.vectors_append, Effect.vectors_append,
      Effect.vectors_reply]
    rfl
  · intro xs
    show receiving.after (standing _) xs = receiving.after (standing (r, bus)) (beat :: xs)
    rw [hstanding, standing_of_isIdle hbus, Transducer.after, hstep]
  · exact htag
  · show Bus.kinds (Prod.snd _) = _
    rw [hnext, kinds_execute]
  · exact hcounted
  · exact .inr hcleared
  · intro hempty
    have hempty : r.request = #[] := hempty
    show Prod.snd _ = bus
    rw [hnext, show request = [beat.data] by simp [request, hempty], execute_singleton]

/-- **As long as the bus is idle when it begins, no tick changes what becomes of the requests.** -/
theorem tick_keeps {r : Responder} {bus : Bus} (hbus : bus.isIdle = true)
    (input : Option PacketBeat) (ready : Bool) :
    Keeps (r, bus) input ready (r.tick bus input ready) := by
  have hrefl (input : Option PacketBeat) (ready : Bool) :
      Keeps (r, bus) input ready { next := (r, bus) } :=
    ⟨⟨nofun, fun _ => rfl⟩, fun _ => rfl, fun _ => rfl, rfl, rfl, rfl, .inl rfl, fun _ => rfl⟩
  obtain ⟨tag, request, response, responseLength⟩ := r
  unfold tick
  cases response with
  | cons data rest =>
      cases ready with
      | false => exact hrefl input false
      | true =>
          exact ⟨⟨fun _ => rfl, fun _ => rfl⟩, fun _ => rfl, fun _ => rfl, rfl, rfl, rfl, .inl rfl,
            fun _ => rfl⟩
  | nil =>
      cases input with
      | none => exact hrefl none ready
      | some beat =>
          let r : Responder := ⟨tag, request, [], responseLength⟩
          let r' : Responder := { r with request := request.push beat.data }
          simp only
          split
          · next hlast => exact perform_keeps (r := r) rfl hbus hlast ready
          · next hlast =>
            have hstep : receiving.step (bus, request.toList) beat =
                ((bus, (request.push beat.data).toList), []) := by
              simp [receiving, hlast]
            have hstanding : standing (r', bus) = (bus, (request.push beat.data).toList) :=
              standing_of_isIdle hbus
            have houtlook (xs : List PacketBeat) :
                outlook (r', bus) xs = outlook (r, bus) (beat :: xs) := by
              rw [outlook_of_isIdle hbus, outlook_of_isIdle hbus, Transducer.answers, hstep]
              rfl
            have hready : (none : Option PacketBeat).isSome = true → ready = true :=
              fun hsent => absurd hsent Bool.false_ne_true
            refine ⟨⟨hready, fun xs => ?_⟩, fun xs => ?_, fun xs => ?_, rfl, rfl, rfl, .inl rfl,
              fun _ => rfl⟩
            · show [] ++ future (r', bus) xs = future (r, bus) (beat :: xs)
              rw [future, future, houtlook]
              rfl
            · exact congrArg Effect.vectors (houtlook xs)
            · show receiving.after (standing (r', bus)) xs =
                receiving.after (standing (r, bus)) (beat :: xs)
              rw [hstanding, standing_of_isIdle hbus, Transducer.after, hstep]

/-- A tick of the bus delivers the interrupt that is due anyway. -/
theorem outlook_tick {r : Responder} {bus : Bus} (hsingle : bus.kinds.count true ≤ 1)
    (ready : Bool) :
    ((bus.tick ready).sent.isSome = true → ready = true) ∧
      standing (r, (bus.tick ready).next) = standing (r, bus) ∧
      ∀ words, outlook (r, bus) words =
        (bus.tick ready).sent.toList.map .interrupt ++
          outlook (r, (bus.tick ready).next) words := by
  cases ready with
  | false =>
      rw [Bus.tick_false]
      exact ⟨nofun, rfl, fun _ => rfl⟩
  | true =>
      have hidle := Bus.isIdle_tick hsingle
      refine ⟨fun _ => rfl, standing_of_isIdle hidle, fun words => ?_⟩
      rw [outlook_of_isIdle hidle]
      rfl

/-! ## answers beat by beat -/

/-- The records that answer the request a tick performs, if it performs one. -/
def replying (r : Responder) (bus : Bus) (input : Option PacketBeat) : List (List Record) :=
  match r.response, input with
  | [], some beat =>
    if beat.last then [(execute bus (r.request.push beat.data).toList).2] else []
  | _, _ => []

/-- The beats of the answers that records make. -/
def answers (tag : UInt8) (replies : List (List Record)) : List PacketBeat :=
  (replies.flatMap replyOf).flatMap fun packet => LinkBridge.Packet.beatsFor tag packet.encode

@[simp] theorem answers_append (tag : UInt8) (replies more : List (List Record)) :
    answers tag (replies ++ more) = answers tag replies ++ answers tag more := by
  simp [answers]

/-- The payloads of the answers that records make. -/
def payloads (replies : List (List Record)) : List (List Word) :=
  (replies.flatMap replyOf).map Packet.encode

theorem ne_nil_of_mem_payloads {replies : List (List Record)} {ws : List Word}
    (h : ws ∈ payloads replies) : ws ≠ [] := by
  obtain ⟨packet, -, rfl⟩ := List.mem_map.mp h
  exact List.cons_ne_nil _ _

theorem answers_eq (tag : UInt8) (replies : List (List Record)) :
    answers tag replies = (payloads replies).flatMap (LinkBridge.Packet.beatsFor tag) := by
  rw [answers, payloads, List.flatMap_map]

/-- There is one for every request with records. -/
theorem length_payloads (replies : List (List Record)) :
    (payloads replies).length = replies.countP (!·.isEmpty) := by
  induction replies with
  | nil => rfl
  | cons records replies ih =>
      rw [payloads, List.length_map] at ih ⊢
      rw [List.flatMap_cons, List.length_append, ih, List.countP_cons, Nat.add_comm, replyOf]
      cases records <;> rfl

/-- **The responder sends the answers to the requests it performs**, whatever the bus has under
way. -/
theorem tick_owed (r : Responder) (bus : Bus) (input : Option PacketBeat) (ready : Bool) :
    let t := r.tick bus input ready
    (t.sent.isSome = true → ready = true) ∧
      t.sent.toList ++ t.next.1.owed = r.owed ++ answers r.tag (r.replying bus input) := by
  obtain ⟨tag, request, response, responseLength⟩ := r
  cases response with
  | cons data rest =>
      cases ready with
      | false => exact ⟨nofun, (List.append_nil _).symm⟩
      | true => exact ⟨fun _ => rfl, (List.append_nil _).symm⟩
  | nil =>
      cases input with
      | none => exact ⟨nofun, rfl⟩
      | some beat =>
          by_cases hlast : beat.last = true
          · obtain ⟨-, -, -, howed, hsent, -⟩ :=
              perform_spec (r := { tag, request := #[], responseLength }) rfl bus
                (request.push beat.data).toList
            simp only [tick, replying, if_pos hlast, hsent, howed]
            exact ⟨nofun, by simp [owed, LinkBridge.Packet.beatsOf, answers, Effect.beats]⟩
          · simp only [tick, replying, if_neg hlast]
            exact ⟨nofun, rfl⟩

end Responder

/-! ## lengths of answers -/

/-- A section that was read has the words its count says. -/
theorem Section.length_of_decode {count : Nat} {words : List Word} {s : Section}
    (h : decode count words = .ok s) : s.words.length = count ∧ span count ≤ words.length := by
  unfold decode at h
  split at h
  · next hzero =>
    obtain rfl := Except.ok.inj h
    exact ⟨hzero.symm, by rw [span, if_pos hzero]; exact Nat.zero_le _⟩
  · next hne =>
    split at h
    · contradiction
    · next hlong =>
      obtain rfl := Except.ok.inj h
      rw [span, if_neg hne]
      refine ⟨?_, by omega⟩
      simp only [List.length_take, List.length_drop]
      omega

theorem length_readAll (bus : Bus) (addresses : List Word) :
    (readAll bus addresses).1.length = addresses.length := by
  induction addresses generalizing bus with
  | nil => rfl
  | cons a rest ih => exact congrArg (· + 1) (ih (bus.read a.toNat).2)

/-- The answer to a record is no longer than the record. -/
theorem length_replies_performRecord (bus : Bus) (r : Record) :
    ((performRecord bus r).replies.flatMap Record.encode).length ≤
      1 + Section.span r.reads.words.length := by
  have hreads (b : Bus) : ((performReads b r.reads).replies.flatMap Record.encode).length ≤
      1 + Section.span r.reads.words.length := by
    unfold performReads
    split
    · exact Nat.zero_le _
    · next hne =>
      have hcount : r.reads.words.length ≠ 0 := by
        rwa [List.isEmpty_iff_length_eq_zero] at hne
      have hwrites := Section.length_encode_le
        { base := r.reads.base, words := (readAll b r.reads.words).1 }
      rw [length_readAll] at hwrites
      have hempty : ({} : Section).encode = [] := rfl
      rw [Section.span, if_neg hcount]
      simp only [List.flatMap_cons, List.flatMap_nil, List.append_nil, Record.encode, Record.write,
        hempty, List.length_cons]
      omega
  exact hreads _

/-- The answers to records are no longer than the words they were read from. -/
theorem length_replies_performAll {words : List Word} {rs : List Record}
    (h : Record.decodeAll words = .ok rs) (bus : Bus) :
    ((performAll bus rs).replies.flatMap Record.encode).length ≤ words.length := by
  induction words using Record.decodeAll.induct generalizing rs bus with
  | case1 =>
      rw [Record.decodeAll] at h
      obtain rfl := Except.ok.inj h
      exact Nat.le_refl _
  | case2 head rest writeCount readCount =>
      rename_i ih
      obtain ⟨r, others, rfl, hwrites, hreads, hothers, -⟩ := Record.exists_of_decodeAll_cons h
      obtain ⟨-, hspan⟩ := Section.length_of_decode hwrites
      obtain ⟨hcount, hspan'⟩ := Section.length_of_decode hreads
      have hfirst := length_replies_performRecord bus r
      have hrest : _ ≤ ((rest.drop (Section.span (Word.field head 8 8))).drop
          (Section.span (Word.field head 0 8))).length := ih hothers (performRecord bus r).bus
      rw [hcount] at hfirst
      rw [List.length_drop] at hspan'
      simp only [List.length_drop] at hrest
      simp only [performAll, List.flatMap_append, List.length_append, List.length_cons]
      omega

/-- **An answer is no longer than its request.** -/
theorem length_encode_replyOf {bus : Bus} {request : List Word} {p : Packet}
    (h : p ∈ replyOf (execute bus request).2) :
    p.encode ≠ [] ∧ p.encode.length ≤ request.length := by
  refine ⟨List.cons_ne_nil _ _, ?_⟩
  have hp : p = { records := (execute bus request).2 } := by
    unfold replyOf at h
    split at h
    · contradiction
    · exact List.mem_singleton.mp h
  cases hdecode : Packet.decode request with
  | error fault =>
      rw [execute, hdecode] at h
      contradiction
  | ok packet =>
      have hdone : (execute bus request).2 = (performAll bus packet.records).replies := by
        rw [execute, hdecode]
      obtain ⟨head, pad, rest, rfl, -, -, hrecords, -⟩ := Packet.exists_of_decode hdecode
      have hreplies := length_replies_performAll hrecords bus
      rw [hp, hdone]
      simp only [Packet.encode, List.length_cons]
      omega

/-- The answers to requests whose words can be counted have words that can be counted. -/
theorem encode_of_mem_replies {bus : Bus} {requests : List (List Word)}
    (hrequests : ∀ request ∈ requests, request.length < 2 ^ 32) {p : Packet}
    (h : p ∈ Effect.replies (serving.answers bus requests)) :
    p.encode ≠ [] ∧ p.encode.length < 2 ^ 32 := by
  induction requests generalizing bus with
  | nil => contradiction
  | cons request rest ih =>
      rw [List.forall_mem_cons] at hrequests
      have hsplit : Effect.replies (serving.answers bus (request :: rest)) =
          replyOf (execute bus request).2 ++
            Effect.replies (serving.answers (serving.step bus request).1 rest) := by
        rw [Transducer.answers, Effect.replies_append]
        simp [serving]
      rw [hsplit, List.mem_append] at h
      rcases h with h | h
      · obtain ⟨hne, hle⟩ := length_encode_replyOf h
        exact ⟨hne, Nat.lt_of_le_of_lt hle hrequests.1⟩
      · exact ih hrequests.2 h

end LinkBridge.Etherbone

import LinkBridge.Proofs.Progress.Tlp
import LinkBridge.Proofs.Stream.Intake
import LinkBridge.Proofs.Tlp.Feeding

/-!
# LinkBridge.Proofs.Tlp.Completions

TLPs and their completions, whenever beats, interrupts and room come. What the memory holds is said
on the TLPs alone: it is what they wrote last (`lastWritten`), so a completion can be computed from
the TLPs before its request (`completionBehind`). An endpoint that starts with an empty memory makes
just these completions (`completions_eq`). It is fed with TLPs beat by beat, and at every moment it
has sent, or is about to send, the completions for the TLPs it has taken to their ends (`Handling`).

Main statement: `tlps_handled_in_order`.
-/

namespace LinkBridge

/-! ## memories -/

/-- Stores words at indices, one after the other. -/
def Memory.storeAll (m : Memory) (writes : List (Nat × Word)) : Memory :=
  writes.foldl (fun m write => m.write write.1 write.2) m

/-- The last word stored at an index is read. -/
theorem Memory.read_storeAll (m : Memory) (writes : List (Nat × Word)) (index : Nat) :
    (m.storeAll writes).read index =
      writes.foldl (fun w write => if write.1 = index then write.2 else w) (m.read index) := by
  induction writes generalizing m with
  | nil => rfl
  | cons write rest ih =>
      rw [storeAll, List.foldl_cons, List.foldl_cons, ← read_write]
      exact ih (m.write write.1 write.2)

namespace Tlp

/-! ## what TLPs leave in the memory -/

/-- The index of a dword behind an address; addresses wrap around. -/
def dwordIndex (address : UInt32) (i : Nat) : Nat :=
  (address.toNat + 4 * i) % 2 ^ 32 / 4

/-- The dwords that a TLP writes, with their indices. -/
def Record.writes (r : Record) : List (Nat × Word) :=
  match r.header with
  | .memWrite request => r.data.mapIdx fun i w => (dwordIndex request.address i, w)
  | _ => []

/-- The dword that was last written at an index, zero if none was. -/
def lastWritten (rs : List Record) (index : Nat) : Word :=
  (rs.flatMap Record.writes).foldl (fun w write => if write.1 = index then write.2 else w) 0

theorem dwordIndex_zero (address : UInt32) : dwordIndex address 0 = address.toNat / 4 := by
  rw [dwordIndex, Nat.mul_zero, Nat.add_zero, Nat.mod_eq_of_lt address.toNat_lt]

theorem dwordIndex_add (address : UInt32) (i : Nat) :
    dwordIndex (address + 4) i = dwordIndex address (i + 1) := by
  have hadd : (address + 4).toNat = (address.toNat + 4) % 2 ^ 32 := UInt32.toNat_add address 4
  unfold dwordIndex
  omega

namespace Endpoint

theorem memory_writeBlock (e : Endpoint) (address : UInt32) (ws : List Word) :
    (e.writeBlock address ws).memory =
      e.memory.storeAll (ws.mapIdx fun i w => (dwordIndex address i, w)) := by
  induction ws generalizing e address with
  | nil => rfl
  | cons w rest ih =>
      rw [writeBlock, ih]
      simp only [dwordIndex_add, List.mapIdx_cons, dwordIndex_zero]
      rfl

theorem readBlock_eq (e : Endpoint) (address : UInt32) (n : Nat) :
    e.readBlock address n = (List.range n).map fun i => e.memory.read (dwordIndex address i) := by
  induction n generalizing address with
  | zero => rfl
  | succ n ih =>
      rw [readBlock, ih, List.range_succ_eq_map, List.map_cons, List.map_map, dwordIndex_zero]
      simp only [dwordIndex_add, Function.comp_def]
      rfl

/-- What a TLP changes apart from what is sent. -/
theorem handle_memory (e : Endpoint) (r : Record) :
    (e.handle r).memory = e.memory.storeAll r.writes ∧
      (e.handle r).autoComplete = e.autoComplete ∧ (e.handle r).completerId = e.completerId := by
  obtain ⟨header, data⟩ := r
  cases header with
  | memWrite request =>
      refine ⟨e.memory_writeBlock request.address data, ?_, ?_⟩
      · simp only [handle, perform]
        rw [writeBlock_eq_memory]
      · simp only [handle, perform]
        rw [writeBlock_eq_memory]
  | memRead request =>
      simp only [handle, perform]
      split <;> exact ⟨rfl, rfl, rfl⟩
  | completion c => exact ⟨rfl, rfl, rfl⟩
  | completionWithData c => exact ⟨rfl, rfl, rfl⟩

/-- **TLPs leave in the memory what they write.** -/
theorem memory_foldl_handle (e : Endpoint) (rs : List Record) :
    (rs.foldl handle e).memory = e.memory.storeAll (rs.flatMap Record.writes) := by
  induction rs generalizing e with
  | nil => rfl
  | cons r rest ih =>
      rw [List.foldl_cons, ih, (e.handle_memory r).1, List.flatMap_cons]
      simp only [Memory.storeAll, List.foldl_append]

end Endpoint

/-! ## the completions that are due -/

/-- How many dwords are requested; a length of zero stands for 1024. -/
def Request.count (q : Request) : Nat :=
  if q.length = 0 then 1024 else q.length.toNat

/-- The completion for a request, given the TLPs before it. -/
def completionBehind (completer : UInt16) (earlier : List Record) (q : Request) : Record where
  header := .completionWithData
    { length := q.length, completer, status := 0, bcm := false,
      byteCount := UInt16.ofNat (4 * q.count % 4096), requester := q.requester, tag := q.tag,
      lowerAddress := (q.address &&& 0x7F).toUInt8 }
  data := (List.range q.count).map fun i => lastWritten earlier (dwordIndex q.address i)

/-- The completions for the requests among TLPs, given the TLPs before them. -/
def completionsDue (completer : UInt16) (earlier : List Record) : List Record → List Record
  | [] => []
  | r :: rest =>
    let first :=
      match r.header with
      | .memRead q => [completionBehind completer earlier q]
      | _ => []
    first ++ completionsDue completer (earlier ++ [r]) rest

theorem Request.Fits.dwordCount_eq {q : Request} (h : q.Fits) :
    Header.dwordCount q.length = q.count := by
  have hzero : q.length = 0 ↔ q.length.toNat = 0 := UInt16.toNat_inj.symm
  have hlength := h.length
  simp only [Header.dwordCount, count, hzero]
  split <;> split <;> omega

theorem lowerAddress_eq (address : UInt32) :
    UInt8.ofNat (address.toNat % 128) = (address &&& 0x7F).toUInt8 := by
  have hmask : address.toNat &&& (2 ^ 7 - 1) = address.toNat % 2 ^ 7 :=
    Nat.and_two_pow_sub_one_eq_mod ..
  rw [← UInt8.toNat_inj, UInt32.toNat_toUInt8, UInt32.toNat_and, UInt8.toNat_ofNat']
  exact congrArg (· % 256) hmask.symm

namespace Endpoint

/-- A completion holds what was written last. -/
theorem completionFor_eq {e : Endpoint} {earlier : List Record}
    (hmemory : ∀ index, e.memory.read index = lastWritten earlier index) {q : Request}
    (hfits : q.Fits) : e.completionFor q = completionBehind e.completerId earlier q := by
  simp only [completionFor, completionBehind, hfits.dwordCount_eq, Nat.mul_comm, lowerAddress_eq,
    readBlock_eq, hmemory]

/-- **The completions that are due are made.** -/
theorem completions_eq {e : Endpoint} (hauto : e.autoComplete = true) {earlier rs : List Record}
    (hmemory : ∀ index, e.memory.read index = lastWritten earlier index)
    (hfits : ∀ r ∈ rs, r.header.Fits) :
    e.completions rs = completionsDue e.completerId earlier rs := by
  induction rs generalizing e earlier with
  | nil => rfl
  | cons r rest ih =>
      obtain ⟨hr, hrest⟩ := List.forall_mem_cons.mp hfits
      obtain ⟨hhandled, hauto', hcompleter⟩ := e.handle_memory r
      -- `r` may write, so the requests behind it are answered with `r` among the TLPs before them.
      have hmemory' (index : Nat) :
          (e.handle r).memory.read index = lastWritten (earlier ++ [r]) index := by
        rw [hhandled, Memory.read_storeAll, hmemory, lastWritten, lastWritten,
          List.flatMap_append, List.foldl_append, List.flatMap_singleton]
      rw [completions, completionsDue, ih (hauto'.trans hauto) hmemory' hrest, hcompleter]
      refine congrArg (· ++ _) ?_
      obtain ⟨header, data⟩ := r
      cases header with
      | memRead q => simp only [answer, hauto, if_true, completionFor_eq hmemory hr]
      | memWrite q => rfl
      | completion c => rfl
      | completionWithData c => rfl

/-- **A completion that is made reads back.** -/
theorem ofBeats_of_mem_completions {e : Endpoint} {rs : List Record}
    (hfits : ∀ r ∈ rs, r.header.Fits) {c : Record} (h : c ∈ e.completions rs) :
    Record.ofBeats c.toBeats = .ok c := by
  obtain ⟨e', request, ⟨r, hr, hheader⟩, rfl⟩ := exists_of_mem_completions h
  have hrequest : request.Fits := by
    have hfits := hfits r hr
    rwa [hheader] at hfits
  rw [Record.ofBeats_toBeats, e'.ofDwords_completionFor hrequest]

/-- TLPs that were read fit. -/
theorem fits_of_mem_handled {tlps : List (List Beat)} :
    ∀ r ∈ handled (tlps.map Record.ofBeats), r.header.Fits := by
  intro r hr
  obtain ⟨read, hread, hr⟩ := List.mem_filterMap.mp hr
  obtain ⟨tlp, -, rfl⟩ := List.mem_map.mp hread
  cases hread : Record.ofBeats tlp with
  | error fault =>
      rw [hread] at hr
      contradiction
  | ok r' =>
      rw [hread] at hr
      obtain rfl : r' = r := Option.some.inj hr
      exact (Record.fits_of_ofDwords hread).1

/-- Without completions nothing is sent. -/
theorem completions_of_silent {e : Endpoint} (h : e.autoComplete = false) (rs : List Record) :
    e.completions rs = [] := by
  induction rs generalizing e with
  | nil => rfl
  | cons r rest ih =>
      rw [completions, ih ((e.handle_memory r).2.1.trans h), List.append_nil, answer]
      split
      · rw [h]
        rfl
      · rfl

/-! ## histories -/

/-- Dropping the oldest item whenever there are enough of them keeps the last ones. -/
theorem foldl_keep {α : Type} {limit : Nat} (hlimit : 0 < limit) (items : List α) :
    items.foldl (fun kept x => (if limit ≤ kept.length then kept.tail else kept) ++ [x]) [] =
      items.drop (items.length - limit) := by
  induction items using List.reverseRecOn with
  | nil => simp
  | append_singleton items x ih =>
      rw [List.foldl_append, List.foldl_cons, List.foldl_nil, ih, List.length_drop,
        List.length_append, List.length_singleton, List.drop_append_of_le_length (by omega)]
      by_cases hfull : limit ≤ items.length
      · have hnext : items.length - limit + 1 = items.length + 1 - limit := by omega
        rw [if_pos (by omega), List.tail_drop, hnext]
      · have hnone : items.length - limit = items.length + 1 - limit := by omega
        rw [if_neg (by omega), hnone]

/-- A history holds the last items. -/
theorem foldl_record {α : Type} (items : List α) :
    items.foldl record [] = items.drop (items.length - historyLimit) :=
  foldl_keep (by decide) items

theorem received_foldl_handle (e : Endpoint) (rs : List Record) :
    (rs.foldl handle e).received = rs.foldl record e.received := by
  induction rs generalizing e with
  | nil => rfl
  | cons r rest ih => rw [List.foldl_cons, List.foldl_cons, ih, (e.handle_spec r).2]

/-! ## feeding -/

/-- What an endpoint meets on a tick apart from beats. -/
structure Surroundings where
  /-- The interrupt that is there. -/
  vector : Option UInt8
  /-- Whether there is room for a beat. -/
  room : Bool

/-- An endpoint on a tick. -/
def ticking (a : Surroundings) (e : Endpoint) (input : Option Beat) : Transfer Endpoint Beat :=
  e.tick input a.vector a.room

/-- An endpoint in front of TLPs. -/
def facing (e : Endpoint) (tlps : List (List Beat)) : Intake Endpoint Beat Beat where
  now := e
  rest := tlps.flatten

/-- Collects TLPs, and reads those that are complete. -/
def reading : Transducer (Unit × List Beat) Beat (Except Fault Record) :=
  .blockwise (·.last) { step := fun _ tlp => ((), [Record.ofBeats tlp]) }

theorem reading_wholes {tlps : List (List Beat)} (h : ∀ tlp ∈ tlps, Beat.Whole tlp)
    {part : List Beat} (hpart : part.countP (·.last) = 0) :
    reading.answers ((), []) (tlps.flatten ++ part) = tlps.map Record.ofBeats := by
  have hmap : ∀ tlps : List (List Beat),
      Transducer.answers { step := fun _ tlp => ((), [Record.ofBeats tlp]) } () tlps =
        tlps.map Record.ofBeats := by
    intro tlps
    induction tlps with
    | nil => rfl
    | cons tlp rest ih => exact congrArg (Record.ofBeats tlp :: ·) ih
  rw [← hmap]
  exact (Transducer.blockwise_blocks _ h hpart ()).2

theorem accept_reading (e : Endpoint) (beat : Beat) :
    (e.accept beat).1.inbound.toList = (reading.after ((), e.inbound.toList) [beat]).2 ∧
      (e.accept beat).2 =
        { tlpMalformed := malformed (reading.answers ((), e.inbound.toList) [beat]) } := by
  unfold accept
  simp only [Transducer.after, Transducer.answers, List.append_nil]
  cases hlast : beat.last with
  | true =>
      have hstep : reading.step ((), e.inbound.toList) beat =
          (((), []), [Record.ofBeats (e.inbound.push beat).toList]) := by
        rw [Array.toList_push]
        exact Transducer.step_blockwise_of_ends _ hlast () _
      rw [if_pos rfl, hstep]
      cases Record.ofBeats (e.inbound.push beat).toList with
      | error fault => exact ⟨rfl, rfl⟩
      | ok r => exact ⟨congrArg Array.toList (handle_spec _ r).1, rfl⟩
  | false =>
      have hstep : reading.step ((), e.inbound.toList) beat =
          (((), e.inbound.toList ++ [beat]), []) :=
        Transducer.step_blockwise_of_not_ends _ hlast () _
      rw [if_neg Bool.false_ne_true, hstep]
      exact ⟨Array.toList_push .., rfl⟩

/-- A tick reads the TLP that a beat ends, and counts it if it cannot be read. -/
theorem tick_reading (e : Endpoint) (input : Option Beat) (vector : Option UInt8) (ready : Bool) :
    let t := e.tick input vector ready
    t.next.inbound.toList = (reading.after ((), e.inbound.toList) input.toList).2 ∧
      t.counted =
        { tlpMalformed := malformed (reading.answers ((), e.inbound.toList) input.toList) } := by
  cases input with
  | none => cases vector <;> exact ⟨rfl, rfl⟩
  | some beat => cases vector <;> exact accept_reading _ beat

/-- What an endpoint has done with the beats it has taken. -/
structure Handling (start : Endpoint) (x : Intake Endpoint Beat Beat) : Prop where
  bare : x.now.bare = absorbing.after start.bare x.taken
  sent : x.sent ++ x.now.outbound = absorbing.answers start.bare x.taken
  inbound : x.now.inbound.toList = (reading.after ((), []) x.taken).2
  counted : x.counted = { tlpMalformed := malformed (reading.answers ((), []) x.taken) }

section

variable {start : Endpoint} {x : Intake Endpoint Beat Beat}

/-- **A tick keeps to the TLPs.** -/
theorem Handling.tick (h : Handling start x) (m : Intake.Moment Surroundings) :
    Handling start (Intake.tick ticking x m) := by
  let input := x.shown m.available
  let t := x.now.tick input m.around.vector m.around.room
  have htick : Intake.tick ticking x m =
      { now := t.next, rest := x.rest.drop input.toList.length, taken := x.taken ++ input.toList
        sent := x.sent ++ t.sent.toList, counted := x.counted + t.counted } := rfl
  obtain ⟨hconserves, hbare, -⟩ := x.now.tick_conserves input m.around.vector m.around.room
  obtain ⟨hinbound, hcounted⟩ := x.now.tick_reading input m.around.vector m.around.room
  have hsent : t.sent.toList ++ t.next.outbound =
      x.now.outbound ++ absorbing.answers x.now.bare input.toList := by
    have hleft : (x.now.tick input m.around.vector m.around.room).left input = [] :=
      Transfer.left_of_taken rfl input
    simpa [future, hleft] using hconserves.future []
  have hstate : ((), x.now.inbound.toList) = reading.after ((), []) x.taken :=
    Prod.ext rfl h.inbound
  rw [htick]
  constructor
  · show t.next.bare = absorbing.after start.bare (x.taken ++ input.toList)
    rw [Transducer.after_append, ← h.bare]
    simpa using hbare []
  · show x.sent ++ t.sent.toList ++ t.next.outbound = _
    rw [List.append_assoc, hsent, ← List.append_assoc, h.sent, Transducer.answers_append, ← h.bare]
  · show t.next.inbound.toList = _
    rw [hinbound, hstate, Transducer.after_append]
  · show x.counted + t.counted = _
    rw [hcounted, h.counted, hstate, Transducer.answers_append, malformed, malformed, malformed,
      List.countP_append]
    rfl

/-- **A run keeps to the TLPs.** -/
theorem Handling.run (h : Handling start x) (moments : List (Intake.Moment Surroundings)) :
    Handling start (Intake.run ticking x moments) :=
  Intake.run_keeps (fun _ m h => h.tick m) h moments

theorem handling_facing {start : Endpoint} (hinbound : start.inbound = #[])
    (houtbound : start.outbound = []) (tlps : List (List Beat)) :
    Handling start (facing start tlps) :=
  ⟨rfl, houtbound, congrArg Array.toList hinbound, rfl⟩

/-- **At every moment the TLPs taken to their ends were handled**, and their completions are sent
or under way. -/
theorem Handling.ended (h : Handling start x) (hinbound : start.inbound = #[])
    {done : List (List Beat)} {part : List Beat} (hdone : ∀ tlp ∈ done, Beat.Whole tlp)
    (htaken : x.taken = done.flatten ++ part) (hpart : part.countP (·.last) = 0) :
    let rs := handled (done.map Record.ofBeats)
    x.now.memory = (rs.foldl handle start).memory ∧
      x.now.received = (rs.foldl handle start).received ∧
      x.sent ++ x.now.outbound = (start.completions rs).flatMap Record.toBeats ∧
      x.counted = { tlpMalformed := malformed (done.map Record.ofBeats) } := by
  intro rs
  obtain ⟨hafter, hanswers⟩ := start.absorbing_wholes hinbound hdone
  obtain ⟨hafter', hanswers'⟩ := (rs.foldl handle start).absorbing_collect hpart
  have hbare : x.now.bare = { (rs.foldl handle start).bare with
      inbound := (rs.foldl handle start).inbound ++ part.toArray } := by
    rw [h.bare, htaken, Transducer.after_append, hafter, hafter']
  refine ⟨(congrArg memory hbare :), (congrArg received hbare :), ?_, ?_⟩
  · rw [h.sent, htaken, Transducer.answers_append, hanswers, hafter, hanswers', List.append_nil]
  · rw [h.counted, htaken, reading_wholes hdone hpart]

end

/-- The interrupts that were there were received. -/
theorem vectors_run (x : Intake Endpoint Beat Beat) (moments : List (Intake.Moment Surroundings)) :
    (Intake.run ticking x moments).now.vectors =
      (moments.filterMap (·.around.vector)).foldl record x.now.vectors := by
  induction moments generalizing x with
  | nil => rfl
  | cons m moments ih =>
      obtain ⟨-, -, hvectors⟩ :=
        x.now.tick_conserves (x.shown m.available) m.around.vector m.around.room
      have hstep : (Intake.tick ticking x m).now.vectors =
          m.around.vector.toList.foldl record x.now.vectors := hvectors
      rw [List.filterMap_cons]
      refine (ih (Intake.tick ticking x m)).trans ?_
      rw [hstep]
      cases m.around.vector <;> rfl

/-- An endpoint works as long as beats come and there is room. -/
theorem exists_drained (x : Intake Endpoint Beat Beat) :
    ∃ n, let y := Intake.run ticking x (List.replicate n ⟨true, none, true⟩)
      y.taken = x.taken ++ x.rest ∧ y.rest = [] ∧ y.now.outbound = [] := by
  let load (e : Endpoint) : Nat := e.outbound.length
  have hload (e : Endpoint) (input : Option Beat) :
      (ticking ⟨none, true⟩ e input).removed input ≠ [] ∨
        load (ticking ⟨none, true⟩ e input).next < load e ∨ input = none ∧ load e = 0 := by
    obtain hsome | hvector | hsent | ⟨⟨hnone, -⟩, -, -, hwaits⟩ := tick_load e input none true
    · obtain ⟨beat, rfl⟩ := Option.ne_none_iff_exists'.mp hsome
      exact .inl (List.cons_ne_nil beat [])
    · exact absurd rfl hvector
    · exact .inr (.inl (by simp only [load, ticking]; omega))
    · exact .inr (.inr ⟨hnone, by simp [load, hwaits rfl]⟩)
  obtain ⟨n, hall, hrest, hzero⟩ : ∃ n,
      let y := Intake.run ticking x (List.replicate n ⟨true, none, true⟩)
      y.taken = x.taken ++ x.rest ∧ y.rest = [] ∧ load y.now = 0 :=
    Intake.exists_drained load rfl hload x
  exact ⟨n, hall, hrest, List.length_eq_zero_iff.mp hzero⟩

/-- **TLPs are handled in order, whenever beats, interrupts and room come.** Of a fresh endpoint,
what has been sent is a beginning of the completions that are due. The TLPs taken to their ends were
handled one after the other if they can be read, and only counted if not: the memory holds what they
wrote last, the completions for their requests are sent or under way, and the last of them are kept,
as are the last interrupts. Every completion reads back, and with beats and room coming it comes to
all of them. -/
theorem tlps_handled_in_order (autoComplete : Bool) (completerId : UInt16)
    {tlps : List (List Beat)} (hwhole : ∀ tlp ∈ tlps, Beat.Whole tlp)
    (moments : List (Intake.Moment Surroundings)) :
    let x := Intake.run ticking (facing { autoComplete, completerId } tlps) moments
    let due (tlps : List (List Beat)) : List Record :=
      if autoComplete then completionsDue completerId [] (handled (tlps.map Record.ofBeats)) else []
    let vectors := moments.filterMap (·.around.vector)
    x.sent <+: (due tlps).flatMap Record.toBeats ∧
      (∃ done later part, tlps = done ++ later ∧ x.taken = done.flatten ++ part ∧
        part ++ x.rest = later.flatten ∧ part.countP (·.last) = 0 ∧
        let rs := handled (done.map Record.ofBeats)
        x.counted = { tlpMalformed := malformed (done.map Record.ofBeats) } ∧
        (∀ address, x.now.readMemory address = lastWritten rs (address.toNat / 4)) ∧
        x.sent ++ x.now.outbound = (due done).flatMap Record.toBeats ∧
        x.now.received = rs.drop (rs.length - 1024)) ∧
      x.now.vectors = vectors.drop (vectors.length - 1024) ∧
      (∀ c ∈ due tlps, Record.ofBeats c.toBeats = .ok c) ∧
      ∃ n, let y := Intake.run ticking x (List.replicate n ⟨true, none, true⟩)
        y.rest = [] ∧ y.sent = (due tlps).flatMap Record.toBeats := by
  intro x due vectors
  let start : Endpoint := { autoComplete, completerId }
  have hdue (tlps : List (List Beat)) :
      start.completions (handled (tlps.map Record.ofBeats)) = due tlps := by
    have hempty (index : Nat) : start.memory.read index = lastWritten [] index :=
      Memory.read_empty index
    cases autoComplete with
    | false => exact completions_of_silent rfl _
    | true => exact completions_eq rfl hempty fits_of_mem_handled
  have hx : Handling start x := (handling_facing rfl rfl tlps).run moments
  have hbeats : x.taken ++ x.rest = tlps.flatten :=
    Intake.taken_append_rest_run (facing start tlps) moments
  -- The part behind the TLPs that have ended is collected and changes nothing yet.
  obtain ⟨done, later, part, hsplit, htaken, hrest, hpart⟩ := Beat.exists_ended hwhole hbeats
  have hdone : ∀ tlp ∈ done, Beat.Whole tlp := fun tlp htlp =>
    hwhole tlp (hsplit ▸ List.mem_append_left later htlp)
  obtain ⟨hmemory, hreceived, hsent, hcounted⟩ := hx.ended rfl hdone htaken hpart
  rw [hdue] at hsent
  refine ⟨?_, ⟨done, later, part, hsplit, htaken, hrest, hpart, hcounted, fun address => ?_, hsent,
    ?_⟩, ?_, fun c hc => ?_, ?_⟩
  · obtain ⟨more, hmore⟩ : ∃ more, due tlps = due done ++ more := by
      rw [← hdue, ← hdue, hsplit, List.map_append, handled, handled, List.filterMap_append,
        completions_append]
      exact ⟨_, rfl⟩
    rw [hmore, List.flatMap_append, ← hsent, List.append_assoc]
    exact List.prefix_append ..
  · rw [readMemory, hmemory, memory_foldl_handle, Memory.read_storeAll]
    exact congrArg (List.foldl _ · _) (Memory.read_empty _)
  · rw [hreceived, received_foldl_handle]
    exact foldl_record _
  · exact (vectors_run (facing start tlps) moments).trans (foldl_record vectors)
  · rw [← hdue] at hc
    exact ofBeats_of_mem_completions fits_of_mem_handled hc
  · -- With all beats taken there is no such part: all of the TLPs have ended.
    obtain ⟨n, hall, hempty, houtbound⟩ := exists_drained x
    rw [hbeats, ← List.append_nil tlps.flatten] at hall
    obtain ⟨-, -, hsent, -⟩ :=
      (hx.run (List.replicate n ⟨true, none, true⟩)).ended rfl hwhole hall rfl
    rw [houtbound, List.append_nil, hdue] at hsent
    exact ⟨n, hempty, hsent⟩

/-- A write of two dwords that wraps around behind the last address, beats that are no TLP, and a
read of the two dwords. -/
theorem tlps_handled_in_order_wrapping :
    let read : Record :=
      { header := .memRead
          { length := 2, requester := 3, tag := 4, firstEnable := 0xF, lastEnable := 0xF,
            address := 0xFFFFFFFC } }
    let answer : Record :=
      { header := .completionWithData
          { length := 2, completer := 9, status := 0, bcm := false, byteCount := 8, requester := 3,
            tag := 4, lowerAddress := 0x7C }
        data := [5, 6] }
    let tlps := [(Record.memWrite 1 2 0xFFFFFFFC [5, 6]).toBeats, [.lone 7], read.toBeats]
    (∀ tlp ∈ tlps, Beat.Whole tlp) ∧
      ∃ n, (Intake.run ticking (facing { autoComplete := true, completerId := 9 } tlps)
        (List.replicate n ⟨true, none, true⟩)).sent = answer.toBeats := by
  intro read answer tlps
  have hwhole : ∀ tlp ∈ tlps, Beat.Whole tlp := by
    refine List.forall_mem_cons.mpr ⟨Beat.whole_ofDwords (List.cons_ne_nil _ _), ?_⟩
    refine List.forall_mem_cons.mpr ⟨⟨[], _, rfl, rfl, rfl⟩, ?_⟩
    exact List.forall_mem_cons.mpr ⟨Beat.whole_ofDwords (List.cons_ne_nil _ _), nofun⟩
  have hdue : completionsDue 9 [] (handled (tlps.map Record.ofBeats)) = [answer] := by
    decide +kernel
  obtain ⟨-, -, -, -, n, -, hsent⟩ := tlps_handled_in_order true 9 hwhole []
  simp only [if_true, hdue, List.flatMap_singleton] at hsent
  exact ⟨hwhole, n, hsent⟩

end Endpoint

end Tlp

end LinkBridge

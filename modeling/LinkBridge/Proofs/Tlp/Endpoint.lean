import LinkBridge.Proofs.Tlp.Codec
import LinkBridge.Proofs.Tlp.Deserializer
import LinkBridge.Tlp.Endpoint

/-!
# LinkBridge.Proofs.Tlp.Endpoint

The endpoint against the handling of whole TLPs. What a TLP does depends neither on the beats that
still wait for room nor on the interrupts received, so the endpoint is studied without them
(`bare`): the beats it takes one by one are handled TLP by TLP, and every completion is computed
from the memory as the TLPs before it left it (`absorbing_tlps`).
-/

namespace LinkBridge.Tlp.Endpoint

/-! ## whole TLPs -/

/-- The answer to a TLP, if there is one. -/
def answer (e : Endpoint) (r : Record) : List Record :=
  match r.header with
  | .memRead request => if e.autoComplete then [e.completionFor request] else []
  | _ => []

/-- The completions for TLPs that are handled in order. -/
def completions (e : Endpoint) : List Record → List Record
  | [] => []
  | r :: rest => e.answer r ++ (e.handle r).completions rest

/-- The TLPs among runs of dwords. -/
def records (tlps : List (List Word)) : List Record :=
  tlps.filterMap fun ws => (Record.ofDwords ws).toOption

/-- The TLPs that can be read. -/
def handled (tlps : List (Except Fault Record)) : List Record :=
  tlps.filterMap (·.toOption)

theorem handled_cons (tlp : Except Fault Record) (tlps : List (Except Fault Record)) :
    handled (tlp :: tlps) = tlp.toOption.toList ++ handled tlps := by
  cases tlp <;> rfl

theorem records_eq (tlps : List (List Word)) :
    records tlps = handled (tlps.map Record.ofDwords) := by
  rw [handled, List.filterMap_map]
  rfl

theorem length_readBlock (e : Endpoint) (address : UInt32) (n : Nat) :
    (e.readBlock address n).length = n := by
  induction n generalizing address with
  | zero => rfl
  | succ n ih => exact congrArg (· + 1) (ih (address + 4))

/-- A completion has the dwords that were requested behind its header. -/
theorem length_completionFor (e : Endpoint) (request : Request) :
    (e.completionFor request).data.length = Header.dwordCount request.length :=
  e.length_readBlock ..

/-- The completion for a request that was read reads back unchanged. -/
theorem ofDwords_completionFor (e : Endpoint) {request : Request} (h : request.Fits) :
    Record.ofDwords (e.completionFor request).toDwords = .ok (e.completionFor request) := by
  refine Record.ofDwords_toDwords ⟨h.length, ?_, ?_, ?_⟩ (e.length_completionFor request)
  · show (0 : UInt8).toNat < 8
    decide
  · show (UInt16.ofNat (Header.dwordCount request.length * 4 % 4096)).toNat < 4096
    rw [UInt16.toNat_ofNat']
    omega
  · show (UInt8.ofNat (request.address.toNat % 128)).toNat < 128
    rw [UInt8.toNat_ofNat']
    omega

/-- A completion has between 4 and 1027 dwords. -/
theorem length_toDwords_completionFor (e : Endpoint) (request : Request) :
    3 < (e.completionFor request).toDwords.length ∧
      (e.completionFor request).toDwords.length ≤ 1027 := by
  have hcount := Header.dwordCount_bounds request.length
  rw [Record.toDwords, List.length_append, Header.length_encode, e.length_completionFor, Header.size]
  omega

/-- What is sent for TLPs are completions for requests among them. -/
theorem exists_of_mem_completions {e : Endpoint} {rs : List Record} {c : Record}
    (h : c ∈ e.completions rs) :
    ∃ (e' : Endpoint) (request : Request),
      (∃ r ∈ rs, r.header = .memRead request) ∧ c = e'.completionFor request := by
  induction rs generalizing e with
  | nil => contradiction
  | cons r rest ih =>
      rw [completions, List.mem_append] at h
      rcases h with h | h
      · unfold answer at h
        split at h
        · next request hheader =>
          split at h
          · exact ⟨e, request, ⟨r, List.mem_cons_self, hheader⟩, List.mem_singleton.mp h⟩
          · contradiction
        · contradiction
      · obtain ⟨e', request, ⟨r', hr', hheader⟩, hc⟩ := ih h
        exact ⟨e', request, ⟨r', List.mem_cons_of_mem r hr', hheader⟩, hc⟩

theorem length_toDwords_of_mem_completions {e : Endpoint} {rs : List Record} {c : Record}
    (h : c ∈ e.completions rs) : 3 < c.toDwords.length ∧ c.toDwords.length ≤ 1027 := by
  obtain ⟨e', request, -, rfl⟩ := exists_of_mem_completions h
  exact e'.length_toDwords_completionFor request

theorem completions_append (e : Endpoint) (rs ss : List Record) :
    e.completions (rs ++ ss) = e.completions rs ++ (rs.foldl handle e).completions ss := by
  induction rs generalizing e with
  | nil => rfl
  | cons r rest ih =>
      rw [List.cons_append, completions, completions, ih, List.append_assoc]
      rfl

/-! ## the endpoint without what waits and without interrupts -/

/-- Forgets the beats that wait and the interrupts received. -/
def bare (e : Endpoint) : Endpoint :=
  { e with outbound := [], vectors := [] }

/-- Puts beats in front of those that wait, and interrupts back. -/
def restore (e : Endpoint) (outbound : List Beat) (vectors : List UInt8) : Endpoint :=
  { e with outbound := outbound ++ e.outbound, vectors }

theorem writeBlock_eq (e : Endpoint) (address : UInt32) (ws : List Word) :
    e.writeBlock address ws = (e.bare.writeBlock address ws).restore e.outbound e.vectors ∧
      (e.bare.writeBlock address ws).outbound = [] := by
  induction ws generalizing e address with
  | nil => exact ⟨by simp [writeBlock, restore, bare], rfl⟩
  | cons w rest ih => exact ih (e.writeMemory address w) (address + 4)

theorem readBlock_bare (e : Endpoint) (address : UInt32) (n : Nat) :
    e.bare.readBlock address n = e.readBlock address n := by
  induction n generalizing address with
  | zero => rfl
  | succ n ih => exact congrArg _ (ih (address + 4))

theorem completionFor_bare (e : Endpoint) (request : Request) :
    e.bare.completionFor request = e.completionFor request := by
  simp only [completionFor, readBlock_bare]
  rfl

/-- What a TLP does to the bare endpoint it does to any. -/
theorem handle_eq (e : Endpoint) (r : Record) :
    e.handle r = (e.bare.handle r).restore e.outbound e.vectors ∧
      (e.bare.handle r).outbound = (e.answer r).flatMap Record.toBeats := by
  obtain ⟨header, data⟩ := r
  cases header with
  | memWrite request =>
      obtain ⟨hwrite, hnone⟩ := e.writeBlock_eq request.address data
      refine ⟨?_, hnone⟩
      simp only [handle, perform]
      rw [hwrite]
      rfl
  | memRead request =>
      have hauto : e.bare.autoComplete = e.autoComplete := rfl
      simp only [handle, perform, answer, completionFor_bare, hauto]
      split
      · exact ⟨rfl, by simp [inject, bare]⟩
      · exact ⟨by simp [restore, bare], rfl⟩
  | completion c => exact ⟨by simp [handle, perform, restore, bare], rfl⟩
  | completionWithData c => exact ⟨by simp [handle, perform, restore, bare], rfl⟩

theorem bare_handle (e : Endpoint) (r : Record) : (e.handle r).bare = (e.bare.handle r).bare := by
  rw [(e.handle_eq r).1]
  rfl

/-! ## beats -/

/-- Takes beats one by one and answers with the beats of the completions made. -/
def absorbing : Transducer Endpoint Beat Beat where
  step e beat := ((e.accept beat).1.bare, (e.accept beat).1.outbound)

/-- What a beat does to the bare endpoint it does to any. -/
theorem accept_eq (e : Endpoint) (beat : Beat) :
    (e.accept beat).1 = (e.bare.accept beat).1.restore e.outbound e.vectors := by
  unfold accept
  have hinbound : e.bare.inbound = e.inbound := rfl
  simp only [hinbound]
  split
  · cases Record.ofBeats (e.inbound.push beat).toList with
    | ok r =>
        have hhandle := ({ e with inbound := #[] } : Endpoint).handle_eq r
        exact hhandle.1
    | error fault => simp [restore, bare]
  · simp [restore, bare]

/-- The beats an endpoint will still send for the beats it has not taken. -/
def future (e : Endpoint) (beats : List Beat) : List Beat :=
  e.outbound ++ absorbing.answers e.bare beats

/-- One more beat. -/
theorem accept_spec (e : Endpoint) (beat : Beat) (xs : List Beat) :
    (e.accept beat).1.future xs = e.future (beat :: xs) ∧
      (e.accept beat).1.bare = (absorbing.step e.bare beat).1 ∧
      (e.accept beat).1.vectors = e.vectors := by
  rw [e.accept_eq beat]
  refine ⟨?_, rfl, rfl⟩
  rw [future, future, Transducer.answers, ← List.append_assoc]
  rfl

/-- **No tick changes what the endpoint makes of the beats to come**, nor where it will be. -/
theorem tick_conserves (e : Endpoint) (input : Option Beat) (vector : Option UInt8) (ready : Bool) :
    (e.tick input vector ready).Conserves future e input ready ∧
      (∀ xs, absorbing.after (e.tick input vector ready).next.bare xs =
        absorbing.after e.bare (input.toList ++ xs)) ∧
      (e.tick input vector ready).next.vectors = vector.toList.foldl record e.vectors := by
  let sent := if ready then e.outbound.head? else none
  let e' : Endpoint := { e with outbound := e.outbound.drop sent.toList.length }
  have hready : sent.isSome = true → ready = true := by
    cases ready with
    | true => exact fun _ => rfl
    | false => exact nofun
  have hsent : sent.toList ++ e'.outbound = e.outbound := by
    show sent.toList ++ e.outbound.drop sent.toList.length = e.outbound
    cases ready with
    | false => rfl
    | true => cases hout : e.outbound <;> simp [sent, hout]
  have hfuture (xs : List Beat) : sent.toList ++ e'.future xs = e.future xs := by
    rw [future, future, ← List.append_assoc, hsent]
    rfl
  cases input with
  | none =>
      cases vector with
      | none => exact ⟨⟨hready, hfuture⟩, fun _ => rfl, rfl⟩
      | some v => exact ⟨⟨hready, hfuture⟩, fun _ => rfl, rfl⟩
  | some beat =>
      have haccept (xs : List Beat) : sent.toList ++ (e'.accept beat).1.future xs =
          e.future (beat :: xs) := by
        rw [(e'.accept_spec beat xs).1, hfuture]
      have hbare (xs : List Beat) : absorbing.after (e'.accept beat).1.bare xs =
          absorbing.after e.bare (beat :: xs) := by
        rw [(e'.accept_spec beat xs).2.1]
        rfl
      have hvectors : (e'.accept beat).1.vectors = e.vectors := (e'.accept_spec beat []).2.2
      cases vector with
      | none => exact ⟨⟨hready, haccept⟩, hbare, hvectors⟩
      | some v => exact ⟨⟨hready, haccept⟩, hbare, congrArg (record · v) hvectors⟩

/-- Nor is anything lost. -/
theorem lossless_tick (e : Endpoint) (input : Option Beat) (vector : Option UInt8) (ready : Bool) :
    (e.tick input vector ready).counted.Lossless := by
  have haccept (e : Endpoint) (beat : Beat) : (e.accept beat).2.Lossless := by
    unfold accept
    simp only
    repeat' split
    all_goals rfl
  cases input with
  | none => rfl
  | some beat => exact haccept _ beat

/-- A silent endpoint answers nothing. -/
theorem autoComplete_of_mem_answer {e : Endpoint} {r answer : Record} (h : answer ∈ e.answer r) :
    e.autoComplete = true := by
  unfold Endpoint.answer at h
  split at h
  · cases hauto : e.autoComplete <;> simp [hauto] at h ⊢
  · contradiction

/-- A beat adds completions to what waits, if it does anything about it. -/
theorem accept_outbound (e : Endpoint) (beat : Beat) : ∃ answers : List Record,
    (e.accept beat).1.outbound = e.outbound ++ answers.flatMap Record.toBeats ∧
      ∀ r ∈ answers, e.autoComplete = true ∧ 3 < r.toDwords.length ∧ r.toDwords.length ≤ 1027 := by
  unfold accept
  simp only
  split
  · cases Record.ofBeats (e.inbound.push beat).toList with
    | error fault => exact ⟨[], (List.append_nil _).symm, List.forall_mem_nil _⟩
    | ok r =>
        let e' : Endpoint := { e with inbound := #[] }
        obtain ⟨hhandle, hanswer⟩ := e'.handle_eq r
        refine ⟨e'.answer r, ?_, fun c hc => ?_⟩
        · show (e'.handle r).outbound = _
          rw [hhandle, ← hanswer]
          rfl
        · have hauto : e'.autoComplete = true := autoComplete_of_mem_answer hc
          have hmem : c ∈ e'.completions [r] := List.mem_append_left _ hc
          exact ⟨hauto, length_toDwords_of_mem_completions hmem⟩
  · exact ⟨[], (List.append_nil _).symm, List.forall_mem_nil _⟩

/-- **A tick sends of what waits, and adds completions to it.** -/
theorem tick_outbound (e : Endpoint) (input : Option Beat) (vector : Option UInt8) (ready : Bool) :
    let t := e.tick input vector ready
    ∃ answers : List Record,
      t.sent.toList ++ t.next.outbound = e.outbound ++ answers.flatMap Record.toBeats ∧
        ∀ r ∈ answers, e.autoComplete = true ∧
          3 < r.toDwords.length ∧ r.toDwords.length ≤ 1027 := by
  intro t
  let sent := if ready then e.outbound.head? else none
  let e' : Endpoint := { e with outbound := e.outbound.drop sent.toList.length }
  have hsent : sent.toList ++ e'.outbound = e.outbound := by
    show sent.toList ++ e.outbound.drop sent.toList.length = e.outbound
    cases ready with
    | false => rfl
    | true => cases hout : e.outbound <;> simp [sent, hout]
  cases input with
  | none =>
      have hnext : t.next.outbound = e'.outbound := by cases vector <;> rfl
      refine ⟨[], ?_, List.forall_mem_nil _⟩
      rw [hnext]
      exact hsent.trans (List.append_nil _).symm
  | some beat =>
      have hnext : t.next.outbound = (e'.accept beat).1.outbound := by cases vector <;> rfl
      obtain ⟨answers, hmore, hlengths⟩ := e'.accept_outbound beat
      refine ⟨answers, ?_, hlengths⟩
      rw [hnext, hmore, ← List.append_assoc]
      exact congrArg (· ++ _) hsent

/-- The beats of a TLP are collected up to its end. -/
theorem absorbing_collect (e : Endpoint) {beats : List Beat} (h : beats.countP (·.last) = 0) :
    absorbing.after e.bare beats = { e.bare with inbound := e.inbound ++ beats.toArray } ∧
      absorbing.answers e.bare beats = [] := by
  induction beats generalizing e with
  | nil => exact ⟨by simp [bare], rfl⟩
  | cons b rest ih =>
      have hlast : ¬ b.last = true := by
        intro hlast
        rw [List.countP_cons_of_pos hlast] at h
        omega
      rw [List.countP_cons_of_neg hlast] at h
      let e' : Endpoint := { e with inbound := e.inbound.push b }
      have hstep : absorbing.step e.bare b = (e'.bare, []) := by
        simp only [absorbing, accept, if_neg hlast]
        rfl
      obtain ⟨hafter, hanswers⟩ := ih e' h
      rw [Transducer.after, Transducer.answers, hstep, hafter, hanswers]
      refine ⟨?_, rfl⟩
      simp [e', bare]

/-- Dwords are stored in the memory. -/
theorem writeBlock_eq_memory (e : Endpoint) (address : UInt32) (ws : List Word) :
    e.writeBlock address ws = { e with memory := (e.writeBlock address ws).memory } := by
  induction ws generalizing e address with
  | nil => rfl
  | cons w rest ih => exact ih (e.writeMemory address w) (address + 4)

/-- Handling a TLP keeps it, and leaves the beats of the next one alone. -/
theorem handle_spec (e : Endpoint) (r : Record) :
    (e.handle r).inbound = e.inbound ∧ (e.handle r).received = record e.received r := by
  have hperform : (e.perform r).inbound = e.inbound ∧ (e.perform r).received = e.received := by
    unfold perform
    split
    · rw [writeBlock_eq_memory]
      exact ⟨rfl, rfl⟩
    · split <;> exact ⟨rfl, rfl⟩
    · exact ⟨rfl, rfl⟩
  exact ⟨hperform.1, congrArg (record · r) hperform.2⟩

/-- The beats of a TLP are handled when they are complete. -/
theorem absorbing_whole (e : Endpoint) (hidle : e.inbound = #[]) {tlp : List Beat}
    (h : Beat.Whole tlp) :
    absorbing.after e.bare tlp = ((Record.ofBeats tlp).toOption.toList.foldl handle e).bare ∧
      absorbing.answers e.bare tlp =
        (e.completions (Record.ofBeats tlp).toOption.toList).flatMap Record.toBeats := by
  obtain ⟨init, final, rfl, hinit, hfinal⟩ := h
  obtain ⟨hafter, hanswers⟩ := e.absorbing_collect hinit
  have hclear : ({ e.bare with inbound := #[] } : Endpoint) = e.bare := by
    rw [← hidle]
    rfl
  have hlist : ((e.inbound ++ init.toArray).push final).toList = init ++ [final] := by
    rw [hidle]
    simp
  rw [Transducer.after_concat, Transducer.answers_concat, hafter, hanswers]
  cases hread : Record.ofBeats (init ++ [final]) with
  | error fault =>
      have hstep : absorbing.step { e.bare with inbound := e.inbound ++ init.toArray } final =
          (e.bare, []) := by
        simp only [absorbing, accept, if_pos hfinal, hlist, hclear, hread]
        rfl
      rw [hstep]
      exact ⟨rfl, rfl⟩
  | ok r =>
      have hstep : absorbing.step { e.bare with inbound := e.inbound ++ init.toArray } final =
          ((e.bare.handle r).bare, (e.bare.handle r).outbound) := by
        simp only [absorbing, accept, if_pos hfinal, hlist, hclear, hread]
      rw [hstep]
      refine ⟨(e.bare_handle r).symm, ?_⟩
      simp [Except.toOption, completions, (e.handle_eq r).2]

/-- **TLPs are handled one after the other.** -/
theorem absorbing_wholes (e : Endpoint) (hidle : e.inbound = #[]) {tlps : List (List Beat)}
    (h : ∀ tlp ∈ tlps, Beat.Whole tlp) :
    absorbing.after e.bare tlps.flatten =
        ((handled (tlps.map Record.ofBeats)).foldl handle e).bare ∧
      absorbing.answers e.bare tlps.flatten =
        (e.completions (handled (tlps.map Record.ofBeats))).flatMap Record.toBeats := by
  induction tlps generalizing e with
  | nil => exact ⟨rfl, rfl⟩
  | cons tlp tlps ih =>
      obtain ⟨htlp, htlps⟩ := List.forall_mem_cons.mp h
      obtain ⟨hafter, hanswers⟩ := e.absorbing_whole hidle htlp
      have hidle' : ((Record.ofBeats tlp).toOption.toList.foldl handle e).inbound = #[] := by
        cases Record.ofBeats tlp with
        | error fault => exact hidle
        | ok r => exact (e.handle_spec r).1.trans hidle
      obtain ⟨hafter', hanswers'⟩ := ih _ hidle' htlps
      rw [List.flatten_cons, Transducer.after_append, Transducer.answers_append, hafter, hanswers,
        hafter', hanswers', List.map_cons, handled_cons, List.foldl_append, completions_append,
        List.flatMap_append]
      exact ⟨rfl, rfl⟩

/-- So are the beats of dwords. -/
theorem absorbing_tlps (e : Endpoint) (hidle : e.inbound = #[]) {tlps : List (List Word)}
    (hne : ∀ ws ∈ tlps, ws ≠ []) :
    absorbing.after e.bare (tlps.flatMap Beat.ofDwords) = ((records tlps).foldl handle e).bare ∧
      absorbing.answers e.bare (tlps.flatMap Beat.ofDwords) =
        (e.completions (records tlps)).flatMap Record.toBeats := by
  have hwhole : ∀ tlp ∈ tlps.map Beat.ofDwords, Beat.Whole tlp := by
    intro tlp htlp
    obtain ⟨ws, hws, rfl⟩ := List.mem_map.mp htlp
    exact Beat.whole_ofDwords (hne ws hws)
  have hread : (tlps.map Beat.ofDwords).map Record.ofBeats = tlps.map Record.ofDwords := by
    simp [Function.comp_def, Record.ofBeats, Beat.flatMap_dwords_ofDwords]
  have hall := e.absorbing_wholes hidle hwhole
  rwa [hread, ← records_eq] at hall

/-! ## TLPs that arrive -/

/-- The TLP that a beat ends, as far as it can be read. -/
def arriving (e : Endpoint) (input : Option Beat) : List (Except Fault Record) :=
  match input with
  | some beat => if beat.last then [Record.ofBeats (e.inbound.push beat).toList] else []
  | none => []

theorem length_arriving (e : Endpoint) (input : Option Beat) :
    (e.arriving input).length = input.toList.countP (·.last) := by
  cases input with
  | none => rfl
  | some beat => cases hlast : beat.last <;> simp [arriving, hlast]

/-- How many TLPs cannot be read. -/
def malformed (tlps : List (Except Fault Record)) : Nat :=
  tlps.countP (!·.isOk)

/-- A TLP can be read or it cannot. -/
theorem malformed_add_handled (tlps : List (Except Fault Record)) :
    malformed tlps + (handled tlps).length = tlps.length := by
  induction tlps with
  | nil => rfl
  | cons tlp rest ih =>
      rw [malformed, handled] at ih ⊢
      rw [List.countP_cons, List.filterMap_cons, List.length_cons, ← ih]
      cases tlp with
      | ok r => rfl
      | error fault => exact Nat.succ_add ..

/-- **The endpoint keeps the TLPs that it can read.** -/
theorem tick_received (e : Endpoint) (input : Option Beat) (vector : Option UInt8) (ready : Bool) :
    (e.tick input vector ready).next.received =
      (handled (e.arriving input)).foldl record e.received := by
  have haccept (e : Endpoint) (beat : Beat) : (e.accept beat).1.received =
      (handled (e.arriving (some beat))).foldl record e.received := by
    unfold accept arriving
    by_cases hlast : beat.last = true
    · simp only [if_pos hlast]
      cases Record.ofBeats (e.inbound.push beat).toList with
      | ok r => exact (handle_spec _ r).2
      | error fault => rfl
    · simp only [if_neg hlast]
      rfl
  cases input with
  | none => cases vector <;> rfl
  | some beat => cases vector <;> exact haccept _ beat

end LinkBridge.Tlp.Endpoint

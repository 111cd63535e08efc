import LinkBridge.Proofs.Crossbar.Traffic

/-!
# LinkBridge.Proofs.Crossbar.Rounds

Fairness of the rounds in which ports are granted the outbound stream. A port that presents a beat is
looked at behind some number of others in the next round (`Waiting`), and nothing but the grant takes
its beat away. Every grant to another port goes to one that is looked at earlier, and the next round
starts behind that one, so the number shrinks with every grant (`Waiting.chooseGrant`).

Main statement: fewer ports are granted before a waiting port than there are ports
(`ports_granted_in_turn`).
-/

namespace LinkBridge

namespace Crossbar

variable {x x' x'' : Crossbar} {tag : UInt8} {k : Nat}

/-! ## rounds -/

/-- A round starts at the turn and goes round once. -/
theorem getElem?_rotation (hk : k < x.ports.length) :
    x.rotation[k]? = x.ports[(x.turn + k) % x.ports.length]?.map
      (·, (x.turn + k) % x.ports.length) := by
  rw [rotation_eq_rotate, List.getElem?_rotate (by simpa using hk), List.length_zipIdx,
    List.getElem?_zipIdx, Nat.add_comm k, Nat.zero_add]

/-- The port that a tick grants the outbound stream. -/
def granting (x : Crossbar) : Option UInt8 :=
  if x.grant.isSome then none else x.chooseGrant.1.grant

/-- Grants are counted. -/
theorem packetsArbitrated_tick (x : Crossbar) (input : Option PacketBeat) (ready : Bool) :
    (x.tick input ready).counted.packetsArbitrated = x.granting.toList.length := by
  have hdispatch (x : Crossbar) : (x.dispatch input).counted.packetsArbitrated = 0 := by
    unfold dispatch chooseRoute
    simp only
    repeat' split
    all_goals rfl
  show x.chooseGrant.2.packetsArbitrated + _ = _
  rw [hdispatch, Nat.add_zero, granting, chooseGrant]
  cases hgrant : x.grant with
  | some owner => rfl
  | none => cases x.rotation.find? (·.1.sink.peek.isSome) <;> simp [hgrant]

/-! ## what waits -/

/-- Whether the port at a position belongs to a destination and presents a beat. -/
def Offers (x : Crossbar) (i : Nat) (tag : UInt8) : Prop :=
  ∃ p, x.ports[i]? = some p ∧ p.tag = tag ∧ p.sink.peek.isSome = true

/-- A port that presents a beat, does not hold the grant, and is looked at behind `k` others in the
next round. -/
structure Waiting (x : Crossbar) (tag : UInt8) (k : Nat) : Prop where
  lt : k < x.ports.length
  offers : x.Offers ((x.turn + k) % x.ports.length) tag
  ungranted : x.grant ≠ some tag

/-- Going round once from anywhere leads everywhere. -/
theorem exists_add_mod_eq (turn : Nat) {i n : Nat} (hi : i < n) : ∃ k < n, (turn + k) % n = i := by
  have hturn : turn % n < n := Nat.mod_lt turn (Nat.zero_lt_of_lt hi)
  have hround : turn % n + (i + (n - turn % n)) = i + n := by omega
  refine ⟨(i + (n - turn % n)) % n, Nat.mod_lt _ (Nat.zero_lt_of_lt hi), ?_⟩
  rw [Nat.add_mod_mod, ← Nat.mod_add_mod, hround, Nat.add_mod_right, Nat.mod_eq_of_lt hi]

/-- Every port that presents a beat is looked at in the next round. -/
theorem exists_waiting {p : Port} (hport : x.port? tag = some p)
    (hpeek : p.sink.peek.isSome = true) (hgrant : x.grant ≠ some tag) : ∃ k, x.Waiting tag k := by
  obtain ⟨i, hi⟩ := List.mem_iff_getElem?.mp (List.mem_of_find?_eq_some hport)
  obtain ⟨hlt, -⟩ := List.getElem?_eq_some_iff.mp hi
  obtain ⟨k, hk, hturn⟩ := exists_add_mod_eq x.turn hlt
  exact ⟨k, hk, hturn ▸ ⟨p, hi, tag_of_port? hport, hpeek⟩, hgrant⟩

/-- Whether a step keeps the turn and what the port of a destination presents. -/
structure Spares (tag : UInt8) (x x' : Crossbar) : Prop where
  turn : x'.turn = x.turn
  ports : ∃ f : Port → Port, x'.ports = x.ports.map f ∧ ∀ p, p.tag = tag →
    p.sink.peek.isSome = true → (f p).tag = tag ∧ (f p).sink.peek.isSome = true

theorem Spares.trans (h : Spares tag x x') (h' : Spares tag x' x'') : Spares tag x x'' := by
  obtain ⟨hturn, f, hports, hf⟩ := h
  obtain ⟨hturn', f', hports', hf'⟩ := h'
  refine ⟨hturn'.trans hturn, f' ∘ f, by rw [hports', hports, List.map_map], fun p htag hpeek => ?_⟩
  obtain ⟨htag', hpeek'⟩ := hf p htag hpeek
  exact hf' _ htag' hpeek'

theorem spares_of_ports (hturn : x'.turn = x.turn) (hports : x'.ports = x.ports) :
    Spares tag x x' :=
  ⟨hturn, id, by rw [hports, List.map_id], fun _ htag hpeek => ⟨htag, hpeek⟩⟩

theorem spares_modifyPort (t : UInt8) {f : Port → Port} (htag : ∀ p, (f p).tag = p.tag)
    (hpeek : t ≠ tag ∨ ∀ p, p.sink.peek.isSome = true → (f p).sink.peek.isSome = true) :
    Spares tag x (x.modifyPort t f) := by
  refine ⟨rfl, _, rfl, fun p hp hpeek' => ?_⟩
  split
  · next ht =>
    refine ⟨(htag p).trans hp, ?_⟩
    rcases hpeek with hne | hpeek
    · exact absurd ((beq_iff_eq.mp ht).symm.trans hp) hne
    · exact hpeek p hpeek'
  · exact ⟨hp, hpeek'⟩

theorem spares_take (x : Crossbar) {owner : UInt8} (hne : owner ≠ tag) :
    Spares tag x (x.modifyPort owner fun p => { p with sink := p.sink.take }) :=
  spares_modifyPort (f := fun p => { p with sink := p.sink.take }) owner (fun _ => rfl) (.inl hne)

theorem spares_deliver (x : Crossbar) (t : UInt8) (beat : PacketBeat) :
    Spares tag x (x.modifyPort t fun p => { p with source := p.source.push beat }) :=
  spares_modifyPort (f := fun p => { p with source := p.source.push beat }) t (fun _ => rfl)
    (.inr fun _ hpeek => hpeek)

theorem spares_commit (x : Crossbar) : Spares tag x x.commit := by
  refine ⟨rfl, Port.commit, rfl, fun p hp hpeek => ⟨hp, ?_⟩⟩
  have hne : p.sink.queue ≠ [] := by
    rintro hnil
    simp [Channel.peek, hnil] at hpeek
  simp [Port.commit, Channel.commit, Channel.peek, hne]

/-- Without the grant no beat of a port is sent. -/
theorem spares_sendGranted (hgrant : x.grant ≠ some tag) (ready : Bool) :
    Spares tag x (x.sendGranted ready).next ∧ (x.sendGranted ready).next.grant ≠ some tag := by
  unfold sendGranted
  cases howner : x.grant with
  | none => exact ⟨spares_of_ports rfl rfl, by simp [howner]⟩
  | some owner =>
      have hne : owner ≠ tag := fun heq => hgrant (heq ▸ howner)
      simp only
      split
      · exact ⟨spares_of_ports rfl rfl, nofun⟩
      · split
        · exact ⟨spares_of_ports rfl rfl, hgrant⟩
        · split
          · refine ⟨(x.spares_take hne).trans (spares_of_ports rfl rfl), ?_⟩
            simp only
            split
            · exact nofun
            · exact fun heq => hne (Option.some.inj heq)
          · exact ⟨spares_of_ports rfl rfl, hgrant⟩

theorem spares_dispatch (x : Crossbar) (input : Option PacketBeat) :
    Spares tag x (x.dispatch input).next := by
  cases input with
  | none => exact spares_of_ports rfl rfl
  | some beat =>
      have hchosen : Spares tag x (x.chooseRoute beat).1 := by
        unfold chooseRoute
        repeat' split
        all_goals exact spares_of_ports rfl rfl
      refine hchosen.trans ?_
      show Spares tag (x.chooseRoute beat).1 ((x.chooseRoute beat).1.deliver beat).next
      generalize (x.chooseRoute beat).1 = x
      unfold deliver
      repeat' split
      all_goals first
        | exact spares_of_ports rfl rfl
        | exact (x.spares_deliver _ beat).trans (spares_of_ports rfl rfl)

/-- A port that is spared goes on waiting. -/
theorem Waiting.of_spares (h : x.Waiting tag k) (hspares : Spares tag x x')
    (hgrant : x'.grant ≠ some tag) : x'.Waiting tag k := by
  obtain ⟨hturn, f, hports, hf⟩ := hspares
  have hlength : x'.ports.length = x.ports.length := by rw [hports, List.length_map]
  obtain ⟨p, hp, htag, hpeek⟩ := h.offers
  obtain ⟨htag', hpeek'⟩ := hf p htag hpeek
  refine ⟨by rw [hlength]; exact h.lt, ⟨f p, ?_, htag', hpeek'⟩, hgrant⟩
  rw [hturn, hlength, hports, List.getElem?_map, hp, Option.map_some]

/-! ## one round -/

/-- Where a port waits, a round looks at it behind `k` others. -/
theorem Waiting.exists_rotation (h : x.Waiting tag k) : ∃ (p : Port) (i : Nat),
    x.rotation[k]? = some (p, i) ∧ p.tag = tag ∧ p.sink.peek.isSome = true := by
  obtain ⟨p, hp, htag, hpeek⟩ := h.offers
  exact ⟨p, _, by rw [getElem?_rotation h.lt, hp, Option.map_some], htag, hpeek⟩

/-- A round that finds another port finds it before the waiting one. -/
theorem Waiting.exists_lt (h : x.Waiting tag k) {q : Port} {i : Nat}
    (hfind : x.rotation.find? (·.1.sink.peek.isSome) = some (q, i)) (hq : q.tag ≠ tag) :
    ∃ j < k, i = (x.turn + j) % x.ports.length := by
  obtain ⟨p, i', hmine, htag, hpeek⟩ := h.exists_rotation
  obtain ⟨hk, hk'⟩ := List.getElem?_eq_some_iff.mp hmine
  obtain ⟨-, j, hj, hfound, hearlier⟩ := List.find?_eq_some_iff_getElem.mp hfind
  have hjk : j < k := by
    rcases Nat.lt_trichotomy j k with hlt | heq | hgt
    · exact hlt
    · subst heq
      rw [hk'] at hfound
      exact absurd ((congrArg (fun s => s.1.tag) hfound).symm.trans htag) hq
    · have hmissed := hearlier k hgt
      rw [hk'] at hmissed
      simp [hpeek] at hmissed
  have hother := getElem?_rotation (hjk.trans h.lt)
  rw [List.getElem?_eq_getElem hj, hfound] at hother
  obtain ⟨r, -, hr⟩ := Option.map_eq_some_iff.mp hother.symm
  exact ⟨j, hjk, (congrArg Prod.snd hr).symm⟩

/-- **A port that is granted before a waiting one is looked at before it**, and the next round starts
behind it. -/
theorem Waiting.chooseGrant (h : x.Waiting tag k) :
    (x.grant ≠ none ∧ x.granting = none ∧ x.chooseGrant.1.Waiting tag k) ∨
      x.granting = some tag ∨ ∃ other k', other ≠ tag ∧ k' < k ∧ x.granting = some other ∧
        x.chooseGrant.1.Waiting tag k' := by
  unfold granting Crossbar.chooseGrant
  cases hgrant : x.grant with
  | some owner => exact .inl ⟨nofun, rfl, h.lt, h.offers, h.ungranted⟩
  | none =>
      refine .inr ?_
      cases hfind : x.rotation.find? (·.1.sink.peek.isSome) with
      | none =>
          obtain ⟨p, i, hmine, -, hpeek⟩ := h.exists_rotation
          exact absurd hpeek (List.find?_eq_none.mp hfind _ (List.mem_of_getElem? hmine))
      | some s =>
          obtain ⟨q, i⟩ := s
          simp only [Option.isSome_none, Bool.false_eq_true, if_false]
          by_cases hq : q.tag = tag
          · exact .inl (congrArg some hq)
          · obtain ⟨j, hjk, hi⟩ := h.exists_lt hfind hq
            have hlt := h.lt
            have hturn : (i + 1 + (k - j - 1)) % x.ports.length =
                (x.turn + k) % x.ports.length := by
              rw [hi, Nat.add_assoc, Nat.mod_add_mod]
              congr 1
              omega
            refine .inr ⟨q.tag, k - j - 1, hq, by omega, rfl, ⟨?_, ?_, ?_⟩⟩
            · show k - j - 1 < x.ports.length
              omega
            · show x.Offers ((i + 1 + (k - j - 1)) % x.ports.length) tag
              exact hturn ▸ h.offers
            · exact fun heq => hq (Option.some.inj heq)

/-- The rest of a tick leaves a waiting port alone. -/
theorem Waiting.tick (h : x.chooseGrant.1.Waiting tag k) (input : Option PacketBeat)
    (ready : Bool) : (x.tick input ready).next.Waiting tag k := by
  obtain ⟨hsent, hkept⟩ := spares_sendGranted h.ungranted ready
  refine (h.of_spares hsent hkept).of_spares (spares_dispatch _ input) ?_
  have hgrant : (x.tick input ready).next.grant =
      (x.chooseGrant.1.sendGranted ready).next.grant := (dispatch_routes _ input).grant
  rwa [hgrant]

/-! ## runs -/

@[simp] theorem tags_tick (x : Crossbar) (input : Option PacketBeat) (ready : Bool) :
    (x.tick input ready).next.tags = x.tags := by
  have hchosen : x.chooseGrant.1.tags = x.tags := by
    unfold chooseGrant
    repeat' split
    all_goals rfl
  have hsent (x : Crossbar) : (x.sendGranted ready).next.tags = x.tags := by
    unfold sendGranted
    repeat' split
    all_goals first
      | rfl
      | exact x.tags_modifyPort (f := fun p => { p with sink := p.sink.take }) _ fun _ => rfl
  exact (dispatch_routes _ input).tags.trans ((hsent _).trans hchosen)

namespace History

variable {h : History}

/-- The port that an event grants the outbound stream. -/
def granted (h : History) : Event → List UInt8
  | .tick .. => h.now.granting.toList
  | _ => []

/-- The ports that are granted the outbound stream, one for every grant, in order. -/
def grants (h : History) : List Event → List UInt8
  | [] => []
  | event :: events => h.granted event ++ (h.move event).grants events

theorem packetsArbitrated_play (h : History) (events : List Event) :
    (h.play events).counted.packetsArbitrated =
      h.counted.packetsArbitrated + (h.grants events).length := by
  induction events generalizing h with
  | nil => rfl
  | cons event events ih =>
      have hmove : (h.move event).counted.packetsArbitrated =
          h.counted.packetsArbitrated + (h.granted event).length := by
        cases event with
        | tick presented ready =>
            exact congrArg (h.counted.packetsArbitrated + ·)
              (packetsArbitrated_tick h.now (h.input presented) ready)
        | push | take | commit => rfl
      show ((h.move event).play events).counted.packetsArbitrated = _
      rw [ih, hmove, grants, List.length_append, Nat.add_assoc]

/-- Nothing changes which ports are registered. -/
theorem tags_play (h : History) (events : List Event) : (h.play events).now.tags = h.now.tags := by
  induction events generalizing h with
  | nil => rfl
  | cons event events ih =>
      refine (ih (h.move event)).trans ?_
      cases event with
      | tick presented ready => exact tags_tick ..
      | push tag beat => exact tags_pushTo ..
      | take tag => exact tags_takeFrom ..
      | commit => exact tags_commit _

/-- What users do, and the end of a tick, leave a waiting port alone. -/
theorem waiting_of_user (hwaiting : h.now.Waiting tag k) {event : Event}
    (hevent : ∀ presented ready, event ≠ .tick presented ready) :
    (h.move event).now.Waiting tag k := by
  cases event with
  | tick presented ready => exact absurd rfl (hevent presented ready)
  | push t beat =>
      refine hwaiting.of_spares (spares_modifyPort t (fun _ => rfl) (.inr fun p hpeek => ?_))
        hwaiting.ungranted
      rwa [p.sink.peek_push]
  | take t =>
      exact hwaiting.of_spares (spares_modifyPort t (fun _ => rfl) (.inr fun _ hpeek => hpeek))
        hwaiting.ungranted
  | commit => exact hwaiting.of_spares (spares_commit h.now) hwaiting.ungranted

/-- **Before a waiting port no more ports are granted than are looked at before it.** -/
theorem takeWhile_grants_le (hwaiting : h.now.Waiting tag k) (events : List Event) :
    ((h.grants events).takeWhile (· != tag)).length ≤ k := by
  induction events generalizing h k with
  | nil => exact Nat.zero_le k
  | cons event events ih =>
      cases event with
      | tick presented ready =>
          have hgrants : h.grants (.tick presented ready :: events) =
              h.now.granting.toList ++ (h.move (.tick presented ready)).grants events := rfl
          rw [hgrants]
          obtain ⟨-, hnone, hchosen⟩ | hmine | ⟨other, k', hother, hlt, hgranting, hchosen⟩ :=
            hwaiting.chooseGrant
          · rw [hnone]
            exact ih (h := h.move (.tick presented ready)) (hchosen.tick _ ready)
          · simp [hmine]
          · have hrest := ih (h := h.move (.tick presented ready)) (hchosen.tick _ ready)
            rw [hgranting, Option.toList_some, List.singleton_append,
              List.takeWhile_cons_of_pos (by simpa using hother), List.length_cons]
            omega
      | push | take | commit => exact ih (waiting_of_user hwaiting nofun)

/-- **Ports are granted in turn.** From any moment at which a port presents a beat without the grant,
whatever the schedule: of all the grants that follow, fewer than there are ports go to others before
the port is granted. A tick that finds the stream free grants some port, and every grant is
counted. -/
theorem ports_granted_in_turn (depth : Nat) (tags : List UInt8) {x : Crossbar}
    (hregister : tags.foldlM register { depth } = .ok x) (stream : List PacketBeat)
    (before events : List Event) :
    let h := (start x.close stream).play before
    ∀ tag p, h.now.port? tag = some p → p.sink.peek.isSome = true → h.now.grant ≠ some tag →
      ((h.grants events).takeWhile (· != tag)).length ≤ tags.length - 1 ∧
      (h.now.grant = none → ∀ presented ready, ∃ other,
        h.grants [.tick presented ready] = [other]) ∧
      (h.play events).counted.packetsArbitrated =
        h.counted.packetsArbitrated + (h.grants events).length := by
  intro h tag p hport hpeek hgrant
  obtain ⟨k, hwaiting⟩ := exists_waiting hport hpeek hgrant
  have htags : h.now.tags = tags := by
    rw [tags_play, ports_of_register hregister]
    simp [start, close, Crossbar.tags, Port.empty, Function.comp_def]
  have hlength : h.now.ports.length = tags.length := by
    rw [← htags, Crossbar.tags, List.length_map]
  refine ⟨?_, fun hfree presented ready => ?_, packetsArbitrated_play h events⟩
  · have hle := takeWhile_grants_le hwaiting events
    have hlt := hwaiting.lt
    omega
  · have hgrants : h.grants [.tick presented ready] = h.now.granting.toList := List.append_nil _
    rw [hgrants]
    obtain ⟨hheld, -⟩ | hmine | ⟨other, -, -, -, hgranting, -⟩ := hwaiting.chooseGrant
    · exact absurd hfree hheld
    · exact ⟨tag, congrArg Option.toList hmine⟩
    · exact ⟨other, congrArg Option.toList hgranting⟩

/-- The last of three ports that all present a packet; the first has another one at once. -/
theorem ports_granted_in_turn_last :
    let x : Crossbar := { depth := 1, ports := [.empty 0 1, .empty 1 1, .empty 2 1] }
    let whole : PacketBeat := { last := true }
    let h := (start x.close []).play [.push 0 whole, .push 1 whole, .push 2 whole, .commit]
    let events : List Event := [.tick false true, .commit, .push 0 whole, .commit,
      .tick false true, .tick false true, .tick false true]
    h.grants events = [0, 1, 2, 0] ∧ h.now.grant ≠ some 2 ∧
      ((h.grants events).takeWhile (· != 2)).length ≤ [0, 1, 2].length - 1 := by
  intro x whole h events
  have hregister : [0, 1, 2].foldlM register { depth := 1 } = .ok x := rfl
  have hturn := ports_granted_in_turn 1 [0, 1, 2] hregister []
    [.push 0 whole, .push 1 whole, .push 2 whole, .commit] events 2
    { tag := 2, sink := { capacity := 1, queue := [whole] }, source := .empty 1 }
    (by decide) rfl (by decide)
  exact ⟨by decide, by decide, hturn.1⟩

end History

end Crossbar

end LinkBridge

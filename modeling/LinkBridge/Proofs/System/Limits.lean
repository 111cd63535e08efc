import LinkBridge.Proofs.System.Delivery

/-!
# LinkBridge.Proofs.System.Limits

The limits of the default configuration. Three dwords of a TLP are its header, so a packet of at most
1024 words carries at most 1021 data dwords, and so does a completion of at most 512 beats. TLPs can
have up to 1024 data dwords: the few that are longer are dropped and counted, and all others get
through (`tlp_gets_through`, `not_getsThrough`).
-/

namespace LinkBridge

open Tlp (Record Request Header)

namespace Bridge

/-! ## completions -/

section

variable {b : Bridge} {r : Record}

/-- A memory read that is passed on has one completion. -/
theorem completions_of_memRead (hauto : b.core.endpoint.autoComplete = true)
    (hpassed : b.passed r = [r]) {request : Request} (hread : r.header = .memRead request) :
    b.completions r = [b.core.endpoint.completionFor request] := by
  simp [completions, hpassed, Tlp.Endpoint.completions, Tlp.Endpoint.answer, hread, hauto]

/-- Other TLPs have none. -/
theorem completions_of_ne (hother : ∀ request, r.header ≠ .memRead request) :
    b.completions r = [] := by
  have hanswer : b.core.endpoint.answer r = [] := by
    unfold Tlp.Endpoint.answer
    split
    · next request hread => exact absurd hread (hother request)
    · rfl
  unfold completions passed
  split <;> simp [Tlp.Endpoint.completions, hanswer]

/-- A completion is stored if its dwords, two to a beat, do not exceed the depth. -/
theorem stores_completionFor (request : Request) :
    b.stores (b.core.endpoint.completionFor request) =
      decide ((Header.size + Header.dwordCount request.length + 1) / 2 ≤ b.core.serializer.depth) := by
  rw [stores, Record.toBeats, Tlp.Beat.length_ofDwords, Record.toDwords, List.length_append,
    Header.length_encode, Tlp.Endpoint.length_completionFor]

end

/-! ## the default limits -/

/-- The host of the bridge of the default configuration sends a TLP and is served for `n` ticks. -/
def sending (r : Record) (n : Nat) : Trace :=
  Trace.serve^[n] (Trace.fed (assemble {} defaultLayout)
    (Frame.ofPacket { dst := 1, payload := r.toDwords }))

/-- Whether a TLP got through: the endpoint has kept it, nothing was dropped, and for a memory read
the host has received one frame, with a completion that has all dwords requested. -/
structure GotThrough (r : Record) (t : Trace) : Prop where
  received : t.bridge.core.endpoint.received = [r]
  dropped : t.bridge.counters.dropped = 0
  completion (request : Request) : r.header = .memRead request →
    ∃ (payload : List Word) (c : Tlp.Completion) (data : List Word),
      t.hostWords = Frame.ofPacket { dst := 1, payload } ∧
      Record.ofDwords payload = .ok { header := .completionWithData c, data } ∧
      c.requester = request.requester ∧ c.tag = request.tag ∧ c.status = 0 ∧
      data.length = Header.dwordCount request.length ∧
      data = (assemble {} defaultLayout).core.endpoint.readBlock request.address
        (Header.dwordCount request.length)

section

variable {r : Record} {n : Nat}

theorem delivers_sending (hr : Record.ofDwords r.toDwords = .ok r)
    (hidle : (sending r n).bridge.isIdle = true) :
    (assemble {} defaultLayout).Delivers r (sending r n) := by
  obtain ⟨hne, hlong⟩ := Record.toDwords_bounds hr
  have hroom : (Frame.ofPacket ((assemble {} defaultLayout).packetOf r)).length ≤
      (assemble {} defaultLayout).host.free := by
    have hwords : ((assemble {} defaultLayout).packetOf r).words = r.toDwords :=
      Packet.words_of_ne_nil hne
    have hfree : (assemble {} defaultLayout).host.free = 4096 := rfl
    rw [Frame.length_ofPacket, hwords, hfree]
    omega
  have hb : ofConfig {} = .ok (assemble {} defaultLayout) := rfl
  exact delivers_iterate_serve hb (by decide) (by decide) hr hroom n hidle

/-- In the end nothing is under way. -/
theorem eventually_idle_sending (r : Record) :
    ∃ N, ∀ n, N ≤ n → (sending r n).bridge.isIdle = true := by
  have hb : ofConfig {} = .ok (assemble {} defaultLayout) := rfl
  have hlive := (live_ofConfig hb (by decide)).meet
    (.write (Frame.ofPacket { dst := 1, payload := r.toDwords })) (by simp)
  obtain ⟨N, hidle⟩ := hlive.eventually_idle rfl
  refine ⟨N, fun n hn => ?_⟩
  rw [sending, Trace.bridge_iterate_serve]
  exact hidle n hn

/-- 512 beats hold a completion with 1021 dwords. -/
theorem stores_default (request : Request) :
    (assemble {} defaultLayout).stores
        ((assemble {} defaultLayout).core.endpoint.completionFor request) =
      decide (Header.dwordCount request.length ≤ 1021) := by
  have hsize : Header.size = 3 := rfl
  have hdepth : (assemble {} defaultLayout).core.serializer.depth = 512 := rfl
  rw [stores_completionFor, hsize, hdepth, decide_eq_decide]
  omega

/-- A TLP within both limits gets through. -/
theorem gotThrough_sending (hr : Record.ofDwords r.toDwords = .ok r)
    (hidle : (sending r n).bridge.isIdle = true) (hlength : r.toDwords.length ≤ 1024)
    (hread : ∀ request, r.header = .memRead request → Header.dwordCount request.length ≤ 1021) :
    GotThrough r (sending r n) := by
  have hdelivers := delivers_sending hr hidle
  have hpassed : (assemble {} defaultLayout).passed r = [r] := if_pos hlength
  have hstores (request : Request) (hrequest : r.header = .memRead request) :
      (assemble {} defaultLayout).stores
        ((assemble {} defaultLayout).core.endpoint.completionFor request) = true :=
    (stores_default request).trans (decide_eq_true (hread request hrequest))
  refine ⟨hdelivers.received.trans hpassed, ?_, fun request hrequest => ?_⟩
  · rw [hdelivers.dropped, hpassed]
    by_cases hother : ∀ request, r.header ≠ .memRead request
    · rw [completions_of_ne hother]
      rfl
    · obtain ⟨request, hrequest⟩ := not_forall_not.mp hother
      rw [completions_of_memRead rfl hpassed hrequest, List.countP_singleton, hstores _ hrequest]
      rfl
  · have hfits : request.Fits := by
      have hheader := (Record.fits_of_ofDwords hr).1
      rw [hrequest] at hheader
      exact hheader
    have hcompletion := Tlp.Endpoint.ofDwords_completionFor
      (assemble {} defaultLayout).core.endpoint hfits
    refine ⟨_, _, _, ?_, hcompletion, rfl, rfl, rfl, Tlp.Endpoint.length_readBlock .., rfl⟩
    rw [hdelivers.hostWords, completions_of_memRead rfl hpassed hrequest,
      List.filter_cons_of_pos (hstores _ hrequest), List.filter_nil, List.flatMap_singleton]
    rfl

/-- A TLP that is too long for a frame is dropped. -/
theorem oversize_sending (hr : Record.ofDwords r.toDwords = .ok r)
    (hidle : (sending r n).bridge.isIdle = true) (hlength : 1024 < r.toDwords.length) :
    (sending r n).bridge.core.endpoint.received = [] ∧ (sending r n).hostWords = [] ∧
      (sending r n).bridge.counters.oversizePackets = 1 ∧
      (sending r n).bridge.counters.dropped = 1 := by
  have hdelivers := delivers_sending hr hidle
  have hpassed : (assemble {} defaultLayout).passed r = [] := if_neg (Nat.not_le.mpr hlength)
  have hnone : (assemble {} defaultLayout).completions r = [] := by
    rw [completions, hpassed]
    rfl
  refine ⟨hdelivers.received.trans hpassed, ?_, ?_, ?_⟩
  · rw [hdelivers.hostWords, hnone]
    rfl
  · rw [hdelivers.oversize, hpassed]
    rfl
  · rw [hdelivers.dropped, hpassed, hnone]
    rfl

/-- A memory read whose completion is too long for the serializer is kept, its completion dropped. -/
theorem overflow_sending (hr : Record.ofDwords r.toDwords = .ok r)
    (hidle : (sending r n).bridge.isIdle = true) {request : Request}
    (hread : r.header = .memRead request) (hcount : 1021 < Header.dwordCount request.length) :
    (sending r n).bridge.core.endpoint.received = [r] ∧ (sending r n).hostWords = [] ∧
      (sending r n).bridge.counters.tlpOverflows = 1 ∧
      (sending r n).bridge.counters.dropped = 1 := by
  have hdelivers := delivers_sending hr hidle
  have hlength : r.toDwords.length = 3 := by
    rw [(Record.fits_of_ofDwords hr).2, hread]
    rfl
  have hpassed : (assemble {} defaultLayout).passed r = [r] :=
    if_pos (hlength.trans_le (by decide))
  have hone := completions_of_memRead rfl hpassed hread
  have hstores : (assemble {} defaultLayout).stores
      ((assemble {} defaultLayout).core.endpoint.completionFor request) = false :=
    (stores_default request).trans (decide_eq_false (Nat.not_le.mpr hcount))
  refine ⟨hdelivers.received.trans hpassed, ?_, ?_, ?_⟩
  · rw [hdelivers.hostWords, hone, List.filter_cons_of_neg (by rw [hstores]; decide)]
    rfl
  · rw [hdelivers.overflows, hone, List.countP_singleton, hstores]
    rfl
  · rw [hdelivers.dropped, hpassed, hone, List.countP_singleton, hstores]
    rfl

/-- **The default configuration lets every TLP through that has at most 1024 dwords and does not ask
for more than 1021.** Longer TLPs are dropped on arrival; the completions of longer reads are dropped
on their way back. -/
theorem tlp_gets_through (hr : Record.ofDwords r.toDwords = .ok r) :
    ofConfig {} = .ok (assemble {} defaultLayout) ∧
      (∃ N, ∀ n, N ≤ n → (sending r n).bridge.isIdle = true) ∧
      ∀ n, (sending r n).bridge.isIdle = true →
        (r.toDwords.length ≤ 1024 →
          (∀ request, r.header = .memRead request → Header.dwordCount request.length ≤ 1021) →
          GotThrough r (sending r n)) ∧
        (1024 < r.toDwords.length →
          (sending r n).bridge.core.endpoint.received = [] ∧ (sending r n).hostWords = [] ∧
            (sending r n).bridge.counters.oversizePackets = 1 ∧
            (sending r n).bridge.counters.dropped = 1) ∧
        ∀ request, r.header = .memRead request → 1021 < Header.dwordCount request.length →
          (sending r n).bridge.core.endpoint.received = [r] ∧ (sending r n).hostWords = [] ∧
            (sending r n).bridge.counters.tlpOverflows = 1 ∧
            (sending r n).bridge.counters.dropped = 1 :=
  ⟨rfl, eventually_idle_sending r, fun _ hidle =>
    ⟨gotThrough_sending hr hidle, oversize_sending hr hidle,
      fun _ => overflow_sending hr hidle⟩⟩

end

/-- A read of one dword gets through. -/
theorem tlp_gets_through_read :
    Record.ofDwords (Record.memRead 0 7 16).toDwords = .ok (Record.memRead 0 7 16) ∧
      (sending (Record.memRead 0 7 16) 40).bridge.isIdle = true ∧
      GotThrough (Record.memRead 0 7 16) (sending (Record.memRead 0 7 16) 40) := by
  have hr : Record.ofDwords (Record.memRead 0 7 16).toDwords = .ok (Record.memRead 0 7 16) := rfl
  have hidle : (sending (Record.memRead 0 7 16) 40).bridge.isIdle = true := by decide +kernel
  obtain ⟨-, -, hall⟩ := tlp_gets_through hr
  refine ⟨hr, hidle, (hall 40 hidle).1 (by decide) fun request hrequest => ?_⟩
  obtain rfl := Header.memRead.inj hrequest
  decide

/-- The largest read. -/
def largestRead : Record :=
  { header := .memRead
      { length := 0, requester := 0, tag := 7, firstEnable := 15, lastEnable := 15, address := 16 }
    data := [] }

/-- The smallest write whose frame is too long. -/
def longWrite : Record :=
  { header := .memWrite
      { length := 1022, requester := 0, tag := 7, firstEnable := 15, lastEnable := 15,
        address := 16 }
    data := List.replicate 1022 0 }

/-- Whether a TLP gets through if it can be sent at all. -/
def GetsThrough (r : Record) : Prop :=
  Record.ofDwords r.toDwords = .ok r →
    ∀ n, (sending r n).bridge.isIdle = true → GotThrough r (sending r n)

/-- The largest read does not get through, nor does the long write. -/
theorem not_getsThrough : ¬ GetsThrough largestRead ∧ ¬ GetsThrough longWrite := by
  constructor
  · intro hall
    have hr : Record.ofDwords largestRead.toDwords = .ok largestRead := rfl
    obtain ⟨n, hidle⟩ := eventually_idle_sending largestRead
    have hdropped := (hall hr n (hidle n le_rfl)).dropped
    rw [(overflow_sending hr (hidle n le_rfl) rfl (by decide)).2.2.2] at hdropped
    contradiction
  · intro hall
    have hdata : longWrite.data.length = 1022 := List.length_replicate
    have hr : Record.ofDwords longWrite.toDwords = .ok longWrite :=
      Record.ofDwords_toDwords ⟨by decide, by decide, by decide, by decide⟩ hdata
    have hlength : 1024 < longWrite.toDwords.length := by
      rw [Record.toDwords, List.length_append, Header.length_encode, hdata]
      decide
    obtain ⟨n, hidle⟩ := eventually_idle_sending longWrite
    have hdropped := (hall hr n (hidle n le_rfl)).dropped
    rw [(oversize_sending hr (hidle n le_rfl) hlength).2.2.2] at hdropped
    exact absurd hdropped Nat.one_ne_zero

end Bridge

end LinkBridge

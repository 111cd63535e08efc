import LinkBridge.Proofs.Wishbone.Decoding
import Mathlib.Data.List.ModifyLast

/-!
# LinkBridge.Proofs.Wishbone.Vectors

The vectors an interrupt controller delivers. A run of a controller notes a `Send` for every write
that starts one: the vector register at that moment, and what is written to the register before the
vector is accepted. No send is lost and none is delivered twice, but what is delivered is the
register as it is by then: a vector that was refused is offered again with whatever was written
since.

On a bus an access reaches the controller with those of its words that fall into its range
(`Access.reaching`), so the same holds of the vectors a bus delivers.

Main statement: `Bus.History.vectors_delivered`.
-/

namespace LinkBridge.Wishbone

/-! ## one controller -/

namespace Msi

/-- The vector of a send under way. -/
def pending (m : Msi) : List UInt8 :=
  if m.sending then [m.vector] else []

/-- Whether a write starts a send. -/
def strobes (m : Msi) (offset : Nat) (w : Word) : Bool :=
  register offset == sendOffset && w.toNat % 2 == 1 && !m.sending

/-- Whether a write changes the vector of a send under way. -/
def rewrites (m : Msi) (offset : Nat) : Bool :=
  register offset == dataOffset && m.sending

@[simp] theorem base_write (m : Msi) (offset : Nat) (w : Word) : (m.write offset w).base = m.base :=
  Device.base_write (.msi m) offset w

@[simp] theorem base_offer (m : Msi) (ready : Bool) : (m.offer ready).next.base = m.base := by
  unfold offer
  split <;> rfl

theorem pending_of_strobes {m : Msi} {offset : Nat} {w : Word} (h : m.strobes offset w = true) :
    m.pending = [] ∧ (m.write offset w).pending = [m.vector] := by
  simp only [strobes, Bool.and_eq_true, beq_iff_eq, Bool.not_eq_true'] at h
  obtain ⟨⟨hregister, hodd⟩, hsending⟩ := h
  simp [pending, write, hregister, hodd, hsending]

theorem pending_of_rewrites {m : Msi} {offset : Nat} (h : m.rewrites offset = true) (w : Word) :
    m.pending = [m.vector] ∧ (m.write offset w).pending = [w.toUInt8] := by
  simp only [rewrites, Bool.and_eq_true, beq_iff_eq] at h
  obtain ⟨hregister, hsending⟩ := h
  simp [pending, write, hregister, hsending, dataOffset, sendOffset]

/-- Other writes leave a send alone. -/
theorem pending_write {m : Msi} {offset : Nat} {w : Word} (hstrobes : m.strobes offset w = false)
    (hrewrites : m.rewrites offset = false) : (m.write offset w).pending = m.pending := by
  unfold strobes at hstrobes
  unfold rewrites at hrewrites
  unfold write pending
  split
  · next hregister =>
    cases hsending : m.sending with
    | true => simp
    | false =>
        have heven : (w.toNat % 2 == 1) = false := by simpa [hregister, hsending] using hstrobes
        simp [heven]
  · split
    · next hregister =>
      have hsending : m.sending = false := by simpa [hregister] using hrewrites
      simp [hsending]
    · rfl

/-- What was pending is accepted or still pending. -/
theorem pending_offer (m : Msi) (ready : Bool) :
    (m.offer ready).sent.toList ++ (m.offer ready).next.pending = m.pending := by
  cases hsending : m.sending <;> cases ready <;> simp [offer, pending, hsending]

/-- What happens to a controller. -/
inductive Event where
  /-- A word is written at an offset. -/
  | write (offset : Nat) (w : Word)
  /-- The vector of a send under way is offered. -/
  | offer (ready : Bool)

/-- What a run shows of a send. -/
structure Send where
  /-- The vector register when the send was started. -/
  started : UInt8
  /-- What was written to the register before the vector was accepted. -/
  rewritten : List UInt8 := []
  deriving DecidableEq

/-- The vector register as the writes during a send left it. -/
def Send.vector (s : Send) : UInt8 :=
  s.rewritten.getLastD s.started

/-- A send during which the register is written once more. -/
def Send.rewrite (vector : UInt8) (s : Send) : Send :=
  { s with rewritten := s.rewritten ++ [vector] }

@[simp] theorem Send.vector_rewrite (vector : UInt8) (s : Send) :
    (s.rewrite vector).vector = vector := by
  simp [Send.vector, Send.rewrite]

/-- What a run of a controller has shown so far. -/
structure History where
  /-- The controller after the run. -/
  now : Msi
  /-- The sends, one for every write that started one, in order. -/
  sends : List Send := []
  /-- The vectors that were accepted. -/
  sent : List UInt8 := []

namespace History

/-- The sends after a write. -/
def note (h : History) (offset : Nat) (w : Word) : List Send :=
  if h.now.strobes offset w then h.sends ++ [{ started := h.now.vector }]
  else if h.now.rewrites offset then h.sends.modifyLast (Send.rewrite w.toUInt8)
  else h.sends

/-- One more event. -/
def move (h : History) : Event → History
  | .write offset w => { h with now := h.now.write offset w, sends := h.note offset w }
  | .offer ready =>
    let t := h.now.offer ready
    { h with now := t.next, sent := h.sent ++ t.sent.toList }

/-- Further events. -/
def play (h : History) (events : List Event) : History :=
  events.foldl move h

/-- The sends are those whose vectors were accepted, and the one under way. -/
def Faithful (h : History) : Prop :=
  h.sends.map Send.vector = h.sent ++ h.now.pending

/-- **An event keeps the sends to the vectors.** -/
theorem faithful_move {h : History} (hf : Faithful h) (event : Event) : Faithful (h.move event) := by
  cases event with
  | offer ready =>
      show h.sends.map Send.vector =
        h.sent ++ (h.now.offer ready).sent.toList ++ (h.now.offer ready).next.pending
      rw [List.append_assoc, pending_offer, hf]
  | write offset w =>
      show (h.note offset w).map Send.vector = h.sent ++ (h.now.write offset w).pending
      unfold note
      split
      · next hstrobes =>
        obtain ⟨hidle, hstarted⟩ := pending_of_strobes hstrobes
        rw [List.map_append, hf, hidle, hstarted, List.append_nil]
        rfl
      · next hstrobes =>
        split
        · next hrewrites =>
          obtain ⟨hold, hnew⟩ := pending_of_rewrites hrewrites w
          unfold Faithful at hf
          rw [hold] at hf
          obtain ⟨finished, last, hsends, hfinished, hlast⟩ := List.map_eq_append_iff.mp hf
          obtain ⟨s, rfl, -⟩ := List.map_eq_singleton_iff.mp hlast
          rw [hsends, List.modifyLast_concat, List.map_append, hfinished, hnew]
          simp
        · next hrewrites =>
          rw [hf, pending_write (by simpa using hstrobes) (by simpa using hrewrites)]

/-- **A run keeps the sends to the vectors.** -/
theorem faithful_play {h : History} (hf : Faithful h) (events : List Event) :
    Faithful (h.play events) := by
  induction events generalizing h with
  | nil => exact hf
  | cons event events ih => exact ih (faithful_move hf event)

/-- The vectors that were accepted are those of the first sends. -/
theorem Faithful.sent_eq {h : History} (hf : Faithful h) :
    h.sent = (h.sends.take h.sent.length).map Send.vector := by
  rw [List.map_take, hf, List.take_left]

theorem play_append (h : History) (events events' : List Event) :
    h.play (events ++ events') = (h.play events).play events' :=
  List.foldl_append

theorem base_play (h : History) (events : List Event) : (h.play events).now.base = h.now.base := by
  induction events generalizing h with
  | nil => rfl
  | cons event events ih =>
      refine (ih (h.move event)).trans ?_
      cases event with
      | write offset w => exact h.now.base_write offset w
      | offer ready => exact h.now.base_offer ready

end History

end Msi

/-! ## accesses to a controller on a bus -/

/-- The words an access writes, with their addresses. -/
def Access.written : Access → List (Nat × Word)
  | .read _ => []
  | .write address w => [(address, w)]
  | .writeBlock address ws => (wordAddresses address ws.length).zip ws

/-- The writes through which an access reaches the controller at a base address. -/
def Access.reaching (base : Nat) (a : Access) : List Msi.Event :=
  (a.written.filter fun (address, _) => (Device.msi { base }).covers address).map
    fun (address, w) => .write (address - base) w

/-- A block reaches a controller as its words do one by one. -/
theorem Access.reaching_writeBlock_cons (base address : Nat) (w : Word) (ws : List Word) :
    (Access.writeBlock address (w :: ws)).reaching base =
      (Access.write address w).reaching base ++
        (Access.writeBlock (address + 4) ws).reaching base := by
  simp only [reaching, written, List.length_cons, wordAddresses_succ, List.zip_cons_cons]
  rw [← List.singleton_append, List.filter_append, List.map_append]

theorem Device.store_msi (address : Nat) (w : Word) (h : Msi.History) :
    Device.store address w (.msi h.now) =
      .msi (h.play ((Access.write address w).reaching h.now.base)).now := by
  have hcovers : (Device.msi { base := h.now.base }).covers address =
      (Device.msi h.now).covers address := rfl
  simp only [store, Access.reaching, Access.written, List.filter_cons, hcovers]
  split <;> rfl

theorem Device.storeAll_msi (address : Nat) (ws : List Word) (h : Msi.History) :
    Device.storeAll address ws (.msi h.now) =
      .msi (h.play ((Access.writeBlock address ws).reaching h.now.base)).now := by
  induction ws generalizing address h with
  | nil => rfl
  | cons w ws ih =>
      rw [storeAll, store_msi, ih, h.base_play, Access.reaching_writeBlock_cons,
        Msi.History.play_append]

/-- **An access does to a controller what the writes do that reach it.** -/
theorem Access.effect_msi (a : Access) (h : Msi.History) :
    a.effect (.msi h.now) = .msi (h.play (a.reaching h.now.base)).now := by
  cases a with
  | read address => rfl
  | write address w => exact Device.store_msi address w h
  | writeBlock address ws => exact Device.storeAll_msi address ws h

/-- Accesses raise no interrupts. -/
theorem Access.sent_reaching (base : Nat) (a : Access) (h : Msi.History) :
    (h.play (a.reaching base)).sent = h.sent := by
  unfold reaching
  induction a.written.filter _ generalizing h with
  | nil => rfl
  | cons s rest ih => exact ih (h.move (.write (s.1 - base) s.2))

/-- The interrupt controller a device is. -/
def Device.msi? : Device → Option Msi
  | sram _ => none
  | msi m => some m

/-- What is stored does not make a device a controller or another device of it. -/
theorem Access.findSome?_msi? (a : Access) (ds : List Device) {h : Msi.History}
    (hfind : ds.findSome? Device.msi? = some h.now) :
    (ds.map a.effect).findSome? Device.msi? = some (h.play (a.reaching h.now.base)).now := by
  induction ds with
  | nil => contradiction
  | cons d ds ih =>
      rw [List.findSome?_cons] at hfind
      rw [List.map_cons, List.findSome?_cons]
      cases d with
      | msi m =>
          obtain rfl : m = h.now := Option.some.inj hfind
          rw [effect_msi]
          rfl
      | sram s =>
          have hnone : (a.effect (.sram s)).msi? = none := by
            have hkind : (a.effect (.sram s)).isMsi = false := by
              rw [← Device.isMsi_blank, Access.blank_effect]
              rfl
            cases heffect : a.effect (.sram s) with
            | sram s' => rfl
            | msi m => rw [heffect] at hkind; contradiction
          rw [hnone]
          exact ih hfind

namespace Bus

/-- The interrupt controller that offers its vector on a tick. -/
def controller? (b : Bus) : Option Msi :=
  b.devices.findSome? Device.msi?

theorem controller?_access {b : Bus} (hb : b.Apart) (a : Access) {h : Msi.History}
    (hfind : b.controller? = some h.now) :
    (b.access a).controller? = some (h.play (a.reaching h.now.base)).now := by
  rw [controller?, devices_access hb]
  exact a.findSome?_msi? b.devices hfind

/-- A tick offers the vector of the controller. -/
theorem controller?_tick {b : Bus} {m : Msi} (hfind : b.controller? = some m) (ready : Bool) :
    (b.tick ready).next.controller? = some (m.offer ready).next ∧
      (b.tick ready).sent = (m.offer ready).sent := by
  show (offerFirst ready b.devices).next.findSome? Device.msi? = _ ∧
    (offerFirst ready b.devices).sent = _
  obtain ⟨ds, recent⟩ := b
  simp only [controller?] at hfind ⊢
  induction ds with
  | nil => contradiction
  | cons d ds ih =>
      rw [List.findSome?_cons] at hfind
      cases d with
      | msi m' =>
          obtain rfl : m' = m := Option.some.inj hfind
          exact ⟨rfl, rfl⟩
      | sram s => exact ih hfind

/-- What happens to a bus. -/
inductive Event where
  | access (a : Access)
  | tick (ready : Bool)

/-- How an event reaches the controller at a base address. -/
def Event.reaching (base : Nat) : Event → List Msi.Event
  | .access a => a.reaching base
  | .tick ready => [.offer ready]

/-- What a run of a bus has shown so far. -/
structure History where
  /-- The bus after the run. -/
  now : Bus
  /-- The vectors that were accepted. -/
  sent : List UInt8 := []

namespace History

/-- One more event. -/
def move (h : History) : Event → History
  | .access a => { h with now := h.now.access a }
  | .tick ready =>
    let t := h.now.tick ready
    { now := t.next, sent := h.sent ++ t.sent.toList }

/-- Further events. -/
def play (h : History) (events : List Event) : History :=
  events.foldl move h

/-- The bus delivers what its controller delivers. -/
structure Shows (h : History) (c : Msi.History) : Prop where
  apart : h.now.Apart
  controller : h.now.controller? = some c.now
  sent : h.sent = c.sent

/-- **An event does to the controller of a bus what reaches it.** -/
theorem shows_move {h : History} {c : Msi.History} (hs : h.Shows c) (event : Event) :
    (h.move event).Shows (c.play (event.reaching c.now.base)) := by
  obtain ⟨hapart, hcontroller, hsent⟩ := hs
  cases event with
  | access a =>
      exact ⟨hapart.of_blank (h.now.blank_access a), controller?_access hapart a hcontroller,
        hsent.trans (a.sent_reaching c.now.base c).symm⟩
  | tick ready =>
      obtain ⟨hnext, hvector⟩ := controller?_tick hcontroller ready
      refine ⟨hapart.of_blank (h.now.blank_tick ready), hnext, ?_⟩
      show h.sent ++ (h.now.tick ready).sent.toList = c.sent ++ (c.now.offer ready).sent.toList
      rw [hsent, hvector]

/-- **A run does to the controller of a bus what reaches it.** -/
theorem shows_play {h : History} {c : Msi.History} (hs : h.Shows c) (events : List Event) :
    (h.play events).Shows (c.play (events.flatMap (Event.reaching c.now.base))) := by
  induction events generalizing h c with
  | nil => exact hs
  | cons event events ih =>
      have hrest := ih (shows_move hs event)
      rw [c.base_play] at hrest
      rw [List.flatMap_cons, Msi.History.play_append]
      exact hrest

/-- **Vectors are neither lost nor delivered twice, but they may change while they wait.** Whatever
is accessed and however the vectors are taken, on a bus whose devices share no address: the vectors
accepted are, in order, one for every write that started a send, but for the last one while it is
pending; and each of them is the last one written to the register by then. So they are the vectors
the sends were started with exactly if no send ended with another one. -/
theorem vectors_delivered {ds : List Device} (hds : ds.Pairwise Device.Disjoint) {m : Msi}
    (hm : (ofDevices ds).controller? = some m) (hidle : m.sending = false) (events : List Event) :
    let h := play { now := ofDevices ds } events
    let c := Msi.History.play { now := m } (events.flatMap (Event.reaching m.base))
    h.now.controller? = some c.now ∧ h.sent = c.sent ∧
    c.sends.map Msi.Send.vector = h.sent ++ c.now.pending ∧
    (h.sent = (c.sends.take h.sent.length).map Msi.Send.started ↔
      ∀ s ∈ c.sends.take h.sent.length, s.vector = s.started) := by
  intro h c
  have hstart : ({ now := ofDevices ds } : History).Shows { now := m } :=
    ⟨apart_ofDevices hds, hm, rfl⟩
  obtain ⟨-, hcontroller, hsent⟩ : h.Shows c := shows_play hstart events
  have hfaithful : c.Faithful :=
    Msi.History.faithful_play (by simp [Msi.History.Faithful, Msi.pending, hidle]) _
  have hvectors : h.sent = (c.sends.take h.sent.length).map Msi.Send.vector := by
    rw [hsent]
    exact hfaithful.sent_eq
  refine ⟨hcontroller, hsent, hsent ▸ hfaithful, fun hstarted s hs => ?_, fun hsame => ?_⟩
  · exact List.map_inj_left.mp (hvectors.symm.trans hstarted) s hs
  · exact hvectors.trans (List.map_congr_left hsame)

/-- A block that begins in the memory in front of the controller starts a send and then changes its
vector; a second send is still pending. -/
theorem vectors_delivered_across :
    let ds : List Device := [.msi { base := 0x1010 }, .sram (.ofSize 0x1000 16)]
    let events : List Event := [.access (.writeBlock 0x100C [7, 1, 0, 0x33]), .tick true,
      .access (.read 0x1014), .access (.write 0x1010 1), .tick false]
    let h := play { now := ofDevices ds } events
    let c := Msi.History.play { now := { base := 0x1010 } }
      (events.flatMap (Event.reaching 0x1010))
    ds.Pairwise Device.Disjoint ∧
      c.sends = [{ started := 0, rewritten := [0x33] }, { started := 0x33 }] ∧
      c.now.pending = [0x33] ∧ c.sends.map Msi.Send.vector = h.sent ++ c.now.pending := by
  intro ds events h c
  have hds : ds.Pairwise Device.Disjoint := by
    have hdisjoint : Device.Disjoint (.sram (.ofSize 0x1000 16)) (.msi { base := 0x1010 }) :=
      Device.disjoint_of_le (by decide)
    simpa [ds] using hdisjoint.symm
  obtain ⟨-, -, hsends, -⟩ := vectors_delivered hds (m := { base := 0x1010 }) rfl rfl events
  exact ⟨hds, by decide, by decide, hsends⟩

/-- One write strobe with the vector register at 5 and one vector accepted, which is 9. -/
theorem vector_altered :
    let events : List Event := [.access (.write 0x8 5), .access (.write 0x0 1), .tick false,
      .access (.write 0x8 9), .tick true]
    let h := play { now := ofDevices [.msi { base := 0 }] } events
    let c := Msi.History.play { now := { base := 0 } } (events.flatMap (Event.reaching 0))
    c.sends.map Msi.Send.started = [5] ∧ h.sent = [9] ∧ c.now.pending = [] ∧
      h.sent ≠ (c.sends.take h.sent.length).map Msi.Send.started := by
  decide

end History

end Bus

end LinkBridge.Wishbone

import LinkBridge.Proofs.Etherbone.Responder
import LinkBridge.Proofs.Progress.Queues
import LinkBridge.Proofs.Stream.Blocks

/-!
# LinkBridge.Proofs.Progress.Etherbone

Progress of the responder and the Wishbone bus. Requests are taken one after the other and answers
are sent off word by word, and an interrupt controller delivers its vector as soon as there is room;
otherwise a tick waits. What is on the bus makes no difference to the responder.
-/

namespace LinkBridge

namespace Wishbone.Bus

/-- The devices with an operation under way. -/
def load (b : Bus) : Nat :=
  b.devices.countP Device.isBusy

theorem load_eq_zero (b : Bus) : b.load = 0 ↔ b.isIdle = true := by
  simp [load, isIdle, List.countP_eq_zero]

theorem sent_length_le (b : Bus) (ready : Bool) : (b.tick ready).sent.toList.length ≤ 1 := by
  cases (b.tick ready).sent <;> simp

/-- **A tick of the bus delivers an interrupt or waits.** -/
theorem tick_load {b : Bus} (h : b.kinds.count true ≤ 1) (ready : Bool) :
    let t := b.tick ready
    2 * t.next.load + t.sent.toList.length < 2 * b.load ∨
      (t.next = b ∧ t.sent = none) ∧ (ready = true → b.isIdle = true) := by
  intro t
  cases ready with
  | false => exact .inr ⟨by simp [t, tick_false], nofun⟩
  | true =>
      cases hidle : b.isIdle with
      | true => exact .inr ⟨by simp [t, tick_of_isIdle hidle], fun _ => rfl⟩
      | false =>
          refine .inl ?_
          have hnext : t.next.load = 0 := (load_eq_zero _).mpr (isIdle_tick h)
          have hpos : b.load ≠ 0 := by simp [load_eq_zero, hidle]
          have hsent := b.sent_length_le true
          show 2 * t.next.load + (b.tick true).sent.toList.length < 2 * b.load
          omega

end Wishbone.Bus

namespace Etherbone.Responder

open LinkBridge.Wishbone (Bus)

section

variable (r : Responder) (bus : Bus)

/-- **A tick of the responder takes a word of a request, sends a word of an answer, or waits.** -/
theorem tick_load (input : Option PacketBeat) (ready : Bool) :
    let t := r.tick bus input ready
    t.removed input ≠ [] ∨
      t.next.2 = bus ∧
        16 * t.next.1.response.length + 15 * t.sent.toList.length < 16 * r.response.length ∨
      t.Rests (r, bus) ∧ (ready = true → r.response = [] ∧ input = none) := by
  intro t
  obtain ⟨tag, request, response, responseLength⟩ := r
  cases response with
  | cons data rest =>
      refine .inr ?_
      cases ready with
      | false => exact .inr ⟨⟨rfl, rfl, rfl⟩, nofun⟩
      | true =>
          refine .inl ⟨rfl, ?_⟩
          simp [t, tick]
          omega
  | nil =>
      cases input with
      | none => exact .inr (.inr ⟨⟨rfl, rfl, rfl⟩, fun _ => ⟨rfl, rfl⟩⟩)
      | some beat =>
          refine .inl ?_
          simp only [t, tick, Transfer.removed]
          cases beat.last <;> simp

/-- The last word of a request is taken and performed, and nothing is sent meanwhile. -/
theorem tick_last {r : Responder} (hresponse : r.response = []) {beat : PacketBeat}
    (hlast : beat.last = true) (ready : Bool) :
    let t := r.tick bus (some beat) ready
    t.taken = true ∧ t.sent = none ∧ t.next.1.request = #[] ∧ t.next.1.tag = r.tag ∧
      t.next.2.blank = bus.blank := by
  intro t
  obtain ⟨hbus, hrequest, htag, -, hsent, -⟩ :=
    perform_spec (r := { r with request := #[] }) hresponse bus (r.request.push beat.data).toList
  have ht : t = { ({ r with request := #[] } : Responder).perform bus
      (r.request.push beat.data).toList with taken := true } := by
    simp only [t, tick, hresponse, hlast, if_true]
  rw [ht]
  exact ⟨rfl, hsent, hrequest, htag, (congrArg Bus.blank hbus).trans (blank_execute bus _)⟩

/-- **The responder follows the packets of requests**, and behind it no answer is in progress only if
none was or its last word was sent. -/
theorem tick_whole (input : Option PacketBeat) (ready : Bool) :
    let t := r.tick bus input ready
    (∀ xs, unfinished PacketBeat.last (!t.next.1.request.isEmpty) (t.left input ++ xs) =
      unfinished PacketBeat.last (!r.request.isEmpty) (input.toList ++ xs)) ∧
    (t.next.1.response = [] → r.response = [] ∧ t.sent = none ∨
      ∃ word, t.sent = some word ∧ word.last = true) := by
  intro t
  obtain ⟨tag, request, response, responseLength⟩ := r
  cases response with
  | cons data rest =>
      cases ready with
      | false => exact ⟨fun _ => rfl, nofun⟩
      | true =>
          refine ⟨fun _ => rfl, fun hnil => .inr ⟨_, rfl, ?_⟩⟩
          have hnil : rest = [] := hnil
          simp [hnil]
  | nil =>
      cases input with
      | none => exact ⟨fun _ => rfl, fun _ => .inl ⟨rfl, rfl⟩⟩
      | some beat =>
          cases hlast : beat.last with
          | false => simp [t, tick, hlast, Transfer.left]
          | true =>
              obtain ⟨htaken, hsent, hrequest, -⟩ :=
                tick_last bus (r := ⟨tag, request, [], responseLength⟩) rfl hlast ready
              refine ⟨fun xs => ?_, fun _ => .inl ⟨rfl, hsent⟩⟩
              rw [hrequest, Transfer.left_of_taken htaken]
              simp [hlast]

/-- Nothing is sent without room for it. -/
theorem ready_of_sent {input : Option PacketBeat} {ready : Bool}
    (h : (r.tick bus input ready).sent.isSome = true) : ready = true := by
  obtain ⟨tag, request, response, responseLength⟩ := r
  cases response with
  | cons data rest =>
      cases ready with
      | false => contradiction
      | true => rfl
  | nil =>
      cases input with
      | none => contradiction
      | some beat =>
          cases hlast : beat.last with
          | false => simp [tick, hlast] at h
          | true =>
              obtain ⟨-, hsent, -⟩ :=
                tick_last bus (r := ⟨tag, request, [], responseLength⟩) rfl hlast ready
              simp [hsent] at h

/-- Neither the destination of the answers changes nor the devices, but for what they store. -/
theorem tick_settings (input : Option PacketBeat) (ready : Bool) :
    (r.tick bus input ready).next.1.tag = r.tag ∧
      (r.tick bus input ready).next.2.blank = bus.blank := by
  obtain ⟨tag, request, response, responseLength⟩ := r
  cases response with
  | cons data rest => cases ready <;> exact ⟨rfl, rfl⟩
  | nil =>
      cases input with
      | none => exact ⟨rfl, rfl⟩
      | some beat =>
          cases hlast : beat.last with
          | false => simp [tick, hlast]
          | true =>
              obtain ⟨-, -, -, hsettings⟩ :=
                tick_last bus (r := ⟨tag, request, [], responseLength⟩) rfl hlast ready
              exact hsettings

end

end Etherbone.Responder

end LinkBridge

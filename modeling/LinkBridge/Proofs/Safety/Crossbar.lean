import LinkBridge.Proofs.Crossbar.Outbound
import LinkBridge.Proofs.Safety.Access

/-!
# LinkBridge.Proofs.Safety.Crossbar

The one partial operation of the crossbar: an arbitration round starts at a position modulo the
number of ports, which is only computed where there are ports.
-/

namespace LinkBridge.Crossbar

variable (x : Crossbar)

/-- Grants the outbound stream to the next port that has a beat, unless it is already granted. -/
def chooseGrant? : Option (Crossbar × Counters) :=
  match x.grant with
  | some _ => some (x, {})
  | none =>
    if x.ports.isEmpty then some (x, {})
    else do
      let start ← Access.mod? x.turn x.ports.length
      let ports := x.ports.zipIdx
      match (ports.drop start ++ ports.take start).find? (·.1.sink.peek.isSome) with
      | some (p, i) =>
        return ({ x with grant := some p.tag, turn := i + 1 }, { packetsArbitrated := 1 })
      | none => return (x, {})

/-- One tick. -/
def tick? (input : Option PacketBeat) (ready : Bool) : Option (Transfer Crossbar PacketBeat) := do
  let (granted, counted) ← x.chooseGrant?
  let outbound := granted.sendGranted ready
  let inbound := outbound.next.dispatch input
  return { next := inbound.next, taken := inbound.taken, sent := outbound.sent,
           counted := counted + inbound.counted }

/-- The ports from the start of a round on, and then those in front of it. -/
theorem rotation_eq : x.rotation = x.ports.zipIdx.drop (x.turn % x.ports.length) ++
    x.ports.zipIdx.take (x.turn % x.ports.length) := by
  rw [rotation_eq_rotate, List.rotate_eq_drop_append_take_mod, List.length_zipIdx]

theorem chooseGrant?_eq : x.chooseGrant? = some x.chooseGrant := by
  unfold chooseGrant? chooseGrant
  cases x.grant with
  | some tag => rfl
  | none =>
      by_cases hports : x.ports = []
      · simp only [rotation, hports]
        rfl
      · have hlength : x.ports.length ≠ 0 := fun hzero => hports (List.length_eq_zero_iff.mp hzero)
        have hsome : x.ports.isEmpty = false := by simpa using hports
        simp only [hsome, Access.mod?_of_ne hlength, ← rotation_eq, Option.bind_eq_bind,
          Option.bind_some]
        cases x.rotation.find? (·.1.sink.peek.isSome) <;> rfl

/-- **A round of the crossbar starts at one of its ports.** -/
theorem tick?_eq (input : Option PacketBeat) (ready : Bool) :
    x.tick? input ready = some (x.tick input ready) := by
  simp only [tick?, chooseGrant?_eq]
  rfl

end LinkBridge.Crossbar

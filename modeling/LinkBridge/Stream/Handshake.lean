import LinkBridge.Counters

/-!
# LinkBridge.Stream.Handshake

The two ends of a stream, and what a component does with them.

A source *presents* at most one item per tick and a sink is *ready* for at most one. A component
looks at what its source presents and at whether its sink is ready, and answers with a `Transfer`:
its next state, whether it took the presented item, and the item it sent. Because that answer is a
pure function of the two observations, what a component does can be studied apart from the queues
around it; `Transfer.between` puts it between two of them.
-/

namespace LinkBridge

/-! ## Ends of a stream -/

/-- A queue seen from its consumer. -/
class Source (S : Type) (α : outParam Type) where
  /-- The item presented on this tick. -/
  peek : S → Option α
  /-- Takes the presented item; nothing happens when none is presented. -/
  take : S → S

/-- A queue seen from its producer. -/
class Sink (S : Type) (α : outParam Type) where
  /-- Whether an item offered on this tick is stored. -/
  ready : S → Bool
  /-- Offers an item; it is lost when the sink is not ready. -/
  push : S → α → S

/-! ## Transfers -/

/-- What a component did on one tick: `sent` only ever holds an item when its sink was ready. -/
structure Transfer (σ β : Type) where
  /-- The component after the tick. -/
  next : σ
  /-- Whether the presented item was taken. -/
  taken : Bool := false
  /-- The item passed on. -/
  sent : Option β := none
  /-- What the tick adds to the traffic counters. -/
  counted : Counters := {}

namespace Transfer

variable {S T α β σ : Type}

/-- The source after the transfer. -/
def drain [Source S α] (t : Transfer σ β) (source : S) : S :=
  if t.taken then Source.take source else source

/-- The sink after the transfer. -/
def fill [Sink T β] (t : Transfer σ β) (sink : T) : T :=
  match t.sent with
  | some item => Sink.push sink item
  | none => sink

/-- Keeps the transfer and changes what it says about the component. -/
def map {τ : Type} (f : σ → τ) (t : Transfer σ β) : Transfer τ β :=
  { t with next := f t.next }

/-- One tick of a component between a source and a sink. -/
def between [Source S α] [Sink T β] (component : Option α → Bool → Transfer σ β)
    (source : S) (sink : T) : Transfer σ β × S × T :=
  let t := component (Source.peek source) (Sink.ready sink)
  (t, t.drain source, t.fill sink)

end Transfer

end LinkBridge

import HamachiLike.Library.Network
import Mathlib.Algebra.BigOperators.Group.List.Basic
import Mathlib.Tactic.Abel

/-! What a run brings in and what it uses up, where every step keeps the account. The
amounts are of any commutative monoid: numbers, or bags of items. -/

namespace HamachiLike

universe u v w

namespace Run

variable {State : Type u} {Event : Type v} {Amount : Type w} [AddCommMonoid Amount]

/-- What the steps of a run add up to. -/
def total (step : State → Event → Option State) (flow : State → Event → Amount) :
    State → List Event → Amount
  | _, [] => 0
  | state, event :: rest =>
    flow state event + (step state event).elim 0 fun next => total step flow next rest

variable {step : State → Event → Option State}

end Run

namespace Network

variable {Node Addr Packet Local Input : Type u} [DecidableEq Node] [DecidableEq Addr]
variable {Amount : Type w} [AddCommMonoid Amount]
variable (system : System Node Addr Packet Local Input) (worth : Packet → Amount)

/-- What is in flight. -/
def State.held (state : State Node Packet Local) : Amount := (state.inFlight.map worth).sum

variable (Input) in
def copied (state : State Node Packet Local) : Event Node Input → Amount
  | .duplicate index => state.inFlight[index]?.elim 0 worth
  | _ => 0

variable {system} {worth} {state next : State Node Packet Local} {event : Event Node Input}

end Network

end HamachiLike

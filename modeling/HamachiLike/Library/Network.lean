import HamachiLike.Library.Run
import Mathlib.Data.List.Induction
import Mathlib.Algebra.GroupWithZero.Nat
import Mathlib.Algebra.Order.BigOperators.Group.List

/-! Parties that exchange datagrams over a network that may reorder, lose and
duplicate them. Every send is also written to a log that nothing reads. -/

namespace HamachiLike.Network

universe u

/-- What each party does. A party acts on inputs of its own, where it accepts
them, and on every datagram that reaches its address. -/
structure System (Node Addr Packet Local Input : Type u) where
  addr : Node → Addr
  dest : Packet → Addr
  nowhere : Addr
  input : Node → Local → Input → Option (Local × List Packet)
  receive : Node → Local → Packet → Local × List Packet

/-- A send; `own` tells an act on an input from a reaction to a datagram. -/
structure Sent (Packet : Type u) where
  own : Bool
  packet : Packet

structure State (Node Packet Local : Type u) where
  locals : Node → Local
  inFlight : List Packet
  log : List (Sent Packet)

inductive Event (Node Input : Type u)
  | input (node : Node) (given : Input)
  | deliver (index : Nat) (node : Node)
  | lose (index : Nat)
  | duplicate (index : Nat)

variable {Node Addr Packet Local Input : Type u} [DecidableEq Node] [DecidableEq Addr]
variable (system : System Node Addr Packet Local Input)

/-- A party takes its next local state and sends. A datagram to nowhere is
logged and not put in flight. -/
def State.act (state : State Node Packet Local) (node : Node) (own : Bool) (after : Local)
    (sends : List Packet) : State Node Packet Local where
  locals := fun other => if other = node then after else state.locals other
  inFlight := state.inFlight ++ sends.filter fun packet => system.dest packet ≠ system.nowhere
  log := state.log ++ sends.map fun packet => ⟨own, packet⟩

/-- The datagram at a place of the network is gone. -/
def State.remove (state : State Node Packet Local) (index : Nat) : State Node Packet Local :=
  { state with inFlight := state.inFlight.eraseIdx index }

def step (state : State Node Packet Local) : Event Node Input → Option (State Node Packet Local)
  | .input node given =>
    (system.input node (state.locals node) given).map fun (after, sends) =>
      state.act system node true after sends
  | .deliver index node =>
    state.inFlight[index]?.bind fun packet =>
      if system.dest packet = system.addr node then
        let (after, sends) := system.receive node (state.locals node) packet
        some ((state.remove index).act system node false after sends)
      else none
  | .lose index => state.inFlight[index]?.map fun _ => state.remove index
  | .duplicate index =>
    state.inFlight[index]?.map fun packet =>
      { state with inFlight := state.inFlight ++ [packet] }

/-- All parties in a first local state, nothing sent. -/
def start (first : Local) : State Node Packet Local := ⟨fun _ => first, [], []⟩

variable {system} {state next : State Node Packet Local} {event : Event Node Input}

/-- Everything that a step can do. -/
inductive Moves (system : System Node Addr Packet Local Input) (state : State Node Packet Local) :
    Event Node Input → State Node Packet Local → Prop
  | input {node : Node} {given : Input} {after : Local} {sends : List Packet}
      (accepted : system.input node (state.locals node) given = some (after, sends)) :
      Moves system state (.input node given) (state.act system node true after sends)
  | deliver {index : Nat} {node : Node} {packet : Packet}
      (found : state.inFlight[index]? = some packet) (reached : system.dest packet = system.addr node) :
      Moves system state (.deliver index node) ((state.remove index).act system node false
        (system.receive node (state.locals node) packet).1
        (system.receive node (state.locals node) packet).2)
  | lose {index : Nat} {packet : Packet} (found : state.inFlight[index]? = some packet) :
      Moves system state (.lose index) (state.remove index)
  | duplicate {index : Nat} {packet : Packet} (found : state.inFlight[index]? = some packet) :
      Moves system state (.duplicate index) { state with inFlight := state.inFlight ++ [packet] }

theorem step_eq_some_iff : step system state event = some next ↔ Moves system state event next := by
  constructor
  · intro taken
    cases event with
    | input node given =>
      obtain ⟨⟨after, sends⟩, accepted, rfl⟩ := Option.map_eq_some_iff.mp taken
      exact .input accepted
    | deliver index node =>
      obtain ⟨packet, found, rest⟩ := Option.bind_eq_some_iff.mp taken
      split at rest
      · rename_i reached
        obtain rfl := Option.some.inj rest
        exact .deliver found reached
      · cases rest
    | lose index =>
      obtain ⟨packet, found, rfl⟩ := Option.map_eq_some_iff.mp taken
      exact .lose found
    | duplicate index =>
      obtain ⟨packet, found, rfl⟩ := Option.map_eq_some_iff.mp taken
      exact .duplicate found
  · intro moves
    cases moves with
    | input accepted => simp only [step, accepted, Option.map_some]
    | deliver found reached => simp only [step, found, Option.bind_some, if_pos reached]
    | lose found => simp only [step, found, Option.map_some]
    | duplicate found => simp only [step, found, Option.map_some]

@[simp] theorem locals_act_self {node : Node} {own : Bool} {after : Local} {sends : List Packet} :
    (state.act system node own after sends).locals node = after := if_pos rfl

theorem locals_act_ne {node other : Node} {own : Bool} {after : Local} {sends : List Packet}
    (apart : other ≠ node) :
    (state.act system node own after sends).locals other = state.locals other := if_neg apart

theorem mem_inFlight_act {node : Node} {own : Bool} {after : Local} {sends : List Packet}
    {packet : Packet} :
    packet ∈ (state.act system node own after sends).inFlight ↔
      packet ∈ state.inFlight ∨ packet ∈ sends ∧ system.dest packet ≠ system.nowhere := by
  simp [State.act]

omit [DecidableEq Node] in
/-- A datagram in flight is the one that is taken or stays. -/
theorem mem_inFlight_iff {index : Nat} {packet other : Packet}
    (found : state.inFlight[index]? = some packet) :
    other ∈ state.inFlight ↔ other = packet ∨ other ∈ (state.remove index).inFlight := by
  obtain ⟨inside, rfl⟩ := List.getElem?_eq_some_iff.mp found
  rw [← (List.getElem_cons_eraseIdx_perm inside).mem_iff, List.mem_cons]
  rfl

/-! An invariant of each party and of each datagram that the parties keep. -/

variable (system) in
structure Respects (localInv : Node → Local → Prop) (packetInv : Packet → Prop) : Prop where
  input : ∀ node before given after sends, localInv node before →
    system.input node before given = some (after, sends) →
      localInv node after ∧ ∀ packet ∈ sends, system.dest packet ≠ system.nowhere → packetInv packet
  receive : ∀ node before packet, localInv node before → packetInv packet →
    system.dest packet = system.addr node →
      localInv node (system.receive node before packet).1 ∧
        ∀ reply ∈ (system.receive node before packet).2,
          system.dest reply ≠ system.nowhere → packetInv reply

structure Holds (localInv : Node → Local → Prop) (packetInv : Packet → Prop)
    (state : State Node Packet Local) : Prop where
  locals : ∀ node, localInv node (state.locals node)
  packets : ∀ packet ∈ state.inFlight, packetInv packet

variable {localInv : Node → Local → Prop} {packetInv : Packet → Prop}

omit [DecidableEq Node] in
theorem Holds.remove (holds : Holds localInv packetInv state) (index : Nat) :
    Holds localInv packetInv (state.remove index) :=
  ⟨holds.locals, fun packet member => holds.packets packet (List.mem_of_mem_eraseIdx member)⟩

theorem Holds.act {node : Node} {own : Bool} {after : Local} {sends : List Packet}
    (holds : Holds localInv packetInv state) (kept : localInv node after)
    (good : ∀ packet ∈ sends, system.dest packet ≠ system.nowhere → packetInv packet) :
    Holds localInv packetInv (state.act system node own after sends) where
  locals := by
    intro other
    by_cases same : other = node
    · subst same
      rwa [locals_act_self]
    · rw [locals_act_ne same]
      exact holds.locals other
  packets := by
    intro packet member
    rcases mem_inFlight_act.mp member with old | ⟨sent, somewhere⟩
    · exact holds.packets packet old
    · exact good packet sent somewhere

theorem Holds.moves (respects : Respects system localInv packetInv)
    (holds : Holds localInv packetInv state) (moves : Moves system state event next) :
    Holds localInv packetInv next := by
  cases moves with
  | input accepted =>
    obtain ⟨kept, good⟩ := respects.input _ _ _ _ _ (holds.locals _) accepted
    exact holds.act kept good
  | deliver found reached =>
    obtain ⟨kept, good⟩ := respects.receive _ _ _ (holds.locals _)
      (holds.packets _ (List.mem_of_getElem? found)) reached
    exact (holds.remove _).act kept good
  | lose found => exact holds.remove _
  | duplicate found =>
    refine ⟨holds.locals, ?_⟩
    intro packet member
    rcases List.mem_append.mp member with old | copy
    · exact holds.packets packet old
    · obtain rfl := List.mem_singleton.mp copy
      exact holds.packets _ (List.mem_of_getElem? found)

/-- What the parties keep holds in every state that they reach. -/
theorem Holds.reached (respects : Respects system localInv packetInv) {first : Local}
    (initial : ∀ node, localInv node first) {events : List (Event Node Input)}
    (reached : Run.run (step system) (start first) events = some state) :
    Holds localInv packetInv state := by
  refine Run.run_preserves (fun _ _ _ holds taken => ?_) ⟨initial, by simp [start]⟩ reached
  exact holds.moves respects (step_eq_some_iff.mp taken)

private theorem own_step {good : Packet → Prop}
    (inputs : ∀ node before given after sends, system.input node before given = some (after, sends) →
      ∀ packet ∈ sends, good packet)
    {before after : State Node Packet Local} {event : Event Node Input}
    (inv : ∀ sent ∈ before.log, sent.own = true → good sent.packet)
    (taken : step system before event = some after) :
    ∀ sent ∈ after.log, sent.own = true → good sent.packet := by
  intro sent member own
  cases step_eq_some_iff.mp taken with
  | input accepted =>
    rcases List.mem_append.mp member with old | new
    · exact inv sent old own
    · obtain ⟨packet, present, rfl⟩ := List.mem_map.mp new
      exact inputs _ _ _ _ _ accepted packet present
  | deliver found reached =>
    rcases List.mem_append.mp member with old | new
    · exact inv sent old own
    · obtain ⟨packet, present, rfl⟩ := List.mem_map.mp new
      cases own
  | lose found => exact inv sent member own
  | duplicate found => exact inv sent member own

/-- What every send on an input satisfies holds of all sends so far that were no reactions. -/
theorem own_reached {good : Packet → Prop}
    (inputs : ∀ node before given after sends, system.input node before given = some (after, sends) →
      ∀ packet ∈ sends, good packet)
    {first : Local} {events : List (Event Node Input)}
    (reached : Run.run (step system) (start first) events = some state) :
    ∀ sent ∈ state.log, sent.own = true → good sent.packet := by
  have initial : ∀ sent ∈ (start first : State Node Packet Local).log, sent.own = true →
      good sent.packet := by simp [start]
  exact @Run.run_preserves _ _ _ (fun state => ∀ sent ∈ state.log, sent.own = true → good sent.packet)
    (fun _ _ _ inv taken => own_step inputs inv taken) _ _ _ initial reached

/-! Where a datagram comes from. -/

variable (system) in
/-- It was sent on an input of the run, or is a reaction to some datagram. -/
inductive Traced (events : List (Event Node Input)) : Packet → Prop
  | input {node : Node} {given : Input} {before after : Local} {sends : List Packet} {packet : Packet}
      (happened : .input node given ∈ events)
      (accepted : system.input node before given = some (after, sends)) (sent : packet ∈ sends) :
      Traced events packet
  | reaction {node : Node} {before : Local} {received packet : Packet}
      (sent : packet ∈ (system.receive node before received).2) : Traced events packet

omit [DecidableEq Node] [DecidableEq Addr] in
theorem Traced.append {events : List (Event Node Input)} {packet : Packet}
    (traced : Traced system events packet) (more : List (Event Node Input)) :
    Traced system (events ++ more) packet := by
  cases traced with
  | input happened accepted sent => exact .input (List.mem_append_left _ happened) accepted sent
  | reaction sent => exact .reaction sent

def weights {α : Type u} (weight : α → Nat) (items : List α) : Nat := (items.map weight).sum

section Weights

variable {α : Type u} (weight : α → Nat)

@[simp] theorem weights_append (first second : List α) :
    weights weight (first ++ second) = weights weight first + weights weight second := by
  simp [weights]

private theorem weights_filter_le (keep : α → Bool) (items : List α) :
    weights weight (items.filter keep) ≤ weights weight items := by
  induction items with
  | nil => rfl
  | cons item rest ih =>
    by_cases kept : keep item
    · rw [List.filter_cons_of_pos kept]
      simpa [weights] using ih
    · rw [List.filter_cons_of_neg kept]
      simp only [weights, List.map_cons, List.sum_cons] at ih ⊢
      omega

theorem weights_eraseIdx {items : List α} {index : Nat} {item : α} (found : items[index]? = some item) :
    weights weight items = weight item + weights weight (items.eraseIdx index) := by
  obtain ⟨inside, rfl⟩ := List.getElem?_eq_some_iff.mp found
  have same := ((List.getElem_cons_eraseIdx_perm inside).map weight).sum_eq
  simpa [weights] using same.symm

theorem weights_succ (items : List α) :
    weights (fun item => weight item + 1) items = weights weight items + items.length := by
  induction items with
  | nil => rfl
  | cons item rest ih =>
    simp only [weights, List.map_cons, List.sum_cons, List.length_cons] at ih ⊢
    omega

end Weights

/-- What a send on an input pays for: itself and what it puts in flight. -/
def price (weight : Packet → Nat) (sent : Sent Packet) : Nat :=
  if sent.own then weight sent.packet + 1 else 0

/-- Every send so far is paid for, and so is the weight still in flight. -/
def Paid (weight : Packet → Nat) (state : State Node Packet Local) : Prop :=
  state.log.length + weights weight state.inFlight ≤ weights (price weight) state.log

variable {weight : Packet → Nat}

omit [DecidableEq Node] [DecidableEq Addr] in
private theorem weights_price (own : Bool) (sends : List Packet) :
    weights (price weight) (sends.map fun packet => ⟨own, packet⟩) =
      if own then weights weight sends + sends.length else 0 := by
  cases own with
  | true =>
    rw [if_pos rfl, ← weights_succ]
    simp [weights, price, Function.comp_def]
  | false => simp [weights, price, Function.comp_def]

/-- Sends on an input pay for themselves, a reaction needs room for them. -/
theorem Paid.act {node : Node} {own : Bool} {after : Local} {sends : List Packet}
    (room : state.log.length + weights weight state.inFlight +
      (if own then 0 else weights weight sends + sends.length) ≤ weights (price weight) state.log) :
    Paid weight (state.act system node own after sends) := by
  have flight := weights_filter_le weight (fun packet => system.dest packet ≠ system.nowhere) sends
  have log : weights (price weight) (sends.map fun packet => ⟨own, packet⟩) =
    if own then weights weight sends + sends.length else 0 := weights_price own sends
  simp only [Paid, State.act, weights_append, List.length_append, List.length_map, log]
  cases own with
  | true =>
    simp only [if_true] at room ⊢
    omega
  | false =>
    simp only [Bool.false_eq_true, if_false] at room ⊢
    omega

/-- Reactions that send at most the weight they receive never add to the bill. -/
theorem Paid.moves (dissipates : ∀ node before packet,
      weights (fun reply => weight reply + 1) (system.receive node before packet).2 ≤ weight packet)
    (paid : Paid weight state) (moves : Moves system state event next)
    (unique : ∀ index, event ≠ .duplicate index) : Paid weight next := by
  cases moves with
  | input accepted => exact Paid.act paid
  | @deliver index node packet found reached =>
    have used := dissipates node (state.locals node) packet
    have taken := weights_eraseIdx weight found
    rw [weights_succ] at used
    rw [Paid, taken] at paid
    apply Paid.act
    simp only [State.remove, Bool.false_eq_true, if_false]
    omega
  | lose found =>
    have taken := weights_eraseIdx weight found
    rw [Paid, taken] at paid
    simp only [Paid, State.remove]
    omega
  | @duplicate index _ _ => exact (unique index rfl).elim

/-- Without duplication, what the inputs sent bounds everything ever sent. -/
theorem Paid.reached (dissipates : ∀ node before packet,
      weights (fun reply => weight reply + 1) (system.receive node before packet).2 ≤ weight packet)
    {first : Local} {events : List (Event Node Input)}
    (unique : ∀ index, Event.duplicate index ∉ events)
    (reached : Run.run (step system) (start first) events = some state) : Paid weight state := by
  have single (event : Event Node Input) (member : event ∈ events) (index : Nat) :
      event ≠ .duplicate index := fun same => unique index (same ▸ member)
  refine Run.run_invariant_of_events (fun _ _ _ unique paid taken => ?_) (Nat.zero_le _) single reached
  exact Paid.moves dissipates paid (step_eq_some_iff.mp taken) unique

/-! One system seen as another. -/

variable {Packet' Local' Input' : Type u}

structure Simulates (system : System Node Addr Packet Local Input)
    (abstract : System Node Addr Packet' Local' Input') (view : Local → Local')
    (viewInput : Input → Input') (viewPacket : Packet → Packet') : Prop where
  addr : ∀ node, abstract.addr node = system.addr node
  dest : ∀ packet, abstract.dest (viewPacket packet) = system.dest packet
  nowhere : abstract.nowhere = system.nowhere
  input : ∀ node before given after sends,
    system.input node before given = some (after, sends) →
      abstract.input node (view before) (viewInput given) = some (view after, sends.map viewPacket)
  receive : ∀ node before packet,
    abstract.receive node (view before) (viewPacket packet) =
      (view (system.receive node before packet).1, (system.receive node before packet).2.map viewPacket)

def State.view (view : Local → Local') (viewPacket : Packet → Packet')
    (state : State Node Packet Local) : State Node Packet' Local' where
  locals := fun node => view (state.locals node)
  inFlight := state.inFlight.map viewPacket
  log := state.log.map fun sent => ⟨sent.own, viewPacket sent.packet⟩

def Event.view (viewInput : Input → Input') : Event Node Input → Event Node Input'
  | .input node given => .input node (viewInput given)
  | .deliver index node => .deliver index node
  | .lose index => .lose index
  | .duplicate index => .duplicate index

omit [DecidableEq Node] in
theorem Event.lose_mem_map_view {viewInput : Input → Input'} {events : List (Event Node Input)}
    {index : Nat} : .lose index ∈ events.map (Event.view viewInput) ↔ .lose index ∈ events := by
  constructor
  · intro member
    obtain ⟨event, present, same⟩ := List.mem_map.mp member
    cases event with
    | lose other =>
      obtain rfl := Event.lose.inj same
      exact present
    | _ => cases same
  · exact List.mem_map_of_mem

omit [DecidableEq Node] in
theorem Event.duplicate_mem_map_view {viewInput : Input → Input'} {events : List (Event Node Input)}
    {index : Nat} : .duplicate index ∈ events.map (Event.view viewInput) ↔ .duplicate index ∈ events := by
  constructor
  · intro member
    obtain ⟨event, present, same⟩ := List.mem_map.mp member
    cases event with
    | duplicate other =>
      obtain rfl := Event.duplicate.inj same
      exact present
    | _ => cases same
  · exact List.mem_map_of_mem

variable {abstract : System Node Addr Packet' Local' Input'} {view : Local → Local'}
  {viewInput : Input → Input'} {viewPacket : Packet → Packet'}

theorem Simulates.act (simulates : Simulates system abstract view viewInput viewPacket)
    (state : State Node Packet Local) (node : Node) (own : Bool) (after : Local) (sends : List Packet) :
    (state.act system node own after sends).view view viewPacket =
      (state.view view viewPacket).act abstract node own (view after) (sends.map viewPacket) := by
  simp only [State.view, State.act, List.map_append, List.filter_map, List.map_map, simulates.nowhere,
    Function.comp_def, simulates.dest, apply_ite view]

omit [DecidableEq Node] in
private theorem State.view_remove (state : State Node Packet Local) (index : Nat) :
    (state.remove index).view view viewPacket = (state.view view viewPacket).remove index := by
  simp only [State.view, State.remove, List.eraseIdx_map]

/-- Every step of the system is a step of what it is seen as. -/
theorem Simulates.moves (simulates : Simulates system abstract view viewInput viewPacket)
    (moves : Moves system state event next) :
    Moves abstract (state.view view viewPacket) (event.view viewInput) (next.view view viewPacket) := by
  have seen {index : Nat} {packet : Packet} (found : state.inFlight[index]? = some packet) :
      (state.view view viewPacket).inFlight[index]? = some (viewPacket packet) := by
    simp [State.view, found]
  cases moves with
  | input accepted =>
    rw [simulates.act]
    exact .input (simulates.input _ _ _ _ _ accepted)
  | deliver found reached =>
    have delivered := Moves.deliver (seen found)
      (((simulates.dest _).trans reached).trans (simulates.addr _).symm)
    simp only [State.view, simulates.receive] at delivered
    rw [simulates.act, State.view_remove]
    exact delivered
  | lose found =>
    rw [State.view_remove]
    exact .lose (seen found)
  | duplicate found =>
    have copied : Moves abstract (state.view view viewPacket) _ _ := .duplicate (seen found)
    simpa [State.view, Event.view] using copied

/-- Every run of the system is a run of what it is seen as. -/
theorem Simulates.reached (simulates : Simulates system abstract view viewInput viewPacket)
    {first : Local} {events : List (Event Node Input)}
    (reached : Run.run (step system) (start first) events = some state) :
    Run.run (step abstract) (start (view first)) (events.map (Event.view viewInput)) =
      some (state.view view viewPacket) := by
  have simulated : ∀ (before : State Node Packet Local) event next, step system before event = some next →
      step abstract (before.view view viewPacket) (event.view viewInput) =
        some (next.view view viewPacket) :=
    fun _ _ _ taken => step_eq_some_iff.mpr (simulates.moves (step_eq_some_iff.mp taken))
  exact Run.run_simulation simulated reached

end HamachiLike.Network

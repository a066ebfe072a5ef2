import HamachiLike.Client.Network

/-! What any number of clients can do to each other over a network. -/

namespace HamachiLike.Client

variable {Node : Type}

variable [DecidableEq Node] {clients : Node → Config} {state : Network.State Node Packet Globals}
  {events : List (Network.Event Node MainStep)}

/-- Whatever the network does, a client's peer is another client, and one of the
two dialled the other. -/
theorem finAddr_dialled (clients : Node → Config)
    (distinct : Function.Injective fun node => (clients node).myAddr)
    (events : List (Network.Event Node MainStep)) (state : Network.State Node Packet Globals)
    (reached :
      Run.run (Network.step (network clients)) (Network.start Globals.initial) events = some state)
    (node : Node) (peer : (state.locals node).finAddr ≠ SockAddr.zero) :
    ∃ other, other ≠ node ∧ (state.locals node).finAddr = (clients other).myAddr ∧
      ((clients node).conAddr = (clients other).myAddr ∨
        (clients other).conAddr = (clients node).myAddr) := by
  have holds := Network.Holds.reached (Protocol.respects distinct) (fun _ => .inl rfl)
    ((simulates clients).reached reached)
  rcases holds.locals node with none | ⟨other, ⟨apart, dialled⟩, same⟩
  · exact (peer none).elim
  · exact ⟨other, apart.symm, same, dialled⟩

theorem finAddr_dialled_handshake :
    ∃ state, Run.run (Network.step (network (pair hosts drawnApart))) (Network.start Globals.initial)
        handshake = some state ∧
      ∃ other, other ≠ Side.a ∧ (state.locals .a).finAddr = (pair hosts drawnApart other).myAddr ∧
        ((pair hosts drawnApart .a).conAddr = (pair hosts drawnApart other).myAddr ∨
          (pair hosts drawnApart other).conAddr = (pair hosts drawnApart .a).myAddr) := by
  obtain ⟨state, reached, peers, _⟩ := handshake_run hosts (by decide : ¬SameKey drawnApart)
  refine ⟨state, reached, finAddr_dialled (pair hosts drawnApart)
    (mutual_pair (by decide) drawnApart).distinct handshake state reached .a ?_⟩
  rw [peers]
  exact pair_myAddr_ne hosts drawnApart _

/-- KEYs and MESSAGEs that the mains sent, by the first byte of the datagram. -/
def sentByMain (type : UInt8) (log : List (Network.Sent Packet)) : Nat :=
  log.countP fun sent => sent.own && (Send.recvfrom sent.packet.datagram).type == type

private theorem type_main {client : Config} {before after : Globals} {given : MainStep}
    {actions : List Action}
    (done : main client before given = some (after, actions)) :
    ∀ packet ∈ packets client actions,
      (Send.recvfrom packet.datagram).type = Kind.key ∨
        (Send.recvfrom packet.datagram).type = Kind.message := by
  intro packet member
  obtain ⟨rfl, _, _, rfl⟩ | ⟨input, rfl, _, _, rfl⟩ := main_cases done
  · obtain rfl := List.mem_singleton.mp member
    rw [Send.recvfrom_bytes]
    exact .inl (type_keySend _)
  · obtain rfl := List.mem_singleton.mp member
    rw [Send.recvfrom_bytes]
    exact .inr (type_messageSend _)

private theorem type_own (reached :
      Run.run (Network.step (network clients)) (Network.start Globals.initial) events = some state) :
    ∀ sent ∈ state.log, sent.own = true →
      (Send.recvfrom sent.packet.datagram).type = Kind.key ∨
        (Send.recvfrom sent.packet.datagram).type = Kind.message := by
  have inputs : ∀ node before given after sends,
      (network clients).input node before given = some (after, sends) → ∀ packet ∈ sends,
        (Send.recvfrom packet.datagram).type = Kind.key ∨
        (Send.recvfrom packet.datagram).type = Kind.message := by
    intro node before given after sends accepted
    obtain ⟨⟨_, actions⟩, done, same⟩ := Option.map_eq_some_iff.mp accepted
    obtain ⟨rfl, rfl⟩ := Prod.mk.inj same
    exact type_main done
  exact Network.own_reached inputs reached

private theorem weight_key {packet : Packet} (key : (Send.recvfrom packet.datagram).type = Kind.key) :
    Protocol.weight packet.view = 2 := by
  simp only [Protocol.weight, Packet.view, Send.msg, if_pos key]

private theorem weight_message {packet : Packet}
    (message : (Send.recvfrom packet.datagram).type = Kind.message) :
    Protocol.weight packet.view = 0 := by
  have notKey : Kind.message ≠ Kind.key := by decide
  have notSolved : Kind.message ≠ Kind.keySolved := by decide
  have notConnected : Kind.message ≠ Kind.connected := by decide
  simp only [Protocol.weight, Packet.view, Send.msg, message, if_neg notKey, if_neg notSolved,
    if_neg notConnected, if_true]

/-- A KEY of a main pays for itself, its answer and the CONNECTED; a MESSAGE for itself. -/
private theorem price_le (log : List (Network.Sent Packet))
    (types : ∀ sent ∈ log, sent.own = true →
      (Send.recvfrom sent.packet.datagram).type = Kind.key ∨
        (Send.recvfrom sent.packet.datagram).type = Kind.message) :
    Network.weights (Network.price Protocol.weight)
        (log.map fun sent => ⟨sent.own, sent.packet.view⟩) ≤
      3 * sentByMain Kind.key log + sentByMain Kind.message log := by
  induction log with
  | nil => exact Nat.zero_le _
  | cons sent rest ih =>
    have tail := ih fun other member => types other (List.mem_cons_of_mem _ member)
    have head := types sent List.mem_cons_self
    obtain ⟨own, packet⟩ := sent
    simp only [sentByMain, Network.weights, List.map_cons, List.sum_cons, List.countP_cons] at tail ⊢
    cases own with
    | false =>
      simp [Network.price] at tail ⊢
      omega
    | true =>
      have distinct : Kind.key ≠ Kind.message := by decide
      rcases head rfl with key | message
      · simp only [Network.price, if_true, weight_key key, key, Bool.true_and, BEq.rfl,
          beq_eq_false_iff_ne.mpr distinct, Bool.false_eq_true, if_false]
        omega
      · simp only [Network.price, if_true, weight_message message, message, Bool.true_and, BEq.rfl,
          beq_eq_false_iff_ne.mpr distinct.symm, Bool.false_eq_true, if_false]
        omega

/-- Nothing but the mains keeps the clients talking. -/
theorem sent_le (clients : Node → Config) (events : List (Network.Event Node MainStep))
    (unique : ∀ index, Network.Event.duplicate index ∉ events) (state : Network.State Node Packet Globals)
    (reached :
      Run.run (Network.step (network clients)) (Network.start Globals.initial) events = some state) :
    state.log.length ≤ 3 * sentByMain Kind.key state.log + sentByMain Kind.message state.log := by
  have seen : ∀ index, Network.Event.duplicate index ∉ events.map (Network.Event.view MainStep.view) :=
    fun index member => unique index (Network.Event.duplicate_mem_map_view.mp member)
  have paid := Network.Paid.reached Protocol.dissipates seen ((simulates clients).reached reached)
  have price := price_le state.log (type_own reached)
  simp only [Network.Paid, Network.State.view, List.length_map] at paid
  omega

theorem sent_le_handshake :
    ∃ state, Run.run (Network.step (network (pair hosts drawnApart))) (Network.start Globals.initial)
        handshake = some state ∧
      state.log.length ≤ 3 * sentByMain Kind.key state.log + sentByMain Kind.message state.log := by
  obtain ⟨state, reached, _⟩ := handshake_run hosts (by decide : ¬SameKey drawnApart)
  exact ⟨state, reached, sent_le (pair hosts drawnApart) handshake (by simp [handshake]) state reached⟩

/-- Two clients that dial each other over a network without loss end up as each
other's peers exactly when they did not draw the same key. -/
theorem peers_agree_iff (ip : Side → UInt32) (apart : ip .a ≠ ip .b) (rand : Side → Nat × Nat)
    (events : List (Network.Event Side MainStep)) (lossless : ∀ index, Network.Event.lose index ∉ events)
    (state : Network.State Side Packet Globals)
    (reached : Run.run (Network.step (network (pair ip rand))) (Network.start Globals.initial) events =
      some state)
    (sent : ∀ side, 0 < (state.locals side).index) (quiet : state.inFlight = []) :
    (∀ side : Side, (state.locals side).finAddr = (pair ip rand side.other).myAddr) ↔ ¬SameKey rand := by
  have seen : ∀ index, Network.Event.lose index ∉ events.map (Network.Event.view MainStep.view) :=
    fun index member => lossless index (Network.Event.lose_mem_map_view.mp member)
  have empty : (state.view Globals.view Packet.view).inFlight = [] := by
    rw [Network.State.view, quiet, List.map_nil]
  rw [← differ_iff ip rand]
  exact Protocol.agree_iff (mutual_pair apart rand) seen ((simulates _).reached reached) sent empty

theorem peers_agree_handshake :
    ∃ state, Run.run (Network.step (network (pair hosts drawnApart))) (Network.start Globals.initial)
        handshake = some state ∧
      ((∀ side : Side, (state.locals side).finAddr = (pair hosts drawnApart side.other).myAddr) ↔
        ¬SameKey drawnApart) := by
  obtain ⟨state, reached, peers, quiet⟩ := handshake_run hosts (by decide : ¬SameKey drawnApart)
  refine ⟨state, reached, peers_agree_iff hosts (by decide) drawnApart handshake (by simp [handshake])
    state reached ?_ quiet⟩
  intro side
  rw [peers]
  exact Nat.one_pos

/-- Started in the same second both clients draw the same numbers: the keys cross,
nothing is left in flight and neither has a peer. -/
theorem drawnTogether_no_peers :
    ∃ state, Run.run (Network.step (network (pair hosts drawnTogether))) (Network.start Globals.initial)
        keysCross = some state ∧
      (∀ side, 0 < (state.locals side).index) ∧ state.inFlight = [] ∧
        ∀ side : Side, (state.locals side).finAddr ≠ (pair hosts drawnTogether side.other).myAddr := by
  obtain ⟨state, reached, silent, quiet⟩ := keysCross_run hosts (by decide : SameKey drawnTogether)
  refine ⟨state, reached, ?_, quiet, ?_⟩
  · intro side
    rw [silent]
    exact Nat.one_pos
  · intro side
    rw [silent]
    exact (pair_myAddr_ne hosts drawnTogether _).symm

end HamachiLike.Client

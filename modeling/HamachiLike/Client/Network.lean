import HamachiLike.Client.Agreement
import HamachiLike.Client.RecLoop

/-! Any number of clients on one network: every run of the byte-level clients is
a run of the protocol. -/

namespace HamachiLike.Client

/-- A datagram with the bound address of its sender. -/
structure Packet where
  source : SockAddr
  dest : SockAddr
  datagram : List UInt8

/-- The datagrams that leave the socket of a client. -/
def packets (client : Config) (actions : List Action) : List Packet :=
  actions.filterMap fun
    | .sendto send dest => some ⟨client.myAddr, dest, send.bytes⟩
    | .setFinAddr _ => none

@[simp] theorem packets_nil (client : Config) : packets client [] = [] := rfl

@[simp] theorem packets_sendto (client : Config) (send : Send) (dest : SockAddr) (rest : List Action) :
    packets client (.sendto send dest :: rest) =
      ⟨client.myAddr, dest, send.bytes⟩ :: packets client rest := rfl

@[simp] theorem packets_setFinAddr (client : Config) (addr : SockAddr) (rest : List Action) :
    packets client (.setFinAddr addr :: rest) = packets client rest := rfl

variable {Node : Type}

def network (clients : Node → Config) : Network.System Node SockAddr Packet Globals MainStep where
  addr node := (clients node).myAddr
  dest := Packet.dest
  nowhere := SockAddr.zero
  input node globals given :=
    (main (clients node) globals given).map fun (after, actions) =>
      (after, packets (clients node) actions)
  receive node globals packet :=
    let actions := recLoop (clients node) packet.source packet.datagram
    (actions.foldl Globals.perform globals, packets (clients node) actions)

/-- What the bytes of a datagram mean to a client. -/
def Send.msg (send : Send) : Protocol.Msg (UInt32 × UInt32) UInt32 (List UInt8) :=
  if send.type = Kind.key then .key (send.a, send.b)
  else if send.type = Kind.keySolved then .solved send.c
  else if send.type = Kind.connected then .connected
  else if send.type = Kind.message then .message send.text
  else .other

def parties (clients : Node → Config) :
    Protocol.Parties Node SockAddr (UInt32 × UInt32) UInt32 where
  addr node := (clients node).myAddr
  con node := (clients node).conAddr
  key node := ((clients node).myKey.a, (clients node).myKey.b)
  solve key := key.1 ^^^ key.2
  nowhere := SockAddr.zero

def Globals.view (globals : Globals) : Protocol.Peer SockAddr := ⟨globals.finAddr, globals.index⟩

def MainStep.view : MainStep → Protocol.Input (List UInt8)
  | .key => .key
  | .line input => .line (messageSend input).text

def Packet.view (packet : Packet) : Protocol.Datagram SockAddr (UInt32 × UInt32) UInt32 (List UInt8) :=
  ⟨packet.source, packet.dest, (Send.recvfrom packet.datagram).msg⟩

private theorem msg_keySend (myKey : Key) : (keySend myKey).msg = .key (myKey.a, myKey.b) := by
  obtain ⟨first, second⟩ := keySend_key myKey
  rw [Send.msg, if_pos (type_keySend myKey), first, second]

private theorem msg_solvedSend (send : Send) : (solvedSend send).msg = .solved (send.a ^^^ send.b) := by
  rw [Send.msg, type_solvedSend, if_neg (by decide), if_pos rfl, c_solvedSend]

private theorem msg_connectedSend : connectedSend.msg = .connected := by
  rw [Send.msg, type_connectedSend, if_neg (by decide), if_neg (by decide), if_pos rfl]

theorem msg_messageSend (input : List UInt8) :
    (messageSend input).msg = .message (messageSend input).text := by
  rw [Send.msg, type_messageSend, if_neg (by decide), if_neg (by decide), if_neg (by decide), if_pos rfl]

/-- A sent union is seen as what its bytes mean. -/
theorem view_sent (source dest : SockAddr) (send : Send) :
    Packet.view ⟨source, dest, send.bytes⟩ = ⟨source, dest, send.msg⟩ := by
  rw [Packet.view, Send.recvfrom_bytes]

private theorem simulates_input (clients : Node → Config) {node : Node} {before after : Globals}
    {given : MainStep} {sends : List Packet}
    (accepted : (network clients).input node before given = some (after, sends)) :
    Protocol.input (parties clients) node before.view given.view =
      some (after.view, sends.map Packet.view) := by
  obtain ⟨⟨_, actions⟩, done, same⟩ := Option.map_eq_some_iff.mp accepted
  obtain ⟨rfl, rfl⟩ := Prod.mk.inj same
  obtain ⟨rfl, _, rfl, rfl⟩ | ⟨input, rfl, _, rfl, rfl⟩ := main_cases done
  · simp only [packets_sendto, packets_nil, List.map_cons, List.map_nil, view_sent, msg_keySend]
    rfl
  · simp only [packets_sendto, packets_nil, List.map_cons, List.map_nil, view_sent, msg_messageSend]
    rfl

private theorem simulates_receive (clients : Node → Config) (node : Node) (before : Globals)
    (packet : Packet) :
    Protocol.receive (parties clients) node before.view packet.view =
      (((network clients).receive node before packet).1.view,
        ((network clients).receive node before packet).2.map Packet.view) := by
  obtain ⟨source, dest, datagram⟩ := packet
  have answer := (clients node).solved
  simp only [network, Packet.view, Send.msg, recLoop, echo_iff]
  split_ifs with key echo solved right connected message
  · simp [Protocol.receive, parties, echo]
  · have foreign : ¬((Send.recvfrom datagram).a, (Send.recvfrom datagram).b) =
        (parties clients).key node := by simpa [parties] using echo
    simp only [Protocol.receive, if_neg foreign]
    simp [view_sent, msg_solvedSend, parties, Globals.perform]
  · have own : (Send.recvfrom datagram).c =
        (parties clients).solve ((parties clients).key node) := right.trans answer
    simp only [Protocol.receive, if_pos own]
    simp [view_sent, msg_connectedSend, parties, Globals.perform, Globals.view]
  · have wrong : ¬(Send.recvfrom datagram).c =
        (parties clients).solve ((parties clients).key node) := fun same => right (same.trans answer.symm)
    simp only [Protocol.receive, if_neg wrong]
    rfl
  · rfl
  · rfl
  · rfl

theorem simulates (clients : Node → Config) :
    Network.Simulates (network clients) (Protocol.system (List UInt8) (parties clients)) Globals.view
      MainStep.view Packet.view where
  addr := fun _ => rfl
  dest := fun _ => rfl
  nowhere := rfl
  input := fun _ _ _ _ _ accepted => simulates_input clients accepted
  receive := simulates_receive clients

/-- The two ends of one conversation. -/
inductive Side
  | a
  | b
  deriving DecidableEq

def Side.other : Side → Side
  | .a => .b
  | .b => .a

/-- Two clients that dial each other, with the numbers that each has drawn. -/
def pair (ip : Side → UInt32) (rand : Side → Nat × Nat) (side : Side) : Config :=
  Config.setup (ip side) (rand side).1 (rand side).2 (ip side.other)

/-- The two have drawn the same key. -/
def SameKey (rand : Side → Nat × Nat) : Prop :=
  generateKey (rand .a).1 = generateKey (rand .b).1 ∧ generateKey (rand .a).2 = generateKey (rand .b).2

instance (rand : Side → Nat × Nat) : Decidable (SameKey rand) := inferInstanceAs (Decidable (_ ∧ _))

theorem mutual_pair {ip : Side → UInt32} (apart : ip .a ≠ ip .b) (rand : Side → Nat × Nat) :
    Protocol.Mutual (parties (pair ip rand)) Side.other where
  apart := by
    intro side
    cases side <;> decide
  only := by
    intro side other apart
    cases side <;> cases other <;> simp_all [Side.other]
  dials := fun side => rfl
  somewhere := fun side => SockAddr.inet_ne_zero port (ip side)
  distinct := by
    intro first second same
    have equal : ip first = ip second := SockAddr.inet_injective same
    cases first <;> cases second
    · rfl
    · exact (apart equal).elim
    · exact (apart equal.symm).elim
    · rfl

theorem differ_iff (ip : Side → UInt32) (rand : Side → Nat × Nat) :
    (∀ side : Side, (parties (pair ip rand)).key side ≠ (parties (pair ip rand)).key side.other) ↔
      ¬SameKey rand := by
  have key (side : Side) : (parties (pair ip rand)).key side =
      (generateKey (rand side).1, generateKey (rand side).2) := rfl
  constructor
  · rintro differ ⟨first, second⟩
    apply differ .a
    rw [key, key, Side.other, first, second]
  · intro differ side same
    rw [key, key, Prod.mk.injEq] at same
    cases side with
    | a => exact differ same
    | b => exact differ ⟨same.1.symm, same.2.symm⟩

theorem pair_conAddr (ip : Side → UInt32) (rand : Side → Nat × Nat) (side : Side) :
    (pair ip rand side).conAddr = (pair ip rand side.other).myAddr := rfl

theorem pair_myAddr_ne (ip : Side → UInt32) (rand : Side → Nat × Nat) (side : Side) :
    (pair ip rand side).myAddr ≠ SockAddr.zero := SockAddr.inet_ne_zero port (ip side)

theorem pair_answer (ip : Side → UInt32) (rand : Side → Nat × Nat) (side : Side) :
    (keySend (pair ip rand side).myKey).a ^^^ (keySend (pair ip rand side).myKey).b =
      (pair ip rand side).myAnswer := by
  rw [(keySend_key _).1, (keySend_key _).2]
  rfl

/-- Both keys cross, then both answers, then both CONNECTEDs. -/
def handshake : List (Network.Event Side MainStep) :=
  [.input .a .key, .input .b .key, .deliver 0 .b, .deliver 0 .a, .deliver 0 .a, .deliver 0 .b,
    .deliver 0 .b, .deliver 0 .a]

/-- With different keys the handshake can be completed. -/
theorem handshake_run (ip : Side → UInt32) {rand : Side → Nat × Nat} (differ : ¬SameKey rand) :
    ∃ state, Run.run (Network.step (network (pair ip rand))) (Network.start Globals.initial) handshake =
        some state ∧
      (∀ side : Side, state.locals side = ⟨(pair ip rand side.other).myAddr, 1⟩) ∧ state.inFlight = [] := by
  have foreign : ¬((pair ip rand .a).myKey.a = (pair ip rand .b).myKey.a ∧
      (pair ip rand .a).myKey.b = (pair ip rand .b).myKey.b) := differ
  have foreign' : ¬((pair ip rand .b).myKey.a = (pair ip rand .a).myKey.a ∧
      (pair ip rand .b).myKey.b = (pair ip rand .a).myKey.b) :=
    fun same => differ ⟨same.1.symm, same.2.symm⟩
  simp only [handshake, Run.run, Network.step, Network.start, Network.State.act, Network.State.remove,
    network, main, Globals.initial, Globals.perform, recLoop_keySend, recLoop_solvedSend,
    recLoop_connectedSend, foreign, foreign', pair_conAddr, Side.other, pair_myAddr_ne, pair_answer,
    packets_sendto, packets_nil, packets_setFinAddr, Nat.reduceLT, if_true, if_false, ne_eq,
    not_false_eq_true, decide_true, reduceCtorEq, Option.map_some, Option.bind_some, List.filter_cons,
    List.filter_nil, List.nil_append, List.cons_append, List.getElem?_cons_zero, List.eraseIdx_zero,
    List.tail_cons, List.foldl_cons, List.foldl_nil, List.map_cons, List.map_nil]
  refine ⟨_, rfl, ?_, rfl⟩
  intro side
  cases side <;> rfl

/-- Both keys cross. -/
def keysCross : List (Network.Event Side MainStep) :=
  [.input .a .key, .input .b .key, .deliver 0 .b, .deliver 0 .a]

/-- With one key each side takes the other's for its own, and nothing follows. -/
theorem keysCross_run (ip : Side → UInt32) {rand : Side → Nat × Nat} (same : SameKey rand) :
    ∃ state, Run.run (Network.step (network (pair ip rand))) (Network.start Globals.initial) keysCross =
        some state ∧
      (∀ side : Side, state.locals side = ⟨SockAddr.zero, 1⟩) ∧ state.inFlight = [] := by
  have own : (pair ip rand .a).myKey.a = (pair ip rand .b).myKey.a ∧
      (pair ip rand .a).myKey.b = (pair ip rand .b).myKey.b := same
  simp only [keysCross, Run.run, Network.step, Network.start, Network.State.act, Network.State.remove,
    network, main, Globals.initial, recLoop_keySend, own, pair_conAddr, Side.other, pair_myAddr_ne,
    packets_sendto, packets_nil, Nat.reduceLT, if_true, if_false, ne_eq, not_false_eq_true, decide_true,
    reduceCtorEq, Option.map_some, Option.bind_some, List.filter_cons, List.filter_nil, List.nil_append,
    List.cons_append, List.getElem?_cons_zero, List.eraseIdx_zero, List.tail_cons,
    List.foldl_nil, List.map_cons, List.map_nil, and_self]
  refine ⟨_, rfl, ?_, rfl⟩
  intro side
  cases side <;> rfl

/-- Two hosts, 10.0.0.1 and 10.0.0.2, that drew different numbers or the same. -/
def hosts : Side → UInt32
  | .a => 0x0100000a
  | .b => 0x0200000a

def drawnApart : Side → Nat × Nat
  | .a => (1804289383, 846930886)
  | .b => (1505335290, 1738766719)

def drawnTogether : Side → Nat × Nat := fun _ => (1804289383, 846930886)

end HamachiLike.Client

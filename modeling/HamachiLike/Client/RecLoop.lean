import HamachiLike.Client.Send
import HamachiLike.Socket

/-! The two threads of client.cpp after its setup: one step is one iteration of
`recLoop`, one KEY or one typed line of `main`. What is printed is left out. -/

namespace HamachiLike.Client

open LittleEndian

def port : UInt16 := 8080

/-- The globals that the setup in `main` fixes. -/
structure Config where
  myAddr : SockAddr
  myKey : Key
  myAnswer : UInt32
  conAddr : SockAddr
  solved : myAnswer = myKey.a ^^^ myKey.b

/-- `rand() % 256 * 256 * 256 * 256` of a drawn number. -/
def generateKey (rand : Nat) : UInt32 := UInt32.ofNat (rand % 256 * 256 * 256 * 256)

/-- The setup: the host's own address, two drawn numbers and the dialled address. -/
def Config.setup (myIP : UInt32) (rand₁ rand₂ : Nat) (ip : UInt32) : Config where
  myAddr := SockAddr.inet port myIP
  myKey := ⟨0, generateKey rand₁, generateKey rand₂, 0⟩
  myAnswer := generateKey rand₁ ^^^ generateKey rand₂
  conAddr := SockAddr.inet port ip
  solved := rfl

/-- What the threads go on to change: the peer and the loop index of `main`. -/
structure Globals where
  finAddr : SockAddr
  index : Nat

def Globals.initial : Globals := ⟨SockAddr.zero, 0⟩

inductive Action
  | sendto (send : Send) (dest : SockAddr)
  | setFinAddr (addr : SockAddr)
  deriving DecidableEq

/-- One iteration of `recLoop` on a datagram received from `recAddr`. -/
def recLoop (client : Config) (recAddr : SockAddr) (datagram : List UInt8) : List Action :=
  let send := Send.recvfrom datagram
  if send.type = Kind.key then
    let send := solvedSend send
    if send.a = client.myKey.a ∧ send.b = client.myKey.b ∧ send.c = client.myAnswer then []
    else [.sendto send recAddr]
  else if send.type = Kind.keySolved then
    if send.c = client.myAnswer then [.setFinAddr recAddr, .sendto connectedSend recAddr]
    else []
  else if send.type = Kind.connected then [.setFinAddr recAddr]
  else if send.type = Kind.message then [.setFinAddr recAddr]
  else []

/-- A step of `main`: one of its five KEYs, or a typed line after them. -/
inductive MainStep
  | key
  | line (input : List UInt8)
  deriving DecidableEq

def main (client : Config) (globals : Globals) : MainStep → Option (Globals × List Action)
  | .key =>
    if globals.index < 5 then
      some ({ globals with index := globals.index + 1 },
        [.sendto (keySend client.myKey) client.conAddr])
    else none
  | .line input =>
    -- a negative count is a huge `size_t` to `memcpy`, and nothing is sent any more
    if globals.index = 5 ∧ 0 ≤ textCount input then
      some (globals, [.sendto (messageSend input) globals.finAddr])
    else none

/-- The globals after an action. -/
def Globals.perform (globals : Globals) : Action → Globals
  | .sendto _ _ => globals
  | .setFinAddr addr => { globals with finAddr := addr }

/-- What a client can take part in: its own `main`, and any datagram from anywhere. -/
inductive Event
  | main (step : MainStep)
  | receive (recAddr : SockAddr) (datagram : List UInt8)
  deriving DecidableEq

def step (client : Config) (globals : Globals) : Event → Option (Globals × List Action)
  | .main given => main client globals given
  | .receive recAddr datagram =>
    let actions := recLoop client recAddr datagram
    some (actions.foldl Globals.perform globals, actions)

variable {client : Config} {recAddr : SockAddr} {datagram : List UInt8}

/-- All that `main` can do. -/
theorem main_cases {globals after : Globals} {given : MainStep} {actions : List Action}
    (done : main client globals given = some (after, actions)) :
    (given = .key ∧ globals.index < 5 ∧ after = { globals with index := globals.index + 1 } ∧
      actions = [.sendto (keySend client.myKey) client.conAddr]) ∨
    ∃ input, given = .line input ∧ (globals.index = 5 ∧ 0 ≤ textCount input) ∧ after = globals ∧
      actions = [.sendto (messageSend input) globals.finAddr] := by
  cases given with
  | key =>
    obtain ⟨early, same⟩ := Option.ite_none_right_eq_some.mp done
    obtain ⟨rfl, rfl⟩ := Prod.mk.inj (Option.some.inj same)
    exact .inl ⟨rfl, early, rfl, rfl⟩
  | line input =>
    obtain ⟨typed, same⟩ := Option.ite_none_right_eq_some.mp done
    obtain ⟨rfl, rfl⟩ := Prod.mk.inj (Option.some.inj same)
    exact .inr ⟨input, rfl, typed, rfl, rfl⟩

/-- The own-key test reads the key as it arrived; the answer then agrees by itself. -/
theorem echo_iff (send : Send) :
    ((solvedSend send).a = client.myKey.a ∧ (solvedSend send).b = client.myKey.b ∧
      (solvedSend send).c = client.myAnswer) ↔
    send.a = client.myKey.a ∧ send.b = client.myKey.b := by
  rw [a_solvedSend, b_solvedSend, c_solvedSend, client.solved]
  constructor
  · rintro ⟨first, second, _⟩
    exact ⟨first, second⟩
  · rintro ⟨first, second⟩
    exact ⟨first, second, by rw [first, second]⟩

/-- Which datagrams make a client take their sender as its peer. -/
theorem setFinAddr_mem_recLoop {addr : SockAddr} :
    .setFinAddr addr ∈ recLoop client recAddr datagram ↔
      addr = recAddr ∧
        ((Send.recvfrom datagram).type = Kind.keySolved ∧ (Send.recvfrom datagram).c = client.myAnswer ∨
          (Send.recvfrom datagram).type = Kind.connected ∨ (Send.recvfrom datagram).type = Kind.message) := by
  have distinct := types_distinct
  simp only [recLoop, echo_iff]
  split_ifs with key echo solved right connected message <;> simp [*]

/-- Which datagrams a client answers with a KEY_SOLVED. -/
theorem solved_mem_recLoop {addr : SockAddr} :
    (∃ send, .sendto send addr ∈ recLoop client recAddr datagram ∧ send.type = Kind.keySolved) ↔
      addr = recAddr ∧ (Send.recvfrom datagram).type = Kind.key ∧
        ¬((Send.recvfrom datagram).a = client.myKey.a ∧ (Send.recvfrom datagram).b = client.myKey.b) := by
  obtain ⟨keySolved, keyConnected, keyMessage, solvedConnected, _⟩ := types_distinct
  simp only [recLoop, echo_iff]
  split_ifs with key echo solved right connected message <;>
    simp [*, type_solvedSend, type_connectedSend, keySolved.symm, keyConnected.symm, keyMessage.symm,
      solvedConnected.symm]

/-! What the datagrams of another client do. -/

theorem recLoop_keySend (client : Config) (recAddr : SockAddr) (key : Key) :
    recLoop client recAddr (keySend key).bytes =
      if key.a = client.myKey.a ∧ key.b = client.myKey.b then []
      else [.sendto (solvedSend (keySend key)) recAddr] := by
  obtain ⟨first, second⟩ := keySend_key key
  simp only [recLoop, Send.recvfrom_bytes, if_pos (type_keySend key), echo_iff, first, second]

theorem recLoop_solvedSend (client : Config) (recAddr : SockAddr) (send : Send) :
    recLoop client recAddr (solvedSend send).bytes =
      if send.a ^^^ send.b = client.myAnswer then [.setFinAddr recAddr, .sendto connectedSend recAddr]
      else [] := by
  have notKey : ¬Kind.keySolved = Kind.key := by decide
  simp only [recLoop, Send.recvfrom_bytes, type_solvedSend, if_neg notKey, if_true, c_solvedSend]

theorem recLoop_connectedSend (client : Config) (recAddr : SockAddr) :
    recLoop client recAddr connectedSend.bytes = [.setFinAddr recAddr] := by
  have notKey : ¬Kind.connected = Kind.key := by decide
  have notSolved : ¬Kind.connected = Kind.keySolved := by decide
  simp only [recLoop, Send.recvfrom_bytes, type_connectedSend, if_neg notKey, if_neg notSolved, if_true]

end HamachiLike.Client

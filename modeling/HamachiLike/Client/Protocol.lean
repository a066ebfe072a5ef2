import HamachiLike.Library.Network

/-! What the clients are meant to do, without bytes: each sends its key to the
host it dials, a key is answered by its solution, a right answer or anything later
makes its sender the peer, and lines go to the peer. -/

namespace HamachiLike.Client.Protocol

universe u

inductive Msg (Key Answer Text : Type u)
  | key (given : Key)
  | solved (answer : Answer)
  | connected
  | message (text : Text)
  | other

structure Datagram (Addr Key Answer Text : Type u) where
  source : Addr
  dest : Addr
  msg : Msg Key Answer Text

/-- Where each client is, whom it dials and which key it draws. -/
structure Parties (Node Addr Key Answer : Type u) where
  addr : Node → Addr
  con : Node → Addr
  key : Node → Key
  solve : Key → Answer
  nowhere : Addr

/-- The peer of a client, and how many keys it has sent. -/
structure Peer (Addr : Type u) where
  fin : Addr
  keys : Nat

inductive Input (Text : Type u)
  | key
  | line (text : Text)

variable {Node Addr Key Answer Text : Type u}

def input (parties : Parties Node Addr Key Answer) (node : Node) (peer : Peer Addr) :
    Input Text → Option (Peer Addr × List (Datagram Addr Key Answer Text))
  | .key =>
    some ({ peer with keys := peer.keys + 1 },
      [⟨parties.addr node, parties.con node, .key (parties.key node)⟩])
  | .line text => some (peer, [⟨parties.addr node, peer.fin, .message text⟩])

def receive [DecidableEq Key] [DecidableEq Answer] (parties : Parties Node Addr Key Answer) (node : Node)
    (peer : Peer Addr) (datagram : Datagram Addr Key Answer Text) :
    Peer Addr × List (Datagram Addr Key Answer Text) :=
  match datagram.msg with
  | .key given =>
    if given = parties.key node then (peer, [])
    else (peer, [⟨parties.addr node, datagram.source, .solved (parties.solve given)⟩])
  | .solved answer =>
    if answer = parties.solve (parties.key node) then
      ({ peer with fin := datagram.source }, [⟨parties.addr node, datagram.source, .connected⟩])
    else (peer, [])
  | .connected => ({ peer with fin := datagram.source }, [])
  | .message _ => ({ peer with fin := datagram.source }, [])
  | .other => (peer, [])

def system [DecidableEq Key] [DecidableEq Answer] (Text : Type u)
    (parties : Parties Node Addr Key Answer) :
    Network.System Node Addr (Datagram Addr Key Answer Text) (Peer Addr) (Input Text) where
  addr := parties.addr
  dest := Datagram.dest
  nowhere := parties.nowhere
  input := input parties
  receive := receive parties

variable (parties : Parties Node Addr Key Answer)

def Peer.initial : Peer Addr := ⟨parties.nowhere, 0⟩

/-- Two clients one of which dials the other. -/
def Dialled (node other : Node) : Prop :=
  node ≠ other ∧ (parties.con node = parties.addr other ∨ parties.con other = parties.addr node)

variable {parties}

theorem Dialled.symm {node other : Node} (dialled : Dialled parties node other) :
    Dialled parties other node := ⟨dialled.1.symm, dialled.2.symm⟩

/-- A client has no peer, or one that it dialled or that dialled it. -/
def PeerDialled (parties : Parties Node Addr Key Answer) (node : Node) (peer : Peer Addr) : Prop :=
  peer.fin = parties.nowhere ∨ ∃ other, Dialled parties node other ∧ peer.fin = parties.addr other

/-- What can be in flight: keys to the dialled host, and all else between two
clients one of which dials the other. -/
inductive Genuine (parties : Parties Node Addr Key Answer) : Datagram Addr Key Answer Text → Prop
  | key (node : Node) :
    Genuine parties ⟨parties.addr node, parties.con node, .key (parties.key node)⟩
  | later {node other : Node} {msg : Msg Key Answer Text} (dialled : Dialled parties node other)
      (notKey : ∀ given, msg ≠ .key given) :
    Genuine parties ⟨parties.addr node, parties.addr other, msg⟩

/-- Who can have sent what reaches a client. -/
theorem Genuine.reaching {node : Node} {datagram : Datagram Addr Key Answer Text}
    (distinct : Function.Injective parties.addr) (genuine : Genuine parties datagram)
    (reached : datagram.dest = parties.addr node) :
    ∃ other, datagram.source = parties.addr other ∧
      (datagram.msg = .key (parties.key other) ∧ parties.con other = parties.addr node ∨
        Dialled parties node other ∧ ∀ given, datagram.msg ≠ .key given) := by
  cases genuine with
  | key other => exact ⟨other, rfl, .inl ⟨rfl, reached⟩⟩
  | @later other node' msg dialled notKey =>
    obtain rfl := distinct reached
    exact ⟨other, rfl, .inr ⟨dialled.symm, notKey⟩⟩

private theorem respects_input {node : Node} {before after : Peer Addr} {given : Input Text}
    {sends : List (Datagram Addr Key Answer Text)} (peer : PeerDialled parties node before)
    (accepted : input parties node before given = some (after, sends)) :
    PeerDialled parties node after ∧
      ∀ datagram ∈ sends, datagram.dest ≠ parties.nowhere → Genuine parties datagram := by
  cases given with
  | key =>
    obtain ⟨rfl, rfl⟩ := Prod.mk.inj (Option.some.inj accepted)
    refine ⟨peer, ?_⟩
    intro datagram member _
    obtain rfl := List.mem_singleton.mp member
    exact .key node
  | line text =>
    obtain ⟨rfl, rfl⟩ := Prod.mk.inj (Option.some.inj accepted)
    refine ⟨peer, ?_⟩
    intro datagram member somewhere
    obtain rfl := List.mem_singleton.mp member
    rcases peer with none | ⟨other, dialled, same⟩
    · exact (somewhere none).elim
    · rw [same]
      exact .later dialled fun _ => by simp

variable [DecidableEq Key] [DecidableEq Answer]

private theorem respects_receive (distinct : Function.Injective parties.addr) {node : Node}
    {before : Peer Addr} {datagram : Datagram Addr Key Answer Text}
    (peer : PeerDialled parties node before) (genuine : Genuine parties datagram)
    (reached : datagram.dest = parties.addr node) :
    PeerDialled parties node (receive parties node before datagram).1 ∧
      ∀ reply ∈ (receive parties node before datagram).2,
        reply.dest ≠ parties.nowhere → Genuine parties reply := by
  obtain ⟨other, sender, which⟩ := genuine.reaching distinct reached
  obtain ⟨source, dest, msg⟩ := datagram
  simp only at sender which
  subst sender
  rcases which with ⟨rfl, dials⟩ | ⟨dialled, notKey⟩
  · by_cases own : parties.key other = parties.key node
    · simp [receive, own, peer]
    · have apart : node ≠ other := fun same => own (same ▸ rfl)
      simp only [receive, if_neg own, List.mem_singleton, forall_eq]
      exact ⟨peer, fun _ => .later ⟨apart, .inr dials⟩ fun _ => by simp⟩
  · have found : ∀ keys, PeerDialled parties node ⟨parties.addr other, keys⟩ :=
      fun _ => .inr ⟨other, dialled, rfl⟩
    cases msg with
    | key given => exact (notKey given rfl).elim
    | solved answer =>
      by_cases right : answer = parties.solve (parties.key node)
      · simp only [receive, if_pos right, List.mem_singleton, forall_eq]
        exact ⟨found _, fun _ => .later dialled fun _ => by simp⟩
      · simp [receive, right, peer]
    | connected => exact ⟨found _, by simp [receive]⟩
    | message text => exact ⟨found _, by simp [receive]⟩
    | other => exact ⟨peer, by simp [receive]⟩

theorem respects (distinct : Function.Injective parties.addr) :
    Network.Respects (system Text parties) (PeerDialled parties) (Genuine parties) where
  input := fun _ _ _ _ _ peer accepted => respects_input peer accepted
  receive := fun _ _ _ peer genuine reached => respects_receive distinct peer genuine reached

/-- What a datagram can still set off: a key its answer and a CONNECTED. -/
def weight (datagram : Datagram Addr Key Answer Text) : Nat :=
  match datagram.msg with
  | .key _ => 2
  | .solved _ => 1
  | _ => 0

theorem dissipates (node : Node) (before : Peer Addr) (datagram : Datagram Addr Key Answer Text) :
    Network.weights (fun reply => weight reply + 1) (receive parties node before datagram).2 ≤
      weight datagram := by
  obtain ⟨source, dest, msg⟩ := datagram
  cases msg with
  | key given =>
    by_cases own : given = parties.key node
    · simp [receive, own, weight, Network.weights]
    · simp [receive, own, weight, Network.weights]
  | solved answer =>
    by_cases right : answer = parties.solve (parties.key node)
    · simp [receive, right, weight, Network.weights]
    · simp [receive, right, weight, Network.weights]
  | connected => simp [receive, weight, Network.weights]
  | message text => simp [receive, weight, Network.weights]
  | other => simp [receive, weight, Network.weights]

end HamachiLike.Client.Protocol

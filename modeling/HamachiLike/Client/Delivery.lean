import HamachiLike.Client.Network
import HamachiLike.Client.Text
import HamachiLike.Library.Balance
import Mathlib.Data.Multiset.OrderedMonoid

/-! What the clients print: the lines that other clients have typed, none of them more
often than the network copies it. -/

namespace HamachiLike.Client

variable {Node : Type}

variable [DecidableEq Node]

/-- A text with the address that it is shown with and the address that it is sent to. -/
structure Line where
  source : SockAddr
  dest : SockAddr
  text : Send.Printed

variable (clients : Node → Config) {state next : Network.State Node Packet Globals}
  {events : List (Network.Event Node MainStep)}

/-- A line that a client with a peer types, up to its 512th byte or first zero. Without a
peer it goes to the address zero. -/
def typed (state : Network.State Node Packet Globals) : Network.Event Node MainStep → Multiset Line
  | .input node (.line input) =>
    if (state.locals node).finAddr = SockAddr.zero then 0
    else {⟨(clients node).myAddr, (state.locals node).finAddr, .text (CString.chars (input.take 512))⟩}
  | _ => 0

/-- What the iteration for a datagram prints. What the union held before does not matter. -/
def shown (state : Network.State Node Packet Globals) : Network.Event Node MainStep → Multiset Line
  | .deliver index node =>
    state.inFlight[index]?.elim 0 fun packet =>
      ((iteration (clients node) Send.new packet.source packet.datagram).2.2.map fun text =>
        Line.mk packet.source (clients node).myAddr text : List Line)
  | _ => 0

variable {clients}

end HamachiLike.Client

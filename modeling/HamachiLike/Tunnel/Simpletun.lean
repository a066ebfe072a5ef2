import HamachiLike.Library.Buffer
import HamachiLike.Library.Framing
import HamachiLike.Library.Duplex
import HamachiLike.Socket

/-! The tunnel of simpletun.cpp: `read_n` and the loop of `main`, which carries the
packets of a tun interface over a TCP connection. -/

namespace HamachiLike.Tunnel

open LittleEndian Buffer Framing Program

def bufsize : Nat := 2000

/-- `tap_fd` and `net_fd`. -/
inductive Fd
  | tap
  | net
  deriving DecidableEq

inductive Selected
  | ready (tap net : Bool)
  | interrupted
  | failed

/-- The calls that the loop makes. After `exit`, and after a read that has stored
past the end of its buffer, nothing more is said. -/
inductive Call
  | select
  | read (fd : Fd) (n : Nat)
  | write (fd : Fd) (data : List UInt8)
  | exit
  | overrun
  deriving DecidableEq

/-- What the calls return, `none` for `-1`. -/
def Reply : Call → Type
  | .select => Selected
  | .read _ _ => Option (List UInt8)
  | .write _ _ => Option Nat
  | .exit => Empty
  | .overrun => Empty

abbrev Prog := Program Call Reply

variable {size : Nat}

def exit {α : Type} : Prog α := .call .exit Empty.elim

def overrun {α : Type} : Prog α := .call .overrun Empty.elim

/-- `cread` at the place `off` of a buffer. -/
def cread (fd : Fd) (buf : Cells UInt8 size) (off n : Nat) : Prog (Nat × Cells UInt8 size) := do
  match ← (perform (Call.read fd n) : Prog (Option (List UInt8))) with
  | none => exit
  | some data => if off + data.length ≤ size then pure (data.length, buf.put off data) else overrun

def cwrite (fd : Fd) (data : List UInt8) : Prog Nat := do
  match ← (perform (Call.write fd data) : Prog (Option Nat)) with
  | none => exit
  | some nwrite => pure nwrite

/-- The loop of `read_n`, which has come to the place `off` with `left` bytes to go. -/
def readLeft (fd : Fd) (n : Nat) (buf : Cells UInt8 size) (off left : Nat) : Prog (Nat × Cells UInt8 size) :=
  if left = 0 then pure (n, buf)
  else do
    let (nread, buf) ← cread fd buf off left
    if nread = 0 then pure (0, buf) else readLeft fd n buf (off + nread) (left - nread)
termination_by left

def readN (fd : Fd) (buf : Cells UInt8 size) (n : Nat) :
    Prog (Nat × Cells UInt8 size) := readLeft fd n buf 0 n

/-- The variables of `main` that outlive a round of the loop. -/
structure Locals where
  plength : Cells UInt8 2
  buffer : Cells UInt8 bufsize
  tap2net : UInt64
  net2tap : UInt64

/-- A `uint16_t` as it stands in memory. -/
def short (value : UInt16) : Cells UInt8 2 := ⟨toBytes 2 value.toNat, length_toBytes _ _⟩

def ntohs (plength : Cells UInt8 2) : UInt16 := swap16 (UInt16.ofNat (ofBytes plength.cells))

/-- Data from the tun interface go to the network. -/
def tapToNet (main : Locals) : Prog Locals := do
  let (count, buffer) ← cread .tap main.buffer 0 bufsize
  let nread := UInt16.ofNat count
  let plength := short (htons nread)
  let _ ← cwrite .net plength.cells
  let _ ← cwrite .net (buffer.first nread.toNat)
  pure { main with plength := plength, buffer := buffer, tap2net := main.tap2net + 1 }

/-- The packet that `plength` announces goes to the tun interface. -/
def packetToTap (main : Locals) : Prog Locals := do
  let (count, buffer) ← readN .net main.buffer (ntohs main.plength).toNat
  let nread := UInt16.ofNat count
  let _ ← cwrite .tap (buffer.first nread.toNat)
  pure { main with buffer := buffer }

/-- Data from the network go to the tun interface. The loop ends where the other end
has closed the connection. -/
def netToTap (main : Locals) : Prog (Locals ⊕ Unit) := do
  let (count, plength) ← readN .net main.plength 2
  if UInt16.ofNat count = 0 then pure (.inr ())
  else
    let main ← packetToTap { main with plength := plength, net2tap := main.net2tap + 1 }
    pure (.inl main)

/-- One round of `while(1)`. -/
def round (main : Locals) : Prog (Locals ⊕ Unit) := do
  match ← (perform Call.select : Prog Selected) with
  | .interrupted => pure (.inl main)
  | .failed => exit
  | .ready tap net =>
    let main ← if tap then tapToNet main else pure main
    if net then netToTap main else pure (.inl main)

/-- What has passed through an end of the tunnel. `short` says that a write to the
network was not complete, `ended` that a read has found the end of the stream, and
`promised` that `select` has found data from the network that are not read yet. -/
structure Log where
  tapReads : List (List UInt8)
  netWritten : List UInt8
  netRead : List UInt8
  tapWrites : List (List UInt8)
  short : Bool
  ended : Bool
  promised : Bool

namespace Log

def empty : Log := ⟨[], [], [], [], false, false, false⟩

def note (log : Log) : (made : Call) → Reply made → Log
  | .select, .ready _ net => { log with promised := net || log.promised }
  | .read .tap _, some data => { log with tapReads := log.tapReads ++ [data] }
  | .read .net _, some data =>
    { log with
      netRead := log.netRead ++ data
      ended := log.ended || data.isEmpty
      promised := false }
  | .write .net data, some count =>
    { log with
      netWritten := log.netWritten ++ data.take count
      short := log.short || decide (count < data.length) }
  | .write .tap data, some _ => { log with tapWrites := log.tapWrites ++ [data] }
  | _, _ => log

end Log

/-- No read returns more than it is asked for, and no write takes more than it is given. -/
def allows : (made : Call) → Reply made → Bool
  | .read _ n, some data => decide (data.length ≤ n)
  | .write _ data, some count => decide (count ≤ data.length)
  | _, _ => true

def taken : (made : Call) → Reply made → List UInt8
  | .read .net _, some data => data
  | _, _ => []

def given : (made : Call) → Reply made → List UInt8
  | .write .net data, some count => data.take count
  | _, _ => []

def findsEnd : (made : Call) → Reply made → Bool
  | .read .net _, some data => data.isEmpty
  | _, _ => false

def promises : (made : Call) → Reply made → Bool
  | .select, .ready _ net => net
  | _, _ => false

/-- The TCP connection between the ends. -/
def link : Duplex.Link Call Reply Log UInt8 where
  contract := { allows := fun _ => allows, note := Log.note }
  takes := taken
  gives := given
  findsEnd := findsEnd
  promises := promises
  received := Log.netRead
  sent := Log.netWritten
  ended := Log.ended
  promised := Log.promised
  received_note := by
    intro log made reply
    rcases made with _ | ⟨_ | _, n⟩ | ⟨_ | _, data⟩ | _ | _ <;> cases reply <;> simp [Log.note, taken]
  sent_note := by
    intro log made reply
    rcases made with _ | ⟨_ | _, n⟩ | ⟨_ | _, data⟩ | _ | _ <;> cases reply <;> simp [Log.note, given]
  ended_note := by
    intro log made reply
    rcases made with _ | ⟨_ | _, n⟩ | ⟨_ | _, data⟩ | _ | _ <;> cases reply <;> simp [Log.note, findsEnd]
  promised_note := by
    intro log made reply
    rcases made with _ | ⟨_ | _, n⟩ | ⟨_ | _, data⟩ | _ | _ <;> cases reply <;>
      simp [Log.note, taken, promises]

end HamachiLike.Tunnel

import HamachiLike.Library.Buffer
import HamachiLike.Library.LittleEndian

/-! The datagrams of client.cpp: `union Send`, of which every send and every
receive moves all 516 bytes. -/

namespace HamachiLike.Client

open Buffer LittleEndian

namespace Kind
def key : UInt8 := 1
def keySolved : UInt8 := 2
def connected : UInt8 := 3
def message : UInt8 := 4
end Kind

theorem types_distinct : Kind.key ≠ Kind.keySolved ∧ Kind.key ≠ Kind.connected ∧ Kind.key ≠ Kind.message ∧
    Kind.keySolved ≠ Kind.connected ∧ Kind.keySolved ≠ Kind.message ∧
    Kind.connected ≠ Kind.message := by decide

/-- `struct Key`: a char, three bytes of padding, three ints. -/
structure Key where
  type : UInt8
  a : UInt32
  b : UInt32
  c : UInt32
  deriving DecidableEq

def Key.bytes (key : Key) : List UInt8 :=
  [key.type, 0, 0, 0] ++ toBytes 4 key.a.toNat ++ toBytes 4 key.b.toNat ++ toBytes 4 key.c.toNat

@[ext] structure Send where
  bytes : List UInt8
  size : bytes.length = 516
  deriving DecidableEq

namespace Send

/-- The constructor clears the whole union. -/
def new : Send := ⟨List.replicate 516 0, List.length_replicate⟩

def put (send : Send) (off : Nat) (data : List UInt8) : Send :=
  ⟨writeAt send.bytes off data, by rw [length_writeAt, send.size]⟩

theorem bytes_put (send : Send) (off : Nat) (data : List UInt8) :
    (send.put off data).bytes = writeAt send.bytes off data := rfl

def int (send : Send) (off : Nat) : UInt32 := UInt32.ofNat (ofBytes (slice send.bytes off 4))

def type (send : Send) : UInt8 := UInt8.ofNat (ofBytes (slice send.bytes 0 1))
def a (send : Send) : UInt32 := send.int 4
def b (send : Send) : UInt32 := send.int 8
def c (send : Send) : UInt32 := send.int 12

/-- `message.text`, 512 chars. -/
def text (send : Send) : List UInt8 := slice send.bytes 1 512

def setType (send : Send) (type : UInt8) : Send := send.put 0 [type]
def setC (send : Send) (c : UInt32) : Send := send.put 12 (toBytes 4 c.toNat)

/-- `memset` and `recvfrom`: a short datagram leaves zeros behind it, of a long
one only the first bytes arrive. -/
def recvfrom (datagram : List UInt8) : Send := new.put 0 (datagram.take 516)

variable (send : Send)

/-- What was sent is received. -/
theorem recvfrom_bytes : recvfrom send.bytes = send := by
  have size := send.size
  have written := @slice_writeAt_same _ new.bytes send.bytes 0 (by rw [new.size]; omega)
  have all := (recvfrom send.bytes).size
  ext1
  rw [← slice_all (Nat.le_of_eq all), recvfrom, put, List.take_of_length_le (by omega), ← size]
  exact written

theorem head_bytes : send.bytes.head? = some send.type := by
  obtain ⟨_ | ⟨byte, rest⟩, size⟩ := send
  · cases size
  · simp [type, slice, ofBytes]

@[simp] theorem type_setType (type : UInt8) : (send.setType type).type = type := by
  have written := @slice_writeAt_same _ send.bytes [type] 0 (by simp [send.size])
  rw [Send.type, setType, put]
  simp only [List.length_singleton] at written
  simp [written, ofBytes]

@[simp] theorem int_setType (type : UInt8) {off : Nat} (behind : 1 ≤ off) :
    (send.setType type).int off = send.int off := by
  rw [int, setType, put, slice_writeAt_outside (by simp; omega), ← int]

@[simp] theorem type_setC (c : UInt32) : (send.setC c).type = send.type := by
  rw [type, setC, put, slice_writeAt_outside (by simp), ← type]

@[simp] theorem int_setC (c : UInt32) {off : Nat} (before : off + 4 ≤ 12) :
    (send.setC c).int off = send.int off := by
  rw [int, setC, put, slice_writeAt_outside (by omega), ← int]

@[simp] theorem c_setC (c : UInt32) : (send.setC c).c = c := by
  have size := send.size
  have written := @slice_writeAt_same _ send.bytes (toBytes 4 c.toNat) 12 (by simp [size])
  rw [length_toBytes] at written
  rw [Send.c, int, setC, put, written, ofBytes_toBytes_of_lt c.toNat_lt, UInt32.ofNat_toNat]

end Send

/-- The datagram that `main` sends five times. -/
def keySend (myKey : Key) : Send := (Send.new.put 0 myKey.bytes).setType Kind.key

/-- The answer to a KEY is built in the union it arrived in. -/
def solvedSend (send : Send) : Send := (send.setType Kind.keySolved).setC (send.a ^^^ send.b)

def connectedSend : Send := Send.new.setType Kind.connected

/-- `std::min((int)input.size(), 512)` -/
def textCount (input : List UInt8) : Int := min (asInt input.length) 512

/-- A typed line, cut to that many chars. -/
def messageSend (input : List UInt8) : Send :=
  (Send.new.setType Kind.message).put 1 (input.take (textCount input).toNat)

theorem type_solvedSend (send : Send) : (solvedSend send).type = Kind.keySolved := by
  rw [solvedSend, Send.type_setC, Send.type_setType]

theorem a_solvedSend (send : Send) : (solvedSend send).a = send.a := by
  rw [solvedSend, Send.a, Send.int_setC _ _ (by omega), Send.int_setType _ _ (by omega), Send.a]

theorem b_solvedSend (send : Send) : (solvedSend send).b = send.b := by
  rw [solvedSend, Send.b, Send.int_setC _ _ (by omega), Send.int_setType _ _ (by omega), Send.b]

theorem c_solvedSend (send : Send) : (solvedSend send).c = send.a ^^^ send.b := by
  rw [solvedSend, Send.c_setC]

theorem type_connectedSend : connectedSend.type = Kind.connected := Send.type_setType _ _

theorem type_messageSend (input : List UInt8) : (messageSend input).type = Kind.message := by
  rw [messageSend, Send.type, Send.put, slice_writeAt_outside (by omega), ← Send.type,
    Send.type_setType]

theorem type_keySend (myKey : Key) : (keySend myKey).type = Kind.key := Send.type_setType _ _

/-- A KEY carries both numbers of the key. -/
theorem keySend_key (myKey : Key) : (keySend myKey).a = myKey.a ∧ (keySend myKey).b = myKey.b := by
  have size := Send.new.size
  have long : myKey.bytes.length = 16 := by simp [Key.bytes]
  have first : slice myKey.bytes 4 4 = toBytes 4 myKey.a.toNat := by
    simp (disch := simp) only [Key.bytes, List.append_assoc, slice_append_right, slice_append_left]
    simp [slice_all]
  have second : slice myKey.bytes 8 4 = toBytes 4 myKey.b.toNat := by
    simp (disch := simp) only [Key.bytes, List.append_assoc, slice_append_right, slice_append_left]
    simp [slice_all]
  constructor
  · rw [keySend, Send.a, Send.int_setType _ _ (by omega), Send.int, Send.put,
      slice_writeAt_inside (by omega) (by omega) (by omega), Nat.sub_zero, first,
      ofBytes_toBytes_of_lt myKey.a.toNat_lt, UInt32.ofNat_toNat]
  · rw [keySend, Send.b, Send.int_setType _ _ (by omega), Send.int, Send.put,
      slice_writeAt_inside (by omega) (by omega) (by omega), Nat.sub_zero, second,
      ofBytes_toBytes_of_lt myKey.b.toNat_lt, UInt32.ofNat_toNat]

end HamachiLike.Client

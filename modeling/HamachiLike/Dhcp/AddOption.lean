import HamachiLike.Dhcp.Frame

/-! What `addDhcpOption` leaves in its buffer. The packed struct ends in a pointer,
which is stored over the option's data and the bytes behind it before the data is
copied. -/

namespace HamachiLike.Dhcp

open Buffer LittleEndian

/-- The arguments of a call; at least `length` bytes can be read at `data`. -/
structure OptionArgs where
  option : UInt8
  length : UInt8
  data : List UInt8
  enough : length.toNat ≤ data.length

namespace OptionArgs

variable (args : OptionArgs)

def call : UInt8 × UInt8 × List UInt8 := (args.option, args.length, args.data)

/-- Code, length, data. -/
def encode : List UInt8 := [args.option, args.length] ++ args.data.take args.length.toNat

/-- The number of bytes that the call reports. -/
def size : Nat := 2 + args.length.toNat

@[simp] theorem length_encode : args.encode.length = args.size := by
  have enough := args.enough
  simp [encode, size]
  omega

private theorem size_lt : args.size < 258 := Nat.add_lt_add_left args.length.toNat_lt 2

/-- The bytes of the stored pointer that the data does not cover. -/
def spill (base : UInt64) (start : Nat) : List UInt8 :=
  (toBytes 8 (base + UInt64.ofNat start + 2).toNat).drop args.length.toNat

@[simp] theorem length_spill (base : UInt64) (start : Nat) :
    (args.spill base start).length = 8 - args.length.toNat := by
  simp [spill]

end OptionArgs

variable {base : UInt64} {buf : List UInt8}

/-- The pointer read back for the copy points behind the two header bytes. -/
private theorem pointer_offset {start : Nat} (addressable : start + 2 < 2 ^ 64) :
    (UInt64.ofNat (ofBytes (toBytes 8 (base + UInt64.ofNat start + 2).toNat)) - base).toNat =
      start + 2 := by
  have bound := (base + UInt64.ofNat start + 2).toNat_lt
  rw [ofBytes_toBytes_of_lt bound, UInt64.ofNat_toNat, UInt64.add_assoc,
    UInt64.add_comm base, UInt64.add_sub_cancel, UInt64.toNat_add, UInt64.toNat_ofNat',
    Nat.mod_eq_of_lt (by omega : start < 2 ^ 64), show (2 : UInt64).toNat = 2 from rfl,
    Nat.mod_eq_of_lt addressable]

/-- A call writes its option and, behind a short one, the rest of the pointer. -/
private theorem addDhcpOption_eq {start : Nat} (args : OptionArgs) (header : start + 10 ≤ buf.length)
    (body : start + args.size ≤ buf.length) (addressable : start + 2 < 2 ^ 64) :
    (addDhcpOption base start args.option args.length args.data).run buf =
      some (Int16.ofNat args.size, writeAt buf start (args.encode ++ args.spill base start)) := by
  have pointer : (UInt64.ofNat (ofBytes (toBytes 8 (base + UInt64.ofNat start + 2).toNat)) - base).toNat =
    start + 2 := pointer_offset addressable
  have enough := args.enough
  rw [OptionArgs.size] at body
  have copied : (args.data.take args.length.toNat).length = args.length.toNat := by simp [enough]
  have block : [args.option] ++ [args.length] ++ args.data.take args.length.toNat ++
      (toBytes 8 (base + UInt64.ofNat start + 2).toNat).drop
        (start + ([args.option] ++ [args.length] ++ args.data.take args.length.toNat).length -
          (start + 2)) = args.encode ++ args.spill base start := by
    have covered : start + ([args.option] ++ [args.length] ++ args.data.take args.length.toNat).length -
        (start + 2) = args.length.toNat := by
      simp only [List.length_append, List.length_singleton, copied]
      omega
    rw [covered]
    rfl
  simp only [addDhcpOption, putByte, DhcpOptionHdr.option, DhcpOptionHdr.length, DhcpOptionHdr.data,
    Nat.add_zero, memcpy_eq _ enough]
  rw [run_store_bind (by simp; omega), run_store_bind (by simp; omega),
    run_store_adjacent (by simp) (by simp; omega)]
  have kept : slice (writeAt (writeAt buf (start + 2)
        (toBytes 8 (base + UInt64.ofNat start + 2).toNat))
      start ([args.option] ++ [args.length])) (start + 2) 8 =
      toBytes 8 (base + UInt64.ofNat start + 2).toNat := by
    rw [slice_writeAt_outside (by simp)]
    exact slice_writeAt_same (by simp; omega)
  rw [run_load_bind (by simp; omega), kept, pointer, run_store_bind (by simp [copied]; omega),
    writeAt_adjacent (by simp), writeAt_over (by omega) (by simp), block, StateT.run_pure]
  rfl

/-- Without room for the struct the call leaves its buffer. -/
private theorem addDhcpOption_none {start : Nat} (args : OptionArgs) (overrun : buf.length < start + 10) :
    (addDhcpOption base start args.option args.length args.data).run buf = none := by
  rw [addDhcpOption, StateT.run_bind, StateT.run, store, if_neg (by simp [DhcpOptionHdr.data]; omega)]
  rfl

/-- What a list of calls appends. -/
def encodeArgs (calls : List OptionArgs) : List UInt8 := calls.flatMap OptionArgs.encode

@[simp] theorem encodeArgs_nil : encodeArgs [] = [] := rfl

@[simp] theorem encodeArgs_cons (args : OptionArgs) (rest : List OptionArgs) :
    encodeArgs (args :: rest) = args.encode ++ encodeArgs rest := rfl

theorem length_encodeArgs (calls : List OptionArgs) :
    (encodeArgs calls).length = (calls.map OptionArgs.size).sum := by
  induction calls with
  | nil => rfl
  | cons args rest ih =>
    rw [encodeArgs_cons, List.length_append, OptionArgs.length_encode, ih, List.map_cons, List.sum_cons]

/-- Every call from `start` on stays inside `room` bytes, with the packed struct
of ten bytes and with the data. -/
def callsFit (room : Nat) : Nat → List OptionArgs → Prop
  | _, [] => True
  | start, args :: rest =>
    start + 10 ≤ room ∧ start + args.size ≤ room ∧ callsFit room (start + args.size) rest

/-- Eight bytes behind the last option are enough for every struct. -/
theorem callsFit_of_length {room start : Nat} {calls : List OptionArgs}
    (enough : start + (encodeArgs calls).length + 8 ≤ room) : callsFit room start calls := by
  induction calls generalizing start with
  | nil => trivial
  | cons args rest ih =>
    rw [encodeArgs_cons, List.length_append, OptionArgs.length_encode] at enough
    have header : 2 ≤ args.size := Nat.le_add_right _ _
    exact ⟨by omega, by omega, ih (by omega)⟩

/-- The buffer after all calls starts with what they append. Behind it at most the
eight bytes of the last pointer differ from before. -/
theorem addOptions_run (calls : List OptionArgs) {start : UInt16}
    (inside : callsFit buf.length start.toNat calls)
    (short : start.toNat + (encodeArgs calls).length < 65536) :
    ∃ size after,
      (addDhcpOptions base start (calls.map OptionArgs.call)).run buf = some (size, after) ∧
      after.length = buf.length ∧
      size.toNat = start.toNat + (encodeArgs calls).length ∧
      slice after 0 size.toNat = slice buf 0 start.toNat ++ encodeArgs calls ∧
      after.drop (size.toNat + 8) = buf.drop (size.toNat + 8) := by
  induction calls generalizing start buf with
  | nil => exact ⟨start, buf, rfl, rfl, rfl, by simp, rfl⟩
  | cons args rest ih =>
    obtain ⟨header, body, later⟩ := inside
    have bound := args.size_lt
    have size : args.size = 2 + args.length.toNat := rfl
    rw [encodeArgs_cons, List.length_append, OptionArgs.length_encode] at short
    have called := @addDhcpOption_eq base buf start.toNat args header body (by omega)
    have advance : (start + (Int16.ofNat args.size).toUInt16).toNat = start.toNat + args.size := by
      rw [← UInt16.toInt16_ofNat', UInt16.toUInt16_toInt16, UInt16.toNat_add, UInt16.toNat_ofNat']
      omega
    have same : (writeAt buf start.toNat (args.encode ++ args.spill base start.toNat)).length =
        buf.length := length_writeAt _ _ _
    have extended : slice (writeAt buf start.toNat (args.encode ++ args.spill base start.toNat)) 0
        (start.toNat + args.size) = slice buf 0 start.toNat ++ args.encode := by
      have option := slice_prefix args.encode (args.spill base start.toNat)
      rw [OptionArgs.length_encode] at option
      rw [← slice_append_slice _ 0, Nat.zero_add, slice_writeAt_outside (by omega),
        slice_writeAt_inside (by simp; omega) (by omega) (by simp), Nat.sub_self, option]
    have kept (limit : Nat) (far : start.toNat + args.size + 8 ≤ limit) :
        (writeAt buf start.toNat (args.encode ++ args.spill base start.toNat)).drop limit =
          buf.drop limit := by
      apply List.ext_getElem?
      intro index
      rw [List.getElem?_drop, List.getElem?_drop, getElem?_writeAt, if_neg (by simp; omega)]
    rw [← advance, ← same] at later
    obtain ⟨total, after, finished, length, count, bytes, behind⟩ := ih later (by rw [advance]; omega)
    refine ⟨total, after, ?_, length.trans same, ?_, ?_, ?_⟩
    · rw [List.map_cons, OptionArgs.call, addDhcpOptions, run_step_bind called]
      exact finished
    · rw [count, advance, encodeArgs_cons, List.length_append, OptionArgs.length_encode]
      omega
    · rw [bytes, advance, extended, encodeArgs_cons, List.append_assoc]
    · rw [behind, kept _ (by rw [count, advance]; omega)]

/-- A call anywhere in a buffer that has room for its option. -/
structure OptionWrite where
  buf : List UInt8
  base : UInt64
  start : Nat
  args : OptionArgs
  room : start + args.size ≤ buf.length
  addressable : buf.length < 2 ^ 64

namespace OptionWrite

variable (write : OptionWrite)

def run : Option (Int16 × List UInt8) :=
  (addDhcpOption write.base write.start write.args.option write.args.length write.args.data).run write.buf

/-- The call changes the bytes that it reports and no others. -/
def OnlyOption : Prop :=
  write.run = some (Int16.ofNat write.args.size, writeAt write.buf write.start write.args.encode)

/-- The bytes behind the option that the pointer is stored over. -/
def behind : List UInt8 :=
  slice write.buf (write.start + write.args.size) (8 - write.args.length.toNat)

private theorem onlyOption_iff_behind :
    write.OnlyOption ↔ write.behind = write.args.spill write.base write.start := by
  have room := write.room
  have addressable := write.addressable
  have header : write.args.size = 2 + write.args.length.toNat := rfl
  by_cases struct : write.start + 10 ≤ write.buf.length
  · have called := @addDhcpOption_eq write.base write.buf write.start write.args struct room (by omega)
    have pastOption : writeAt write.buf write.start
        (write.args.encode ++ write.args.spill write.base write.start) =
        writeAt (writeAt write.buf write.start write.args.encode) (write.start + write.args.size)
          (write.args.spill write.base write.start) :=
      (writeAt_adjacent (by rw [OptionArgs.length_encode])).symm
    rw [OnlyOption, run, called, pastOption, Option.some.injEq, Prod.mk.injEq, eq_self, true_and,
      writeAt_eq_self_iff (by simp; omega), slice_writeAt_outside (by simp), OptionArgs.length_spill,
      behind]
  · have overrun := @addDhcpOption_none write.base write.buf write.start write.args (by omega)
    constructor
    · intro only
      rw [OnlyOption, run, overrun] at only
      cases only
    · intro same
      have short := congrArg List.length same
      rw [behind, length_slice, OptionArgs.length_spill] at short
      omega

/-- A call changes only its option exactly when the data covers the stored pointer
or the bytes behind it happen to hold the end of that pointer. -/
theorem onlyOption_iff :
    write.OnlyOption ↔ 8 ≤ write.args.length.toNat ∨
      write.behind = write.args.spill write.base write.start := by
  rw [onlyOption_iff_behind]
  constructor
  · exact .inr
  · rintro (covered | same)
    · have none : 8 - write.args.length.toNat = 0 := by omega
      have empty : write.args.spill write.base write.start = [] :=
        List.eq_nil_of_length_eq_zero (by rw [OptionArgs.length_spill, none])
      rw [behind, none, empty, slice, List.take_zero]
    · exact same

end OptionWrite

/-- The message type of a request rewritten in front of its other option. -/
def rewrittenType : OptionWrite where
  buf := [0x35, 1, 1, 50, 4, 192, 168, 1, 105, 0xff]
  base := 0x7fffffffe000
  start := 0
  args := ⟨0x35, 1, [3], by decide⟩
  room := by decide
  addressable := by decide

theorem rewrittenType_not_onlyOption : ¬rewrittenType.OnlyOption := by
  rw [OptionWrite.onlyOption_iff_behind]
  decide

end HamachiLike.Dhcp

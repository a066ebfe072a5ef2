import HamachiLike.Dhcp.Frame

/-! The frame of one `dhcpPacket` call as an explicit byte string, and the
proof that the call writes exactly that string at the start of its buffer. -/

namespace HamachiLike.Dhcp

open Buffer LittleEndian OnesComplement

/-- Arguments of a `dhcpPacket` call whose frame fits the buffer of `main`. -/
structure PacketArgs where
  macDst : Vector UInt8 6
  macSrc : Vector UInt8 6
  clientIP : Vector UInt8 4
  yourIP : Vector UInt8 4
  serverIP : Vector UInt8 4
  gatewayIP : Vector UInt8 4
  dhcpOptions : List UInt8
  fits : 14 + 20 + 8 + 240 + dhcpOptions.length + 1 ≤ 1500

namespace PacketArgs

variable (args : PacketArgs)

def run : Mem UInt8 Int16 :=
  dhcpPacket args.macDst.toList args.macSrc.toList args.clientIP.toList args.yourIP.toList
    args.serverIP.toList args.gatewayIP.toList args.dhcpOptions (UInt16.ofNat args.dhcpOptions.length)

/-- Length of the whole frame. -/
def length : Nat := 283 + args.dhcpOptions.length

theorem length_le : args.length ≤ 1500 := by
  have fits := args.fits
  rw [length]
  omega

theorem le_length : 283 ≤ args.length := Nat.le_add_right _ _

def etherBlock : List UInt8 := args.macDst.toList ++ args.macSrc.toList ++ [0x08, 0x00]

def ipBlock (totLen check : List UInt8) : List UInt8 :=
  [0x45, 0x10] ++ totLen ++ [0, 0, 0, 0, 255, 17] ++ check ++ [0, 0, 0, 0] ++ [255, 255, 255, 255]

def udpBlock (len check : List UInt8) : List UInt8 := [0, 68, 0, 67] ++ len ++ check

/-- `gap` stands for the end of chaddr, the sname and the file, which nothing writes. -/
def dhcpBlock (gap : List UInt8) : List UInt8 :=
  [1, 1, 6, 0] ++ [0x19, 0xf0, 0x5a, 0x95] ++ [0, 0, 0, 0] ++ args.clientIP.toList ++
    args.yourIP.toList ++ args.serverIP.toList ++ args.gatewayIP.toList ++ args.macSrc.toList ++
    gap ++ [0x63, 0x82, 0x53, 0x63]

/-- The frame with its length and check fields left open. -/
def layout (totLen ipCheck len udpCheck gap : List UInt8) : List UInt8 :=
  args.etherBlock ++ ipBlock totLen ipCheck ++ udpBlock len udpCheck ++ args.dhcpBlock gap ++
    args.dhcpOptions ++ [0xff]

/-- The 16-bit length fields, high byte first. -/
def totLen : List UInt8 := (toBytes 2 (args.length - 14)).reverse
def udpLen : List UInt8 := (toBytes 2 (args.length - 34)).reverse

@[simp] theorem length_etherBlock : args.etherBlock.length = 14 := by simp [etherBlock]

theorem length_ipBlock {totLen check : List UInt8} (total : totLen.length = 2) (pair : check.length = 2) :
    (ipBlock totLen check).length = 20 := by simp [ipBlock, total, pair]

theorem length_udpBlock {len check : List UInt8} (total : len.length = 2) (pair : check.length = 2) :
    (udpBlock len check).length = 8 := by simp [udpBlock, total, pair]

theorem length_dhcpBlock {gap : List UInt8} (untouched : gap.length = 202) :
    (args.dhcpBlock gap).length = 240 := by simp [dhcpBlock, untouched]

@[simp] theorem length_totLen : args.totLen.length = 2 := by simp [totLen]

@[simp] theorem length_udpLen : args.udpLen.length = 2 := by simp [udpLen]

/-- Overwriting one of the four open fields gives the frame with that field. -/
private theorem writeAt_totLen {buf totLen ipCheck len udpCheck gap field : List UInt8}
    (same : totLen.length = field.length) :
    writeAt (writeAt buf 0 (args.layout totLen ipCheck len udpCheck gap)) 16 field =
      writeAt buf 0 (args.layout field ipCheck len udpCheck gap) := by
  have split (total : List UInt8) : args.layout total ipCheck len udpCheck gap =
      (args.etherBlock ++ [0x45, 0x10]) ++ total ++ ([0, 0, 0, 0, 255, 17] ++ ipCheck ++ [0, 0, 0, 0] ++
        [255, 255, 255, 255] ++ udpBlock len udpCheck ++ args.dhcpBlock gap ++ args.dhcpOptions ++
        [0xff]) := by
    simp [layout, ipBlock]
  rw [split, split, writeAt_inner same (by simp)]

private theorem writeAt_ipCheck {buf totLen ipCheck len udpCheck gap field : List UInt8}
    (total : totLen.length = 2) (same : ipCheck.length = field.length) :
    writeAt (writeAt buf 0 (args.layout totLen ipCheck len udpCheck gap)) 24 field =
      writeAt buf 0 (args.layout totLen field len udpCheck gap) := by
  have split (check : List UInt8) : args.layout totLen check len udpCheck gap =
      (args.etherBlock ++ [0x45, 0x10] ++ totLen ++ [0, 0, 0, 0, 255, 17]) ++ check ++
        ([0, 0, 0, 0] ++ [255, 255, 255, 255] ++ udpBlock len udpCheck ++ args.dhcpBlock gap ++
          args.dhcpOptions ++ [0xff]) := by
    simp [layout, ipBlock]
  rw [split, split, writeAt_inner same (by simp [total])]

private theorem writeAt_udpLen {buf totLen ipCheck len udpCheck gap field : List UInt8}
    (total : totLen.length = 2) (pair : ipCheck.length = 2) (same : len.length = field.length) :
    writeAt (writeAt buf 0 (args.layout totLen ipCheck len udpCheck gap)) 38 field =
      writeAt buf 0 (args.layout totLen ipCheck field udpCheck gap) := by
  have split (len : List UInt8) : args.layout totLen ipCheck len udpCheck gap =
      (args.etherBlock ++ ipBlock totLen ipCheck ++ [0, 68, 0, 67]) ++ len ++
        (udpCheck ++ args.dhcpBlock gap ++ args.dhcpOptions ++ [0xff]) := by
    simp [layout, udpBlock]
  rw [split, split, writeAt_inner same (by simp [length_ipBlock total pair])]

private theorem writeAt_udpCheck {buf totLen ipCheck len udpCheck gap field : List UInt8}
    (total : totLen.length = 2) (pair : ipCheck.length = 2) (size : len.length = 2)
    (same : udpCheck.length = field.length) :
    writeAt (writeAt buf 0 (args.layout totLen ipCheck len udpCheck gap)) 40 field =
      writeAt buf 0 (args.layout totLen ipCheck len field gap) := by
  have split (check : List UInt8) : args.layout totLen ipCheck len check gap =
      (args.etherBlock ++ ipBlock totLen ipCheck ++ [0, 68, 0, 67] ++ len) ++ check ++
        (args.dhcpBlock gap ++ args.dhcpOptions ++ [0xff]) := by
    simp [layout, udpBlock]
  rw [split, split, writeAt_inner same (by simp [length_ipBlock total pair, size])]

theorem length_layout {totLen ipCheck len udpCheck gap : List UInt8} (total : totLen.length = 2)
    (pair : ipCheck.length = 2) (size : len.length = 2) (check : udpCheck.length = 2)
    (untouched : gap.length = 202) :
    (args.layout totLen ipCheck len udpCheck gap).length = args.length := by
  simp [layout, length, length_ipBlock total pair, length_udpBlock size check,
    length_dhcpBlock args untouched]
  omega

private theorem dhcpOptionsSize_toNat :
    (UInt16.ofNat args.dhcpOptions.length).toNat = args.dhcpOptions.length := by
  have fits := args.fits
  rw [UInt16.toNat_ofNat', Nat.mod_eq_of_lt (by omega)]

/-- The final `bufSize` is the frame length. -/
private theorem bufSize_toNat :
    (282 + UInt16.ofNat args.dhcpOptions.length + 1 : UInt16).toNat = args.length := by
  have fits := args.fits
  have count := args.dhcpOptionsSize_toNat
  rw [UInt16.toNat_add, UInt16.toNat_add, count, length]
  simp only [UInt16.reduceToNat]
  omega

private theorem totLen_eq :
    toBytes 2 (htons (282 + UInt16.ofNat args.dhcpOptions.length + 1 -
      UInt16.ofNat EtherHeader.size)).toNat = args.totLen := by
  have bound := args.length_le
  have size := args.bufSize_toNat
  have lower := args.le_length
  rw [toBytes_swap16, UInt16.toNat_sub, size, totLen]
  have header : (UInt16.ofNat EtherHeader.size).toNat = 14 := rfl
  rw [header, show (2 ^ 16 - 14 + args.length) % 2 ^ 16 = args.length - 14 by omega]

private theorem udpLen_eq :
    toBytes 2 (htons (282 + UInt16.ofNat args.dhcpOptions.length + 1 -
      UInt16.ofNat EtherHeader.size - UInt16.ofNat MyIphdr.size)).toNat = args.udpLen := by
  have bound := args.length_le
  have size := args.bufSize_toNat
  have lower := args.le_length
  rw [toBytes_swap16, UInt16.toNat_sub, UInt16.toNat_sub, size, udpLen]
  have header : (UInt16.ofNat EtherHeader.size).toNat = 14 := rfl
  have packet : (UInt16.ofNat MyIphdr.size).toNat = 20 := rfl
  rw [header, packet, show (2 ^ 16 - 20 + (2 ^ 16 - 14 + args.length) % 2 ^ 16) % 2 ^ 16 =
    args.length - 34 by omega]

/-- All header helpers, the option copy and the end byte together. -/
private theorem run_headers {buf : List UInt8} (size : buf.length = 1500) :
    args.run.run buf =
      ((do
        putShort 16 (htons (282 + UInt16.ofNat args.dhcpOptions.length + 1 -
          UInt16.ofNat EtherHeader.size))
        putShort 38 (htons (282 + UInt16.ofNat args.dhcpOptions.length + 1 -
          UInt16.ofNat EtherHeader.size - UInt16.ofNat MyIphdr.size))
        ipCecksum 14
        udpCecksum 14 34
        return (282 + UInt16.ofNat args.dhcpOptions.length + 1 : UInt16).toInt16) : Mem UInt8 Int16).run
      (writeAt buf 0 (args.layout (slice buf 16 2) (slice buf 24 2) (slice buf 38 2) (slice buf 40 2)
        (slice buf 76 202))) := by
  have fits := args.fits
  have fourteen : (0 + (14 : Int16).toUInt16 : UInt16) = 14 := rfl
  have thirtyFour : (14 + (20 : Int16).toUInt16 : UInt16) = 34 := rfl
  have fortyTwo : (34 + (8 : Int16).toUInt16 : UInt16) = 42 := rfl
  have options : (42 + (240 : Int16).toUInt16 : UInt16) = 282 := rfl
  have count := args.dhcpOptionsSize_toNat
  have last : (282 + UInt16.ofNat args.dhcpOptions.length : UInt16).toNat =
      282 + args.dhcpOptions.length := by
    rw [endOffset_toNat (by omega), count]
  have lenGap : (slice buf 38 4).length = 4 := length_slice_of_le (by omega)
  have chaddrGap := length_slice_of_le (by omega : 76 + 202 ≤ buf.length)
  have totGap := length_slice_of_le (by omega : 16 + 2 ≤ buf.length)
  have checkGap := length_slice_of_le (by omega : 24 + 2 ≤ buf.length)
  simp only [run, dhcpPacket]
  rw [run_step_bind (setupEthernetHeader_run (by simp) (by simp) (by omega)), fourteen,
    show (14 : UInt16).toNat = 14 from rfl, run_step_bind (setupIpHeader_run (by simp; omega)),
    slice_writeAt_outside (by simp), slice_writeAt_outside (by simp), writeAt_adjacent (by simp)]
  rw [thirtyFour, show (34 : UInt16).toNat = 34 from rfl,
    run_step_bind (setupUdpHeader_run (by simp; omega)), writeAt_adjacent (by simp [totGap, checkGap])]
  rw [fortyTwo, show (42 : UInt16).toNat = 42 from rfl,
    run_step_bind (setupMainDhcp_run (by simp) (by simp) (by simp) (by simp) (by simp) (by simp; omega)),
    slice_writeAt_outside (by simp [totGap, checkGap]),
    writeAt_gap 38 4 (by simp [totGap, checkGap]) (by omega) (by omega)]
  rw [options, show (282 : UInt16).toNat = 282 from rfl, count, last, memcpy_exact _ rfl, putByte,
    run_store_adjacent (by simp [totGap, checkGap, lenGap, chaddrGap])
      (by simp [totGap, checkGap, lenGap, chaddrGap]; omega),
    run_store_adjacent (by simp [totGap, checkGap, lenGap, chaddrGap]; omega)
      (by simp [totGap, checkGap, lenGap, chaddrGap]; omega)]
  have gap : slice buf 38 4 = slice buf 38 2 ++ slice buf 40 2 := (slice_append_slice buf 38 2 2).symm
  refine congrArg (fun frame => StateT.run _ (writeAt buf 0 frame)) ?_
  simp [layout, etherBlock, ipBlock, udpBlock, dhcpBlock, gap]

/-- The UDP header and everything behind it. -/
def datagram (check gap : List UInt8) : List UInt8 :=
  udpBlock args.udpLen check ++ args.dhcpBlock gap ++ args.dhcpOptions ++ [0xff]

/-- The byte behind the frame that an odd datagram is summed with. -/
def padding (buf : List UInt8) : List UInt8 := slice buf args.length (args.length % 2)

/-- What `ipCecksum` sums when the check field holds `check`. -/
def ipSum (check : List UInt8) : Nat := nativeSum (ipBlock args.totLen check)

/-- What `udpCecksum` sums: both addresses, the datagram with the byte behind an
odd one, the protocol and the length once more. -/
def udpSum (check gap pad : List UInt8) : Nat :=
  nativeSum ([0, 0, 0, 0] ++ [255, 255, 255, 255] ++ args.datagram check gap ++ pad) + 0x1100 +
    nativeSum args.udpLen

theorem length_datagram {check gap : List UInt8} (pair : check.length = 2)
    (untouched : gap.length = 202) : (args.datagram check gap).length = args.length - 34 := by
  simp [datagram, length_udpBlock args.length_udpLen pair, length_dhcpBlock args untouched, length]
  omega

private theorem slice_ipBlock {buf ipCheck udpCheck gap : List UInt8} (pair : ipCheck.length = 2)
    (check : udpCheck.length = 2) (untouched : gap.length = 202) (size : buf.length = 1500) :
    slice (writeAt buf 0 (args.layout args.totLen ipCheck args.udpLen udpCheck gap)) 14 20 =
      ipBlock args.totLen ipCheck := by
  have whole := args.length_layout args.length_totLen pair args.length_udpLen check untouched
  have bound := args.length_le
  have lower := args.le_length
  have block := length_ipBlock args.length_totLen pair
  rw [slice_writeAt_inside (by omega) (by omega) (by omega)]
  simp only [layout, List.append_assoc]
  rw [slice_append_right (by simp), length_etherBlock, ← block]
  exact slice_prefix _ _

private theorem slice_summed {buf ipCheck udpCheck gap : List UInt8} (pair : ipCheck.length = 2)
    (check : udpCheck.length = 2) (untouched : gap.length = 202) (size : buf.length = 1500) :
    slice (writeAt buf 0 (args.layout args.totLen ipCheck args.udpLen udpCheck gap)) 26
        (8 + 2 * ((args.length - 34 + 1) / 2)) =
      [0, 0, 0, 0] ++ [255, 255, 255, 255] ++ args.datagram udpCheck gap ++ args.padding buf := by
  have whole := args.length_layout args.length_totLen pair args.length_udpLen check untouched
  have bound := args.length_le
  have lower := args.le_length
  have total := args.length_datagram check untouched
  have split : args.layout args.totLen ipCheck args.udpLen udpCheck gap =
      (args.etherBlock ++ [0x45, 0x10] ++ args.totLen ++ [0, 0, 0, 0, 255, 17] ++ ipCheck) ++
        ([0, 0, 0, 0] ++ [255, 255, 255, 255] ++ args.datagram udpCheck gap) := by
    simp [layout, ipBlock, datagram]
  rw [show 8 + 2 * ((args.length - 34 + 1) / 2) = (args.length - 26) + args.length % 2 by omega,
    ← slice_append_slice, slice_writeAt_inside (by omega) (by omega) (by omega),
    slice_writeAt_outside (by omega), show 26 + (args.length - 26) = args.length by omega]
  rw [split, slice_append_right (by simp [pair]), padding]
  congr 1
  rw [show 26 - 0 - _ = 0 by simp [pair], slice_all (by simp [total]; omega)]

private theorem slice_udpLen {buf ipCheck udpCheck gap : List UInt8} (pair : ipCheck.length = 2)
    (check : udpCheck.length = 2) (untouched : gap.length = 202) (size : buf.length = 1500) :
    slice (writeAt buf 0 (args.layout args.totLen ipCheck args.udpLen udpCheck gap)) 38 2 =
      args.udpLen := by
  have whole := args.length_layout args.length_totLen pair args.length_udpLen check untouched
  have bound := args.length_le
  have lower := args.le_length
  have split : args.layout args.totLen ipCheck args.udpLen udpCheck gap =
      (args.etherBlock ++ ipBlock args.totLen ipCheck ++ [0, 68, 0, 67]) ++ (args.udpLen ++
        (udpCheck ++ args.dhcpBlock gap ++ args.dhcpOptions ++ [0xff])) := by
    simp [layout, udpBlock]
  have front : (args.etherBlock ++ ipBlock args.totLen ipCheck ++ [0, 68, 0, 67]).length = 38 := by
    simp [length_ipBlock args.length_totLen pair]
  rw [slice_writeAt_inside (by omega) (by omega) (by omega), split, slice_append_right (by omega), front]
  rw [← args.length_udpLen]
  exact slice_prefix _ _

/-- The frame that a call leaves in a buffer that held `buf`. -/
def frame (buf : List UInt8) : List UInt8 :=
  args.layout args.totLen (checkBytes (args.ipSum (slice buf 24 2))) args.udpLen
    (checkBytes (args.udpSum (slice buf 40 2) (slice buf 76 202) (args.padding buf))) (slice buf 76 202)

/-- `dhcpPacket` stays inside the buffer, writes the frame at its start and
returns the frame's length. -/
theorem run_eq {buf : List UInt8} (size : buf.length = 1500) :
    args.run.run buf = some (Int16.ofNat args.length, writeAt buf 0 (args.frame buf)) := by
  have bound := args.length_le
  have lower := args.le_length
  have totGap := length_slice_of_le (by omega : 16 + 2 ≤ buf.length)
  have ipGap := length_slice_of_le (by omega : 24 + 2 ≤ buf.length)
  have lenGap := length_slice_of_le (by omega : 38 + 2 ≤ buf.length)
  have udpGap := length_slice_of_le (by omega : 40 + 2 ≤ buf.length)
  have chaddrGap := length_slice_of_le (by omega : 76 + 202 ≤ buf.length)
  rw [args.run_headers size, putShort, totLen_eq, putShort, udpLen_eq,
    run_store_bind (by simp; omega), args.writeAt_totLen (by simp [totGap]),
    run_store_bind (by simp; omega), args.writeAt_udpLen (by simp) ipGap (by simp [lenGap])]
  rw [run_step_bind (ipCecksum_run (by simp; omega)), args.slice_ipBlock ipGap udpGap chaddrGap size,
    args.writeAt_ipCheck (by simp) (by simp [ipGap]), ← ipSum]
  have field := args.slice_udpLen (length_checkBytes (args.ipSum (slice buf 24 2))) udpGap chaddrGap size
  have summed := args.slice_summed (length_checkBytes (args.ipSum (slice buf 24 2))) udpGap chaddrGap size
  have stored := udpCecksum_run (by omega : 34 = 14 + 20) (by omega : 8 ≤ args.length - 34) (by omega)
    (by rw [length_writeAt]; omega) field
  rw [summed, field] at stored
  rw [run_step_bind stored, args.writeAt_udpCheck (by simp) (by simp) (by simp) (by simp [udpGap])]
  have result : (282 + UInt16.ofNat args.dhcpOptions.length + 1 : UInt16).toInt16 =
      Int16.ofNat args.length := by
    rw [← args.bufSize_toNat, ← UInt16.toInt16_ofNat', UInt16.ofNat_toNat]
  rw [result]
  rfl

end PacketArgs

end HamachiLike.Dhcp

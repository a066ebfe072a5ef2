import HamachiLike.Dhcp.Callback
import HamachiLike.Ping

/-! The send side of dhcp.cpp: the discovery frame that it builds in a stack buffer of
4096 bytes, and its own `in_cksum`. -/

namespace HamachiLike.Dhcp.Discovery

open Buffer LittleEndian OnesComplement

/-- `sum += word` on a positive `int`. There is no result for an overflow. -/
def addInt (sum word : Nat) : Mem UInt8 Nat :=
  if sum + word < 2 ^ 31 then return sum + word else fun _ => none

/-- `while (nleft > 1) { sum += *w++; nleft -= 2; }` -/
def sumPairs (w nleft sum : Nat) : Mem UInt8 (Nat × Nat × Nat) :=
  if 1 < nleft then do
    let word ← getShort w
    let sum ← addInt sum word.toNat
    sumPairs (w + 2) (nleft - 2) sum
  else return (sum, w, nleft)
termination_by nleft

/-- `if (nleft == 1) { *(u_char *)(&answer) = *(u_char *) w; sum += answer; }` -/
def mopUp (w nleft sum : Nat) : Mem UInt8 Nat :=
  if nleft = 1 then do
    let last ← getByte w
    addInt sum last.toNat
  else return sum

def inCksum (addr len : Nat) : Mem UInt8 UInt16 := do
  let (sum, w, nleft) ← sumPairs addr len 0
  let sum ← mopUp w nleft sum
  let sum := (sum >>> 16) + (sum &&& 0xffff)
  let sum := sum + (sum >>> 16)
  return ~~~(UInt16.ofNat sum)

def fillDhcpOption (packet : Nat) (code : UInt8) (data : List UInt8) (len : UInt8) : Mem UInt8 Nat := do
  putByte packet code
  putByte (packet + 1) len
  memcpy (packet + 2) data len.toNat
  return len.toNat + 2

/-- `fill_dhcp_discovery_options`, with the options behind the header at `dhcp`. -/
def fillDhcpDiscoveryOptions (dhcp : Nat) : Mem UInt8 Nat := do
  let bpOptions := dhcp + 240
  let len := 0
  let written ← fillDhcpOption (bpOptions + len) 53 [1] 1
  let len := len + written
  let reqIp := htonl 0xc0a8010a
  let written ← fillDhcpOption (bpOptions + len) 50 (toBytes 4 reqIp.toNat) 4
  let len := len + written
  let written ← fillDhcpOption (bpOptions + len) 55 [1, 3, 6, 15] 4
  let len := len + written
  let written ← fillDhcpOption (bpOptions + len) 255 [0] 1
  return len + written

/-- `mac` is the memory from the six bytes of the address on: 16 bytes of it are copied. -/
def dhcpOutput (dhcp : Nat) (mac : List UInt8) (len : Nat) : Mem UInt8 Nat := do
  store dhcp (List.replicate 240 0)
  putByte (dhcp + Dhcpv4Hdr.opcode) 1
  putByte (dhcp + Dhcpv4Hdr.htype) 1
  putByte (dhcp + Dhcpv4Hdr.hlen) 6
  memcpy (dhcp + Dhcpv4Hdr.chaddr) mac 16
  putInt (dhcp + Dhcpv4Hdr.magic) (htonl dhcpMagic)
  return len + 240

def udpOutput (udpHeader len : Nat) : Mem UInt8 Nat := do
  let len := if len % 2 = 1 then len + 1 else len
  let len := len + 8
  putShort (udpHeader + Udphdr.source) (htons 68)
  putShort (udpHeader + Udphdr.dest) (htons 67)
  putShort (udpHeader + Udphdr.len) (htons (UInt16.ofNat len))
  putShort (udpHeader + Udphdr.check) 0
  return len

/-- The bit-fields `ip_hl` and `ip_v` are the low and the high nibble of one byte. -/
def ipOutput (ipHeader len : Nat) : Mem UInt8 Nat := do
  let len := len + 20
  let bits ← getByte (ipHeader + MyIphdr.versionIhl)
  putByte (ipHeader + MyIphdr.versionIhl) ((bits &&& (0xf0 : UInt8)) ||| (5 : UInt8))
  let bits ← getByte (ipHeader + MyIphdr.versionIhl)
  putByte (ipHeader + MyIphdr.versionIhl) ((bits &&& (0x0f : UInt8)) ||| ((4 : UInt8) <<< 4))
  putByte (ipHeader + MyIphdr.tos) 0x10
  putShort (ipHeader + MyIphdr.totLen) (htons (UInt16.ofNat len))
  putShort (ipHeader + MyIphdr.id) (htons 0xffff)
  putShort (ipHeader + MyIphdr.fragOffset) 0
  putByte (ipHeader + MyIphdr.ttl) 16
  putByte (ipHeader + MyIphdr.protocol) ipprotoUdp
  putShort (ipHeader + MyIphdr.check) 0
  putInt (ipHeader + MyIphdr.saddr) 0
  putInt (ipHeader + MyIphdr.daddr) 0xFFFFFFFF
  let ipSum ← inCksum ipHeader 20
  putShort (ipHeader + MyIphdr.check) ipSum
  return len

/-- `ether_output`, up to the bytes that `pcap_inject` is given. -/
def etherOutput (frame : Nat) (mac : List UInt8) (len : Nat) : Mem UInt8 (List UInt8) := do
  memcpy (frame + EtherHeader.shost) mac etherAddrLen
  store (frame + EtherHeader.dhost) (List.replicate 6 0xff)
  putShort (frame + EtherHeader.type) (htons ethPIp)
  load frame (len + 14)

/-- On `packet[4096]`, which nothing has initialised. -/
def dhcpDiscovery (mac : List UInt8) : Mem UInt8 (List UInt8) := do
  let ipHeader := EtherHeader.size
  let udpHeader := ipHeader + MyIphdr.size
  let dhcp := udpHeader + Udphdr.size
  let len ← fillDhcpDiscoveryOptions dhcp
  let len ← dhcpOutput dhcp mac len
  let len ← udpOutput udpHeader len
  let len ← ipOutput ipHeader len
  etherOutput 0 mac len

/-! `in_cksum` -/

variable {buf : List UInt8}

private theorem run_addInt_bind {β : Type} {sum word : Nat} (room : sum + word < 2 ^ 31)
    (next : Nat → Mem UInt8 β) :
    (addInt sum word >>= next).run buf = (next (sum + word)).run buf := by
  rw [addInt, if_pos room, pure_bind]

private theorem sumPairs_run (count odd w sum : Nat) (last : odd < 2) (fits : w + 2 * count ≤ buf.length)
    (room : sum + nativeSum (slice buf w (2 * count)) < 2 ^ 31) :
    (sumPairs w (2 * count + odd) sum).run buf =
      some ((sum + nativeSum (slice buf w (2 * count)), w + 2 * count, odd), buf) := by
  induction count generalizing w sum with
  | zero =>
    rw [sumPairs, if_neg (by omega)]
    simp [slice, nativeSum, sumLow]
  | succ count ih =>
    have split : nativeSum (slice buf w (2 * (count + 1))) =
        nativeSum (slice buf w 2) + nativeSum (slice buf (w + 2) (2 * count)) := by
      rw [Nat.mul_succ, Nat.add_comm (2 * count), nativeSum_slice_step _ _ (by omega)]
    have left : 2 * (count + 1) + odd - 2 = 2 * count + odd := by omega
    rw [split] at room ⊢
    rw [sumPairs, if_pos (by omega), run_getShort_bind (by omega), getShort_toNat (by omega),
      run_addInt_bind (by omega), left, ih _ _ (by omega) (by omega)]
    rw [Nat.add_assoc, Nat.mul_succ, Nat.add_assoc w 2, Nat.add_comm 2]

private theorem mopUp_run {odd : Nat} (w sum : Nat) (last : odd < 2) (fits : w + odd ≤ buf.length)
    (room : sum + nativeSum (slice buf w odd) < 2 ^ 31) :
    (mopUp w odd sum).run buf = some (sum + nativeSum (slice buf w odd), buf) := by
  obtain rfl | rfl : odd = 0 ∨ odd = 1 := by omega
  · simp [mopUp, slice, nativeSum, sumLow]
  · obtain ⟨byte, found⟩ := List.length_eq_one_iff.mp (length_slice_of_le fits)
    have value : (UInt8.ofNat (ofBytes (slice buf w 1))).toNat = nativeSum (slice buf w 1) := by
      simp [found, ofBytes, nativeSum, sumLow]
    rw [mopUp, if_pos rfl, run_getByte_bind fits, value, addInt, if_pos room]
    rfl

/-- The two steps on an `int` are the whole fold. -/
private theorem carries_eq (sum : Nat) (small : sum < 2 ^ 31) :
    UInt16.ofNat ((sum >>> 16) + (sum &&& 0xffff) + (((sum >>> 16) + (sum &&& 0xffff)) >>> 16)) =
      UInt16.ofNat (foldCarries sum) := by
  have low : sum &&& 0xffff = sum % 65536 := Nat.and_two_pow_sub_one_eq_mod _ 16
  have word := endAround_lt (by decide : 2 ≤ 65536) sum
  apply UInt16.toNat_inj.mp
  rw [UInt16.toNat_ofNat', UInt16.toNat_ofNat', foldCarries_eq, Nat.mod_eq_of_lt word, low,
    Nat.shiftRight_eq_div_pow, Nat.shiftRight_eq_div_pow, Nat.add_comm (sum / 2 ^ 16)]
  exact endAround_twice (by decide) (by omega)

private theorem inCksum_run {addr len : Nat} (fits : addr + len ≤ buf.length)
    (room : nativeSum (slice buf addr len) < 2 ^ 31) :
    (inCksum addr len).run buf = some (Ping.foldedChecksum (slice buf addr len), buf) := by
  have halves := Nat.div_add_mod len 2
  have split := nativeSum_slice_last addr len fits
  have looped := @sumPairs_run buf (len / 2) (len % 2) addr 0 (by omega) (by omega) (by omega)
  have last := @mopUp_run buf (len % 2) (addr + 2 * (len / 2))
    (nativeSum (slice buf addr (2 * (len / 2)))) (by omega) (by omega) (by omega)
  rw [halves, Nat.zero_add] at looped
  rw [← split] at last
  rw [inCksum, run_step_bind looped, run_step_bind last]
  simp only [carries_eq _ room]
  rfl

/-- The `in_cksum` of dhcp.cpp and the `checksum` of test3.cpp return the same for every
buffer of up to 65535 bytes: one value for its bytes, wherever they lie and between what. -/
theorem inCksum_eq_checksum (data : List UInt8) (short : data.length ≤ 65535) :
    ∃ check : UInt16, ∀ front back : List UInt8,
      (inCksum front.length data.length).run (front ++ data ++ back) =
        some (check, front ++ data ++ back) ∧
      (Ping.checksum front.length data.length).run (front ++ data ++ back) =
        some (check, front ++ data ++ back) := by
  refine ⟨Ping.foldedChecksum data, fun front back => ?_⟩
  have inside : front.length + data.length ≤ (front ++ data ++ back).length := by
    rw [List.length_append, List.length_append]
    omega
  have bound := nativeSum_le data
  have folded := inCksum_run inside (by rw [slice_middle]; omega)
  have summed := Ping.checksum_run short inside
  rw [slice_middle] at folded summed
  exact ⟨folded, summed⟩

theorem inCksum_eq_checksum_odd : ∃ check : UInt16, ∀ front back : List UInt8,
    (inCksum front.length 3).run (front ++ [1, 2, 3] ++ back) = some (check, front ++ [1, 2, 3] ++ back) ∧
      (Ping.checksum front.length 3).run (front ++ [1, 2, 3] ++ back) =
        some (check, front ++ [1, 2, 3] ++ back) :=
  inCksum_eq_checksum [1, 2, 3] (by decide)

/-! What each output function writes, one block each. -/

def udpBlock (len : Nat) : List UInt8 := [0, 68, 0, 67] ++ (toBytes 2 len).reverse ++ [0, 0]

def ipBlock (len : Nat) (check : List UInt8) : List UInt8 :=
  [0x45, 0x10] ++ (toBytes 2 len).reverse ++ [0xff, 0xff, 0, 0, 16, 17] ++ check ++
    ([0, 0, 0, 0] ++ [255, 255, 255, 255])

def dhcpBlock (mac : List UInt8) : List UInt8 :=
  [1, 1, 6, 0] ++ List.replicate 24 0 ++ mac ++ List.replicate 192 0 ++ [0x63, 0x82, 0x53, 0x63]

def optionBlock : List UInt8 := [53, 1, 1, 50, 4, 192, 168, 1, 10, 55, 4, 1, 3, 6, 15, 255, 1, 0]

theorem length_ipBlock (len : Nat) {check : List UInt8} (pair : check.length = 2) :
    (ipBlock len check).length = 20 := by
  simp [ipBlock, pair]

theorem length_dhcpBlock {mac : List UInt8} (sixteen : mac.length = 16) : (dhcpBlock mac).length = 240 := by
  simp [dhcpBlock, sixteen, -List.reduceReplicate]

private theorem htons_ofNat_bytes {len : Nat} (small : len < 65536) :
    toBytes 2 (htons (UInt16.ofNat len)).toNat = (toBytes 2 len).reverse := by
  rw [toBytes_swap16, UInt16.toNat_ofNat_of_lt' small]

/-- An option is appended to those before it. -/
private theorem run_fillDhcpOption_bind {β : Type} {off packet : Nat} {block data : List UInt8}
    {code len : UInt8}
    (next : packet = off + block.length) (exact : data.length = len.toNat)
    (fits : off + block.length + (2 + data.length) ≤ buf.length) (rest : Nat → Mem UInt8 β) :
    (fillDhcpOption packet code data len >>= rest).run (writeAt buf off block) =
      (rest (data.length + 2)).run (writeAt buf off (block ++ ([code, len] ++ data))) := by
  simp only [fillDhcpOption, putByte, memcpy_exact _ exact, bind_assoc, pure_bind]
  rw [run_store_adjacent next (by simp; omega), run_store_adjacent (by simp; omega) (by simp; omega),
    run_store_adjacent (by simp; omega) (by simp; omega), exact]
  simp

private theorem fillDhcpDiscoveryOptions_run {dhcp : Nat} (fits : dhcp + 258 ≤ buf.length) :
    (fillDhcpDiscoveryOptions dhcp).run buf = some (18, writeAt buf (dhcp + 240) optionBlock) := by
  have address : toBytes 4 (htonl 0xc0a8010a).toNat = [192, 168, 1, 10] := by decide
  have nothing : buf = writeAt buf (dhcp + 240) [] := rfl
  simp only [fillDhcpDiscoveryOptions, address]
  conv => lhs; rw [nothing]
  iterate 4 rw [run_fillDhcpOption_bind (by simp) rfl (by simp; omega)]
  rfl

private theorem dhcpOutput_run {dhcp len : Nat} {mac : List UInt8} (sixteen : mac.length = 16)
    (fits : dhcp + 240 ≤ buf.length) :
    (dhcpOutput dhcp mac len).run buf = some (len + 240, writeAt buf dhcp (dhcpBlock mac)) := by
  have memset : (List.replicate 240 (0 : UInt8)).length = 240 := List.length_replicate
  have cleared (inner count : Nat) (inside : inner + count ≤ 240) :
      slice (writeAt buf dhcp (List.replicate 240 0)) (dhcp + inner) count = List.replicate count 0 := by
    rw [slice_writeAt_inside (by rw [memset]; omega) (by omega) (by rw [memset]; omega),
      Nat.add_sub_cancel_left, slice, List.drop_replicate, List.take_replicate, Nat.min_eq_left (by omega)]
  have gap := cleared 3 25 (by decide)
  have names := cleared 44 192 (by decide)
  simp only [dhcpOutput, putByte, putInt, htonl_dhcpMagic, memcpy_exact _ sixteen, Dhcpv4Hdr.opcode,
    Dhcpv4Hdr.htype, Dhcpv4Hdr.hlen, Dhcpv4Hdr.chaddr, Dhcpv4Hdr.magic, Nat.add_zero]
  rw [run_store_bind (by rw [memset]; omega)]
  rw [run_store_bind (by simp; omega), run_store_adjacent (by simp) (by simp; omega),
    run_store_adjacent (by simp) (by simp; omega),
    run_store_gap (dhcp + 3) 25 (by simp) (by omega) (by simp; omega), gap,
    run_store_gap (dhcp + 44) 192 (by simp [sixteen]) (by omega) (by simp; omega), names]
  have block : [1] ++ [1] ++ [6] ++ List.replicate 25 0 ++ mac ++ List.replicate 192 0 ++
      [0x63, 0x82, 0x53, 0x63] = dhcpBlock mac := rfl
  rw [block, writeAt_twice (memset.trans (length_dhcpBlock sixteen).symm)]
  rfl

private theorem udpOutput_run {udpHeader len total : Nat} (padded : total = len + len % 2 + 8)
    (small : total < 65536)
    (fits : udpHeader + 8 ≤ buf.length) :
    (udpOutput udpHeader len).run buf = some (total, writeAt buf udpHeader (udpBlock total)) := by
  have client : toBytes 2 (htons 68).toNat = [0, 68] := by decide
  have server : toBytes 2 (htons 67).toNat = [0, 67] := by decide
  have zeroShort : toBytes 2 (0 : UInt16).toNat = [0, 0] := by decide
  have even : (if len % 2 = 1 then len + 1 else len) + 8 = total := by
    split <;> omega
  simp only [udpOutput, even, putShort, htons_ofNat_bytes small, client, server, zeroShort,
    Udphdr.source, Udphdr.dest, Udphdr.len, Udphdr.check, Nat.add_zero]
  rw [run_store_bind (by simp; omega), run_store_adjacent (by simp) (by simp; omega),
    run_store_adjacent (by simp) (by simp; omega), run_store_adjacent (by simp) (by simp; omega)]
  rfl

/-- Setting both nibbles leaves nothing of the byte that was there. -/
private theorem vhl_bits (bits : UInt8) :
    ((((bits &&& (0xf0 : UInt8)) ||| (5 : UInt8)) &&& (0x0f : UInt8)) ||| ((4 : UInt8) <<< 4)) = 0x45 := by
  have every : ∀ bits : Fin 256, ((((UInt8.ofNat bits &&& (0xf0 : UInt8)) ||| (5 : UInt8)) &&&
      (0x0f : UInt8)) ||| ((4 : UInt8) <<< 4)) = 0x45 := by decide +kernel
  have found := every ⟨bits.toNat, bits.toNat_lt⟩
  rwa [UInt8.ofNat_toNat] at found

private theorem ipOutput_run {ipHeader len : Nat} (small : len + 20 < 65536)
    (fits : ipHeader + 20 ≤ buf.length) :
    (ipOutput ipHeader len).run buf = some (len + 20, writeAt buf ipHeader
      (ipBlock (len + 20) (checkBytes (nativeSum (ipBlock (len + 20) [0, 0]))))) := by
  have zeroShort : toBytes 2 (0 : UInt16).toNat = [0, 0] := by decide
  have zeroInt : toBytes 4 (0 : UInt32).toNat = [0, 0, 0, 0] := by decide
  have ones : toBytes 4 (0xFFFFFFFF : UInt32).toNat = [255, 255, 255, 255] := by decide
  have ident : toBytes 2 (htons 0xffff).toNat = [0xff, 0xff] := by decide
  have bitsRead (bits : UInt8) :
      UInt8.ofNat (ofBytes (slice (writeAt buf ipHeader [bits]) ipHeader 1)) = bits := by
    have same : slice (writeAt buf ipHeader [bits]) ipHeader 1 = [bits] :=
      slice_writeAt_same (by simp; omega)
    simp [same, ofBytes]
  have whole := length_ipBlock (len + 20) (rfl : ([0, 0] : List UInt8).length = 2)
  have written : slice (writeAt buf ipHeader (ipBlock (len + 20) [0, 0])) ipHeader 20 =
      ipBlock (len + 20) [0, 0] := by
    have same := slice_writeAt_same (by rw [whole]; exact fits :
      ipHeader + (ipBlock (len + 20) [0, 0]).length ≤ buf.length)
    rwa [whole] at same
  have bound := nativeSum_le (ipBlock (len + 20) [0, 0])
  rw [whole] at bound
  simp only [ipOutput, putByte, putShort, putInt, htons_ofNat_bytes small, zeroShort, zeroInt, ones, ident,
    ipprotoUdp, MyIphdr.versionIhl, MyIphdr.tos, MyIphdr.totLen, MyIphdr.id, MyIphdr.fragOffset,
    MyIphdr.ttl, MyIphdr.protocol, MyIphdr.check, MyIphdr.saddr, MyIphdr.daddr, Nat.add_zero]
  rw [run_getByte_bind (by omega), run_store_bind (by simp; omega),
    run_getByte_bind (by simp; omega), bitsRead, vhl_bits, run_store_bind (by simp; omega),
    writeAt_twice (by simp)]
  iterate 9 rw [run_store_adjacent (by simp) (by simp; omega)]
  have block : [0x45] ++ [0x10] ++ (toBytes 2 (len + 20)).reverse ++ [0xff, 0xff] ++ [0, 0] ++ [16] ++ [17] ++
      [0, 0] ++ [0, 0, 0, 0] ++ [255, 255, 255, 255] = ipBlock (len + 20) [0, 0] := by simp [ipBlock]
  have summed := @inCksum_run (writeAt buf ipHeader (ipBlock (len + 20) [0, 0])) ipHeader 20
    (by rw [length_writeAt]; exact fits) (by rw [written]; omega)
  rw [written] at summed
  rw [block, run_step_bind summed, Ping.foldedChecksum, complement_bytes,
    run_store_bind (by rw [length_writeAt, length_checkBytes]; omega)]
  have placed : writeAt (writeAt buf ipHeader (ipBlock (len + 20) [0, 0])) (ipHeader + 10)
      (checkBytes (nativeSum (ipBlock (len + 20) [0, 0]))) = writeAt buf ipHeader
        (ipBlock (len + 20) (checkBytes (nativeSum (ipBlock (len + 20) [0, 0])))) :=
    writeAt_inner (length_checkBytes _).symm (by simp)
  rw [placed]
  rfl

/-- A write right before an earlier one. -/
private theorem writeAt_before {cover under : List UInt8} {off place : Nat}
    (next : place = off + cover.length) :
    writeAt (writeAt buf place under) off cover = writeAt buf off (cover ++ under) := by
  rw [writeAt_over (by omega) (by omega), next, Nat.sub_self, List.drop_zero]

def etherBlock (mac : List UInt8) : List UInt8 := List.replicate 6 0xff ++ mac.take 6 ++ [8, 0]

private theorem etherOutput_run {mac : List UInt8} {len : Nat} (sixteen : mac.length = 16)
    (fits : len + 14 ≤ buf.length) :
    (etherOutput 0 mac len).run buf =
      some (slice (writeAt buf 0 (etherBlock mac)) 0 (len + 14), writeAt buf 0 (etherBlock mac)) := by
  have enough : etherAddrLen ≤ mac.length := by rw [sixteen]; decide
  have six : (mac.take etherAddrLen).length = 6 := by rw [List.length_take, sixteen]; rfl
  have type : toBytes 2 (htons ethPIp).toNat = [8, 0] := by decide
  simp only [etherOutput, memcpy_eq _ enough, putShort, type, EtherHeader.shost, EtherHeader.dhost,
    EtherHeader.type, Nat.zero_add]
  rw [run_store_bind (by rw [six]; omega), run_store_bind (by simp; omega), writeAt_before (by simp),
    run_store_adjacent (by simp [six]) (by simp [six]; omega)]
  rw [StateT.run, load, if_pos (by simp; omega)]
  rfl

/-- The frame for an address and the ten bytes behind it. -/
def discoverFrame (mac : List UInt8) : List UInt8 :=
  etherBlock mac ++ (ipBlock 286 (checkBytes (nativeSum (ipBlock 286 [0, 0]))) ++
    (udpBlock 266 ++ (dhcpBlock mac ++ optionBlock)))

private theorem length_discoverFrame {mac : List UInt8} (sixteen : mac.length = 16) :
    (discoverFrame mac).length = 300 := by
  have six : (mac.take 6).length = 6 := by rw [List.length_take, sixteen]; rfl
  have dhcp := length_dhcpBlock sixteen
  have ip := length_ipBlock 286 (length_checkBytes (nativeSum (ipBlock 286 [0, 0])))
  simp only [discoverFrame, List.length_append, dhcp, ip]
  simp [etherBlock, six, udpBlock, optionBlock]

/-- Of the stack only the bytes behind the address get into the frame, and none of the
buffer that it is built in. -/
theorem dhcpDiscovery_run {packet mac : List UInt8} (size : packet.length = 4096)
    (sixteen : mac.length = 16) :
    (dhcpDiscovery mac).run packet =
      some (discoverFrame mac, writeAt packet 0 (discoverFrame mac)) := by
  have dhcp := length_dhcpBlock sixteen
  have ip := length_ipBlock 286 (length_checkBytes (nativeSum (ipBlock 286 [0, 0])))
  have udp : (udpBlock 266).length = 8 := by simp [udpBlock]
  have ether : (etherBlock mac).length = 14 := by simp [etherBlock, sixteen]
  have whole := length_discoverFrame sixteen
  simp only [dhcpDiscovery, EtherHeader.size, MyIphdr.size, Udphdr.size]
  rw [run_step_bind (fillDhcpDiscoveryOptions_run (by omega)),
    run_step_bind (dhcpOutput_run sixteen (by rw [length_writeAt]; omega)),
    writeAt_before (by rw [dhcp]),
    run_step_bind (udpOutput_run (by decide : 266 = _) (by decide) (by rw [length_writeAt]; omega)),
    writeAt_before (by rw [udp]),
    run_step_bind (ipOutput_run (by decide) (by rw [length_writeAt]; omega)),
    writeAt_before (by rw [ip]), etherOutput_run sixteen (by rw [length_writeAt]; omega),
    writeAt_before (by rw [ether])]
  have sent := slice_writeAt_same (by rw [whole, size]; decide :
    0 + (discoverFrame mac).length ≤ packet.length)
  rw [whole] at sent
  exact congrArg some (Prod.ext sent rfl)

/-! What a receiver finds in the frame. -/

section Fields

variable {mac : List UInt8}

theorem length_etherBlock (sixteen : mac.length = 16) : (etherBlock mac).length = 14 := by
  simp [etherBlock, sixteen]

/-- The IP and the UDP header. -/
def headerBlock : List UInt8 := ipBlock 286 (checkBytes (nativeSum (ipBlock 286 [0, 0]))) ++ udpBlock 266

private theorem discoverFrame_eq (mac : List UInt8) :
    discoverFrame mac = etherBlock mac ++ headerBlock ++ (dhcpBlock mac ++ optionBlock) := by
  simp only [discoverFrame, headerBlock, List.append_assoc]

private theorem length_headers (sixteen : mac.length = 16) : (etherBlock mac ++ headerBlock).length = 42 := by
  rw [List.length_append, length_etherBlock sixteen]
  rfl

private theorem slice_headerBlock (sixteen : mac.length = 16) {off len : Nat} (behind : 14 ≤ off)
    (inside : off + len ≤ 42) : slice (discoverFrame mac) off len = slice headerBlock (off - 14) len := by
  rw [discoverFrame_eq, slice_append_left (by rw [length_headers sixteen]; exact inside),
    slice_append_right (by rw [length_etherBlock sixteen]; exact behind), length_etherBlock sixteen]

private theorem slice_dhcp (sixteen : mac.length = 16) {off len : Nat} (behind : 42 ≤ off) :
    slice (discoverFrame mac) off len = slice (dhcpBlock mac ++ optionBlock) (off - 42) len := by
  rw [discoverFrame_eq, slice_append_right (by rw [length_headers sixteen]; exact behind),
    length_headers sixteen]

private theorem slice_chaddr (sixteen : mac.length = 16) : slice (discoverFrame mac) 70 16 = mac := by
  have dhcp := length_dhcpBlock sixteen
  have split : dhcpBlock mac = [1, 1, 6, 0] ++ List.replicate 24 0 ++ mac ++
      (List.replicate 192 0 ++ [0x63, 0x82, 0x53, 0x63]) := by
    simp only [dhcpBlock, List.append_assoc]
  have middle := slice_middle ([1, 1, 6, 0] ++ List.replicate 24 0) mac
    (List.replicate 192 0 ++ [0x63, 0x82, 0x53, 0x63])
  rw [slice_dhcp sixteen (by decide), slice_append_left (by rw [dhcp]; decide), split]
  rw [sixteen] at middle
  exact middle

end Fields

/-- Two runs send the same frame exactly if the sixteen bytes from the address on are the
same: the ten behind it are told to the network, and nothing else of the stack is. -/
theorem sent_eq_iff {packet packet' mac mac' : List UInt8} (size : packet.length = 4096)
    (size' : packet'.length = 4096) (sixteen : mac.length = 16) (sixteen' : mac'.length = 16) :
    ((dhcpDiscovery mac).run packet).map Prod.fst = ((dhcpDiscovery mac').run packet').map Prod.fst ↔
      mac = mac' := by
  rw [dhcpDiscovery_run size sixteen, dhcpDiscovery_run size' sixteen']
  constructor
  · intro same
    have frames : discoverFrame mac = discoverFrame mac' := Option.some.inj same
    rw [← slice_chaddr sixteen, frames, slice_chaddr sixteen']
  · rintro rfl
    rfl

theorem sent_eq_iff_zeros :
    ((dhcpDiscovery (List.replicate 16 0)).run (List.replicate 4096 0)).map Prod.fst =
        ((dhcpDiscovery (List.replicate 16 0)).run (List.replicate 4096 1)).map Prod.fst ↔
      (List.replicate 16 0 : List UInt8) = List.replicate 16 0 :=
  sent_eq_iff List.length_replicate List.length_replicate List.length_replicate List.length_replicate

/-- The frame is a discovery of this program, from this host or another one. -/
def IsDiscovery (frame : List UInt8) : Prop :=
  (slice frame 70 16).length = 16 ∧ frame = discoverFrame (slice frame 70 16)

instance (frame : List UInt8) : Decidable (IsDiscovery frame) := inferInstanceAs (Decidable (_ ∧ _))

theorem isDiscovery_iff {frame : List UInt8} :
    IsDiscovery frame ↔ ∃ mac packet after, mac.length = 16 ∧ packet.length = 4096 ∧
      (dhcpDiscovery mac).run packet = some (frame, after) := by
  constructor
  · rintro ⟨sixteen, same⟩
    have size : (List.replicate 4096 (0 : UInt8)).length = 4096 := List.length_replicate
    have sent := dhcpDiscovery_run size sixteen
    rw [← same] at sent
    exact ⟨_, _, _, sixteen, size, sent⟩
  · rintro ⟨mac, packet, after, sixteen, size, sent⟩
    rw [dhcpDiscovery_run size sixteen] at sent
    obtain ⟨rfl, -⟩ := Prod.mk.inj (Option.some.inj sent)
    rw [IsDiscovery, slice_chaddr sixteen]
    exact ⟨sixteen, rfl⟩

open Capture

/-- A discovery of which every byte was captured. -/
def WholeDiscovery (capture : Captured) : Prop :=
  capture.header.len = capture.header.caplen ∧ IsDiscovery capture.frame

instance (capture : Captured) : Decidable (WholeDiscovery capture) := inferInstanceAs (Decidable (_ ∧ _))

/-- The receive chain passes over a discovery: it does not come from the server's port. -/
private theorem callback_discovery {capture : Captured} (sent : WholeDiscovery capture) (globals : Globals) :
    callback globals capture = some globals := by
  obtain ⟨complete, sixteen, same⟩ := sent
  have size : capture.frame.length = 300 := by rw [same, length_discoverFrame sixteen]
  have captured : HeadersCaptured capture.frame := headersCaptured_of_length (by omega)
  have client : slice capture.frame 34 2 = [0, 68] := by
    rw [same, slice_headerBlock sixteen (by decide) (by decide)]
    rfl
  have passed : ¬IsReply capture.frame := by
    rintro ⟨-, -, server, -⟩
    rw [client] at server
    exact absurd server (by decide)
  rw [callback_inside ((readsInside_iff capture globals).mpr ⟨fun _ => complete, captured⟩), if_neg passed]

/-- Whatever frames are handed to `ether_input`, the whole discoveries among them have no
effect on the address, nor on whether a byte is read that was not captured. -/
theorem run_discoveries (globals : Globals) (frames : List Captured) :
    Run.run callback globals (frames.filter fun capture => ¬WholeDiscovery capture) =
      Run.run callback globals frames :=
  Run.run_filter (fun globals capture dropped => callback_discovery (by simpa using dropped) globals)
    globals frames

end HamachiLike.Dhcp.Discovery

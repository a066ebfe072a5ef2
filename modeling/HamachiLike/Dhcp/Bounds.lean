import HamachiLike.Dhcp.AddOption
import HamachiLike.Library.Footprint

/-! Where `addDhcpOption` and `dhcpPacket` write, for options of any total size.
Neither checks a bound, so the two 1500-byte buffers decide. -/

namespace HamachiLike.Dhcp

open Buffer LittleEndian

/-- Enough memory for every access of `dhcpPacket`, whatever length field it reads back. -/
abbrev reach : Nat := 70000

variable {limit : Nat}

private theorem memcpy_footprint {source : List UInt8} {count off : Nat} (enough : count ≤ source.length)
    (below : off + count ≤ limit) : Footprint (memcpy off source count) limit limit fun _ => True := by
  have copied : off + (source.take count).length ≤ limit := by
    rwa [List.length_take, Nat.min_eq_left enough]
  rw [memcpy_eq off enough]
  exact .store copied copied

private theorem putByte_footprint {off : Nat} (value : UInt8) (below : off + 1 ≤ limit) :
    Footprint (putByte off value) limit limit fun _ => True := .store below below

private theorem putShort_footprint {off : Nat} (value : UInt16) (below : off + 2 ≤ limit) :
    Footprint (putShort off value) limit limit fun _ => True :=
  .store (by simpa using below) (by simpa using below)

private theorem putInt_footprint {off : Nat} (value : UInt32) (below : off + 4 ≤ limit) :
    Footprint (putInt off value) limit limit fun _ => True :=
  .store (by simpa using below) (by simpa using below)

private theorem getByte_footprint {off size : Nat} (fits : off + 1 ≤ size) :
    Footprint (getByte off) size limit fun _ => True :=
  .bind (.load fits) fun _ _ => .pure trivial

private theorem getShort_footprint {off size : Nat} (fits : off + 2 ≤ size) :
    Footprint (getShort off) size limit fun _ => True :=
  .bind (.load fits) fun _ _ => .pure trivial

private theorem setupEthernetHeader_footprint {macDst macSrc : List UInt8} (dst : 6 ≤ macDst.length)
    (src : 6 ≤ macSrc.length) :
    Footprint (setupEthernetHeader 0 macDst macSrc) 282 282 (· = 14) := by
  refine .bind (memcpy_footprint dst (by decide)) fun _ _ => ?_
  refine .bind (memcpy_footprint src (by decide)) fun _ _ => ?_
  refine .bind (putShort_footprint _ (by decide)) fun _ _ => ?_
  exact .pure rfl

private theorem setupIpHeader_footprint : Footprint (setupIpHeader 14) 282 282 (· = 20) := by
  refine .bind (getByte_footprint (by decide)) fun _ _ => ?_
  refine .bind (putByte_footprint _ (by decide)) fun _ _ => ?_
  refine .bind (getByte_footprint (by decide)) fun _ _ => ?_
  refine .bind (putByte_footprint _ (by decide)) fun _ _ => ?_
  refine .bind (putByte_footprint _ (by decide)) fun _ _ => ?_
  refine .bind (putShort_footprint _ (by decide)) fun _ _ => ?_
  refine .bind (putShort_footprint _ (by decide)) fun _ _ => ?_
  refine .bind (putByte_footprint _ (by decide)) fun _ _ => ?_
  refine .bind (putByte_footprint _ (by decide)) fun _ _ => ?_
  refine .bind (putInt_footprint _ (by decide)) fun _ _ => ?_
  refine .bind (putInt_footprint _ (by decide)) fun _ _ => ?_
  exact .pure rfl

private theorem setupUdpHeader_footprint : Footprint (setupUdpHeader 34) 282 282 (· = 8) := by
  refine .bind (putShort_footprint _ (by decide)) fun _ _ => ?_
  refine .bind (putShort_footprint _ (by decide)) fun _ _ => ?_
  exact .pure rfl

private theorem setupMainDhcp_footprint {macSrc clientIP yourIP serverIP gatewayIP : List UInt8}
    (mac : 6 ≤ macSrc.length) (client : 4 ≤ clientIP.length) (your : 4 ≤ yourIP.length)
    (server : 4 ≤ serverIP.length) (gateway : 4 ≤ gatewayIP.length) :
    Footprint (setupMainDhcp 42 macSrc clientIP yourIP serverIP gatewayIP) 282 282 (· = 240) := by
  refine .bind (putByte_footprint _ (by decide)) fun _ _ => ?_
  refine .bind (putByte_footprint _ (by decide)) fun _ _ => ?_
  refine .bind (putByte_footprint _ (by decide)) fun _ _ => ?_
  refine .bind (putByte_footprint _ (by decide)) fun _ _ => ?_
  refine .bind (putInt_footprint _ (by decide)) fun _ _ => ?_
  refine .bind (putShort_footprint _ (by decide)) fun _ _ => ?_
  refine .bind (putShort_footprint _ (by decide)) fun _ _ => ?_
  refine .bind (memcpy_footprint client (by decide)) fun _ _ => ?_
  refine .bind (memcpy_footprint your (by decide)) fun _ _ => ?_
  refine .bind (memcpy_footprint server (by decide)) fun _ _ => ?_
  refine .bind (memcpy_footprint gateway (by decide)) fun _ _ => ?_
  refine .bind (memcpy_footprint mac (by decide)) fun _ _ => ?_
  refine .bind (putInt_footprint _ (by decide)) fun _ _ => ?_
  exact .pure rfl

private theorem sumHeader_footprint (left index sum : Nat) (position : index + left = 10) :
    Footprint (sumHeader 14 index sum) reach limit fun _ => True := by
  induction left generalizing index sum with
  | zero =>
    rw [sumHeader, if_neg (by simp only [MyIphdr.size]; omega)]
    exact .pure trivial
  | succ left ih =>
    rw [sumHeader, if_pos (by simp only [MyIphdr.size]; omega)]
    exact .bind (getShort_footprint (by simp only [reach]; omega)) fun _ _ => ih _ _ (by omega)

/-- The pointer loop reads at most one byte past its end. -/
private theorem sumShorts_footprint {stop : Nat} (fits : stop + 1 ≤ reach) (ptr sum : Nat) :
    Footprint (sumShorts ptr stop sum) reach limit fun _ => True := by
  induction ptr, sum using sumShorts.induct stop with
  | case1 ptr sum inside ih =>
    rw [sumShorts, if_pos inside]
    refine .bind (getShort_footprint ?_) fun word _ => ih word
    simp only [reach] at fits ⊢
    omega
  | case2 ptr sum ended =>
    rw [sumShorts, if_neg ended]
    exact .pure trivial

private theorem ipCecksum_footprint (below : 26 ≤ limit) :
    Footprint (ipCecksum 14) reach limit fun _ => True :=
  .bind (sumHeader_footprint 10 0 0 rfl) fun _ _ =>
    (putShort_footprint _ (Nat.le_refl 26)).grow (by decide) below

private theorem udpCecksum_footprint (below : 42 ≤ limit) :
    Footprint (udpCecksum 14 34) reach limit fun _ => True := by
  refine .bind (getShort_footprint (by decide)) fun len _ => ?_
  have short := (htons len).toNat_lt
  refine .bind (sumShorts_footprint (by simp only [reach]; omega) _ _) fun _ _ => ?_
  refine .bind (getShort_footprint (by decide)) fun _ _ => ?_
  exact (putShort_footprint _ (Nat.le_refl 42)).grow (by decide) below

/-- The end of `dhcpPacket`, behind the fixed headers. -/
def finishPacket (dhcpOptions : List UInt8) (dhcpOptionsSize : UInt16) : Mem UInt8 Int16 := do
  memcpy 282 dhcpOptions dhcpOptionsSize.toNat
  putByte (282 + dhcpOptionsSize).toNat 0xff
  let bufSize := 282 + dhcpOptionsSize + 1
  putShort 16 (htons (bufSize - UInt16.ofNat EtherHeader.size))
  putShort 38 (htons (bufSize - UInt16.ofNat EtherHeader.size - UInt16.ofNat MyIphdr.size))
  ipCecksum 14
  udpCecksum 14 34
  return bufSize.toInt16

/-- What holds of the end of `dhcpPacket` holds of the whole, if it may have any
program in front of it that stays below the options. -/
private theorem dhcpPacket_of_finish
    {macDst macSrc clientIP yourIP serverIP gatewayIP dhcpOptions : List UInt8}
    {dhcpOptionsSize : UInt16} (Holds : Mem UInt8 Int16 → Prop) (dst : 6 ≤ macDst.length)
    (mac : 6 ≤ macSrc.length) (client : 4 ≤ clientIP.length) (your : 4 ≤ yourIP.length)
    (server : 4 ≤ serverIP.length) (gateway : 4 ≤ gatewayIP.length)
    (front : ∀ (program : Mem UInt8 Int16) next known, Footprint program 282 282 (· = known) →
      Holds (next known) → Holds (program >>= next))
    (finish : Holds (finishPacket dhcpOptions dhcpOptionsSize)) :
    Holds (dhcpPacket macDst macSrc clientIP yourIP serverIP gatewayIP dhcpOptions dhcpOptionsSize) := by
  refine front _ _ _ (setupEthernetHeader_footprint dst mac) ?_
  refine front _ _ _ setupIpHeader_footprint ?_
  refine front _ _ _ setupUdpHeader_footprint ?_
  refine front _ _ _ (setupMainDhcp_footprint mac client your server gateway) ?_
  exact finish

section Finish

variable {dhcpOptions : List UInt8} {dhcpOptionsSize : UInt16}

private theorem lengthsAndChecks_footprint (total udpLen : UInt16) (result : Int16) :
    Footprint (do
      putShort 16 total
      putShort 38 udpLen
      ipCecksum 14
      udpCecksum 14 34
      return result) reach 282 fun _ => True := by
  have header : 282 ≤ reach := by decide
  refine .bind ((putShort_footprint _ (by decide)).grow header (Nat.le_refl 282)) fun _ _ => ?_
  refine .bind ((putShort_footprint _ (by decide)).grow header (Nat.le_refl 282)) fun _ _ => ?_
  refine .bind (ipCecksum_footprint (by decide)) fun _ _ => ?_
  refine .bind (udpCecksum_footprint (by decide)) fun _ _ => ?_
  exact .pure trivial

private theorem finishPacket_footprint (short : dhcpOptionsSize.toNat ≤ 1500)
    (enough : dhcpOptionsSize.toNat ≤ dhcpOptions.length) (below : 283 + dhcpOptionsSize.toNat ≤ limit) :
    Footprint (finishPacket dhcpOptions dhcpOptionsSize) reach limit fun _ => True := by
  have place := endOffset_toNat short
  have within : 283 + dhcpOptionsSize.toNat ≤ reach := by
    simp only [reach]
    omega
  refine .bind ((memcpy_footprint enough (by omega)).grow within below) fun _ _ => ?_
  refine .bind ((putByte_footprint _ (by omega)).grow within below) fun _ _ => ?_
  exact (lengthsAndChecks_footprint _ _ _).grow (Nat.le_refl _) (by omega)

/-- The end marker stays: only header fields are written after it. -/
private theorem finishPacket_sets (short : dhcpOptionsSize.toNat ≤ 1500)
    (enough : dhcpOptionsSize.toNat ≤ dhcpOptions.length) :
    Sets (finishPacket dhcpOptions dhcpOptionsSize) (282 + dhcpOptionsSize.toNat) 0xff := by
  refine .bind (memcpy_footprint enough (Nat.le_refl _)) fun _ _ => ?_
  refine .stays ?_ (fun _ => lengthsAndChecks_footprint _ _ _) (Nat.le_add_right _ _)
  rw [endOffset_toNat short]
  exact .store _ _

end Finish

/-- A message of any options, built as `dhcpDiscover` does: the options in one
1500-byte buffer, then the packet in another. The options fit their buffer as bytes. -/
structure Message where
  base : UInt64
  calls : List OptionArgs
  dhcpOptionBuf : Vector UInt8 1500
  buf : Vector UInt8 1500
  macDst : Vector UInt8 6
  macSrc : Vector UInt8 6
  clientIP : Vector UInt8 4
  yourIP : Vector UInt8 4
  serverIP : Vector UInt8 4
  gatewayIP : Vector UInt8 4
  fits : (encodeArgs calls).length ≤ 1500

namespace Message

variable (message : Message)

def appendOptions : Mem UInt8 UInt16 :=
  addDhcpOptions message.base 0 (message.calls.map OptionArgs.call)

def buildPacket (dhcpOptions : List UInt8) (dhcpOptionsSize : UInt16) : Mem UInt8 Int16 :=
  dhcpPacket message.macDst.toList message.macSrc.toList message.clientIP.toList message.yourIP.toList
    message.serverIP.toList message.gatewayIP.toList dhcpOptions dhcpOptionsSize

/-- Nothing behind either buffer is written, whatever memory holds there. -/
def WritesInside : Prop :=
  KeepsBehind message.appendOptions message.dhcpOptionBuf.toList ∧
    ∀ behind dhcpOptionsSize dhcpOptions,
      message.appendOptions.run (message.dhcpOptionBuf.toList ++ behind) =
          some (dhcpOptionsSize, dhcpOptions) →
        KeepsBehind (message.buildPacket dhcpOptions dhcpOptionsSize) message.buf.toList

/-- With eight bytes to spare for the last pointer the options are appended, and
nothing past those bytes changes. -/
theorem appendOptions_run {behind : List UInt8}
    (room : (encodeArgs message.calls).length + 8 ≤ 1500 + behind.length) :
    ∃ dhcpOptionsSize dhcpOptions,
      message.appendOptions.run (message.dhcpOptionBuf.toList ++ behind) =
        some (dhcpOptionsSize, dhcpOptions) ∧
      dhcpOptionsSize.toNat = (encodeArgs message.calls).length ∧
      dhcpOptionsSize.toNat ≤ dhcpOptions.length ∧
      dhcpOptions.drop (dhcpOptionsSize.toNat + 8) =
        (message.dhcpOptionBuf.toList ++ behind).drop (dhcpOptionsSize.toNat + 8) := by
  have fits := message.fits
  have memory : (message.dhcpOptionBuf.toList ++ behind).length = 1500 + behind.length := by simp
  obtain ⟨dhcpOptionsSize, dhcpOptions, called, length, total, _, kept⟩ :=
    @addOptions_run message.base (message.dhcpOptionBuf.toList ++ behind) message.calls 0
      (callsFit_of_length (by rw [memory, UInt16.toNat_zero]; omega))
      (by rw [UInt16.toNat_zero]; omega)
  rw [UInt16.toNat_zero, Nat.zero_add] at total
  exact ⟨dhcpOptionsSize, dhcpOptions, called, total, by omega, kept⟩

private theorem buildPacket_footprint {limit : Nat} {dhcpOptions : List UInt8} {dhcpOptionsSize : UInt16}
    (short : dhcpOptionsSize.toNat ≤ 1500) (enough : dhcpOptionsSize.toNat ≤ dhcpOptions.length)
    (below : 283 + dhcpOptionsSize.toNat ≤ limit) :
    Footprint (message.buildPacket dhcpOptions dhcpOptionsSize) reach limit fun _ => True := by
  refine dhcpPacket_of_finish (fun program => Footprint program reach limit fun _ => True)
    (by simp) (by simp) (by simp) (by simp) (by simp) (by simp) ?_
    (finishPacket_footprint short enough below)
  intro program next known first rest
  refine .bind (first.grow (by decide) (by omega)) fun value same => ?_
  rw [same]
  exact rest

private theorem buildPacket_sets {dhcpOptions : List UInt8} {dhcpOptionsSize : UInt16}
    (short : dhcpOptionsSize.toNat ≤ 1500) (enough : dhcpOptionsSize.toNat ≤ dhcpOptions.length) :
    Sets (message.buildPacket dhcpOptions dhcpOptionsSize) (282 + dhcpOptionsSize.toNat) 0xff := by
  refine dhcpPacket_of_finish (fun program => Sets program (282 + dhcpOptionsSize.toNat) 0xff)
    (by simp) (by simp) (by simp) (by simp) (by simp) (by simp) ?_ (finishPacket_sets short enough)
  intro program next known first rest
  refine .bind first fun value same => ?_
  rw [same]
  exact rest

private theorem writesInside_of_short (short : (encodeArgs message.calls).length ≤ 1217) :
    message.WritesInside := by
  constructor
  · intro behind value after ran
    obtain ⟨dhcpOptionsSize, dhcpOptions, called, total, _, kept⟩ :=
      @appendOptions_run message behind (by omega)
    cases called.symm.trans ran
    have moved := congrArg (List.drop (1500 - (value.toNat + 8))) kept
    rw [List.drop_drop, List.drop_drop, Nat.add_sub_cancel' (by omega)] at moved
    have size : message.dhcpOptionBuf.toList.length = 1500 := by simp
    rw [size, moved, List.drop_left' size]
  · intro behind dhcpOptionsSize dhcpOptions ran
    obtain ⟨size, options, called, total, enough, _⟩ := @appendOptions_run message behind (by omega)
    cases called.symm.trans ran
    have footprint := message.buildPacket_footprint (by omega) enough (by omega : _ ≤ 1500)
    exact footprint.keepsBehind (by simp)

/-- Longer options put the end marker of the packet behind its buffer. -/
private theorem not_writesInside_of_long (long : 1217 < (encodeArgs message.calls).length) :
    ¬message.WritesInside := by
  have fits := message.fits
  rintro ⟨_, inside⟩
  obtain ⟨size, options, called, total, enough, _⟩ :=
    @appendOptions_run message (List.replicate 8 0) (by simp; omega)
  have sets := message.buildPacket_sets (by omega) enough
  have footprint := message.buildPacket_footprint (by omega) enough (Nat.le_refl _)
  exact sets.not_keepsBehind footprint (by simp; omega) (by decide : (0xff : UInt8) ≠ 0)
    (inside _ size options called)

/-- Both buffers are enough exactly for options of at most 1217 bytes. -/
theorem writesInside_iff : message.WritesInside ↔ (encodeArgs message.calls).length ≤ 1217 := by
  constructor
  · intro inside
    by_contra long
    exact message.not_writesInside_of_long (by omega) inside
  · exact message.writesInside_of_short

end Message

def longOption : OptionArgs where
  option := 43
  length := 242
  data := List.replicate 242 1
  enough := by rw [List.length_replicate]; decide

/-- Five options of 244 bytes, 1220 of the 1500 bytes for options. -/
def fiveLong : Message where
  base := 0x7fffffffe000
  calls := List.replicate 5 longOption
  dhcpOptionBuf := Vector.replicate 1500 0
  buf := Vector.replicate 1500 0
  macDst := Vector.replicate 6 0xff
  macSrc := Vector.replicate 6 2
  clientIP := Vector.replicate 4 0
  yourIP := Vector.replicate 4 0
  serverIP := Vector.replicate 4 0
  gatewayIP := Vector.replicate 4 0
  fits := by rw [length_encodeArgs]; decide

theorem fiveLong_not_writesInside : ¬fiveLong.WritesInside := by
  apply fiveLong.not_writesInside_of_long
  rw [length_encodeArgs]
  decide

end HamachiLike.Dhcp

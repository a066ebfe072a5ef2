import HamachiLike.Dhcp.AddOption
import HamachiLike.Dhcp.Receiver

/-! The option list between `addDhcpOption` and a reader of the frame. Each call
leaves the rest of a stored pointer behind its data, which the next call or the
end of the copied range hides. -/

namespace HamachiLike.Dhcp

open Buffer LittleEndian

/-- An option that has a length byte: neither pad nor end, one byte of length. -/
structure DhcpOption where
  code : UInt8
  data : List UInt8
  coded : 1 ≤ code.toNat ∧ code.toNat ≤ 254
  short : data.length ≤ 255

namespace DhcpOption

variable (option : DhcpOption)

private theorem length_toNat : (UInt8.ofNat option.data.length).toNat = option.data.length := by
  have short := option.short
  rw [UInt8.toNat_ofNat', Nat.mod_eq_of_lt (by omega)]

/-- The arguments of the `addDhcpOption` call that appends the option. -/
def args : OptionArgs where
  option := option.code
  length := UInt8.ofNat option.data.length
  data := option.data
  enough := by rw [option.length_toNat]

def call : UInt8 × UInt8 × List UInt8 := option.args.call

/-- What a reader reports of the option. -/
def content : UInt8 × List UInt8 := (option.code, option.data)

/-- Code, length, data. -/
private theorem encode_args : option.args.encode =
    [option.code, UInt8.ofNat option.data.length] ++ option.data := by
  rw [OptionArgs.encode, args, option.length_toNat, List.take_length]

end DhcpOption

def encodeOptions (options : List DhcpOption) : List UInt8 := encodeArgs (options.map DhcpOption.args)

/-- Every call from `start` on stays inside `room` bytes. -/
def writesFit (room start : Nat) (options : List DhcpOption) : Prop :=
  callsFit room start (options.map DhcpOption.args)

/-- Read options as RFC 2132 lays them out, up to the end option; also returns
what stands behind it. -/
def readOptions (bytes : List UInt8) : Option (List (UInt8 × List UInt8) × List UInt8) :=
  match bytes with
  | [] => none
  | code :: rest =>
    if code = 0 then readOptions rest
    else if code = 255 then some ([], rest)
    else
      match rest with
      | [] => none
      | length :: rest =>
        if length.toNat ≤ rest.length then
          (readOptions (rest.drop length.toNat)).map fun (options, behind) =>
            ((code, rest.take length.toNat) :: options, behind)
        else none
termination_by bytes.length
decreasing_by
  all_goals simp only [List.length_cons, List.length_drop]
  all_goals omega

/-- Data bytes never reach the reader as codes, whatever their values. -/
theorem readOptions_encodeOptions (options : List DhcpOption) (behind : List UInt8) :
    readOptions (encodeOptions options ++ 0xff :: behind) =
      some (options.map DhcpOption.content, behind) := by
  induction options with
  | nil =>
    have pad : ¬(0xff : UInt8) = 0 := by decide
    rw [encodeOptions, List.map_nil, encodeArgs_nil, List.nil_append, readOptions.eq_def]
    simp only [if_neg pad]
    rfl
  | cons option rest ih =>
    have coded := option.coded
    have notPad : option.code ≠ 0 := by
      intro same
      simp [same] at coded
    have notEnd : option.code ≠ 255 := by
      intro same
      simp [same] at coded
    have size := option.length_toNat
    rw [encodeOptions, List.map_cons, encodeArgs_cons, DhcpOption.encode_args, List.append_assoc,
      List.append_assoc, List.cons_append, List.cons_append, List.nil_append, readOptions.eq_def]
    simp only [if_neg notPad, if_neg notEnd, size]
    rw [if_pos (by simp), List.drop_left, List.take_left, ← encodeOptions, ih]
    rfl

namespace PacketArgs

variable (args : PacketArgs)

/-- Only the first `dhcpOptionsSize` bytes of the option buffer matter. -/
theorem run_of_options {dhcpOptions : List UInt8} {dhcpOptionsSize : UInt16}
    (total : dhcpOptionsSize.toNat = args.dhcpOptions.length)
    (bytes : slice dhcpOptions 0 dhcpOptionsSize.toNat = args.dhcpOptions) :
    dhcpPacket args.macDst.toList args.macSrc.toList args.clientIP.toList args.yourIP.toList
      args.serverIP.toList args.gatewayIP.toList dhcpOptions dhcpOptionsSize = args.run := by
  have count := congrArg List.length bytes
  rw [length_slice] at count
  have copied (off : Nat) : memcpy off dhcpOptions dhcpOptionsSize.toNat =
      memcpy off args.dhcpOptions dhcpOptionsSize.toNat := by
    rw [memcpy_take off (by omega), ← bytes]
    rfl
  rw [run, ← total, UInt16.ofNat_toNat]
  simp only [dhcpPacket, copied]

theorem drop_frame_options {buf : List UInt8} (size : buf.length = 1500) :
    (args.frame buf).drop 282 = args.dhcpOptions ++ [0xff] := by
  have whole := args.length_frame size
  have gap := length_slice_of_le (by omega : 76 + 202 ≤ buf.length)
  have front : (args.etherBlock ++ ipBlock args.totLen (checkBytes (args.ipSum (slice buf 24 2))) ++
      udpBlock args.udpLen
        (checkBytes (args.udpSum (slice buf 40 2) (slice buf 76 202) (args.padding buf))) ++
      args.dhcpBlock (slice buf 76 202)).length = 282 := by
    simp [length_ipBlock, length_udpBlock, length_dhcpBlock args gap]
  rw [frame, layout, ← front, List.append_assoc _ args.dhcpOptions]
  exact List.drop_left

end PacketArgs

/-- Options appended to a scratch buffer at any address stand in the frame
exactly as they were passed, and a reader stops at the last byte. -/
theorem addDhcpOptions_readOptions (options : List DhcpOption) (base : UInt64) (scratch : List UInt8)
    (inside : writesFit scratch.length 0 options) (macDst macSrc : Vector UInt8 6)
    (clientIP yourIP serverIP gatewayIP : Vector UInt8 4)
    (fits : 14 + 20 + 8 + 240 + (encodeOptions options).length + 1 ≤ 1500)
    (buf : List UInt8) (size : buf.length = 1500) :
    ∃ dhcpOptionSize dhcpOptionBuf result,
      (addDhcpOptions base 0 (options.map DhcpOption.call)).run scratch =
        some (dhcpOptionSize, dhcpOptionBuf) ∧
      dhcpOptionSize.toNat = (encodeOptions options).length ∧
      slice dhcpOptionBuf 0 dhcpOptionSize.toNat = encodeOptions options ∧
      (dhcpPacket macDst.toList macSrc.toList clientIP.toList yourIP.toList serverIP.toList
        gatewayIP.toList dhcpOptionBuf dhcpOptionSize).run buf = some result ∧
      readOptions ((returnedFrame result).drop 282) = some (options.map DhcpOption.content, []) ∧
      (returnedFrame result).getLast? = some 0xff := by
  let args : PacketArgs :=
    { macDst, macSrc, clientIP, yourIP, serverIP, gatewayIP, dhcpOptions := encodeOptions options, fits }
  obtain ⟨dhcpOptionSize, dhcpOptionBuf, called, _, total, bytes, _⟩ :=
    @addOptions_run base scratch _ 0 inside (by rw [UInt16.toNat_zero, ← encodeOptions]; omega)
  rw [UInt16.toNat_zero, Nat.zero_add] at total
  rw [List.map_map] at called
  have encoded : slice dhcpOptionBuf 0 dhcpOptionSize.toNat = args.dhcpOptions := by
    rw [bytes]
    rfl
  refine ⟨dhcpOptionSize, dhcpOptionBuf, _, called, total, encoded,
    (congrArg (StateT.run · buf) (args.run_of_options total encoded)).trans (args.run_eq size), ?_⟩
  rw [args.returnedFrame_eq size, args.drop_frame_options size]
  exact ⟨readOptions_encodeOptions options [], args.getLast?_frame buf⟩

/-! The options of the three messages. -/

def discoverOptions : List DhcpOption := [⟨0x35, [0x01], by decide, by decide⟩]

def leaseQueryOptions : List DhcpOption :=
  [⟨0x35, [10], by decide, by decide⟩, ⟨55, [51], by decide, by decide⟩]

def requestOptions : List DhcpOption :=
  [⟨0x35, [3], by decide, by decide⟩, ⟨50, requestip, by decide, by decide⟩,
    ⟨61, [0x00, 0x03], by decide, by decide⟩]

theorem requestOptions_readOptions :
    ∃ dhcpOptionSize dhcpOptionBuf result,
      (addDhcpOptions 0x7fffffffe000 0 (requestOptions.map DhcpOption.call)).run
          (List.replicate 1500 0) = some (dhcpOptionSize, dhcpOptionBuf) ∧
      dhcpOptionSize.toNat = (encodeOptions requestOptions).length ∧
      slice dhcpOptionBuf 0 dhcpOptionSize.toNat = encodeOptions requestOptions ∧
      (dhcpPacket [255, 255, 255, 255, 255, 255] [2, 0, 0, 0, 0, 1] [0, 0, 0, 0] [0, 0, 0, 0]
        [0, 0, 0, 0] [0, 0, 0, 0] dhcpOptionBuf dhcpOptionSize).run zeroedBuf = some result ∧
      readOptions ((returnedFrame result).drop 282) =
        some ([(0x35, [3]), (50, [192, 168, 1, 105]), (61, [0, 3])], []) ∧
      (returnedFrame result).getLast? = some 0xff := by
  have inside : writesFit (List.replicate 1500 (0 : UInt8)).length 0 requestOptions := by
    rw [List.length_replicate]
    simp [writesFit, callsFit, requestOptions, requestip, DhcpOption.args, OptionArgs.size]
  exact addDhcpOptions_readOptions requestOptions 0x7fffffffe000 (List.replicate 1500 0) inside
    #v[255, 255, 255, 255, 255, 255] #v[2, 0, 0, 0, 0, 1] #v[0, 0, 0, 0] #v[0, 0, 0, 0]
    #v[0, 0, 0, 0] #v[0, 0, 0, 0] (by decide) zeroedBuf length_zeroedBuf

end HamachiLike.Dhcp

import HamachiLike.Tunnel.Simpletun
import HamachiLike.Library.CString
import Mathlib.Data.List.Induction

/-! The command line of simpletun.cpp: what `main` makes of the results of `getopt`. -/

namespace HamachiLike.Tunnel

open Buffer CString

def port : UInt16 := 55555

/-- The results of `getopt` for "i:sc:p:uahd", with `optarg` where it is set. -/
inductive Opt
  | d
  | h
  | i (optarg : List UInt8)
  | s
  | c (optarg : List UInt8)
  | p (optarg : List UInt8)
  | u
  | a
  | unknown
  deriving DecidableEq

inductive Flags
  | tun
  | tap
  deriving DecidableEq

/-- `cliserv` once it is no longer -1. -/
inductive Cliserv
  | client
  | server
  deriving DecidableEq

/-- The variables that the options set. -/
structure Options where
  debug : Bool
  flags : Flags
  ifName : Cells UInt8 ifnamsiz
  remoteIp : Cells UInt8 16
  port : UInt16
  cliserv : Option Cliserv

/-- `main` ends in `usage`. -/
inductive Ended
  | usage
  deriving DecidableEq

def strncpy {size : Nat} (dest : Cells UInt8 size) (src : List UInt8) (n : Nat) : Cells UInt8 size :=
  dest.put 0 ((chars src).take n ++ List.replicate (n - (chars src).length) 0)

def isspace (byte : UInt8) : Bool := byte = 32 ∨ 9 ≤ byte ∧ byte ≤ 13

def isdigit (byte : UInt8) : Bool := 48 ≤ byte ∧ byte ≤ 57

def digits (string : List UInt8) : Nat :=
  (string.takeWhile isdigit).foldl (fun value byte => 10 * value + (byte.toNat - 48)) 0

/-- `strtol` in base ten stops at the ends of the range of a `long`. -/
def strtol (string : List UInt8) : Int :=
  let value : Int := match (chars string).dropWhile isspace with
    | 45 :: rest => -digits rest
    | 43 :: rest => digits rest
    | rest => digits rest
  max (-2 ^ 63) (min value (2 ^ 63 - 1))

/-- The `long` of `strtol` as an `int`. -/
def atoi (string : List UInt8) : Int := (strtol string).bmod (2 ^ 32)

/-- A `char` array with a text of at most 15 bytes, and zeros behind it. -/
def text (string : List UInt8) : Cells UInt8 16 :=
  ⟨string.take 15 ++ List.replicate (16 - (string.take 15).length) 0, by
    rw [List.length_append, List.length_replicate, List.length_take]
    omega⟩

def Options.first : Options := ⟨false, .tun, text [], text [], Tunnel.port, none⟩

def option (options : Options) : Opt → Except Ended Options
  | .d => .ok { options with debug := true }
  | .h => .error .usage
  | .i optarg => .ok { options with ifName := strncpy options.ifName optarg (ifnamsiz - 1) }
  | .s => .ok { options with cliserv := some .server }
  | .c optarg =>
    .ok { options with cliserv := some .client, remoteIp := strncpy options.remoteIp optarg 15 }
  | .p optarg => .ok { options with port := UInt16.ofInt (atoi optarg) }
  | .u => .ok { options with flags := .tun }
  | .a => .ok { options with flags := .tap }
  | .unknown => .error .usage

/-- `main` up to `tun_alloc`, with `argc` arguments left over by `getopt`. -/
def main (opts : List Opt) (argc : Nat) : Except Ended Options := do
  let options ← opts.foldlM option Options.first
  if 0 < argc then .error .usage
  else if options.ifName.cells.headD 0 = 0 then .error .usage
  else if options.cliserv = none then .error .usage
  else if options.cliserv = some .client ∧ options.remoteIp.cells.headD 0 = 0 then .error .usage
  else .ok options

/-! The last option of a kind decides. -/

def lastOf {α : Type} (get : Opt → Option α) (opts : List Opt) : Option α := (opts.filterMap get).getLast?

namespace Opt

/-- The text that an option leaves in `if_name`. -/
def name : Opt → Option (List UInt8)
  | i optarg => some ((chars optarg).take 15)
  | _ => none

def remote : Opt → Option (List UInt8)
  | c optarg => some ((chars optarg).take 15)
  | _ => none

def side : Opt → Option Cliserv
  | s => some .server
  | c _ => some .client
  | _ => none

def number : Opt → Option UInt16
  | p optarg => some (UInt16.ofInt (atoi optarg))
  | _ => none

def device : Opt → Option Flags
  | u => some .tun
  | a => some .tap
  | _ => none

/-- An option that `main` goes on from. -/
def Taken : Opt → Prop
  | h => False
  | unknown => False
  | _ => True

end Opt

/-- What the options set if each keeps the last value that it is given. -/
def Options.of (opts : List Opt) : Options where
  debug := .d ∈ opts
  flags := (lastOf Opt.device opts).getD .tun
  ifName := text ((lastOf Opt.name opts).getD [])
  remoteIp := text ((lastOf Opt.remote opts).getD [])
  port := (lastOf Opt.number opts).getD Tunnel.port
  cliserv := lastOf Opt.side opts

private theorem lastOf_concat {α : Type} (get : Opt → Option α) (opts : List Opt) (opt : Opt) :
    lastOf get (opts ++ [opt]) = (get opt).or (lastOf get opts) := by
  cases found : get opt <;> simp [lastOf, found]

private theorem chars_take {string : List UInt8} (count : Nat) :
    chars ((chars string).take count) = (chars string).take count := by
  rw [chars_eq_self_iff]
  intro zero
  have member : 0 ∈ chars string := List.mem_of_mem_take zero
  simpa using List.mem_takeWhile_imp member

/-- `strncpy` leaves nothing of the text before, and the last byte as it is. -/
private theorem strncpy_text (old src : List UInt8) :
    strncpy (text old) src 15 = text ((chars src).take 15) := by
  have copied : ((chars src).take 15 ++ List.replicate (15 - (chars src).length) 0).length = 15 := by
    rw [List.length_append, List.length_replicate, List.length_take]
    omega
  have last : (text old).cells.drop 15 = [0] := by
    have short : (old.take 15).length ≤ 15 := List.length_take_le _ _
    have rest : 16 - (old.take 15).length - (15 - (old.take 15).length) = 1 := by omega
    rw [text, List.drop_append, List.drop_eq_nil_of_le short, List.nil_append, List.drop_replicate, rest]
    rfl
  have more : 16 - ((chars src).take 15).length = 15 - (chars src).length + 1 := by
    rw [List.length_take]
    omega
  have size := (text old).length_cells
  apply Cells.ext
  show writeAt (text old).cells 0 ((chars src).take 15 ++
    List.replicate (15 - (chars src).length) 0) = _
  rw [writeAt_eq_append (by rw [copied, size]; decide), copied, last]
  simp only [text, List.take_zero, List.nil_append, List.take_take, Nat.min_self, more,
    List.replicate_succ', List.append_assoc]

private theorem headD_text (string : List UInt8) (ended : chars string = string) :
    (text string).cells.headD 0 = 0 ↔ string = [] := by
  cases string with
  | nil => simp [text]
  | cons byte rest =>
    have nonzero : 0 ∉ byte :: rest := (chars_eq_self_iff _).mp ended
    have apart : byte ≠ 0 := fun zero => nonzero (zero ▸ List.mem_cons_self)
    simp [text, apart]

/-- One more option changes what it is about and nothing else. -/
private theorem option_of (opts : List Opt) (opt : Opt) (result : Options) :
    option (Options.of opts) opt = .ok result ↔ opt.Taken ∧ result = Options.of (opts ++ [opt]) := by
  have name := strncpy_text ((lastOf Opt.name opts).getD [])
  have remote := strncpy_text ((lastOf Opt.remote opts).getD [])
  cases opt <;>
    simp [option, Opt.Taken, Options.of, lastOf_concat, Opt.device, Opt.name, Opt.remote,
      Opt.number, Opt.side, ifnamsiz, name, remote, eq_comm]

private theorem foldlM_option (opts : List Opt) (result : Options) :
    opts.foldlM option Options.first = .ok result ↔
      (∀ opt ∈ opts, opt.Taken) ∧ result = Options.of opts := by
  induction opts using List.reverseRecOn generalizing result with
  | nil => exact ⟨fun done => ⟨nofun, (Except.ok.inj done).symm⟩, fun same => by rw [same.2]; rfl⟩
  | append_singleton opts opt ih =>
    rw [List.foldlM_append]
    constructor
    · intro done
      cases before : opts.foldlM option Options.first with
      | error _ => simp [before, bind, Except.bind] at done
      | ok middle =>
        obtain ⟨taken, rfl⟩ := (ih middle).mp before
        simp only [before, bind, Except.bind, List.foldlM_cons, List.foldlM_nil] at done
        cases last : option (Options.of opts) opt with
        | error _ => simp [last] at done
        | ok final =>
          obtain ⟨takes, rfl⟩ := (option_of opts opt final).mp last
          simp only [last, pure, Except.pure, Except.ok.injEq] at done
          subst done
          refine ⟨?_, rfl⟩
          intro other member
          rcases List.mem_append.mp member with earlier | same
          · exact taken other earlier
          · rwa [List.mem_singleton.mp same]
    · rintro ⟨taken, rfl⟩
      have before := (ih (Options.of opts)).mpr
        ⟨fun other member => taken other (List.mem_append_left _ member), rfl⟩
      have last := (option_of opts opt (Options.of (opts ++ [opt]))).mpr ⟨taken opt (by simp), rfl⟩
      simp [before, last, bind, Except.bind, pure, Except.pure]

/-- A text that an option leaves has no zero in it. -/
private theorem chars_lastOf {get : Opt → Option (List UInt8)} {opts : List Opt} {string : List UInt8}
    (texts : ∀ opt string, get opt = some string → chars string = string)
    (last : lastOf get opts = some string) : chars string = string := by
  obtain ⟨opt, -, same⟩ := List.mem_filterMap.mp (List.mem_of_getLast? last)
  exact texts opt string same

private theorem headD_lastOf {get : Opt → Option (List UInt8)} (opts : List Opt)
    (texts : ∀ opt string, get opt = some string → chars string = string) :
    (text ((lastOf get opts).getD [])).cells.headD 0 = 0 ↔ (lastOf get opts).getD [] = [] := by
  cases last : lastOf get opts with
  | none => exact headD_text [] rfl
  | some string => exact headD_text string (chars_lastOf texts last)

private theorem name_texts (opt : Opt) (string : List UInt8) (given : opt.name = some string) :
    chars string = string := by
  cases opt with
  | i optarg =>
    obtain rfl := Option.some.inj given
    exact chars_take 15
  | _ => cases given

private theorem remote_texts (opt : Opt) (string : List UInt8) (given : opt.remote = some string) :
    chars string = string := by
  cases opt with
  | c optarg =>
    obtain rfl := Option.some.inj given
    exact chars_take 15
  | _ => cases given

/-- Which command lines the tunnel is set up from, and with what: each option is taken,
nothing is left over, the last name is not empty, a side is chosen and the client, if
that was chosen last, has an address. -/
theorem main_eq_ok_iff (opts : List Opt) (argc : Nat) (result : Options) :
    main opts argc = .ok result ↔
      (∀ opt ∈ opts, opt.Taken) ∧ argc = 0 ∧ (lastOf Opt.name opts).getD [] ≠ [] ∧
        (lastOf Opt.side opts = some .server ∨
          lastOf Opt.side opts = some .client ∧ (lastOf Opt.remote opts).getD [] ≠ []) ∧
        result = Options.of opts := by
  cases done : opts.foldlM option Options.first with
  | error ended =>
    refine iff_of_false (by simp [main, done, bind, Except.bind]) fun all => ?_
    have taken := (foldlM_option opts (Options.of opts)).mpr ⟨all.1, rfl⟩
    rw [done] at taken
    cases taken
  | ok options =>
    obtain ⟨taken, rfl⟩ := (foldlM_option opts options).mp done
    have name := headD_lastOf opts name_texts
    have remote := headD_lastOf opts remote_texts
    simp only [main, done, bind, Except.bind]
    split_ifs with left noName noSide noAddress
    · refine iff_of_false nofun fun all => ?_
      omega
    · exact iff_of_false nofun fun all => all.2.2.1 (name.mp noName)
    · refine iff_of_false nofun fun all => ?_
      rcases all.2.2.2.1 with server | ⟨client, -⟩
      · cases noSide.symm.trans server
      · cases noSide.symm.trans client
    · refine iff_of_false nofun fun all => ?_
      rcases all.2.2.2.1 with server | ⟨-, some⟩
      · cases noAddress.1.symm.trans server
      · exact some (remote.mp noAddress.2)
    · have named : (lastOf Opt.name opts).getD [] ≠ [] := fun empty => noName (name.mpr empty)
      have chosen : lastOf Opt.side opts = some .server ∨
          lastOf Opt.side opts = some .client ∧ (lastOf Opt.remote opts).getD [] ≠ [] := by
        cases side : lastOf Opt.side opts with
        | none => exact (noSide side).elim
        | some side' =>
          cases side' with
          | server => exact .inl rfl
          | client => exact .inr ⟨rfl, fun empty => noAddress ⟨side, remote.mpr empty⟩⟩
      exact ⟨fun same => ⟨taken, Nat.eq_zero_of_not_pos left, named, chosen, (Except.ok.inj same).symm⟩,
        fun all => by rw [all.2.2.2.2]⟩

/-- Of the port 70000 the low sixteen bits are kept, and those of -1 of a number of twenty nines. -/
example : (main [.s, .i [0x62], .p [0x37, 0x30, 0x30, 0x30, 0x30]] 0).toOption.map Options.port =
      some 4464 ∧
    (main [.s, .i [0x62], .p (List.replicate 20 0x39)] 0).toOption.map Options.port = some 65535 := by
  decide

/-- Of a name of seventeen bytes fifteen are kept, and none behind a shorter one. -/
example : (main [.s, .i (List.replicate 17 0x61)] 0).toOption.map (fun options => read options.ifName.cells) =
      some (some (List.replicate 15 0x61)) ∧
    (main [.i (List.replicate 17 0x61), .i [0x62], .s] 0).toOption.map
      (fun options => read options.ifName.cells) = some (some [0x62]) := by
  decide

end HamachiLike.Tunnel

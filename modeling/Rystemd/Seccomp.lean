import Mathlib.Data.List.Destutter
import Rystemd.Library.SocketFilter
import Rystemd.Syscalls

namespace Rystemd

namespace Seccomp

open Bpf

def AUDIT_ARCH_X86_64 : UInt32 := 0xC000003E

def SECCOMP_RET_ERRNO : UInt32 := 0x00050000

def SECCOMP_RET_ALLOW : UInt32 := 0x7fff0000

def EPERM : UInt32 := 1

/-- What the kernel shows a filter of a system call. -/
structure SeccompData where
  nr : UInt32
  arch : UInt32
  instructionPointer : UInt64 := 0
  args : Fin 6 → UInt64 := fun _ ↦ 0

/-- The two words of a number, the low one first. -/
def halves (x : UInt64) : List UInt32 := [x.toUInt32, (x >>> 32).toUInt32]

/-- The word at a byte offset. -/
def SeccompData.load (d : SeccompData) (offset : UInt32) : Option UInt32 :=
  if offset % 4 = 0 then
    ([d.nr, d.arch] ++ halves d.instructionPointer ++
      (List.ofFn d.args).flatMap halves)[(offset / 4).toNat]?
  else none

/-- `sort_unstable` and `dedup`. -/
def sortDedup (l : List UInt32) : List UInt32 :=
  (l.insertionSort (· ≤ ·)).destutter (· ≠ ·)

/-- The name after the `@` of a group. -/
def groupName (n : String) : Option String :=
  match n.toList with
  | '@' :: rest => some (String.ofList rest)
  | _ => none

def resolveName (n : String) : Except String (List UInt32) :=
  match groupName n with
  | some group =>
    match groupMembers group with
    | some members => .ok (members.filterMap syscallNr)
    | none => .error s!"SystemCallFilter: unknown group `@{group}`"
  | none =>
    match syscallNr (n.map Char.toLower) with
    | some nr => .ok [nr]
    | none => .error s!"SystemCallFilter: unknown syscall `{n}`"

/-- Resolve a list of `SystemCallFilter=` names to system call numbers. -/
def resolve (names : List String) : Except String (List UInt32) :=
  (names.mapM resolveName).map fun out ↦ sortDedup out.flatten

def suidsgidNrs : List UInt32 :=
  sortDedup (["chmod", "fchmod", "fchmodat", "chown", "fchown", "lchown", "fchownat"].filterMap
    syscallNr)

/-- The `RestrictAddressFamilies=` gate. -/
structure AfGate where
  deny : Bool
  families : List UInt32
  denyAll : Bool
deriving DecidableEq

/-- Whether a family that is not listed is refused. -/
def AfGate.famDefaultErrno (af : AfGate) : Bool := if af.denyAll then af.deny else !af.deny

def AfGate.constErrno (af : AfGate) : Bool := af.denyAll || af.families.isEmpty

/-- A symbolic jump target. -/
inductive Tgt
  | none
  | i (idx : Nat)
  | errno
  | allow
  | famarg
  | wxArg
  | plain
deriving DecidableEq

/-- An instruction before its targets are resolved. -/
structure I where
  code : UInt16
  k : UInt32
  jt : Tgt
  jf : Tgt

def ld (k : UInt32) : I := ⟨Opcode.ld.code, k, .none, .none⟩

def jeq (k : UInt32) (jt jf : Tgt) : I := ⟨Opcode.jeq.code, k, jt, jf⟩

def ret (k : UInt32) : I := ⟨Opcode.ret.code, k, .none, .none⟩

def pickT (errnoSide : Bool) : Tgt := if errnoSide then .errno else .allow

def socketNrs : List UInt32 := ["socket", "socketpair"].filterMap syscallNr

def wxNrs (wx : Bool) : List UInt32 :=
  if wx then ["mmap", "mprotect", "pkey_mprotect"].filterMap syscallNr else []

def allowBase : List UInt32 := ALLOW_BASE.filterMap syscallNr

/-- The numbers of the calls that have a gate, or that are named together. -/
theorem numbers_eq : socketNrs = [41, 53] ∧ wxNrs true = [9, 10, 329] ∧
    allowBase = [60, 231, 15, 13, 14, 127, 128, 129, 130, 131, 39, 186, 110, 234, 62, 35, 228, 230,
      318, 202, 9, 10, 11, 28, 12, 0, 1, 257, 3, 5, 262, 8, 17, 18, 16] ∧
    suidsgidNrs = [90, 91, 92, 93, 94, 260, 268] := by
  decide +kernel

theorem allowBase_eq : allowBase = [60, 231, 15, 13, 14, 127, 128, 129, 130, 131, 39, 186, 110, 234,
    62, 35, 228, 230, 318, 202, 9, 10, 11, 28, 12, 0, 1, 257, 3, 5, 262, 8, 17, 18, 16] :=
  numbers_eq.2.2.1

def pushAbsent (entries : List UInt32) (nr : UInt32) : List UInt32 :=
  if nr ∈ entries then entries else entries ++ [nr]

/-- The numbers that are compared without a look at the arguments. -/
def entries (nrs : List UInt32) (deny : Bool) (extraDeny : List UInt32) (af : Option AfGate)
    (wx : Bool) : List UInt32 :=
  let entries := if af.isSome then nrs.filter fun e ↦ e ∉ socketNrs else nrs
  let entries := entries.filter fun e ↦ e ∉ wxNrs wx
  sortDedup ((if deny then extraDeny else allowBase).foldl pushAbsent entries)

def listDenies (nrs : List UInt32) (deny : Bool) (s : UInt32) : Bool :=
  if deny then s ∈ nrs else s ∉ nrs

def wxGates (nrs : List UInt32) (deny wx : Bool) : List (UInt32 × Tgt) :=
  (wxNrs wx).map fun s ↦ (s, if listDenies nrs deny s then .errno else .wxArg)

def afGates (nrs : List UInt32) (deny : Bool) : Option AfGate → List (UInt32 × Tgt)
  | none => []
  | some af => socketNrs.map fun s ↦
    (s, if listDenies nrs deny s then .errno
      else if af.constErrno then pickT af.famDefaultErrno else .famarg)

/-- The gates, the `MemoryDenyWriteExecute=` ones first. -/
def gates (nrs : List UInt32) (deny : Bool) (af : Option AfGate) (wx : Bool) :
    List (UInt32 × Tgt) := wxGates nrs deny wx ++ afGates nrs deny af

/-- Point the jumps to one target at another one. -/
def patch (t t' : Tgt) (ins : I) : I :=
  { ins with jt := if ins.jt = t then t' else ins.jt, jf := if ins.jf = t then t' else ins.jf }

def prologue : List I := [ld 4, jeq AUDIT_ARCH_X86_64 (.i 2) .errno, ld 0]

def gateBlock (start : Nat) (gates : List (UInt32 × Tgt)) : List I :=
  gates.mapIdx fun k g ↦
    jeq g.1 g.2 (if k + 1 = gates.length then .plain else .i (start + k + 1))

def entryBlock (start : Nat) (deny : Bool) (entries : List UInt32) : List I :=
  entries.mapIdx fun i nr ↦
    jeq nr (pickT deny) (if i + 1 = entries.length then pickT !deny else .i (start + i + 1))

/-- Load the family and compare it with the listed ones. -/
def famBlock (af : AfGate) : List I :=
  ld 16 :: af.families.map fun f ↦ jeq f (pickT af.deny) (pickT af.famDefaultErrno)

/-- Load `prot` and test it for writable and executable. -/
def wxBlock (start : Nat) : List I :=
  [ld 32, ⟨Opcode.and.code, 6, .none, .none⟩, ⟨Opcode.jset.code, 2, .i (start + 3), .allow⟩,
    ⟨Opcode.jset.code, 4, .errno, .allow⟩]

/-- The program up to its returns. -/
def layout (nrs : List UInt32) (deny : Bool) (extraDeny : List UInt32) (af : Option AfGate)
    (wx : Bool) : List I :=
  let entries := entries nrs deny extraDeny af wx
  let gates := gates nrs deny af wx
  let prog := prologue ++ gateBlock prologue.length gates
  let plainT := if entries.isEmpty then pickT !deny else .i prog.length
  let prog := prog.map (patch .plain plainT)
  let prog := prog ++ entryBlock prog.length deny entries
  let prog :=
    match af with
    | some af =>
      if gates.any fun g ↦ g.2 = .famarg then
        (prog ++ famBlock af).map (patch .famarg (.i prog.length))
      else prog
    | none => prog
  if gates.any fun g ↦ g.2 = .wxArg then
    (prog ++ wxBlock prog.length).map (patch .wxArg (.i prog.length))
  else prog

/-- The index that a target stands for; the blocks above forward the last three. -/
def place (errnoI allowI : Nat) (ins : I) : Placed :=
  let resolve : Tgt → Option Nat
    | .none => none
    | .i idx => some idx
    | .errno => some errnoI
    | .allow => some allowI
    | .famarg | .wxArg | .plain => none
  ⟨ins.code, ins.k, resolve ins.jt, resolve ins.jf⟩

def errnoRet (errno : UInt32) : UInt32 :=
  SECCOMP_RET_ERRNO ||| ((if errno = 0 then EPERM else errno) &&& 0xFFFF)

/-- Build the seccomp program. -/
def build (nrs : List UInt32) (deny : Bool) (errno : UInt32) (extraDeny : List UInt32)
    (af : Option AfGate) (wx : Bool) : List Insn :=
  let prog := layout nrs deny extraDeny af wx
  let errnoI := prog.length
  assemble ((prog ++ [ret (errnoRet errno), ret SECCOMP_RET_ALLOW]).map (place errnoI (errnoI + 1)))

end Seccomp

end Rystemd

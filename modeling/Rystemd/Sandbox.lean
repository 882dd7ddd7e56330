import Rystemd.Library.Text
import Rystemd.Seccomp

namespace Rystemd

open Text

inductive ProtectMode
  | no | readOnly | tmpfs
  deriving DecidableEq

inductive ProtectSystemLevel
  | no | yes | full | strict
  deriving DecidableEq

/-- The `[Service]` sandboxing directives. -/
structure SandboxConfig where
  noNewPrivileges : Bool := false
  privateTmp : Bool := false
  privateDevices : Bool := false
  protectHome : ProtectMode := .no
  protectSystem : ProtectSystemLevel := .no
  readOnlyPaths : List String := []
  boundingSet : List String := []
  boundingInvert : Bool := false
  ambientSet : List String := []
  syscallNrs : List UInt32 := []
  syscallDeny : Bool := false
  syscallErrno : UInt32 := 0
  restrictRealtime : Bool := false
  lockPersonality : Bool := false
  restrictSuidsgid : Bool := false
  afPresent : Bool := false
  afDeny : Bool := false
  afFamilies : List UInt32 := []
  afDenyAll : Bool := false
  memoryDenyWriteExecute : Bool := false

/-- A raw sandbox op. -/
inductive Op
  | unshareMount
  | makeRprivate
  | mountTmpfs (path : String)
  | bindReadOnly (path : String)
  | privateDevices
  | noNewPrivileges
  | capBoundingDrop (caps : List UInt32) (invert : Bool)
  | ambientRaise (caps : List UInt32)
  | seccomp (program : List Bpf.Insn)
  deriving DecidableEq

def LAST_CAP : UInt32 := 40

/-- The capabilities to drop from the bounding set. -/
def capDropSet (caps : List UInt32) (invert : Bool) : List UInt32 :=
  if invert then caps
  else ((List.range (LAST_CAP.toNat + 1)).map UInt32.ofNat).filter fun c ↦ c ∉ caps

def CAPS : List String := [
  "CHOWN", "DAC_OVERRIDE", "DAC_READ_SEARCH", "FOWNER", "FSETID", "KILL", "SETGID", "SETUID",
  "SETPCAP", "LINUX_IMMUTABLE", "NET_BIND_SERVICE", "NET_BROADCAST", "NET_ADMIN", "NET_RAW",
  "IPC_LOCK", "IPC_OWNER", "SYS_MODULE", "SYS_RAWIO", "SYS_CHROOT", "SYS_PTRACE", "SYS_PACCT",
  "SYS_ADMIN", "SYS_BOOT", "SYS_NICE", "SYS_RESOURCE", "SYS_TIME", "SYS_TTY_CONFIG", "MKNOD",
  "LEASE", "AUDIT_WRITE", "AUDIT_CONTROL", "SETFCAP", "MAC_OVERRIDE", "MAC_ADMIN", "SYSLOG",
  "WAKE_ALARM", "BLOCK_SUSPEND", "AUDIT_READ", "PERFMON", "BPF", "CHECKPOINT_RESTORE"]

/-- The number of a capability, whose name may have the prefix `CAP_`. -/
def capNumber (name : String) : Option UInt32 :=
  let name := toAsciiUppercase name
  let name := (stripPrefix "CAP_" name).getD name
  (CAPS.findIdx? fun c ↦ c = name).map UInt32.ofNat

namespace SandboxConfig

/-- Whether any implemented sandbox directive is set. -/
def hasSandbox (cfg : SandboxConfig) : Bool :=
  cfg.noNewPrivileges || cfg.privateTmp || cfg.privateDevices || cfg.protectHome != .no ||
    cfg.protectSystem != .no || !cfg.readOnlyPaths.isEmpty || cfg.boundingInvert ||
    !cfg.boundingSet.isEmpty || !cfg.ambientSet.isEmpty || !cfg.syscallNrs.isEmpty ||
    cfg.restrictRealtime || cfg.lockPersonality || cfg.restrictSuidsgid || cfg.afPresent ||
    cfg.memoryDenyWriteExecute

def needMountns (cfg : SandboxConfig) : Bool :=
  cfg.privateTmp || cfg.privateDevices || cfg.protectHome != .no || cfg.protectSystem != .no ||
    !cfg.readOnlyPaths.isEmpty

def mountOps (cfg : SandboxConfig) : List Op :=
  (if cfg.needMountns then [.unshareMount, .makeRprivate] else []) ++
  (if cfg.privateTmp then [.mountTmpfs "/tmp", .mountTmpfs "/var/tmp"] else []) ++
  (match cfg.protectHome with
    | .no => []
    | .readOnly => ["/home", "/root", "/run/user"].map .bindReadOnly
    | .tmpfs => ["/home", "/root", "/run/user"].map .mountTmpfs) ++
  (match cfg.protectSystem with
    | .no => []
    | .yes => ["/usr", "/boot", "/efi"].map .bindReadOnly
    | .full => ["/usr", "/boot", "/efi", "/etc"].map .bindReadOnly
    | .strict => [.bindReadOnly "/"]) ++
  cfg.readOnlyPaths.map .bindReadOnly ++
  (if cfg.privateDevices then [.privateDevices] else [])

def boundingOps (cfg : SandboxConfig) : List Op :=
  if cfg.boundingSet.isEmpty then []
  else
    let caps := cfg.boundingSet.filterMap capNumber
    if caps.isEmpty then [] else [.capBoundingDrop caps cfg.boundingInvert]

def ambientOps (cfg : SandboxConfig) : List Op :=
  if cfg.ambientSet.isEmpty then []
  else
    let caps := cfg.ambientSet.filterMap capNumber
    if caps.isEmpty then [] else [.ambientRaise caps]

/-- `sched_setscheduler`, `sched_setattr` and `sched_setparam`. -/
def RT_DENY : List UInt32 := [144, 314, 142]

def PERSONALITY : UInt32 := 135

def needSeccomp (cfg : SandboxConfig) : Bool :=
  !cfg.syscallNrs.isEmpty || cfg.restrictRealtime || cfg.lockPersonality || cfg.restrictSuidsgid ||
    cfg.afPresent || cfg.memoryDenyWriteExecute

def extraDeny (cfg : SandboxConfig) : List UInt32 :=
  (if cfg.restrictRealtime then RT_DENY else []) ++
  (if cfg.lockPersonality then [PERSONALITY] else []) ++
  (if cfg.restrictSuidsgid then Seccomp.suidsgidNrs else [])

/-- The list denies what it names; a missing list denies nothing. -/
def deny (cfg : SandboxConfig) : Bool := if cfg.syscallNrs.isEmpty then true else cfg.syscallDeny

def af (cfg : SandboxConfig) : Option Seccomp.AfGate :=
  if cfg.afPresent then
    some { deny := cfg.afDeny, families := cfg.afFamilies, denyAll := cfg.afDenyAll }
  else none

def seccompOps (cfg : SandboxConfig) : List Op :=
  if cfg.needSeccomp then
    (if cfg.noNewPrivileges then [] else [.noNewPrivileges]) ++
      [.seccomp (Seccomp.build cfg.syscallNrs cfg.deny cfg.syscallErrno cfg.extraDeny cfg.af
        cfg.memoryDenyWriteExecute)]
  else []

end SandboxConfig

/-- Build the ordered op list, or `none` if no implemented directive is set. -/
def plan (cfg : SandboxConfig) : Option (List Op) :=
  if !cfg.hasSandbox then none
  else some (cfg.mountOps ++ (if cfg.noNewPrivileges then [.noNewPrivileges] else []) ++
    cfg.boundingOps ++ cfg.ambientOps ++ cfg.seccompOps)

def FAMILIES : List (String × UInt32) := [
  ("UNSPEC", 0), ("UNIX", 1), ("LOCAL", 1), ("FILE", 1), ("INET", 2), ("AX25", 3), ("IPX", 4),
  ("APPLETALK", 5), ("NETROM", 6), ("BRIDGE", 7), ("ATMPVC", 8), ("X25", 9), ("INET6", 10),
  ("ROSE", 11), ("DECnet", 12), ("NETBEUI", 13), ("SECURITY", 14), ("KEY", 15), ("NETLINK", 16),
  ("ROUTE", 16), ("PACKET", 17), ("ASH", 18), ("ECONET", 19), ("ATMSVC", 20), ("RDS", 21),
  ("SNA", 22), ("IRDA", 23), ("PPPOX", 24), ("WANPIPE", 25), ("LLC", 26), ("IB", 27), ("MPLS", 28),
  ("CAN", 29), ("TIPC", 30), ("BLUETOOTH", 31), ("IUCV", 32), ("RX", 33), ("ISDN", 34),
  ("PHONET", 35), ("IEEE802154", 36), ("CAIF", 37), ("ALG", 38), ("NFC", 39), ("VSOCK", 40),
  ("KCM", 41), ("QIPCRTR", 42), ("XDP", 44), ("MCTP", 45)]

/-- The number of an address family, named with or without `AF_` or given as a number. -/
def addressFamilyNumber (name : String) : Option UInt32 :=
  match parseU32 name with
  | some n => some n
  | none =>
    let up := toAsciiUppercase name
    let up := (stripPrefix "AF_" up).getD up
    (FAMILIES.find? fun f ↦ f.1 = up).map Prod.snd

/-- One word of `RestrictAddressFamilies=`. -/
def addFamily (parsed : Bool × List UInt32 × Bool) (tok : String) :
    Except String (Bool × List UInt32 × Bool) :=
  let (deny, families, denyAll) := parsed
  let deny := deny || startsWith '~' tok
  let name := trimStartMatches '~' tok
  if eqIgnoreAsciiCase name "all" then .ok (deny, families, true)
  else
    match addressFamilyNumber name with
    | some n => .ok (deny, families ++ [n], denyAll)
    | none => .error s!"RestrictAddressFamilies: unknown family `{name}`"

/-- Parse `RestrictAddressFamilies=`: whether the list denies, its families and whether it has
`all`. -/
def parseAddressFamilies (v : String) : Except String (Bool × List UInt32 × Bool) := do
  let (deny, families, denyAll) ← (splitWhitespace v).foldlM addFamily (false, [], false)
  return (deny, Seccomp.sortDedup families, denyAll)

/-- `RestrictAddressFamilies=` of a unit; a blank value sets nothing. -/
def SandboxConfig.setAddressFamilies (cfg : SandboxConfig) (v : String) :
    Except String SandboxConfig :=
  if trim v = "" then .ok cfg
  else (parseAddressFamilies v).map fun (deny, families, denyAll) ↦
    { cfg with afPresent := true, afDeny := deny, afFamilies := families, afDenyAll := denyAll }

/-- `CapabilityBoundingSet=` of a unit. -/
def SandboxConfig.setBoundingSet (cfg : SandboxConfig) (v : String) : SandboxConfig :=
  { cfg with
    boundingInvert := startsWith '~' (trimStart v)
    boundingSet := ((splitWhitespace v).map (trimStartMatches '~')).filter fun c ↦ !c.isEmpty }

end Rystemd

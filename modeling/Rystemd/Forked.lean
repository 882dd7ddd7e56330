import Rystemd.Library.Calls
import Rystemd.Sandbox

namespace Rystemd

open Calls

abbrev Errno := UInt32

def Errno.EPERM : Errno := 1

def Errno.EINVAL : Errno := 22

inductive RlimitResource
  | noFile | nProc | core | addressSpace

structure Rlimit where
  resource : RlimitResource
  soft : UInt64
  hard : UInt64

def MS_RDONLY : UInt64 := 1
def MS_NOSUID : UInt64 := 2
def MS_NODEV : UInt64 := 4
def MS_NOEXEC : UInt64 := 8
def MS_REMOUNT : UInt64 := 32
def MS_BIND : UInt64 := 4096
def MS_REC : UInt64 := 16384
def MS_PRIVATE : UInt64 := 262144

/-- The arguments of `mount`. -/
structure MountCall where
  source : Option String
  target : String
  fstype : Option String
  flags : UInt64
  data : Option String

/-- The calls of the forked child. -/
inductive Syscall
  | sigprocmask
  | setsid
  | dup2 (fd : Nat) (target : Nat)
  | openWrite (path : String)
  | writePid
  | close
  | unshare (user : Bool)
  | mount (args : MountCall)
  | stat (path : String)
  | mknod (path : String) (major minor : Nat)
  | createDirAll (path : String)
  | removeFile (path : String)
  | symlink (target link : String)
  | writeFile (path body : String)
  | setNoNewPrivs
  | capbsetDrop (cap : UInt32)
  | ambientRaise (cap : UInt32)
  | setSeccomp (program : List Bpf.Insn)
  | chdir (dir : String)
  | setgroups (gids : List UInt32)
  | setgid (gid : UInt32)
  | setuid (uid : UInt32)
  | umask (mode : UInt32)
  | setpriority (nice : Int)
  | setrlimit (rlimit : Rlimit)
  | exec (program : String) (args : List String)

/-- The call belongs to the sandbox, apart from mounts and files. -/
def Syscall.sandboxes : Syscall → Bool
  | .unshare _ | .setNoNewPrivs | .capbsetDrop _ | .ambientRaise _ | .setSeccomp _ => true
  | _ => false

/-- The call changes the identity of the process. -/
def Syscall.identifies : Syscall → Bool
  | .setgroups _ | .setgid _ | .setuid _ => true
  | _ => false

def Syscall.plain (c : Syscall) : Bool := !c.sandboxes && !c.identifies

inductive SpawnError
  | sandbox (op : String) (e : Errno)
  | os (e : Errno)

/-- What the child does; the answer to a call is an error or none. -/
abbrev Forked := Prog Syscall (Option Errno) SpawnError

namespace Forked

/-- A call that must succeed. -/
def check (error : Errno → SpawnError) (c : Syscall) : Forked PUnit := do
  match ← Prog.ask c with
  | none => pure ()
  | some e => .fail (error e)

/-- A call whose failure is only reported. -/
def attempt (c : Syscall) : Forked PUnit := do
  let _ ← Prog.ask c
  pure ()

/-- A step of the sandbox that must succeed. -/
def must (op : String) (c : Syscall) : Forked PUnit := check (.sandbox op) c

def writeIdMap (name : String) (id : UInt32) : Forked PUnit := do
  match ← Prog.ask (.writeFile s!"/proc/self/{name}" s!"0 {id} 1\n") with
  | none => pure ()
  | some e => if e = Errno.EPERM then pure () else .fail (.sandbox s!"userns-{name}" e)

/-- After `CLONE_NEWUSER`, write the uid and the gid map. -/
def setupUsernsMap (euid egid : UInt32) : Forked PUnit := do
  attempt (.writeFile "/proc/self/setgroups" "deny")
  writeIdMap "uid_map" euid
  writeIdMap "gid_map" egid

def deviceNodes : List (String × Nat × Nat) :=
  [("null", 1, 3), ("zero", 1, 5), ("full", 1, 7), ("random", 1, 8), ("urandom", 1, 9),
    ("tty", 5, 0)]

def deviceLinks : List (String × String) :=
  [("/dev/fd", "/proc/self/fd"), ("/dev/stdin", "/proc/self/fd/0"),
    ("/dev/stdout", "/proc/self/fd/1"), ("/dev/stderr", "/proc/self/fd/2")]

/-- Shadow `/dev` with a fresh tmpfs and a minimal device tree. -/
def privateDevices : Forked PUnit := do
  match ← Prog.ask (.mount ⟨some "tmpfs", "/dev", some "tmpfs", MS_NOSUID ||| MS_NODEV,
    some "mode=0755"⟩) with
  | some _ => pure ()
  | none =>
    deviceNodes.forM fun n ↦ attempt (.mknod ("/dev/" ++ n.1) n.2.1 n.2.2)
    attempt (.createDirAll "/dev/pts")
    attempt (.createDirAll "/dev/shm")
    attempt (.mount ⟨some "devpts", "/dev/pts", some "devpts", MS_NOSUID ||| MS_NOEXEC, none⟩)
    attempt (.removeFile "/dev/ptmx")
    attempt (.symlink "/dev/pts/ptmx" "/dev/ptmx")
    attempt (.mount ⟨some "tmpfs", "/dev/shm", some "tmpfs", MS_NOSUID ||| MS_NODEV,
      some "mode=1777"⟩)
    deviceLinks.forM fun l ↦ do
      attempt (.removeFile l.1)
      attempt (.symlink l.2 l.1)

/-- One op of `apply`; the loop stops with `Ok(None)` at `false`. The ids are those that the new
user namespace shows. -/
def applyOp (isRoot : Bool) (ids : UInt32 × UInt32) : Op → Forked Bool
  | .unshareMount => do
    match ← Prog.ask (.unshare (!isRoot)) with
    | none =>
      (if isRoot then pure () else setupUsernsMap ids.1 ids.2)
      pure true
    | some e =>
      if !isRoot && (e = Errno.EPERM || e = Errno.EINVAL) then pure false
      else .fail (.sandbox "unshare" e)
  | .makeRprivate => do
    must "make-rprivate" (.mount ⟨none, "/", none, MS_REC ||| MS_PRIVATE, none⟩)
    pure true
  | .mountTmpfs target => do
    must "mount-tmpfs"
      (.mount ⟨some "tmpfs", target, some "tmpfs", MS_NOSUID ||| MS_NODEV, some "mode=1777"⟩)
    pure true
  | .bindReadOnly target => do
    if (← Prog.ask (.stat target)).isSome then pure true
    else if !isRoot then pure true
    else
      must "bind-ro" (.mount ⟨some target, target, none, MS_BIND ||| MS_REC, none⟩)
      must "remount-ro"
        (.mount ⟨none, target, none, MS_BIND ||| MS_REMOUNT ||| MS_RDONLY ||| MS_REC, none⟩)
      pure true
  | .privateDevices => do
    privateDevices
    pure true
  | .noNewPrivileges => do
    must "no-new-privs" .setNoNewPrivs
    pure true
  | .capBoundingDrop caps invert => do
    (capDropSet caps invert).forM fun cap ↦ must "cap-bounding-drop" (.capbsetDrop cap)
    pure true
  | .ambientRaise caps => do
    caps.forM fun cap ↦ attempt (.ambientRaise cap)
    pure true
  | .seccomp program => do
    must "seccomp" (.setSeccomp program)
    pure true

/-- Execute the ordered ops in the forked child; `none` if mount sandboxing was skipped. -/
def apply (isRoot : Bool) (ids : UInt32 × UInt32) : List Op → Forked (Option PUnit)
  | [] => pure (some ())
  | op :: ops => do
    if ← applyOp isRoot ids op then apply isRoot ids ops else pure none

end Forked

/-- What the parent hands to the child; the argv is never empty. -/
structure SpawnOptions where
  program : String
  args : List String := []
  cwd : Option String := none
  uid : Option UInt32 := none
  gid : Option UInt32 := none
  groups : List UInt32 := []
  nice : Option Int := none
  umask : Option UInt32 := none
  rlimits : List Rlimit := []
  listenFds : List Nat := []
  cgroup : Option String := none
  sandboxOps : Option (List Op) := none

namespace Forked

def adoptCgroup (dir : String) : Forked PUnit := do
  match ← Prog.ask (.openWrite (dir ++ "/cgroup.procs")) with
  | some _ => pure ()
  | none =>
    attempt .writePid
    attempt .close

/-- What the child does before the sandbox. -/
def prepare (opts : SpawnOptions) : Forked PUnit := do
  check .os .sigprocmask
  check .os .setsid
  opts.listenFds.zipIdx.forM fun fd ↦ check .os (.dup2 fd.1 (3 + fd.2))
  opts.cgroup.forM adoptCgroup

def sandbox (isRoot : Bool) (ids : UInt32 × UInt32) (opts : SpawnOptions) : Forked PUnit :=
  opts.sandboxOps.forM fun ops ↦ do
    let _ ← apply isRoot ids ops
    pure ()

def changeDir (opts : SpawnOptions) : Forked PUnit :=
  opts.cwd.forM fun dir ↦ check .os (.chdir dir)

def dropPrivileges (opts : SpawnOptions) : Forked PUnit := do
  (if opts.groups.isEmpty then pure () else check .os (.setgroups opts.groups))
  opts.gid.forM fun g ↦ check .os (.setgid g)
  opts.uid.forM fun u ↦ check .os (.setuid u)

/-- What the child does as its new identity, up to the exec. -/
def launch (opts : SpawnOptions) : Forked PUnit := do
  opts.umask.forM fun m ↦ attempt (.umask (m &&& 0o7777))
  opts.nice.forM fun n ↦ attempt (.setpriority n)
  opts.rlimits.forM fun rl ↦ check .os (.setrlimit rl)
  check .os (.exec opts.program opts.args)

/-- The child of `spawn`, from the fork to the exec. -/
def spawn (isRoot : Bool) (ids : UInt32 × UInt32) (opts : SpawnOptions) : Forked PUnit := do
  prepare opts
  sandbox isRoot ids opts
  changeDir opts
  dropPrivileges opts
  launch opts

section Calls

variable {P : Syscall → Prop} {opts : SpawnOptions} {error : Errno → SpawnError} {c : Syscall}
  {t : List (Syscall × Option Errno)} {answer : Syscall → Option Errno}

theorem only_check (h : P c) : (check error c).Only P := by
  refine Prog.only_bind (Prog.only_ask h) fun r ↦ ?_
  cases r with
  | none => exact Prog.only_pure ()
  | some e => trivial

theorem only_attempt (h : P c) : (attempt c).Only P :=
  Prog.only_bind (Prog.only_ask h) fun _ ↦ Prog.only_pure ()

theorem only_adoptCgroup (dir : String) : (adoptCgroup dir).Only fun c ↦ c.plain := by
  refine Prog.only_bind (Prog.only_ask rfl) fun r ↦ ?_
  cases r with
  | none => exact Prog.only_bind (only_attempt rfl) fun _ ↦ only_attempt rfl
  | some e => exact Prog.only_pure ()

theorem only_prepare : (prepare opts).Only fun c ↦ c.plain := by
  refine Prog.only_bind (only_check rfl) fun _ ↦ ?_
  refine Prog.only_bind (only_check rfl) fun _ ↦ ?_
  refine Prog.only_bind (Prog.only_forM fun _ _ ↦ only_check rfl) fun _ ↦ ?_
  exact Prog.only_forM_option fun dir _ ↦ only_adoptCgroup dir

theorem only_changeDir : (changeDir opts).Only fun c ↦ c.plain :=
  Prog.only_forM_option fun _ _ ↦ only_check rfl

theorem only_dropPrivileges : (dropPrivileges opts).Only fun c ↦ c.identifies := by
  refine Prog.only_bind ?_ fun _ ↦ ?_
  · split
    · exact Prog.only_pure ()
    · exact only_check rfl
  refine Prog.only_bind (Prog.only_forM_option fun _ _ ↦ only_check rfl) fun _ ↦ ?_
  exact Prog.only_forM_option fun _ _ ↦ only_check rfl

theorem only_launch : (launch opts).Only fun c ↦ c.plain := by
  refine Prog.only_bind (Prog.only_forM_option fun _ _ ↦ only_attempt rfl) fun _ ↦ ?_
  refine Prog.only_bind (Prog.only_forM_option fun _ _ ↦ only_attempt rfl) fun _ ↦ ?_
  exact Prog.only_bind (Prog.only_forM fun _ _ ↦ only_check rfl) fun _ ↦ only_check rfl

theorem runs_check (h : Prog.Runs (check error c) t (.ok ())) : t = [(c, none)] := by
  obtain ⟨r, t₁, t₂, rfl, h₁, h₂⟩ := Prog.Runs.of_bind h
  cases r with
  | none =>
    rw [Prog.Runs.of_ask h₁, (Prog.Runs.of_pure h₂).1]
    rfl
  | some e => cases h₂

theorem runs_attempt (h : Prog.Runs (attempt c) t (.ok ())) : ∃ r, t = [(c, r)] := by
  obtain ⟨r, t₁, t₂, rfl, h₁, h₂⟩ := Prog.Runs.of_bind h
  rw [Prog.Runs.of_ask h₁, (Prog.Runs.of_pure h₂).1]
  exact ⟨r, rfl⟩

theorem returns_check (h : answer c = none) : Prog.Returns answer (check error c) () := by
  refine Prog.returns_bind (a := answer c) rfl ?_
  rw [h]
  rfl

theorem returns_attempt : Prog.Returns answer (attempt c) () := rfl

/-- A spawn that reaches the exec has gone through its parts. -/
theorem runs_spawn {isRoot : Bool} {ids : UInt32 × UInt32}
    (h : Prog.Runs (spawn isRoot ids opts) t (.ok ())) :
    ∃ t₁ t₂ t₃ t₄ t₅, t = t₁ ++ (t₂ ++ (t₃ ++ (t₄ ++ t₅))) ∧
      Prog.Runs (prepare opts) t₁ (.ok ()) ∧ Prog.Runs (sandbox isRoot ids opts) t₂ (.ok ()) ∧
      Prog.Runs (changeDir opts) t₃ (.ok ()) ∧ Prog.Runs (dropPrivileges opts) t₄ (.ok ()) ∧
      Prog.Runs (launch opts) t₅ (.ok ()) := by
  obtain ⟨_, t₁, s₁, rfl, h₁, h⟩ := Prog.Runs.of_bind h
  obtain ⟨_, t₂, s₂, rfl, h₂, h⟩ := Prog.Runs.of_bind h
  obtain ⟨_, t₃, s₃, rfl, h₃, h⟩ := Prog.Runs.of_bind h
  obtain ⟨_, t₄, t₅, rfl, h₄, h₅⟩ := Prog.Runs.of_bind h
  exact ⟨t₁, t₂, t₃, t₄, t₅, rfl, h₁, h₂, h₃, h₄, h₅⟩

theorem returns_prepare (h : ∀ c, c.plain → answer c = none) :
    Prog.Returns answer (prepare opts) () := by
  refine Prog.returns_bind (returns_check (h _ rfl)) ?_
  refine Prog.returns_bind (returns_check (h _ rfl)) ?_
  refine Prog.returns_bind (Prog.returns_forM fun _ _ ↦ returns_check (h _ rfl)) ?_
  refine Prog.returns_forM_option fun dir _ ↦ ?_
  refine Prog.returns_bind (a := none) ?_ (Prog.returns_bind returns_attempt returns_attempt)
  exact congrArg Except.ok (h (.openWrite (dir ++ "/cgroup.procs")) rfl)

theorem returns_changeDir (h : ∀ c, c.plain → answer c = none) :
    Prog.Returns answer (changeDir opts) () :=
  Prog.returns_forM_option fun _ _ ↦ returns_check (h _ rfl)

theorem returns_dropPrivileges (h : ∀ c, c.identifies → answer c = none) :
    Prog.Returns answer (dropPrivileges opts) () := by
  refine Prog.returns_bind (a := ()) ?_ ?_
  · split
    · rfl
    · exact returns_check (h _ rfl)
  refine Prog.returns_bind (Prog.returns_forM_option fun _ _ ↦ returns_check (h _ rfl)) ?_
  exact Prog.returns_forM_option fun _ _ ↦ returns_check (h _ rfl)

theorem returns_launch (h : ∀ c, c.plain → answer c = none) :
    Prog.Returns answer (launch opts) () := by
  refine Prog.returns_bind (Prog.returns_forM_option fun _ _ ↦ returns_attempt) ?_
  refine Prog.returns_bind (Prog.returns_forM_option fun _ _ ↦ returns_attempt) ?_
  refine Prog.returns_bind (Prog.returns_forM fun _ _ ↦ returns_check (h _ rfl)) ?_
  exact returns_check (h _ rfl)

/-- If nothing but the sandbox can fail, and the sandbox is applied, the child gets to the exec. -/
theorem returns_spawn {isRoot : Bool} {ids : UInt32 × UInt32}
    (h : ∀ c, c.sandboxes = false → answer c = none)
    (hs : Prog.Returns answer (sandbox isRoot ids opts) ()) :
    Prog.Returns answer (spawn isRoot ids opts) () := by
  have hplain (c : Syscall) (hc : c.plain) : answer c = none := by
    rw [Syscall.plain, Bool.and_eq_true, Bool.not_eq_true'] at hc
    exact h c hc.1
  have hid (c : Syscall) (hc : c.identifies) : answer c = none := by
    refine h c ?_
    cases c with
    | setgroups | setgid | setuid => rfl
    | _ => cases hc
  refine Prog.returns_bind (returns_prepare hplain) (Prog.returns_bind hs ?_)
  refine Prog.returns_bind (returns_changeDir hplain) ?_
  exact Prog.returns_bind (returns_dropPrivileges hid) (returns_launch hplain)

end Calls

end Forked

end Rystemd

import Mathlib.Tactic.MkIffOfInductiveProp
import Rystemd.SandboxApply
import Rystemd.Units

namespace Rystemd

open Calls Prog

/-- The users and groups of the system. -/
structure UserDb where
  resolveUser : String → Option (UInt32 × UInt32 × List UInt32)
  resolveGroup : String → Option UInt32

/-- The settings of a service that its child is told. -/
structure ExecContext where
  user : Option String := none
  group : Option String := none
  workingDirectory : Option String := none
  nice : Option Int := none
  umask : Option UInt32 := none
  rlimits : List Rlimit := []
  sandbox : SandboxConfig := {}

/-- The identity that a service is to run as. -/
def resolveIdentity (db : UserDb) (sc : ExecContext) :
    Except UnitResult (Option UInt32 × Option UInt32 × List UInt32) := do
  let resolvedUser ← match sc.user with
    | some user => match db.resolveUser user with
      | some identity => pure (some identity)
      | none => .error .user
    | none => pure none
  let gid ← match sc.group with
    | some group => match db.resolveGroup group with
      | some gid => pure (some gid)
      | none => .error .group
    | none => pure none
  return (resolvedUser.map fun identity ↦ identity.1, gid,
    (resolvedUser.map fun identity ↦ identity.2.2).getD [])

/-- The options of a spawn of a command of a service. -/
def spawnOptions (db : UserDb) (sc : ExecContext) (program : String) (args : List String)
    (listenFds : List Nat) (cgroup : Option String) : Except UnitResult SpawnOptions :=
  (resolveIdentity db sc).map fun identity ↦
    { program, args, listenFds, cgroup
      cwd := sc.workingDirectory
      uid := identity.1
      gid := identity.2.1
      groups := identity.2.2
      nice := sc.nice
      umask := sc.umask
      rlimits := sc.rlimits
      sandboxOps := plan sc.sandbox }

/-- The identity of a process, and the capabilities that let it change that identity. -/
structure Creds where
  ruid : UInt32
  euid : UInt32
  suid : UInt32
  rgid : UInt32
  egid : UInt32
  sgid : UInt32
  groups : List UInt32
  capSetuid : Bool
  capSetgid : Bool

namespace Creds

/-- Whether the kernel may let a process make the call. -/
def permits (c : Creds) : Syscall → Bool
  | .setgroups _ => c.capSetgid
  | .setgid g => c.capSetgid || g = c.rgid || g = c.sgid
  | .setuid u => c.capSetuid || u = c.ruid || u = c.suid
  | _ => true

/-- A privileged process changes all three ids, another one its effective id. -/
def setgid (c : Creds) (g : UInt32) : Creds :=
  if c.capSetgid then { c with rgid := g, egid := g, sgid := g } else { c with egid := g }

def setuid (c : Creds) (u : UInt32) : Creds :=
  if c.capSetuid then { c with ruid := u, euid := u, suid := u } else { c with euid := u }

/-- The real and effective ids and the supplementary groups are these. -/
@[mk_iff]
structure Is (c : Creds) (uid gid : UInt32) (groups : List UInt32) : Prop where
  ruid : c.ruid = uid
  euid : c.euid = uid
  rgid : c.rgid = gid
  egid : c.egid = gid
  groups : c.groups = groups

end Creds

/-- How the kernel answers a request for a mount namespace, and what a new user namespace shows of
the identity of its process. -/
structure Host where
  refusal : Option Errno := none
  userns : Creds → Creds := id

namespace Host

variable (k : Host)

/-- What a call and its answer make of the identity. -/
def step (c : Creds) : Syscall × Option Errno → Creds
  | (.unshare true, none) => k.userns c
  | (.setgroups gids, none) => { c with groups := gids }
  | (.setgid g, none) => c.setgid g
  | (.setuid u, none) => c.setuid u
  | _ => c

def after (c : Creds) (t : List (Syscall × Option Errno)) : Creds := t.foldl k.step c

/-- The kernel gives the answers: it grants nothing that it may not grant. -/
def Answers : Creds → List (Syscall × Option Errno) → Prop
  | _, [] => True
  | c, e :: t => (e.2 = none → c.permits e.1) ∧ (∀ user, e.1 = .unshare user → e.2 = k.refusal) ∧
      Answers (k.step c e) t

/-- The identity with which a child begins to drop privileges, if it gets there. -/
def credsAt (m : Creds) (cfg : SandboxConfig) : Option Creds :=
  if cfg.needMountns then
    match k.refusal with
    | none => some (if m.euid = 0 then m else k.userns m)
    | some e => if m.euid ≠ 0 ∧ (e = Errno.EPERM ∨ e = Errno.EINVAL) then some m else none
  else some m

/-- The child of a manager with the identity `m`. -/
def spawn (m : Creds) (opts : SpawnOptions) : Forked PUnit :=
  Forked.spawn (m.euid = 0) ((k.userns m).euid, (k.userns m).egid) opts

variable {k : Host} {m c : Creds} {t t₁ t₂ : List (Syscall × Option Errno)}

theorem after_append : k.after c (t₁ ++ t₂) = k.after (k.after c t₁) t₂ := List.foldl_append

theorem answers_append :
    k.Answers c (t₁ ++ t₂) ↔ k.Answers c t₁ ∧ k.Answers (k.after c t₁) t₂ := by
  induction t₁ generalizing c with
  | nil => simp [Answers, after]
  | cons e t₁ ih => simp [Answers, after, ih, and_assoc]

theorem Answers.unshare (h : k.Answers c t) {user : Bool} {r : Option Errno}
    (hm : (Syscall.unshare user, r) ∈ t) : r = k.refusal := by
  induction t generalizing c with
  | nil => cases hm
  | cons e t ih =>
    cases hm with
    | head => exact h.2.1 user rfl
    | tail _ hm => exact ih h.2.2 hm

end Host

/-- The call leaves the identity as it is. -/
def Syscall.keepsCreds : Syscall → Bool
  | .unshare _ | .setgroups _ | .setgid _ | .setuid _ => false
  | _ => true

theorem Syscall.keepsCreds_of_plain {c : Syscall} (h : c.plain) : c.keepsCreds := by
  cases c with
  | unshare | setgroups | setgid | setuid => cases h
  | _ => rfl

namespace Host

variable {k : Host} {m c : Creds} {t t₁ t₂ : List (Syscall × Option Errno)}

theorem after_keeps (h : ∀ e ∈ t, e.1.keepsCreds) : k.after c t = c := by
  induction t generalizing c with
  | nil => rfl
  | cons e t ih =>
    have hstep : k.step c e = c := by
      obtain ⟨call, r⟩ := e
      have hcall : call.keepsCreds := h _ (List.mem_cons_self ..)
      cases call with
      | unshare | setgroups | setgid | setuid => cases hcall
      | _ => rfl
    rw [after, List.foldl_cons, hstep]
    exact ih fun e he ↦ h e (List.mem_cons_of_mem _ he)

end Host

namespace Forked

variable {isRoot : Bool} {ids : UInt32 × UInt32} {op : Op} {ops : List Op}

theorem only_writeIdMap (name : String) (id : UInt32) :
    (writeIdMap name id).Only fun c ↦ c.keepsCreds := by
  refine only_bind (only_ask rfl) fun r ↦ ?_
  cases r with
  | none => exact only_pure ()
  | some e =>
    dsimp only
    split
    · exact only_pure ()
    · trivial

theorem only_setupUsernsMap : (setupUsernsMap ids.1 ids.2).Only fun c ↦ c.keepsCreds :=
  only_bind (only_attempt rfl) fun _ ↦ only_bind (only_writeIdMap _ _) fun _ ↦ only_writeIdMap _ _

theorem only_privateDevices : privateDevices.Only fun c ↦ c.keepsCreds := by
  refine only_bind (only_ask rfl) fun r ↦ ?_
  cases r with
  | some e => exact only_pure ()
  | none =>
    refine only_bind (only_forM fun _ _ ↦ only_attempt rfl) fun _ ↦ ?_
    refine only_bind (only_attempt rfl) fun _ ↦ only_bind (only_attempt rfl) fun _ ↦ ?_
    refine only_bind (only_attempt rfl) fun _ ↦ only_bind (only_attempt rfl) fun _ ↦ ?_
    refine only_bind (only_attempt rfl) fun _ ↦ only_bind (only_attempt rfl) fun _ ↦ ?_
    exact only_forM fun _ _ ↦ only_bind (only_attempt rfl) fun _ ↦ only_attempt rfl

theorem only_applyOp (h : op ≠ .unshareMount) :
    (applyOp isRoot ids op).Only fun c ↦ c.keepsCreds := by
  cases op with
  | unshareMount => exact absurd rfl h
  | bindReadOnly target =>
    refine only_bind (only_ask rfl) fun r ↦ ?_
    split
    · exact only_pure _
    · split
      · exact only_pure _
      · exact only_bind (only_check rfl) fun _ ↦ only_bind (only_check rfl) fun _ ↦ only_pure _
  | privateDevices => exact only_bind only_privateDevices fun _ ↦ only_pure _
  | capBoundingDrop caps invert =>
    exact only_bind (only_forM fun _ _ ↦ only_check rfl) fun _ ↦ only_pure _
  | ambientRaise caps =>
    exact only_bind (only_forM fun _ _ ↦ only_attempt rfl) fun _ ↦ only_pure _
  | _ => exact only_bind (only_check rfl) fun _ ↦ only_pure _

theorem only_apply (h : .unshareMount ∉ ops) :
    (apply isRoot ids ops).Only fun c ↦ c.keepsCreds := by
  induction ops with
  | nil => exact only_pure _
  | cons op ops ih =>
    rw [List.mem_cons, not_or] at h
    refine only_bind (only_applyOp (Ne.symm h.1)) fun b ↦ ?_
    cases b with
    | true => exact ih h.2
    | false => exact only_pure _

theorem only_applyOp_identity : (applyOp isRoot ids op).Only fun c ↦ c.identifies = false := by
  have hkeeps (c : Syscall) (h : c.keepsCreds) : c.identifies = false := by
    cases c with
    | setgroups | setgid | setuid => cases h
    | _ => rfl
  by_cases hop : op = .unshareMount
  · subst hop
    refine only_bind (only_ask rfl) fun r ↦ ?_
    cases r with
    | none =>
      refine only_bind ?_ fun _ ↦ only_pure _
      split
      · exact only_pure _
      · exact only_setupUsernsMap.mono hkeeps
    | some e =>
      dsimp only
      split
      · exact only_pure _
      · trivial
  · exact (only_applyOp hop).mono hkeeps

theorem only_apply_identity : (apply isRoot ids ops).Only fun c ↦ c.identifies = false := by
  induction ops with
  | nil => exact only_pure _
  | cons op ops ih =>
    refine only_bind only_applyOp_identity fun b ↦ ?_
    cases b with
    | true => exact ih
    | false => exact only_pure _

theorem only_sandbox {opts : SpawnOptions} :
    (sandbox isRoot ids opts).Only fun c ↦ c.identifies = false :=
  only_forM_option fun _ _ ↦ only_bind only_apply_identity fun _ ↦ only_pure _

theorem returns_applyOp {r : Option Errno} (h : op ≠ .unshareMount) :
    Returns (Syscall.answerUnshare r) (applyOp isRoot ids op) true := by
  cases op with
  | unshareMount => exact absurd rfl h
  | bindReadOnly target =>
    refine returns_bind (a := none) rfl ?_
    cases isRoot with
    | true =>
      exact returns_bind (a := ()) (returns_check rfl)
        (returns_bind (a := ()) (returns_check rfl) rfl)
    | false => rfl
  | privateDevices => rfl
  | capBoundingDrop caps invert =>
    exact returns_bind (returns_forM fun _ _ ↦ returns_check rfl) rfl
  | ambientRaise caps => exact returns_bind (returns_forM fun _ _ ↦ returns_attempt) rfl
  | _ => exact returns_bind (a := ()) (returns_check rfl) rfl

theorem returns_apply {r : Option Errno} (h : .unshareMount ∉ ops) :
    Returns (Syscall.answerUnshare r) (apply isRoot ids ops) (some ()) := by
  induction ops with
  | nil => rfl
  | cons op ops ih =>
    rw [List.mem_cons, not_or] at h
    exact returns_bind (returns_applyOp (Ne.symm h.1)) (ih h.2)

end Forked

section Sandbox

variable {k : Host} {m : Creds} {cfg : SandboxConfig} {opts : SpawnOptions}
  {t : List (Syscall × Option Errno)}

/-- What the child is once it has asked for a mount namespace and goes on. -/
theorem after_unshare {ids : UInt32 × UInt32} {b : Bool}
    (h : Runs (Forked.applyOp (m.euid = 0) ids .unshareMount) t (.ok b)) (hk : k.Answers m t)
    (hn : cfg.needMountns) : k.credsAt m cfg = some (k.after m t) := by
  obtain ⟨r, t₁, t₂, rfl, h₁, h₂⟩ := Runs.of_bind h
  obtain rfl := Runs.of_ask h₁
  obtain rfl : r = k.refusal := hk.unshare (List.mem_append_left _ (List.mem_singleton_self _))
  rw [Host.credsAt, if_pos hn, Host.after_append]
  cases hr : k.refusal with
  | none =>
    rw [hr] at h₂
    have hkeeps : ∀ e ∈ t₂, e.1.keepsCreds := by
      intro e he
      refine h₂.only (P := fun c ↦ c.keepsCreds) (only_bind ?_ fun _ ↦ only_pure _) he
      split
      · exact only_pure _
      · exact Forked.only_setupUsernsMap
    rw [Host.after_keeps hkeeps]
    by_cases hroot : m.euid = 0
    · simp [hroot, Host.after, Host.step]
    · simp [hroot, Host.after, Host.step]
  | some e =>
    rw [hr] at h₂
    dsimp only at h₂
    split at h₂
    · next he =>
      simp only [Bool.and_eq_true, Bool.not_eq_true', Bool.or_eq_true, decide_eq_true_eq,
        decide_eq_false_iff_not] at he
      obtain ⟨rfl, -⟩ := Runs.of_pure h₂
      exact (if_pos he).trans (by simp [he.1, Host.after, Host.step])
    · cases h₂

theorem needMountns_of_none (h : plan cfg = none) : cfg.needMountns = false := by
  rw [plan] at h
  split at h
  · next hs =>
    simp only [SandboxConfig.hasSandbox, Bool.not_eq_true', Bool.or_eq_false_iff] at hs
    simp only [SandboxConfig.needMountns, Bool.or_eq_false_iff]
    tauto
  · cases h

/-- The sandbox leaves the child with the identity that `credsAt` tells. -/
theorem after_sandbox {ids : UInt32 × UInt32} (hops : opts.sandboxOps = plan cfg)
    (h : Runs (Forked.sandbox (m.euid = 0) ids opts) t (.ok ())) (hk : k.Answers m t) :
    k.credsAt m cfg = some (k.after m t) := by
  rw [Forked.sandbox, hops] at h
  cases hplan : plan cfg with
  | none =>
    have hn : cfg.needMountns = false := needMountns_of_none hplan
    rw [hplan] at h
    obtain ⟨rfl, -⟩ := Runs.of_pure h
    simp [Host.credsAt, hn, Host.after]
  | some ops =>
    rw [hplan] at h
    obtain ⟨a, t₁, t₂, rfl, h₁, h₂⟩ := Runs.of_bind h
    obtain ⟨rfl, -⟩ := Runs.of_pure h₂
    rw [List.append_nil] at hk ⊢
    obtain ⟨rest, hrest, rfl⟩ := plan_unshares hplan
    by_cases hn : cfg.needMountns
    · rw [if_pos hn] at h₁
      obtain ⟨b, s₁, s₂, rfl, h₃, h₄⟩ := Runs.of_bind h₁
      have hkeeps : ∀ e ∈ s₂, e.1.keepsCreds := by
        intro e he
        cases b with
        | true => exact h₄.only (Forked.only_apply hrest) he
        | false =>
          obtain ⟨rfl, -⟩ := Runs.of_pure h₄
          cases he
      rw [Host.after_append, Host.after_keeps hkeeps]
      exact after_unshare h₃ (Host.answers_append.mp hk).1 hn
    · rw [if_neg hn] at h₁
      rw [Host.after_keeps fun e he ↦ h₁.only (Forked.only_apply hrest) he, Host.credsAt, if_neg hn]

end Sandbox

section Identity

variable {k : Host} {m c : Creds} {opts : SpawnOptions} {t : List (Syscall × Option Errno)}

/-- The kernel may let the process take the identity. -/
def Creds.MayTake (c : Creds) (opts : SpawnOptions) : Prop :=
  (opts.groups ≠ [] → c.permits (.setgroups opts.groups)) ∧
    (∀ g ∈ opts.gid, c.permits (.setgid g)) ∧ ∀ u ∈ opts.uid, c.permits (.setuid u)

/-- The calls of `dropPrivileges`. -/
def SpawnOptions.identityCalls (opts : SpawnOptions) : List Syscall :=
  (if opts.groups.isEmpty then [] else [.setgroups opts.groups]) ++
    opts.gid.toList.map .setgid ++ opts.uid.toList.map .setuid

theorem runs_dropPrivileges (h : Runs (Forked.dropPrivileges opts) t (.ok ())) :
    t = opts.identityCalls.map fun call ↦ (call, none) := by
  obtain ⟨_, t₁, s, rfl, h₁, h⟩ := Runs.of_bind h
  obtain ⟨_, t₂, t₃, rfl, h₂, h₃⟩ := Runs.of_bind h
  have hgroups : t₁ = (if opts.groups.isEmpty then [] else [.setgroups opts.groups]).map
      fun call ↦ (call, none) := by
    split at h₁
    · next hempty =>
      obtain ⟨rfl, -⟩ := Runs.of_pure h₁
      rw [if_pos hempty]
      rfl
    · next hempty =>
      rw [Forked.runs_check h₁, if_neg hempty]
      rfl
  have hgid : t₂ = (opts.gid.toList.map Syscall.setgid).map fun call ↦ (call, none) := by
    cases hg : opts.gid with
    | none =>
      rw [hg] at h₂
      obtain ⟨rfl, -⟩ := Runs.of_pure h₂
      rfl
    | some g =>
      rw [hg] at h₂
      rw [Forked.runs_check h₂]
      rfl
  have huid : t₃ = (opts.uid.toList.map Syscall.setuid).map fun call ↦ (call, none) := by
    cases hu : opts.uid with
    | none =>
      rw [hu] at h₃
      obtain ⟨rfl, -⟩ := Runs.of_pure h₃
      rfl
    | some u =>
      rw [hu] at h₃
      rw [Forked.runs_check h₃]
      rfl
  rw [hgroups, hgid, huid, SpawnOptions.identityCalls, List.map_append, List.map_append,
    List.append_assoc]

/-- What `dropPrivileges` makes of an identity when each of its calls succeeds. -/
def Creds.take (c : Creds) (opts : SpawnOptions) : Creds :=
  let c := if opts.groups.isEmpty then c else { c with groups := opts.groups }
  let c := opts.gid.elim c c.setgid
  opts.uid.elim c c.setuid

theorem after_identityCalls :
    k.after c (opts.identityCalls.map fun call ↦ (call, none)) = c.take opts := by
  rw [SpawnOptions.identityCalls, Creds.take, List.map_append, List.map_append, Host.after_append,
    Host.after_append]
  cases opts.groups.isEmpty <;> cases opts.gid <;> cases opts.uid <;> rfl

theorem answers_identityCalls :
    k.Answers c (opts.identityCalls.map fun call ↦ (call, none)) ↔ c.MayTake opts := by
  have hgroups : opts.groups ≠ [] ↔ opts.groups.isEmpty = false := by
    rw [← Bool.not_eq_true, List.isEmpty_iff]
  rw [SpawnOptions.identityCalls, Creds.MayTake, hgroups]
  have hkeep (c : Creds) (gids : List UInt32) (call : Syscall) :
      ({ c with groups := gids } : Creds).permits call = c.permits call := by
    cases call <;> rfl
  have hsetgid (c : Creds) (g u : UInt32) :
      (c.setgid g).permits (.setuid u) = c.permits (.setuid u) := by
    rw [Creds.setgid]
    split
    · rfl
    · rfl
  cases opts.groups.isEmpty <;> cases opts.gid <;> cases opts.uid <;>
    simp [Host.Answers, Host.step, hkeep, hsetgid]

/-- Calls that do not concern the identity may be answered in any way. -/
theorem answers_of (ht : ∀ e ∈ t, e.1.identifies = false)
    (hu : ∀ user r, (Syscall.unshare user, r) ∈ t → r = k.refusal) : k.Answers c t := by
  induction t generalizing c with
  | nil => trivial
  | cons e t ih =>
    obtain ⟨call, r⟩ := e
    have hcall : call.identifies = false := ht _ (List.mem_cons_self ..)
    have hpermits : c.permits call := by
      cases call with
      | setgroups | setgid | setuid => cases hcall
      | _ => rfl
    refine ⟨fun _ ↦ hpermits, ?_, ih (fun e he ↦ ht e (List.mem_cons_of_mem _ he))
      fun user r hr ↦ hu user r (List.mem_cons_of_mem _ hr)⟩
    rintro user rfl
    exact hu user r (List.mem_cons_self ..)

theorem Syscall.identifies_of_plain {call : Syscall} (h : call.plain) :
    call.identifies = false := by
  rw [Syscall.plain, Bool.and_eq_true, Bool.not_eq_true', Bool.not_eq_true'] at h
  exact h.2

/-- The parts of a spawn that reaches the exec, and the identity after each. -/
theorem after_spawn {cfg : SandboxConfig} (hops : opts.sandboxOps = plan cfg)
    (h : Runs (k.spawn m opts) t (.ok ())) (hk : k.Answers m t) :
    ∃ c, k.credsAt m cfg = some c ∧ c.MayTake opts ∧ k.after m t = c.take opts := by
  obtain ⟨t₁, t₂, t₃, t₄, t₅, rfl, h₁, h₂, h₃, h₄, h₅⟩ := Forked.runs_spawn h
  have hkeeps₁ : k.after m t₁ = m := Host.after_keeps fun e he ↦
    Syscall.keepsCreds_of_plain (h₁.only Forked.only_prepare he)
  have hkeeps₃ (c : Creds) : k.after c t₃ = c := Host.after_keeps fun e he ↦
    Syscall.keepsCreds_of_plain (h₃.only Forked.only_changeDir he)
  have hkeeps₅ (c : Creds) : k.after c t₅ = c := Host.after_keeps fun e he ↦
    Syscall.keepsCreds_of_plain (h₅.only Forked.only_launch he)
  simp only [Host.answers_append, hkeeps₁, hkeeps₃] at hk
  obtain ⟨-, hk₂, -, hk₄, -⟩ := hk
  obtain rfl := runs_dropPrivileges h₄
  refine ⟨k.after m t₂, after_sandbox hops h₂ hk₂, answers_identityCalls.mp hk₄, ?_⟩
  simp only [Host.after_append, hkeeps₁, hkeeps₃, hkeeps₅, after_identityCalls]

theorem returns_sandbox {cfg : SandboxConfig} {ids : UInt32 × UInt32}
    (hops : opts.sandboxOps = plan cfg) (hc : k.credsAt m cfg = some c) :
    Returns (Syscall.answerUnshare k.refusal) (Forked.sandbox (m.euid = 0) ids opts) () := by
  rw [Forked.sandbox, hops]
  refine returns_forM_option fun ops hplan ↦ ?_
  obtain ⟨rest, hrest, rfl⟩ := plan_unshares hplan
  by_cases hn : cfg.needMountns
  · rw [if_pos hn]
    rw [Host.credsAt, if_pos hn] at hc
    cases hr : k.refusal with
    | none =>
      refine returns_bind (returns_bind (a := true) (returns_bind (a := none) rfl ?_)
        (Forked.returns_apply hrest)) rfl
      refine returns_bind (a := ()) ?_ rfl
      split
      · rfl
      · rfl
    | some e =>
      rw [hr] at hc
      dsimp only at hc
      split at hc
      · next he =>
        refine returns_bind (a := none) (returns_bind (a := false)
          (returns_bind (a := some e) rfl ?_) rfl) rfl
        have hcond : (!decide (m.euid = 0) && (decide (e = Errno.EPERM) ||
            decide (e = Errno.EINVAL))) = true := by
          simpa using he
        dsimp only
        rw [if_pos hcond]
        rfl
      · cases hc
  · rw [if_neg hn]
    exact returns_bind (Forked.returns_apply hrest) rfl

/-- A child that may take its identity can get to the exec. -/
theorem spawn_succeeds {cfg : SandboxConfig} (hops : opts.sandboxOps = plan cfg)
    (hc : k.credsAt m cfg = some c) (hmay : c.MayTake opts) :
    ∃ t, Runs (k.spawn m opts) t (.ok ()) ∧ k.Answers m t := by
  have hreturns : Returns (Syscall.answerUnshare k.refusal) (k.spawn m opts) () := by
    refine Forked.returns_spawn (fun call hcall ↦ ?_) (returns_sandbox hops hc)
    cases call with
    | unshare user => cases hcall
    | _ => rfl
  refine ⟨_, hreturns.runs, ?_⟩
  have hanswer (user : Bool) (r : Option Errno) (hu : (Syscall.unshare user, r) ∈
      ((k.spawn m opts).run (Syscall.answerUnshare k.refusal)).1) : r = k.refusal := run_answer hu
  have hruns := hreturns.runs
  generalize ((k.spawn m opts).run (Syscall.answerUnshare k.refusal)).1 = t at hruns hanswer
  obtain ⟨t₁, t₂, t₃, t₄, t₅, rfl, h₁, h₂, h₃, h₄, h₅⟩ := Forked.runs_spawn hruns
  have hplain {t' : List (Syscall × Option Errno)} {c' : Creds}
      (hsub : t' ⊆ t₁ ++ (t₂ ++ (t₃ ++ (t₄ ++ t₅))))
      (ht' : ∀ e ∈ t', e.1.identifies = false) : k.Answers c' t' :=
    answers_of ht' fun user r hu ↦ hanswer user r (hsub hu)
  have hk₁ : k.Answers m t₁ := hplain (fun e he ↦ by simp [he]) fun e he ↦
    Syscall.identifies_of_plain (h₁.only Forked.only_prepare he)
  have hk₂ : k.Answers m t₂ := hplain (fun e he ↦ by simp [he]) fun e he ↦
    h₂.only Forked.only_sandbox he
  have hk₃ : k.Answers (k.after m t₂) t₃ := hplain (fun e he ↦ by simp [he]) fun e he ↦
    Syscall.identifies_of_plain (h₃.only Forked.only_changeDir he)
  have hk₅ : k.Answers (c.take opts) t₅ := hplain (fun e he ↦ by simp [he]) fun e he ↦
    Syscall.identifies_of_plain (h₅.only Forked.only_launch he)
  have hkeeps₁ : k.after m t₁ = m := Host.after_keeps fun e he ↦
    Syscall.keepsCreds_of_plain (h₁.only Forked.only_prepare he)
  have hkeeps₃ (c : Creds) : k.after c t₃ = c := Host.after_keeps fun e he ↦
    Syscall.keepsCreds_of_plain (h₃.only Forked.only_changeDir he)
  have hc₂ : k.after m t₂ = c := Option.some.inj ((after_sandbox hops h₂ hk₂).symm.trans hc)
  obtain rfl := runs_dropPrivileges h₄
  simp only [Host.answers_append, hkeeps₁, hkeeps₃, hc₂, after_identityCalls]
  exact ⟨hk₁, hk₂, hc₂ ▸ hk₃, answers_identityCalls.mpr hmay, hk₅⟩

/-- Nothing of the identity is left over: without `Group=` the group ids already are the primary
ones, an empty list finds no groups, and an unprivileged process has the real ids already. -/
@[mk_iff]
structure Creds.Sheds (c : Creds) (pgid : UInt32) (opts : SpawnOptions) : Prop where
  gid : opts.gid = none → c.rgid = pgid ∧ c.egid = pgid
  groups : opts.groups = [] → c.groups = []
  realGid : ∀ g ∈ opts.gid, c.capSetgid ∨ c.rgid = g
  realUid : ∀ u ∈ opts.uid, c.capSetuid ∨ c.ruid = u

theorem Creds.setgid_ids (c : Creds) (g : UInt32) : (c.setgid g).egid = g ∧
    ((c.setgid g).rgid = g ↔ c.capSetgid ∨ c.rgid = g) := by
  rw [Creds.setgid]
  cases c.capSetgid <;> simp

theorem Creds.setuid_ids (c : Creds) (u : UInt32) : (c.setuid u).euid = u ∧
    ((c.setuid u).ruid = u ↔ c.capSetuid ∨ c.ruid = u) := by
  rw [Creds.setuid]
  cases c.capSetuid <;> simp

theorem Creds.setgid_other (c : Creds) (g : UInt32) : (c.setgid g).groups = c.groups ∧
    (c.setgid g).capSetuid = c.capSetuid ∧ (c.setgid g).ruid = c.ruid := by
  rw [Creds.setgid]
  split
  · exact ⟨rfl, rfl, rfl⟩
  · exact ⟨rfl, rfl, rfl⟩

theorem Creds.setuid_other (c : Creds) (u : UInt32) : (c.setuid u).groups = c.groups ∧
    (c.setuid u).rgid = c.rgid ∧ (c.setuid u).egid = c.egid := by
  rw [Creds.setuid]
  split
  · exact ⟨rfl, rfl, rfl⟩
  · exact ⟨rfl, rfl, rfl⟩

theorem take_is {uid pgid : UInt32} (hu : opts.uid = some uid) :
    (c.take opts).Is uid (opts.gid.getD pgid) opts.groups ↔ c.Sheds pgid opts := by
  rw [Creds.is_iff, Creds.sheds_iff, Creds.take]
  have hrest := And.intro (@Creds.setuid_other) (@Creds.setgid_other)
  cases hgroups : opts.groups with
  | nil =>
    cases hgid : opts.gid with
    | none =>
      simp [hu, Creds.setuid_ids, hrest]
      tauto
    | some g =>
      simp [hu, Creds.setuid_ids, Creds.setgid_ids, hrest]
      tauto
  | cons g₀ gs =>
    cases hgid : opts.gid with
    | none =>
      simp [hu, Creds.setuid_ids, hrest]
      tauto
    | some g =>
      simp [hu, Creds.setuid_ids, Creds.setgid_ids, hrest]
      tauto

variable {db : UserDb} {sc : ExecContext} {user program : String} {args : List String}
  {listenFds : List Nat} {cgroup : Option String} {uid pgid : UInt32} {groups : List UInt32}

/-- The identity that a child is told. -/
theorem spawnOptions_identity (huser : sc.user = some user)
    (hdb : db.resolveUser user = some (uid, pgid, groups))
    (hopts : spawnOptions db sc program args listenFds cgroup = .ok opts) :
    opts.uid = some uid ∧ opts.gid = sc.group.bind db.resolveGroup ∧ opts.groups = groups ∧
      opts.sandboxOps = plan sc.sandbox := by
  rw [spawnOptions, resolveIdentity, huser] at hopts
  simp only [hdb] at hopts
  cases hgroup : sc.group with
  | none =>
    rw [hgroup] at hopts
    obtain rfl := Except.ok.inj hopts
    exact ⟨rfl, rfl, rfl, rfl⟩
  | some group =>
    rw [hgroup] at hopts
    cases hg : db.resolveGroup group with
    | none =>
      simp only [hg] at hopts
      cases hopts
    | some g =>
      simp only [hg] at hopts
      obtain rfl := Except.ok.inj hopts
      exact ⟨rfl, hg.symm, rfl, rfl⟩

theorem privileges_dropped (huser : sc.user = some user)
    (hdb : db.resolveUser user = some (uid, pgid, groups))
    (hopts : spawnOptions db sc program args listenFds cgroup = .ok opts) :
    (∀ t, k.Answers m t → Runs (k.spawn m opts) t (.ok ()) →
      (k.after m t).Is uid ((sc.group.bind db.resolveGroup).getD pgid) groups) ↔
    ∀ c, k.credsAt m sc.sandbox = some c → c.MayTake opts → c.Sheds pgid opts := by
  obtain ⟨hu, hgid, rfl, hops⟩ := spawnOptions_identity huser hdb hopts
  rw [← hgid]
  constructor
  · intro h c hc hmay
    obtain ⟨t, hruns, hk⟩ := spawn_succeeds hops hc hmay
    obtain ⟨c', hc', -, hafter⟩ := after_spawn hops hruns hk
    obtain rfl := Option.some.inj (hc.symm.trans hc')
    have his := h t hk hruns
    rw [hafter] at his
    exact (take_is hu).mp his
  · intro h t hk hruns
    obtain ⟨c, hc, hmay, hafter⟩ := after_spawn hops hruns hk
    rw [hafter]
    exact (take_is hu).mpr (h c hc hmay)

/-- The identity of a process of root. -/
def Creds.root : Creds where
  ruid := 0
  euid := 0
  suid := 0
  rgid := 0
  egid := 0
  sgid := 0
  groups := [0]
  capSetuid := true
  capSetgid := true

/-- A system with the user and group `daemon`. -/
def UserDb.daemon (groups : List UInt32) : UserDb where
  resolveUser _ := some (2, 2, groups)
  resolveGroup _ := some 2

/-- A service of that user. -/
def SpawnOptions.daemon (gid : Option UInt32) (groups : List UInt32) : SpawnOptions where
  program := "/bin/true"
  uid := some 2
  gid := gid
  groups := groups

theorem privileges_dropped_daemon : Creds.root.Sheds 2 (.daemon (some 2) [2]) ∧
    ∀ t, Host.Answers {} .root t → Runs (Host.spawn {} .root (.daemon (some 2) [2])) t (.ok ()) →
      (Host.after {} .root t).Is 2 2 [2] := by
  have hsheds : Creds.root.Sheds 2 (.daemon (some 2) [2]) :=
    ⟨nofun, nofun, fun _ _ ↦ .inl rfl, fun _ _ ↦ .inl rfl⟩
  have hopts : spawnOptions (.daemon [2]) { user := some "daemon", group := some "daemon" }
      "/bin/true" [] [] none = .ok (.daemon (some 2) [2]) := rfl
  refine ⟨hsheds, (privileges_dropped (k := {}) (m := .root) rfl rfl hopts).mpr ?_⟩
  intro c hc _
  obtain rfl := Option.some.inj (show some Creds.root = some c from hc)
  exact hsheds

/-- Without `Group=`, a service of a root manager keeps the gid of root. -/
theorem primary_group_ignored : ¬ ∀ (db : UserDb) (sc : ExecContext) (user program : String)
    (uid pgid : UInt32) (groups : List UInt32) (opts : SpawnOptions) (k : Host) (m : Creds)
    (t : List (Syscall × Option Errno)),
    sc.user = some user → db.resolveUser user = some (uid, pgid, groups) →
    spawnOptions db sc program [] [] none = .ok opts → k.Answers m t →
    Runs (k.spawn m opts) t (.ok ()) →
    (k.after m t).Is uid ((sc.group.bind db.resolveGroup).getD pgid) groups := by
  intro h
  have hd := h (.daemon [2]) { user := some "daemon" } "daemon" "/bin/true" 2 2 [2]
    (.daemon none [2]) {} .root
    [(.sigprocmask, none), (.setsid, none), (.setgroups [2], none), (.setuid 2, none),
      (.exec "/bin/true" [], none)]
    rfl rfl rfl (by simp [Host.Answers, Host.step, Creds.permits, Creds.root])
    (.call (.call (.call (.call (.call (.ret ()))))))
  have hgid : (0 : UInt32) = 2 := hd.egid
  exact absurd hgid (by decide)

end Identity

end Rystemd

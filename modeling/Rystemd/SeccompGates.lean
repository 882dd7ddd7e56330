import Rystemd.Sandbox
import Rystemd.SyscallFilters

namespace Rystemd

open Seccomp

namespace Seccomp

namespace Filter

variable {f : Filter}

/-- Some gated call gets past the list. -/
def reaches (f : Filter) (gated : List UInt32) : Bool :=
  gated.any fun s ↦ !listDenies f.nrs f.deny s

end Filter

end Seccomp

/-- The program of a seccomp op. -/
def Op.program : Op → Option (List Bpf.Insn)
  | .seccomp program => some program
  | _ => none

namespace SandboxConfig

variable {cfg : SandboxConfig} {d : SeccompData}

/-- The program that the plan installs. -/
def program (cfg : SandboxConfig) : Option (List Bpf.Insn) :=
  ((plan cfg).getD []).findSome? Op.program

/-- What the service sees of the plan: without a program, every call is allowed. -/
def verdict (cfg : SandboxConfig) (d : SeccompData) : Option UInt32 :=
  cfg.program.elim (some SECCOMP_RET_ALLOW) (Bpf.run d.load)

def filter (cfg : SandboxConfig) : Filter where
  nrs := cfg.syscallNrs
  deny := cfg.deny
  errno := cfg.syscallErrno
  extraDeny := cfg.extraDeny
  af := cfg.af
  wx := cfg.memoryDenyWriteExecute

theorem hasSandbox_of_needSeccomp (h : cfg.needSeccomp) : cfg.hasSandbox := by
  simp only [needSeccomp, Bool.or_eq_true] at h
  simp only [hasSandbox, Bool.or_eq_true]
  tauto

theorem mountOps_program : cfg.mountOps.findSome? Op.program = none := by
  rw [List.findSome?_eq_none_iff]
  intro op hop
  simp only [mountOps, List.mem_append, or_assoc] at hop
  rcases hop with h | h | h | h | h | h
  · split at h <;> simp at h
    rcases h with rfl | rfl <;> rfl
  · split at h <;> simp at h
    rcases h with rfl | rfl <;> rfl
  · split at h <;> simp at h <;> rcases h with rfl | rfl | rfl <;> rfl
  · split at h <;> simp at h
    · rcases h with rfl | rfl | rfl <;> rfl
    · rcases h with rfl | rfl | rfl | rfl <;> rfl
    · rw [h]
      rfl
  · obtain ⟨p, -, rfl⟩ := List.mem_map.mp h
    rfl
  · split at h <;> simp at h
    rw [h]
    rfl

theorem program_eq : cfg.program = if cfg.needSeccomp then some cfg.filter.build else none := by
  have hnnp : (if cfg.noNewPrivileges then [Op.noNewPrivileges] else []).findSome? Op.program =
      none := by split <;> rfl
  have hcaps : cfg.boundingOps.findSome? Op.program = none := by
    simp only [boundingOps]
    split
    · rfl
    · split <;> rfl
  have hambient : cfg.ambientOps.findSome? Op.program = none := by
    simp only [ambientOps]
    split
    · rfl
    · split <;> rfl
  cases hneed : cfg.needSeccomp with
  | false =>
    have hops : cfg.seccompOps = [] := by
      rw [seccompOps, hneed]
      rfl
    cases hs : cfg.hasSandbox with
    | false => simp [program, plan, hs]
    | true =>
      simp [program, plan, hs, List.findSome?_append, mountOps_program, hnnp, hcaps, hambient, hops]
  | true =>
    have hs := hasSandbox_of_needSeccomp hneed
    have hops : cfg.seccompOps.findSome? Op.program = some cfg.filter.build := by
      rw [seccompOps, hneed]
      cases cfg.noNewPrivileges <;> rfl
    simp [program, plan, hs, List.findSome?_append, mountOps_program, hnnp, hcaps, hambient, hops]

theorem verdict_filter (h : cfg.needSeccomp) : cfg.verdict d = cfg.filter.verdict d := by
  rw [verdict, program_eq, if_pos h, Option.elim_some]
  rfl

section Families

variable {families : List UInt32} {deny denyAll : Bool}

end Families

section WriteExecute

end WriteExecute

end SandboxConfig

end Rystemd

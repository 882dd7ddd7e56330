import Rystemd.Forked
import Rystemd.SeccompGates
import Rystemd.SyscallFilters

namespace Rystemd

open Calls

namespace Seccomp

open Bpf

/-- How many of the compared numbers are greater. -/
def above (nrs : List UInt32) (deny : Bool) (nr : UInt32) : Nat :=
  ((named nrs deny []).filter (nr < ·)).card

/-- The list lets a number through: a list that allows has it not too far from its end, a list that
denies does not have it or has it too far from its end. -/
def Passes (nrs : List UInt32) (deny : Bool) (nr : UInt32) : Prop :=
  if deny then nr ∈ nrs → 255 < above nrs deny nr
  else (nr ∈ nrs ∨ nr ∈ allowBase) ∧ above nrs deny nr ≤ 254

theorem pairwise_entries {nrs extraDeny : List UInt32} {deny : Bool} {errno : UInt32} :
    (listFilter nrs deny errno extraDeny).entries.Pairwise (· < ·) := by
  have hsorted : (listFilter nrs deny errno extraDeny).entries.Pairwise (· ≤ ·) := by
    rw [Filter.entries, entries, sortDedup_eq]
    exact (List.pairwise_insertionSort (· ≤ ·) _).sublist (List.dedup_sublist _)
  have hnodup : (listFilter nrs deny errno extraDeny).entries.Nodup := nodup_entries
  exact hsorted.imp₂ (fun _ _ hle hne ↦ UInt32.lt_of_le_of_ne hle hne) hnodup

theorem countP_above {l : List UInt32} (h : l.Pairwise (· < ·)) {j : Nat} (hj : j < l.length) :
    l.countP (l[j] < ·) = l.length - (j + 1) := by
  induction l generalizing j with
  | nil => cases hj
  | cons x l ih =>
    obtain ⟨hx, hl⟩ := List.pairwise_cons.mp h
    cases j with
    | zero =>
      rw [List.getElem_cons_zero, List.countP_cons_of_neg (by simp), List.countP_eq_length.mpr]
      · rw [List.length_cons, Nat.zero_add, Nat.add_sub_cancel]
      · intro y hy
        exact decide_eq_true (hx y hy)
    | succ j =>
      have hlt : j < l.length := Nat.lt_of_succ_lt_succ hj
      have hnot : ¬ l[j] < x := UInt32.lt_asymm (hx _ (List.getElem_mem hlt))
      rw [List.getElem_cons_succ, List.countP_cons_of_neg (by simpa using hnot), ih hl hlt,
        List.length_cons]
      omega

section

variable {nrs : List UInt32} {deny : Bool} {errno : UInt32} {d : SeccompData}

theorem toFinset_entries :
    (listFilter nrs deny errno []).entries.toFinset = named nrs deny [] := by
  ext nr
  rw [List.mem_toFinset, mem_listFilter, named, List.mem_toFinset, List.mem_append]

/-- The numbers above an entry are those compared after it. -/
theorem above_getElem {j : Nat} (hj : j < (listFilter nrs deny errno []).entries.length) :
    above nrs deny (listFilter nrs deny errno []).entries[j] =
      (listFilter nrs deny errno []).entries.length - (j + 1) := by
  obtain ⟨l, hl⟩ : ∃ l, l = (listFilter nrs deny errno []).entries := ⟨_, rfl⟩
  have hnamed : l.toFinset = named nrs deny [] := by rw [hl, toFinset_entries]
  have hnodup : l.Nodup := by
    rw [hl]
    exact nodup_entries
  have hsorted : l.Pairwise (· < ·) := by
    rw [hl]
    exact pairwise_entries
  have hfilter (x : UInt32) : (l.filter (x < ·)).toFinset = l.toFinset.filter (x < ·) := by
    simp [List.toFinset_filter]
  subst hl
  rw [above, ← hnamed, ← hfilter, List.toFinset_card_of_nodup (hnodup.filter _),
    ← List.countP_eq_length_filter, countP_above hsorted hj]

theorem action_eq_allow (f : Filter) (b : Bool) : f.action b = SECCOMP_RET_ALLOW ↔ b = false := by
  cases b
  · exact iff_of_true rfl rfl
  · exact iff_of_false (errnoRet_ne_allow f.errno) (by simp)

/-- A list without other gates allows a native call exactly if it lets the number through. -/
theorem listFilter_passes (hne : nrs ≠ []) (harch : d.arch = AUDIT_ARCH_X86_64) :
    (listFilter nrs deny errno []).verdict d = some SECCOMP_RET_ALLOW ↔ Passes nrs deny d.nr := by
  obtain ⟨f, hf⟩ : ∃ f, f = listFilter nrs deny errno [] := ⟨_, rfl⟩
  have hdeny : f.deny = deny := by rw [hf]; rfl
  have hg : f.gates = [] := by rw [hf]; rfl
  have hE : f.errnoI = 3 + f.entries.length := by
    rw [hf, listFilter_errnoI, listFilter_length]
  have hmem : d.nr ∈ f.entries ↔ d.nr ∈ nrs ∨ d.nr ∈ if deny then [] else allowBase := by
    rw [hf]
    exact mem_listFilter
  rw [← hf, Filter.verdict_eq, if_pos harch]
  by_cases hnr : d.nr ∈ f.entries
  · obtain ⟨j, hj, hget⟩ := List.mem_iff_getElem.mp hnr
    have habove : above nrs deny d.nr = f.entries.length - (j + 1) := by
      subst hf
      rw [← hget]
      exact above_getElem hj
    have hnear : f.dest (pickT f.deny) ≤ 3 + j + 256 ↔
        above nrs deny d.nr ≤ if deny then 255 else 254 := by
      rw [Filter.dest_pickT, hdeny, habove]
      cases deny <;> simp <;> omega
    have hpasses : Passes nrs deny d.nr ↔
        (if above nrs deny d.nr ≤ if deny then 255 else 254 then deny else !deny) = false := by
      cases deny with
      | true =>
        simp only [if_true, List.not_mem_nil, or_false] at hmem
        simp [Passes, hmem.mp hnr]
      | false =>
        simp only [Bool.false_eq_true, if_false] at hmem
        simp [Passes, hmem.mp hnr]
    rw [hpasses, ← if_congr hnear rfl rfl, ← action_eq_allow f]
    by_cases hle : f.dest (pickT f.deny) ≤ 3 + j + 256
    · rw [← hget, near_match hg hE hj hle, if_pos hle, hdeny, Option.some.injEq]
    · rw [← hget, far_match hg hE hj (Nat.lt_of_not_le hle), if_neg hle, hdeny,
        Option.some.injEq]
  · have hentries : f.entries ≠ [] := by
      rw [hf]
      exact listFilter_ne_nil (.inl hne)
    rw [list_miss hg hE hentries hnr, Option.some.injEq, action_eq_allow, hdeny, Passes]
    cases deny with
    | true =>
      simp only [if_true, List.not_mem_nil, or_false] at hmem ⊢
      simp [mt hmem.mpr hnr]
    | false =>
      simp only [Bool.false_eq_true, if_false] at hmem ⊢
      simp [mt hmem.mpr hnr]

end

end Seccomp

/-- The number of a call that sets the child up; the C library decides how `setrlimit` is made. -/
def Syscall.setupNr (setrlimitNr : UInt32) : Syscall → Option UInt32
  | .chdir _ => some 80
  | .setgroups _ => some 116
  | .setgid _ => some 106
  | .setuid _ => some 105
  | .umask _ => some 95
  | .setpriority _ => some 141
  | .setrlimit _ => some setrlimitNr
  | .exec _ _ => some 59
  | _ => none

/-- What `SystemCallFilter=` and `SystemCallErrorNumber=` alone set. -/
def SandboxConfig.ofFilter (nrs : List UInt32) (deny : Bool) (errno : UInt32) : SandboxConfig where
  syscallNrs := nrs
  syscallDeny := deny
  syscallErrno := errno

namespace Forked

/-- What the child of `spawn` does after the sandbox. -/
def setup (opts : SpawnOptions) : Forked PUnit := do
  changeDir opts
  dropPrivileges opts
  launch opts

theorem spawn_eq (isRoot : Bool) (ids : UInt32 × UInt32) (opts : SpawnOptions) :
    spawn isRoot ids opts = (do
      prepare opts
      sandbox isRoot ids opts
      setup opts) := rfl

/-- The calls of the set-up, in their order. -/
def setupCalls (opts : SpawnOptions) : List Syscall :=
  opts.cwd.toList.map .chdir ++
    (((if opts.groups.isEmpty then [] else [.setgroups opts.groups]) ++
      (opts.gid.toList.map .setgid ++ opts.uid.toList.map .setuid)) ++
    (opts.umask.toList.map (fun m ↦ .umask (m &&& 0o7777)) ++
      (opts.nice.toList.map .setpriority ++
        (opts.rlimits.map .setrlimit ++ [.exec opts.program opts.args]))))

section Filtered

variable (cfg : SandboxConfig) (setrlimitNr : UInt32)
  (seen : Syscall → UInt64 × (Fin 6 → UInt64))

/-- What the kernel shows the filter of a native call with a number. -/
def shown (c : Syscall) (nr : UInt32) : Seccomp.SeccompData where
  nr := nr
  arch := Seccomp.AUDIT_ARCH_X86_64
  instructionPointer := (seen c).1
  args := (seen c).2

/-- The filter lets the kernel carry out the call. -/
def CarriedOut (c : Syscall) : Prop :=
  ∀ nr, c.setupNr setrlimitNr = some nr →
    cfg.verdict (shown seen c nr) = some Seccomp.SECCOMP_RET_ALLOW

/-- The error of a call that is refused. -/
def refusal (verdict : UInt32) : Option Errno :=
  let errno := verdict &&& 0xFFFF
  if errno = 0 then none else some (min errno 4095)

/-- The answers of the kernel to a process with the filter. -/
def filtered (answer : Syscall → Option Errno) (c : Syscall) : Option Errno :=
  match c.setupNr setrlimitNr with
  | none => answer c
  | some nr =>
    let verdict := cfg.verdict (shown seen c nr)
    if verdict = some Seccomp.SECCOMP_RET_ALLOW then answer c else verdict.bind refusal

/-- Whatever the kernel answers, the set-up makes the same calls with the same answers and ends in
the same way as without the filter, and the kernel carries out each of the calls. -/
structure Undisturbed (opts : SpawnOptions) : Prop where
  same : ∀ answer,
    (setup opts).run (filtered cfg setrlimitNr seen answer) = (setup opts).run answer
  carriedOut : ∀ answer, ∀ e ∈ ((setup opts).run answer).1, CarriedOut cfg setrlimitNr seen e.1

variable {cfg} {setrlimitNr} {seen} {opts : SpawnOptions} {c : Syscall}

theorem makes_check {error : Errno → SpawnError} : Prog.Makes none (check error c) [c] :=
  ⟨only_check List.mem_cons_self, rfl⟩

theorem makes_attempt : Prog.Makes none (attempt c) [c] := ⟨only_attempt List.mem_cons_self, rfl⟩

theorem makes_setup : Prog.Makes none (setup opts) (setupCalls opts) := by
  have hgroups : Prog.Makes none
      (if opts.groups.isEmpty then pure () else check .os (.setgroups opts.groups))
      (if opts.groups.isEmpty then [] else [.setgroups opts.groups]) := by
    split
    · exact Prog.makes_pure
    · exact makes_check
  apply Prog.Makes.bind (Prog.makes_forM_option fun dir ↦ makes_check)
  apply Prog.Makes.bind
  · apply Prog.Makes.bind hgroups
    apply Prog.Makes.bind (Prog.makes_forM_option fun g ↦ makes_check)
    exact Prog.makes_forM_option fun u ↦ makes_check
  · apply Prog.Makes.bind (Prog.makes_forM_option fun m ↦ makes_attempt)
    apply Prog.Makes.bind (Prog.makes_forM_option fun n ↦ makes_attempt)
    apply Prog.Makes.bind (Prog.makes_forM fun rl ↦ makes_check)
    exact makes_check

/-- The set-up is undisturbed exactly if the filter lets each of its calls be carried out. -/
theorem undisturbed_iff_carriedOut : Undisturbed cfg setrlimitNr seen opts ↔
    ∀ c ∈ setupCalls opts, CarriedOut cfg setrlimitNr seen c := by
  constructor
  · intro h c hc
    have hrun := h.carriedOut fun _ ↦ none
    rw [makes_setup.run] at hrun
    exact hrun (c, none) (List.mem_map.mpr ⟨c, hc, rfl⟩)
  · intro h
    constructor
    · intro answer
      apply Prog.run_congr makes_setup.only
      intro c hc
      unfold filtered
      cases hnr : c.setupNr setrlimitNr with
      | none => rfl
      | some nr => exact if_pos (h c hc nr hnr)
    · intro answer e he
      exact h e.1 ((Prog.runs_run answer _).only makes_setup.only he)

/-- The system calls that `SystemCallFilter=` alone allows. -/
theorem verdict_ofFilter {nrs : List UInt32} {deny : Bool} {errno : UInt32} (nr : UInt32) :
    (SandboxConfig.ofFilter nrs deny errno).verdict (shown seen c nr) =
      some Seccomp.SECCOMP_RET_ALLOW ↔ nrs = [] ∨ Seccomp.Passes nrs deny nr := by
  cases nrs with
  | nil => exact iff_of_true rfl (.inl rfl)
  | cons first nrs =>
    have hneed : (SandboxConfig.ofFilter (first :: nrs) deny errno).needSeccomp := rfl
    have hfilter : (SandboxConfig.ofFilter (first :: nrs) deny errno).filter =
        Seccomp.listFilter (first :: nrs) deny errno [] := rfl
    rw [SandboxConfig.verdict_filter hneed, hfilter,
      Seccomp.listFilter_passes (List.cons_ne_nil _ _) rfl]
    simp [shown]

end Filtered

/-- The filter leaves the set-up alone exactly if the list lets all of its calls through. -/
theorem undisturbed_iff (nrs : List UInt32) (deny : Bool) (errno : UInt32) (opts : SpawnOptions)
    (setrlimitNr : UInt32) (seen : Syscall → UInt64 × (Fin 6 → UInt64)) :
    Undisturbed (.ofFilter nrs deny errno) setrlimitNr seen opts ↔
      nrs = [] ∨ ∀ c ∈ setupCalls opts, ∀ nr, c.setupNr setrlimitNr = some nr →
        Seccomp.Passes nrs deny nr := by
  rw [undisturbed_iff_carriedOut]
  by_cases hnrs : nrs = []
  · apply iff_of_true _ (.inl hnrs)
    intro c _ nr _
    exact (verdict_ofFilter nr).mpr (.inl hnrs)
  · simp only [CarriedOut, verdict_ofFilter, hnrs, false_or]

/-- `@system-service` has no `setuid`, so a service with `User=` is not set up. -/
theorem system_service_breaks_setuid : ∃ nrs, Seccomp.resolve ["@system-service"] = .ok nrs ∧
    ¬ Undisturbed (.ofFilter nrs false 0) 302 (fun _ ↦ (0, fun _ ↦ 0))
      { program := "/usr/bin/app", uid := some 1000 } := by
  obtain ⟨group, hgroup, hread, hsetuid⟩ : ∃ group,
      Seccomp.groupMembers "system-service" = some group ∧ "read" ∈ group ∧ "setuid" ∉ group :=
    ⟨_, rfl, List.mem_cons_self, by decide +kernel⟩
  let members := group.filterMap Seccomp.syscallNr
  have hmembers : Seccomp.resolveName "@system-service" = .ok members := by
    have hname : Seccomp.groupName "@system-service" = some "system-service" := by decide +kernel
    rw [Seccomp.resolveName, hname]
    dsimp only
    rw [hgroup]
  have hread : 0 ∈ members := List.mem_filterMap.mpr ⟨"read", hread, by decide +kernel⟩
  have hsetuid : 105 ∉ members := by
    intro hmem
    obtain ⟨s, hs, hnr⟩ := List.mem_filterMap.mp hmem
    have hnumber : Seccomp.syscallNr "setuid" = some 105 := by decide +kernel
    rw [Seccomp.syscallNr_inj hnr hnumber] at hs
    exact hsetuid hs
  have hbase : 105 ∉ Seccomp.allowBase := by
    rw [Seccomp.allowBase_eq]
    decide
  have hmem (nr : UInt32) : nr ∈ Seccomp.sortDedup [members].flatten ↔ nr ∈ members := by
    rw [Seccomp.mem_sortDedup]
    simp
  refine ⟨Seccomp.sortDedup [members].flatten, ?_, fun h ↦ ?_⟩
  · rw [Seccomp.resolve, List.mapM_cons, hmembers]
    rfl
  · have hset := undisturbed_iff_carriedOut.mp h (.setuid 1000)
      (List.mem_append_right _ (List.mem_append_left _ (by simp))) 105 rfl
    obtain hnil | hpasses := (verdict_ofFilter 105).mp hset
    · have hmem0 := (hmem 0).mpr hread
      rw [hnil] at hmem0
      cases hmem0
    · obtain hlisted | hbased := hpasses.1
      · exact hsetuid ((hmem 105).mp hlisted)
      · exact hbase hbased

end Forked

end Rystemd

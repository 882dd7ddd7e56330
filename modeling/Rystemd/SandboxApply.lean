import Rystemd.Forked

namespace Rystemd

open Calls Prog

/-- The calls that an op has to make apart from mounts. -/
def Op.calls : Op → List Syscall
  | .noNewPrivileges => [.setNoNewPrivs]
  | .capBoundingDrop caps invert => (capDropSet caps invert).map .capbsetDrop
  | .ambientRaise caps => caps.map .ambientRaise
  | .seccomp program => [.setSeccomp program]
  | _ => []

def Op.bestEffort : Op → Bool
  | .ambientRaise _ => true
  | _ => false

/-- The op has made its calls, with success unless it only has to try. -/
def Op.Executed (t : List (Syscall × Option Errno)) (op : Op) : Prop :=
  ∀ c ∈ op.calls, ∃ r, (c, r) ∈ t ∧ (r = none ∨ op.bestEffort)

theorem Op.Executed.mono {t t' : List (Syscall × Option Errno)} {op : Op} (h : op.Executed t)
    (ht : t ⊆ t') : op.Executed t' := by
  intro c hc
  obtain ⟨r, hr, hd⟩ := h c hc
  exact ⟨r, ht hr, hd⟩

theorem Op.calls_sandboxes {op : Op} {c : Syscall} (h : c ∈ op.calls) :
    c.sandboxes ∧ ∀ user, c ≠ .unshare user := by
  cases op with
  | noNewPrivileges =>
    obtain rfl := List.mem_singleton.mp h
    exact ⟨rfl, nofun⟩
  | seccomp program =>
    obtain rfl := List.mem_singleton.mp h
    exact ⟨rfl, nofun⟩
  | capBoundingDrop caps invert =>
    obtain ⟨cap, -, rfl⟩ := List.mem_map.mp h
    exact ⟨rfl, nofun⟩
  | ambientRaise caps =>
    obtain ⟨cap, -, rfl⟩ := List.mem_map.mp h
    exact ⟨rfl, nofun⟩
  | _ => cases h

namespace Forked

variable {t : List (Syscall × Option Errno)} {isRoot : Bool} {ids : UInt32 × UInt32} {op : Op}
  {ops : List Op} {opts : SpawnOptions} {c : Syscall} {error : Errno → SpawnError} {e : Errno}

/-- A program that ends with `pure b` returns `b`. -/
theorem runs_then {p : Forked PUnit} {a b : Bool} (h : Runs (p >>= fun _ ↦ pure a) t (.ok b)) :
    Runs p t (.ok ()) ∧ a = b := by
  obtain ⟨_, t₁, t₂, rfl, h₁, h₂⟩ := Runs.of_bind h
  obtain ⟨rfl, rfl⟩ := Runs.of_pure h₂
  rw [List.append_nil]
  exact ⟨h₁, rfl⟩

theorem applyOp_executed (h : Runs (applyOp isRoot ids op) t (.ok true)) : op.Executed t := by
  intro c hc
  cases op with
  | noNewPrivileges =>
    obtain rfl := List.mem_singleton.mp hc
    rw [runs_check (runs_then h).1]
    exact ⟨none, List.mem_singleton_self _, .inl rfl⟩
  | seccomp program =>
    obtain rfl := List.mem_singleton.mp hc
    rw [runs_check (runs_then h).1]
    exact ⟨none, List.mem_singleton_self _, .inl rfl⟩
  | capBoundingDrop caps invert =>
    obtain ⟨cap, hcap, rfl⟩ := List.mem_map.mp hc
    obtain ⟨t₁, t₂, t₃, rfl, ht⟩ := Runs.of_forM (runs_then h).1 hcap
    rw [runs_check ht]
    exact ⟨none, by simp, .inl rfl⟩
  | ambientRaise caps =>
    obtain ⟨cap, hcap, rfl⟩ := List.mem_map.mp hc
    obtain ⟨t₁, t₂, t₃, rfl, ht⟩ := Runs.of_forM (runs_then h).1 hcap
    obtain ⟨r, rfl⟩ := runs_attempt ht
    exact ⟨r, by simp, .inr rfl⟩
  | _ => cases hc

/-- The loop stops early only at a refused mount namespace. -/
theorem applyOp_false (h : Runs (applyOp isRoot ids op) t (.ok false)) :
    op = .unshareMount ∧ isRoot = false ∧
      ∃ e, t = [(.unshare true, some e)] ∧ (e = Errno.EPERM ∨ e = Errno.EINVAL) := by
  cases op with
  | unshareMount =>
    obtain ⟨r, t₁, t₂, rfl, h₁, h₂⟩ := Runs.of_bind h
    cases r with
    | none =>
      have := (runs_then h₂).2
      cases this
    | some e =>
      dsimp only at h₂
      split at h₂
      · next he =>
        simp only [Bool.and_eq_true, Bool.not_eq_true', Bool.or_eq_true, decide_eq_true_eq] at he
        obtain ⟨hroot, he⟩ := he
        rw [Runs.of_ask h₁, (Runs.of_pure h₂).1, hroot]
        exact ⟨rfl, rfl, e, rfl, he⟩
      · cases h₂
  | bindReadOnly target =>
    obtain ⟨r, t₁, t₂, rfl, -, h₂⟩ := Runs.of_bind h
    split at h₂
    · have := (Runs.of_pure h₂).2
      cases this
    · split at h₂
      · have := (Runs.of_pure h₂).2
        cases this
      · obtain ⟨_, s₁, s₂, rfl, -, h₃⟩ := Runs.of_bind h₂
        have := (runs_then h₃).2
        cases this
  | _ =>
    have := (runs_then h).2
    cases this

theorem apply_executed (h : Runs (apply isRoot ids ops) t (.ok (some ()))) (hop : op ∈ ops) :
    op.Executed t := by
  induction ops generalizing t with
  | nil => cases hop
  | cons op' ops ih =>
    obtain ⟨b, t₁, t₂, rfl, h₁, h₂⟩ := Runs.of_bind h
    cases b with
    | false =>
      have := (Runs.of_pure h₂).2
      cases this
    | true =>
      cases hop with
      | head => exact (applyOp_executed h₁).mono (List.subset_append_left t₁ t₂)
      | tail _ hop => exact (ih h₂ hop).mono (List.subset_append_right t₁ t₂)

/-- Mount sandboxing is skipped only if the namespace has been refused to a non-root manager. -/
theorem apply_skipped (h : Runs (apply isRoot ids ops) t (.ok none)) :
    .unshareMount ∈ ops ∧ isRoot = false ∧
      ∃ e, (.unshare true, some e) ∈ t ∧ (e = Errno.EPERM ∨ e = Errno.EINVAL) := by
  induction ops generalizing t with
  | nil =>
    have := (Runs.of_pure h).2
    cases this
  | cons op ops ih =>
    obtain ⟨b, t₁, t₂, rfl, h₁, h₂⟩ := Runs.of_bind h
    cases b with
    | false =>
      obtain ⟨rfl, hroot, e, rfl, he⟩ := applyOp_false h₁
      exact ⟨List.mem_cons_self .., hroot, e, by simp, he⟩
    | true =>
      obtain ⟨hmem, hroot, e, hin, he⟩ := ih h₂
      exact ⟨List.mem_cons_of_mem _ hmem, hroot, e, List.mem_append_right _ hin, he⟩

/-- At a refused namespace nothing else is called. -/
theorem apply_refused {res : Option PUnit}
    (h : Runs (apply false ids (.unshareMount :: ops)) t (.ok res))
    (hr : ∀ user r, (.unshare user, r) ∈ t → r = some e) : t = [(.unshare true, some e)] := by
  obtain ⟨b, t₁, t₂, rfl, h₁, h₂⟩ := Runs.of_bind h
  obtain ⟨r, s₁, s₂, rfl, h₃, h₄⟩ := Runs.of_bind h₁
  obtain rfl := Runs.of_ask h₃
  obtain rfl := hr true r (by simp)
  dsimp only at h₄
  split at h₄
  · obtain ⟨rfl, rfl⟩ := Runs.of_pure h₄
    rw [(Runs.of_pure h₂).1]
    rfl
  · cases h₄

end Forked

section Plan

variable {cfg : SandboxConfig} {ops : List Op}

theorem mountOps_unshares : ∃ rest, .unshareMount ∉ rest ∧
    cfg.mountOps = if cfg.needMountns then .unshareMount :: rest else rest := by
  cases hn : cfg.needMountns with
  | true =>
    simp only [SandboxConfig.mountOps, hn, if_true, List.cons_append, List.nil_append]
    refine ⟨_, ?_, rfl⟩
    simp only [List.mem_cons, List.mem_append, List.mem_map, reduceCtorEq, and_false,
      exists_false, or_false, false_or]
    split <;> split <;> split <;> split <;> simp
  | false =>
    simp only [SandboxConfig.mountOps, hn, Bool.false_eq_true, if_false]
    refine ⟨_, ?_, rfl⟩
    simp only [List.mem_append, List.not_mem_nil, List.mem_map, reduceCtorEq, and_false,
      exists_false, or_false, false_or]
    split <;> split <;> split <;> split <;> simp

theorem not_mem_boundingOps : .unshareMount ∉ cfg.boundingOps := by
  rw [SandboxConfig.boundingOps]
  split
  · simp
  · dsimp only
    split <;> simp

theorem not_mem_ambientOps : .unshareMount ∉ cfg.ambientOps := by
  rw [SandboxConfig.ambientOps]
  split
  · simp
  · dsimp only
    split <;> simp

theorem not_mem_seccompOps : .unshareMount ∉ cfg.seccompOps := by
  rw [SandboxConfig.seccompOps]
  split
  · split <;> simp
  · simp

/-- A mount namespace is the first thing that a plan asks for, and it asks once. -/
theorem plan_unshares (h : plan cfg = some ops) : ∃ rest, .unshareMount ∉ rest ∧
    ops = if cfg.needMountns then .unshareMount :: rest else rest := by
  rw [plan] at h
  split at h
  · cases h
  · obtain rfl := Option.some.inj h
    obtain ⟨rest, hrest, hmounts⟩ := @mountOps_unshares cfg
    refine ⟨rest ++ (if cfg.noNewPrivileges then [.noNewPrivileges] else []) ++
      cfg.boundingOps ++ cfg.ambientOps ++ cfg.seccompOps, ?_, ?_⟩
    · simp only [List.mem_append, hrest, not_mem_boundingOps, not_mem_ambientOps,
        not_mem_seccompOps, or_false, false_or]
      split <;> simp
    · rw [hmounts]
      split
      · rfl
      · rfl

end Plan

/-- The answers of a world that refuses at most a mount namespace. -/
def Syscall.answerUnshare (refusal : Option Errno) : Syscall → Option Errno
  | .unshare _ => refusal
  | _ => none

open Forked

/-- Once the namespace is refused, a spawn makes no call of the sandbox any more. -/
theorem spawn_refused {opts : SpawnOptions} {ids : UInt32 × UInt32} {rest : List Op} {e : Errno}
    {t : List (Syscall × Option Errno)} (hops : opts.sandboxOps = some (.unshareMount :: rest))
    (h : Runs (spawn false ids opts) t (.ok ()))
    (hr : ∀ user r, (Syscall.unshare user, r) ∈ t → r = some e) {c : Syscall} {r : Option Errno}
    (hc : (c, r) ∈ t) (hs : c.sandboxes) : c = .unshare true := by
  obtain ⟨t₁, t₂, t₃, t₄, t₅, rfl, h₁, h₂, h₃, h₄, h₅⟩ := runs_spawn h
  rw [sandbox, hops] at h₂
  obtain ⟨a, s₁, s₂, rfl, hs₁, hs₂⟩ := Runs.of_bind h₂
  obtain ⟨rfl, -⟩ := Runs.of_pure hs₂
  have hplain {c : Syscall} (hc : c.plain) : ¬ c.sandboxes := by
    rw [Syscall.plain, Bool.and_eq_true, Bool.not_eq_true'] at hc
    simp [hc.1]
  have hid {c : Syscall} (hc : c.identifies) : ¬ c.sandboxes := by
    cases c with
    | setgroups | setgid | setuid => exact Bool.false_ne_true
    | _ => cases hc
  simp only [List.mem_append] at hc
  rcases hc with hc | (hc | hc) | hc | hc | hc
  · exact absurd hs (hplain (h₁.only only_prepare hc))
  · rw [apply_refused hs₁ fun user r hu ↦ hr user r (by simp [hu])] at hc
    exact congrArg Prod.fst (List.mem_singleton.mp hc)
  · cases hc
  · exact absurd hs (hplain (h₃.only only_changeDir hc))
  · exact absurd hs (hid (h₄.only only_dropPrivileges hc))
  · exact absurd hs (hplain (h₅.only only_launch hc))

/-- With a refusal that `apply` tolerates, the child still gets to the exec. -/
theorem returns_refused {opts : SpawnOptions} {ids : UInt32 × UInt32} {rest : List Op} {e : Errno}
    (hops : opts.sandboxOps = some (.unshareMount :: rest))
    (he : e = Errno.EPERM ∨ e = Errno.EINVAL) :
    Returns (Syscall.answerUnshare (some e)) (spawn false ids opts) () := by
  have happly : Returns (Syscall.answerUnshare (some e)) (apply false ids (.unshareMount :: rest))
      none := by
    refine returns_bind (a := false) (returns_bind (a := some e) rfl ?_) rfl
    rcases he with rfl | rfl <;> rfl
  refine returns_spawn (fun c hc ↦ ?_) ?_
  · cases c with
    | unshare user => cases hc
    | _ => rfl
  · rw [sandbox, hops]
    exact returns_bind happly rfl

theorem sandbox_fail_closed (cfg : SandboxConfig) (opts : SpawnOptions) (isRoot : Bool)
    (ids : UInt32 × UInt32) (refusal : Option Errno) :
    (∀ t, (∀ user r, (Syscall.unshare user, r) ∈ t → r = refusal) →
      Runs (spawn isRoot ids { opts with sandboxOps := plan cfg }) t (.ok ()) →
      ∀ op ∈ (plan cfg).getD [], op.Executed t) ↔
    (cfg.needMountns → isRoot = false →
      refusal ≠ some Errno.EPERM ∧ refusal ≠ some Errno.EINVAL) ∨
    ∀ op ∈ (plan cfg).getD [], op.calls = [] := by
  constructor
  · intro h
    by_contra hcond
    push Not at hcond
    obtain ⟨⟨hn, rfl, hr⟩, op, hop, hcalls⟩ := hcond
    obtain ⟨e, rfl, he⟩ : ∃ e, refusal = some e ∧ (e = Errno.EPERM ∨ e = Errno.EINVAL) := by
      by_cases hperm : refusal = some Errno.EPERM
      · exact ⟨_, hperm, .inl rfl⟩
      · exact ⟨_, hr hperm, .inr rfl⟩
    cases hplan : plan cfg with
    | none =>
      rw [hplan] at hop
      cases hop
    | some ops =>
      obtain ⟨rest, -, rfl⟩ := plan_unshares hplan
      rw [if_pos hn] at hplan
      have hreturns : Returns (Syscall.answerUnshare (some e))
          (spawn false ids { opts with sandboxOps := plan cfg }) () := returns_refused hplan he
      have hruns := hreturns.runs
      have hanswer (user : Bool) (r : Option Errno) (hu : (Syscall.unshare user, r) ∈
          ((spawn false ids { opts with sandboxOps := plan cfg }).run
            (Syscall.answerUnshare (some e))).1) : r = some e := run_answer hu
      obtain ⟨c, hc⟩ := List.exists_mem_of_ne_nil _ hcalls
      obtain ⟨r, hr, -⟩ := h _ hanswer hruns op hop c hc
      obtain ⟨hs, hne⟩ := Op.calls_sandboxes hc
      exact hne true (spawn_refused hplan hruns hanswer hr hs)
  · intro hcond t hr h op hop
    rcases hcond with hcond | hcalls
    · cases hplan : plan cfg with
      | none =>
        rw [hplan] at hop
        cases hop
      | some ops =>
        obtain ⟨t₁, t₂, t₃, t₄, t₅, rfl, -, h₂, -⟩ := runs_spawn h
        rw [hplan] at hop h₂
        obtain ⟨a, s₁, s₂, rfl, h₂, -⟩ := Runs.of_bind h₂
        cases a with
        | some =>
          refine (apply_executed h₂ hop).mono fun x hx ↦ ?_
          simp [hx]
        | none =>
          obtain ⟨hmem, rfl, e, he, herrno⟩ := apply_skipped h₂
          have hn : cfg.needMountns := by
            by_contra hn
            obtain ⟨rest, hrest, rfl⟩ := plan_unshares hplan
            rw [if_neg hn] at hmem
            exact hrest hmem
          have hrefused := hr true (some e) (by simp [he])
          obtain ⟨hperm, hinval⟩ := hcond hn rfl
          rcases herrno with rfl | rfl
          · exact absurd hrefused.symm hperm
          · exact absurd hrefused.symm hinval
    · intro c hc
      rw [hcalls op hop] at hc
      cases hc

/-- Without user namespaces, `PrivateTmp=` switches `NoNewPrivileges=` off. -/
theorem refused_namespace_opens : ¬ ∀ (cfg : SandboxConfig) (opts : SpawnOptions) (isRoot : Bool)
    (ids : UInt32 × UInt32) (t : List (Syscall × Option Errno)),
    Runs (spawn isRoot ids { opts with sandboxOps := plan cfg }) t (.ok ()) →
    ∀ op ∈ (plan cfg).getD [], op.Executed t := by
  intro h
  obtain ⟨r, hr, -⟩ := h { privateTmp := true, noNewPrivileges := true } { program := "/bin/true" }
    false (65534, 65534)
    [(.sigprocmask, none), (.setsid, none), (.unshare true, some Errno.EPERM),
      (.exec "/bin/true" [], none)]
    (.call (.call (.call (.call (.ret ())))))
    .noNewPrivileges (by decide) _ (List.mem_singleton_self _)
  simp at hr

end Rystemd

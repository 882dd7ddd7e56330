import Rystemd.Forked

namespace Rystemd

open Calls

/-- A descriptor of a process: the open file, and whether an exec closes it. -/
structure Descriptor (ι : Type) where
  file : ι
  cloexec : Bool

/-- The descriptors of a process, which are all below its limit. -/
structure Descriptors (ι : Type) where
  get : Nat → Option (Descriptor ι)
  limit : Nat
  bounded : ∀ fd, get fd ≠ none → fd < limit

namespace Descriptors

variable {ι : Type}

def set (t : Descriptors ι) (fd : Nat) (d : Descriptor ι) (h : fd < t.limit) : Descriptors ι where
  get fd' := if fd' = fd then some d else t.get fd'
  limit := t.limit
  bounded fd' hget := by
    split at hget
    · next heq =>
      rw [heq]
      exact h
    · exact t.bounded fd' hget

/-- What is left after an exec. -/
def afterExec (t : Descriptors ι) (fd : Nat) : Option ι :=
  (t.get fd).bind fun d ↦ if d.cloexec then none else some d.file

/-- The descriptors of a manager that has these listeners open and nothing else. -/
def listening (fds : List Nat) : Descriptors Nat where
  get fd := if fd ∈ fds ∧ fd < 1024 then some ⟨fd, true⟩ else none
  limit := 1024
  bounded fd hget := by
    split at hget
    · next hopen => exact hopen.2
    · exact absurd rfl hget

theorem get_listening {fds : List Nat} {fd : Nat} (hmem : fd ∈ fds) (hlt : fd < 1024) :
    (listening fds).get fd = some ⟨fd, true⟩ :=
  if_pos ⟨hmem, hlt⟩

end Descriptors

def Errno.EBADF : Errno := 9

/-- `dup2` of Linux: it does nothing if both descriptors are the same, and else clears the
close-on-exec flag of the copy. -/
def dup2 {ι : Type} (fd target : Nat) (t : Descriptors ι) : Option Errno × Descriptors ι :=
  match t.get fd with
  | none => (some Errno.EBADF, t)
  | some d =>
    if fd = target then (none, t)
    else if h : target < t.limit then (none, t.set target ⟨d.file, false⟩ h)
    else (some Errno.EBADF, t)

namespace Forked

/-- How the calls of the child change its descriptors, as far as those of the loop do. -/
def descriptorStep {ι : Type} (c : Syscall) (t : Descriptors ι) : Option Errno × Descriptors ι :=
  match c with
  | .dup2 fd target => dup2 fd target t
  | _ => (none, t)

/-- The loop of the child over the listeners that are left, from an index on. -/
def passListeners (i : Nat) (fds : List Nat) : Forked PUnit :=
  (fds.zipIdx i).forM fun fd ↦ check .os (.dup2 fd.1 (3 + fd.2))

theorem prepare_eq (opts : SpawnOptions) : prepare opts = (do
    check .os .sigprocmask
    check .os .setsid
    passListeners 0 opts.listenFds
    opts.cgroup.forM adoptCgroup) := rfl

section Loop

variable {ι : Type} {t t' : Descriptors ι} {fd i : Nat} {fds : List Nat} {d : Descriptor ι}

theorem exec_dup2 (h : dup2 fd i t = (none, t')) :
    (check .os (.dup2 fd i)).exec descriptorStep t = (.ok (), t') := by
  have hask : (Prog.ask (.dup2 fd i) : Forked (Option Errno)).exec descriptorStep t =
      (.ok none, t') := by
    change (Except.ok (dup2 fd i t).1, (dup2 fd i t).2) = _
    rw [h]
  exact Prog.exec_bind hask

/-- The copy is made, and nothing else changes. -/
theorem dup2_below (hd : t.get fd = some d) (hle : i ≤ fd) : ∃ t', dup2 fd i t = (none, t') ∧
    t'.get i = some (if fd = i then d else ⟨d.file, false⟩) ∧
    ∀ fd', fd' ≠ i → t'.get fd' = t.get fd' := by
  rw [dup2, hd]
  dsimp only
  by_cases heq : fd = i
  · rw [if_pos heq]
    refine ⟨t, rfl, ?_, fun _ _ ↦ rfl⟩
    rw [if_pos heq, ← heq, hd]
  · have hlimit := t.bounded fd (by rw [hd]; exact Option.some_ne_none d)
    rw [if_neg heq, dif_pos (by omega)]
    refine ⟨_, rfl, ?_, fun fd' hne ↦ if_neg hne⟩
    rw [if_neg heq]
    exact if_pos rfl

/-- The loop moves each listener down to its place. The descriptors below the place that is next are
done, and those of the listeners that are left are as before, since they are not below it. -/
theorem exec_passListeners (hsorted : fds.Pairwise (· < ·)) (hge : ∀ fd ∈ fds, 3 + i ≤ fd)
    (hopen : ∀ fd ∈ fds, t.get fd ≠ none) :
    ∃ t', (passListeners i fds).exec descriptorStep t = (.ok (), t') ∧
      (∀ fd, fd < 3 + i → t'.get fd = t.get fd) ∧
      ∀ j fd d, fds[j]? = some fd → t.get fd = some d →
        t'.get (3 + i + j) = some (if fd = 3 + i + j then d else ⟨d.file, false⟩) := by
  induction fds generalizing t i with
  | nil => exact ⟨t, rfl, fun _ _ ↦ rfl, fun j fd d hj ↦ by cases hj⟩
  | cons fd fds ih =>
    obtain ⟨hlt, hsorted⟩ := List.pairwise_cons.mp hsorted
    obtain ⟨d, hd⟩ := Option.ne_none_iff_exists'.mp (hopen fd List.mem_cons_self)
    obtain ⟨t₁, hdup, hcopy, hkept⟩ := dup2_below hd (hge fd List.mem_cons_self)
    have hfirst := hge fd List.mem_cons_self
    have hlater : ∀ fd' ∈ fds, t₁.get fd' = t.get fd' := by
      intro fd' hmem
      have hfd := hlt fd' hmem
      exact hkept fd' (by omega)
    obtain ⟨t', hrun, hbelow, hplaces⟩ := ih hsorted (i := i + 1) (t := t₁)
      (fun fd' hmem ↦ by have hfd := hlt fd' hmem; omega)
      (fun fd' hmem ↦ by rw [hlater fd' hmem]; exact hopen fd' (List.mem_cons_of_mem _ hmem))
    refine ⟨t', ?_, fun fd' hfd ↦ ?_, fun j fd' d' hj hd' ↦ ?_⟩
    · rw [← hrun]
      exact Prog.exec_bind (exec_dup2 hdup)
    · rw [hbelow fd' (by omega), hkept fd' (by omega)]
    · cases j with
      | zero =>
        obtain rfl := Option.some.inj hj
        rw [hd] at hd'
        obtain rfl := Option.some.inj hd'
        rw [Nat.add_zero, hbelow _ (by omega), hcopy]
      | succ j =>
        have hlater' : fds[j]? = some fd' := hj
        have hmem := List.mem_of_getElem? hlater'
        have hplace := hplaces j fd' d' hlater' (by rw [hlater fd' hmem, hd'])
        have hindex : 3 + (i + 1) + j = 3 + i + (j + 1) := by omega
        rw [hindex] at hplace
        exact hplace

theorem le_getElem (hsorted : fds.Pairwise (· < ·)) (hge : ∀ fd ∈ fds, i ≤ fd) {j : Nat}
    (hj : fds[j]? = some fd) : i + j ≤ fd := by
  induction fds generalizing i j with
  | nil => cases hj
  | cons fd' fds ih =>
    obtain ⟨hlt, hsorted⟩ := List.pairwise_cons.mp hsorted
    have hfirst := hge fd' List.mem_cons_self
    cases j with
    | zero =>
      obtain rfl := Option.some.inj hj
      exact hfirst
    | succ j =>
      have hrest := ih hsorted (i := i + 1) (fun fd hmem ↦ by have := hlt fd hmem; omega) hj
      omega

/-- After the loop each listener has its place, and keeps it over the exec. -/
def Passed (fds : List Nat) (t : Descriptors ι) : Prop :=
  ∃ t', (passListeners 0 fds).exec descriptorStep t = (.ok (), t') ∧
    ∀ i fd d, fds[i]? = some fd → t.get fd = some d → t'.afterExec (3 + i) = some d.file

/-- The listeners are passed exactly where the first one is not at its place already. -/
theorem passListeners_iff (hsorted : fds.Pairwise (· < ·)) (hge : ∀ fd ∈ fds, 3 ≤ fd)
    (hopen : ∀ fd ∈ fds, ∃ file, t.get fd = some ⟨file, true⟩) :
    Passed fds t ↔ fds.head? ≠ some 3 := by
  have hsome : ∀ fd ∈ fds, t.get fd ≠ none := by
    intro fd hmem
    obtain ⟨file, hfile⟩ := hopen fd hmem
    rw [hfile]
    exact Option.some_ne_none _
  obtain ⟨t', hrun, -, hplaces⟩ := exec_passListeners (i := 0) hsorted hge hsome
  constructor
  · rintro ⟨t'', hrun', hpassed⟩ hhead
    rw [hrun] at hrun'
    obtain rfl := (Prod.mk.inj hrun').2
    obtain ⟨file, hfile⟩ := hopen 3 (List.mem_of_head? hhead)
    have hfirst : fds[0]? = some 3 := by rw [← List.head?_eq_getElem?, hhead]
    have hplace := hplaces 0 3 _ hfirst hfile
    have hafter := hpassed 0 3 _ hfirst hfile
    rw [Descriptors.afterExec, hplace] at hafter
    cases hafter
  · intro hhead
    refine ⟨t', hrun, fun i fd d hi hd ↦ ?_⟩
    have hfour : ∀ fd ∈ fds, 4 ≤ fd := by
      cases fds with
      | nil => exact fun fd hmem ↦ absurd hmem List.not_mem_nil
      | cons fd' fds =>
        have hfirst := hge fd' List.mem_cons_self
        have hne : fd' ≠ 3 := fun heq ↦ hhead (congrArg some heq)
        intro fd hmem
        rcases List.mem_cons.mp hmem with rfl | hmem
        · omega
        · have hlt := (List.pairwise_cons.mp hsorted).1 fd hmem
          omega
    have hlt := le_getElem hsorted hfour hi
    have hplace := hplaces i fd d hi hd
    rw [if_neg (by omega)] at hplace
    rw [Descriptors.afterExec, ← Nat.add_zero 3, hplace]
    rfl

end Loop

theorem passListeners_iff_apart : Passed [5, 7] (Descriptors.listening [5, 7]) :=
  have hlt : ∀ fd ∈ [5, 7], fd < 1024 := by decide
  (passListeners_iff (by decide) (by decide) fun fd hmem ↦
    ⟨fd, Descriptors.get_listening hmem (hlt fd hmem)⟩).mpr (by decide)

/-- A listener that is at its place is copied onto itself, and so is closed by the exec. -/
theorem listener_in_place : ¬ ∀ (fds : List Nat) (t : Descriptors Nat), fds.Pairwise (· < ·) →
    (∀ fd ∈ fds, 3 ≤ fd) → (∀ fd ∈ fds, ∃ file, t.get fd = some ⟨file, true⟩) → Passed fds t := by
  intro h
  have hlt : ∀ fd ∈ [3], fd < 1024 := by decide
  obtain ⟨t', hrun, hpassed⟩ := h [3] (Descriptors.listening [3]) (by decide) (by decide)
    fun fd hmem ↦ ⟨fd, Descriptors.get_listening hmem (hlt fd hmem)⟩
  have hafter := hpassed 0 3 ⟨3, true⟩ rfl rfl
  obtain rfl := (Prod.mk.inj hrun).2
  cases hafter

end Forked

end Rystemd

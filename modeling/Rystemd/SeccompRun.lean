import Rystemd.Seccomp

namespace Rystemd

namespace Seccomp

open Bpf

/-- The arguments of `build`. -/
structure Filter where
  nrs : List UInt32 := []
  deny : Bool := true
  errno : UInt32 := 0
  extraDeny : List UInt32 := []
  af : Option AfGate := none
  wx : Bool := false

namespace Filter

def build (f : Filter) : List Insn := Seccomp.build f.nrs f.deny f.errno f.extraDeny f.af f.wx

/-- The action of the filter on a system call. -/
def verdict (f : Filter) (d : SeccompData) : Option UInt32 := run d.load f.build

def entries (f : Filter) : List UInt32 := Seccomp.entries f.nrs f.deny f.extraDeny f.af f.wx

def gates (f : Filter) : List (UInt32 × Tgt) := Seccomp.gates f.nrs f.deny f.af f.wx

def layout (f : Filter) : List I := Seccomp.layout f.nrs f.deny f.extraDeny f.af f.wx

def famPart (f : Filter) : List I :=
  match f.af with
  | some af => if f.gates.any fun g ↦ g.2 = .famarg then famBlock af else []
  | none => []

def entryStart (f : Filter) : Nat := 3 + f.gates.length

def famStart (f : Filter) : Nat := f.entryStart + f.entries.length

def wxStart (f : Filter) : Nat := f.famStart + f.famPart.length

def wxPart (f : Filter) : List I :=
  if f.gates.any fun g ↦ g.2 = .wxArg then wxBlock f.wxStart else []

/-- The index of the return with the errno. -/
def errnoI (f : Filter) : Nat := f.wxStart + f.wxPart.length

def plainT (f : Filter) : Tgt := if f.entries.isEmpty then pickT !f.deny else .i f.entryStart

/-- All the patches together. -/
def forward (f : Filter) (ins : I) : I :=
  patch .wxArg (.i f.wxStart) (patch .famarg (.i f.famStart) (patch .plain f.plainT ins))

/-- The index that a target of a gate stands for. -/
def dest (f : Filter) : Tgt → Nat
  | .none => 0
  | .i idx => idx
  | .errno => f.errnoI
  | .allow => f.errnoI + 1
  | .famarg => f.famStart
  | .wxArg => f.wxStart
  | .plain => if f.entries.isEmpty then (if f.deny then f.errnoI + 1 else f.errnoI) else f.entryStart

end Filter

section Patches

variable {t t' : Tgt} {prog : List I} {ins : I} {deny : Bool} {start : Nat}

theorem map_patch_absent (h : ∀ ins ∈ prog, ins.jt ≠ t ∧ ins.jf ≠ t) :
    prog.map (patch t t') = prog := by
  refine (List.map_congr_left fun ins hi ↦ ?_).trans (List.map_id _)
  simp only [patch, if_neg (h ins hi).1, if_neg (h ins hi).2, id]

theorem patch_jt_ne {s : Tgt} (ht : t' ≠ s) (h : ins.jt ≠ s) : (patch t t' ins).jt ≠ s := by
  dsimp only [patch]
  split
  · exact ht
  · exact h

theorem patch_jf_ne {s : Tgt} (ht : t' ≠ s) (h : ins.jf ≠ s) : (patch t t' ins).jf ≠ s := by
  dsimp only [patch]
  split
  · exact ht
  · exact h

theorem pickT_ne (h : t ≠ .errno) (h' : t ≠ .allow) (b : Bool) : pickT b ≠ t := by
  cases b
  · exact fun he ↦ h' he.symm
  · exact fun he ↦ h he.symm

/-- No comparison of an entry goes to a target that is patched. -/
theorem entryBlock_absent {entries : List UInt32} (h : t ≠ .errno) (h' : t ≠ .allow)
    (hi : ∀ idx, t ≠ .i idx) (ins : I) (hmem : ins ∈ entryBlock start deny entries) :
    ins.jt ≠ t ∧ ins.jf ≠ t := by
  obtain ⟨j, hj, rfl⟩ := List.mem_mapIdx.mp hmem
  refine ⟨pickT_ne h h' _, ?_⟩
  simp only [jeq]
  split
  · exact pickT_ne h h' _
  · exact fun he ↦ hi _ he.symm

theorem famBlock_absent {af : AfGate} (h : t ≠ .errno) (h' : t ≠ .allow) (hn : t ≠ .none) (ins : I)
    (hmem : ins ∈ famBlock af) : ins.jt ≠ t ∧ ins.jf ≠ t := by
  rcases List.mem_cons.mp hmem with rfl | hmem
  · exact ⟨hn.symm, hn.symm⟩
  · obtain ⟨f, -, rfl⟩ := List.mem_map.mp hmem
    exact ⟨pickT_ne h h' _, pickT_ne h h' _⟩

theorem prologue_patch (h : t = .plain ∨ t = .famarg ∨ t = .wxArg) :
    prologue.map (patch t t') = prologue := by
  refine map_patch_absent fun ins hi ↦ ?_
  simp only [prologue, List.mem_cons, List.not_mem_nil, or_false] at hi
  rcases h with rfl | rfl | rfl <;> rcases hi with rfl | rfl | rfl <;>
    simp [ld, jeq]

/-- A target that no gate has is not in the gates, also after the first patch. -/
theorem gateBlock_absent {gates : List (UInt32 × Tgt)} {t₁ : Tgt} (ht : ∀ idx, t ≠ .i idx)
    (ht₁ : t₁ ≠ t) (hp : t ≠ .plain) (h : gates.any (fun g ↦ g.2 = t) = false) (ins : I)
    (hmem : ins ∈ (gateBlock start gates).map (patch .plain t₁)) : ins.jt ≠ t ∧ ins.jf ≠ t := by
  obtain ⟨ins, hins, rfl⟩ := List.mem_map.mp hmem
  obtain ⟨j, hj, rfl⟩ := List.mem_mapIdx.mp hins
  have hg : gates[j].2 ≠ t := by
    simpa using List.any_eq_false.mp h gates[j] (List.getElem_mem hj)
  refine ⟨patch_jt_ne ht₁ hg, patch_jf_ne ht₁ ?_⟩
  dsimp only [jeq]
  split
  · exact hp.symm
  · exact fun he ↦ ht _ he.symm

end Patches

namespace Filter

variable (f : Filter)

theorem plainT_ne {t : Tgt} (h : t ≠ .errno) (h' : t ≠ .allow) (hi : ∀ idx, t ≠ .i idx) :
    f.plainT ≠ t := by
  unfold plainT
  split
  · exact pickT_ne h h' _
  · exact fun he ↦ hi _ he.symm

/-- The prologue, the gates and the entries. -/
def base : List I := (prologue ++ gateBlock 3 f.gates).map (patch .plain f.plainT) ++
  entryBlock f.entryStart f.deny f.entries

theorem base_length : f.base.length = f.famStart := by
  simp only [base, prologue, gateBlock, entryBlock, famStart, entryStart, List.length_append,
    List.length_map, List.length_cons, List.length_nil, List.length_mapIdx]

theorem base_absent {t : Tgt} (ht : t = .famarg ∨ t = .wxArg)
    (h : f.gates.any (fun g ↦ g.2 = t) = false) (ins : I) (hmem : ins ∈ f.base) :
    ins.jt ≠ t ∧ ins.jf ≠ t := by
  have he : t ≠ .errno := by rcases ht with rfl | rfl <;> simp
  have ha : t ≠ .allow := by rcases ht with rfl | rfl <;> simp
  have hi (idx : Nat) : t ≠ .i idx := by rcases ht with rfl | rfl <;> simp
  have hp : t ≠ .plain := by rcases ht with rfl | rfl <;> simp
  rw [base, List.map_append, prologue_patch (.inl rfl), List.mem_append, List.mem_append] at hmem
  rcases hmem with (hmem | hmem) | hmem
  · simp only [prologue, List.mem_cons, List.not_mem_nil, or_false] at hmem
    rcases hmem with rfl | rfl | rfl <;> rcases ht with rfl | rfl <;> simp [ld, jeq]
  · exact gateBlock_absent hi (f.plainT_ne he ha hi) hp h ins hmem
  · exact entryBlock_absent he ha hi ins hmem

/-- A call that no gate sends to the family block needs none. -/
theorem famPart_of_absent (h : f.gates.any (fun g ↦ g.2 = .famarg) = false) : f.famPart = [] := by
  unfold famPart
  split
  · rw [h]
    rfl
  · rfl

/-- The step of `layout` that appends the family block. -/
def withFam : List I :=
  match f.af with
  | some af =>
    if f.gates.any fun g ↦ g.2 = .famarg then
      (f.base ++ famBlock af).map (patch .famarg (.i f.base.length))
    else f.base
  | none => f.base

theorem gates_of_none (h : f.af = none) : f.gates.any (fun g ↦ g.2 = .famarg) = false := by
  rw [List.any_eq_false]
  intro g hg
  rw [gates, h, Seccomp.gates, afGates, List.append_nil] at hg
  obtain ⟨s, -, rfl⟩ := List.mem_map.mp hg
  dsimp only
  split <;> simp

theorem withFam_eq :
    f.withFam = f.base.map (patch .famarg (.i f.famStart)) ++ f.famPart := by
  have absent (h : f.gates.any (fun g ↦ g.2 = .famarg) = false) :
      f.base = f.base.map (patch .famarg (.i f.famStart)) ++ f.famPart := by
    rw [map_patch_absent (f.base_absent (.inl rfl) h), f.famPart_of_absent h, List.append_nil]
  cases haf : f.af with
  | none =>
    simp only [withFam, haf]
    exact absent (f.gates_of_none haf)
  | some af =>
    simp only [withFam, haf]
    split
    · next h =>
      rw [List.map_append, f.base_length, map_patch_absent (famBlock_absent (by simp) (by simp)
        (by simp))]
      simp only [famPart, haf, if_pos h]
    · next h => exact absent (Bool.not_eq_true _ ▸ h)

theorem layout_withFam : f.layout =
    if f.gates.any fun g ↦ g.2 = .wxArg then
      (f.withFam ++ wxBlock f.withFam.length).map (patch .wxArg (.i f.withFam.length))
    else f.withFam := by
  have hstart : (prologue ++ gateBlock 3 f.gates).length = f.entryStart := by
    simp only [prologue, gateBlock, entryStart, List.length_append, List.length_cons,
      List.length_nil, List.length_mapIdx]
  have h3 : prologue.length = 3 := rfl
  have hg : Seccomp.gates f.nrs f.deny f.af f.wx = f.gates := rfl
  have he : Seccomp.entries f.nrs f.deny f.extraDeny f.af f.wx = f.entries := rfl
  simp only [layout, Seccomp.layout, withFam, base, plainT, hg, he, h3, List.length_map, hstart]
  all_goals rfl

theorem famPart_absent (ins : I) (hi : ins ∈ f.famPart) : ins.jt ≠ .wxArg ∧ ins.jf ≠ .wxArg := by
  unfold famPart at hi
  split at hi
  · split at hi
    · exact famBlock_absent (by simp) (by simp) (by simp) ins hi
    · cases hi
  · cases hi

theorem withFam_length : f.withFam.length = f.wxStart := by
  rw [withFam_eq, List.length_append, List.length_map, base_length, wxStart]

theorem layout_wx : f.layout = f.withFam.map (patch .wxArg (.i f.wxStart)) ++ f.wxPart := by
  rw [layout_withFam, f.withFam_length, wxPart]
  split
  · rw [List.map_append]
    rfl
  · next h =>
    rw [List.append_nil, map_patch_absent]
    have h : f.gates.any (fun g ↦ g.2 = .wxArg) = false := Bool.not_eq_true _ ▸ h
    intro ins hi
    rw [withFam_eq] at hi
    rcases List.mem_append.mp hi with hi | hi
    · obtain ⟨ins, hbase, rfl⟩ := List.mem_map.mp hi
      obtain ⟨hjt, hjf⟩ := f.base_absent (.inr rfl) h ins hbase
      exact ⟨patch_jt_ne (by simp) hjt, patch_jf_ne (by simp) hjf⟩
    · exact f.famPart_absent ins hi

/-- The prologue and the gates, the entries, the family block and the `prot` block. -/
theorem layout_eq : f.layout = prologue ++ (gateBlock 3 f.gates).map f.forward ++
    entryBlock f.entryStart f.deny f.entries ++ f.famPart ++ f.wxPart := by
  have hentries (t t' : Tgt) (h : t = .famarg ∨ t = .wxArg) :
      (entryBlock f.entryStart f.deny f.entries).map (patch t t') =
        entryBlock f.entryStart f.deny f.entries := by
    refine map_patch_absent (entryBlock_absent ?_ ?_ ?_) <;> rcases h with rfl | rfl <;> simp
  have hfam (t : Tgt) : f.famPart.map (patch .wxArg t) = f.famPart :=
    map_patch_absent f.famPart_absent
  rw [layout_wx, withFam_eq, base]
  simp only [List.map_append, prologue_patch (.inl rfl), prologue_patch (.inr (.inl rfl)),
    prologue_patch (.inr (.inr rfl)), hentries _ _ (.inl rfl), hentries _ _ (.inr rfl), hfam,
    List.map_map]
  rfl

theorem layout_length : f.layout.length = f.errnoI := by
  simp only [layout_eq, prologue, gateBlock, entryBlock, errnoI, wxStart, famStart, entryStart,
    List.length_append, List.length_map, List.length_cons, List.length_nil, List.length_mapIdx]

/-- The resolved program. -/
def code : List Placed :=
  (f.layout ++ [ret (errnoRet f.errno), ret SECCOMP_RET_ALLOW]).map (place f.errnoI (f.errnoI + 1))

theorem build_eq : f.build = assemble f.code := by
  rw [code, ← layout_length]
  rfl

theorem code_get {i : Nat} {ins : I} (h : f.layout[i]? = some ins) :
    f.code[i]? = some (place f.errnoI (f.errnoI + 1) ins) := by
  obtain ⟨hi, -⟩ := List.getElem?_eq_some_iff.mp h
  rw [code, List.getElem?_map, List.getElem?_append_left hi, h, Option.map_some]

theorem code_errno : f.code[f.errnoI]? = some ⟨Opcode.ret.code, errnoRet f.errno, none, none⟩ := by
  rw [code, List.getElem?_map, List.getElem?_append_right f.layout_length.le, f.layout_length,
    Nat.sub_self]
  rfl

theorem code_allow : f.code[f.errnoI + 1]? =
    some ⟨Opcode.ret.code, SECCOMP_RET_ALLOW, none, none⟩ := by
  rw [code, List.getElem?_map, List.getElem?_append_right (f.layout_length.le.trans (by omega)),
    f.layout_length, Nat.add_sub_cancel_left]
  rfl

theorem code_prologue {i : Nat} {ins : I} (h : prologue[i]? = some ins) :
    f.code[i]? = some (place f.errnoI (f.errnoI + 1) ins) := by
  obtain ⟨hi, -⟩ := List.getElem?_eq_some_iff.mp h
  refine f.code_get ?_
  simp only [layout_eq, List.append_assoc]
  rw [List.getElem?_append_left hi, h]

/-- An instruction of a block that stands behind others. -/
theorem block_get {α : Type} {l l' : List α} {i n : Nat} (hn : l.length = n)
    {x : α} (h : l'[i]? = some x) (tail : List α) : (l ++ l' ++ tail)[n + i]? = some x := by
  obtain ⟨hi, -⟩ := List.getElem?_eq_some_iff.mp h
  rw [List.append_assoc, List.getElem?_append_right (by omega), hn, Nat.add_sub_cancel_left,
    List.getElem?_append_left hi, h]

theorem code_gate {j : Nat} {g : UInt32 × Tgt} (h : f.gates[j]? = some g) : f.code[3 + j]? = some
    (place f.errnoI (f.errnoI + 1) (f.forward (jeq g.1 g.2
      (if j + 1 = f.gates.length then .plain else .i (3 + j + 1))))) := by
  refine f.code_get ?_
  simp only [layout_eq, List.append_assoc]
  rw [← List.append_assoc]
  refine block_get rfl ?_ _
  simp only [gateBlock, List.getElem?_map, List.getElem?_mapIdx, h, Option.map_some]

theorem code_entry {j : Nat} {nr : UInt32} (h : f.entries[j]? = some nr) :
    f.code[f.entryStart + j]? = some (place f.errnoI (f.errnoI + 1) (jeq nr (pickT f.deny)
      (if j + 1 = f.entries.length then pickT !f.deny else .i (f.entryStart + j + 1)))) := by
  refine f.code_get ?_
  simp only [layout_eq, List.append_assoc]
  rw [← List.append_assoc, ← List.append_assoc]
  refine block_get ?_ ?_ _
  · simp only [prologue, gateBlock, entryStart, List.length_append, List.length_map,
      List.length_cons, List.length_nil, List.length_mapIdx]
  · simp only [entryBlock, List.getElem?_mapIdx, h, Option.map_some]

theorem code_fam {j : Nat} {ins : I} (h : f.famPart[j]? = some ins) :
    f.code[f.famStart + j]? = some (place f.errnoI (f.errnoI + 1) ins) := by
  refine f.code_get ?_
  rw [layout_eq]
  refine block_get ?_ h _
  simp only [prologue, gateBlock, entryBlock, famStart, entryStart, List.length_append,
    List.length_map, List.length_cons, List.length_nil, List.length_mapIdx]

theorem code_wx {j : Nat} {ins : I} (h : f.wxPart[j]? = some ins) :
    f.code[f.wxStart + j]? = some (place f.errnoI (f.errnoI + 1) ins) := by
  refine f.code_get ?_
  rw [layout_eq, ← List.append_nil (_ ++ f.wxPart)]
  refine block_get ?_ h _
  simp only [prologue, gateBlock, entryBlock, wxStart, famStart, entryStart, List.length_append,
    List.length_map, List.length_cons, List.length_nil, List.length_mapIdx]

/-- What the patches and the resolution make of a jump. -/
theorem place_forward {k : UInt32} {t u : Tgt} (ht : t ≠ .none) (hu : u ≠ .none) :
    place f.errnoI (f.errnoI + 1) (f.forward (jeq k t u)) =
      ⟨Opcode.jeq.code, k, some (f.dest t), some (f.dest u)⟩ := by
  have target (t : Tgt) (ht : t ≠ .none) :
      (place f.errnoI (f.errnoI + 1) (f.forward (jeq k t .errno))).jt = some (f.dest t) := by
    cases t with
    | none => exact absurd rfl ht
    | plain =>
      simp only [forward, patch, jeq, place, dest, plainT]
      cases f.entries.isEmpty <;> cases f.deny <;> rfl
    | _ => rfl
  have same (ins : I) : (place f.errnoI (f.errnoI + 1) (f.forward ins)).jf =
      (place f.errnoI (f.errnoI + 1) (f.forward (jeq k ins.jf .errno))).jt := rfl
  have ht' := target t ht
  have hu' := (same (jeq k t u)).trans (target u hu)
  exact congrArg₂ (fun jt jf ↦ (⟨Opcode.jeq.code, k, jt, jf⟩ : Placed)) ht' hu'

/-- A gate goes to the errno, to the allow return or to one of the blocks. -/
theorem gate_target {g : UInt32 × Tgt} (h : g ∈ f.gates) :
    g.2 = .errno ∨ g.2 = .allow ∨ g.2 = .famarg ∨ g.2 = .wxArg := by
  rcases List.mem_append.mp h with h | h
  · obtain ⟨s, -, rfl⟩ := List.mem_map.mp h
    dsimp only
    split
    · exact .inl rfl
    · exact .inr (.inr (.inr rfl))
  · cases haf : f.af with
    | none =>
      rw [haf] at h
      cases h
    | some af =>
      rw [haf] at h
      obtain ⟨s, -, rfl⟩ := List.mem_map.mp h
      dsimp only
      split
      · exact .inl rfl
      · split
        · cases af.famDefaultErrno
          · exact .inr (.inl rfl)
          · exact .inl rfl
        · exact .inr (.inr (.inl rfl))

theorem gateChain :
    Chain f.code 3 (f.dest .plain) (f.gates.map fun g ↦ (g.1, f.dest g.2)) := by
  refine ⟨fun j key hj ↦ ?_⟩
  rw [List.getElem?_map] at hj
  obtain ⟨g, hg, rfl⟩ := Option.map_eq_some_iff.mp hj
  rw [f.code_gate hg, f.place_forward, List.length_map]
  · split <;> rfl
  · rcases f.gate_target (List.mem_of_getElem? hg) with h | h | h | h <;> simp [h]
  · split <;> simp

theorem entryChain : Chain f.code f.entryStart (f.dest (pickT !f.deny))
    (f.entries.map fun nr ↦ (nr, f.dest (pickT f.deny))) := by
  refine ⟨fun j key hj ↦ ?_⟩
  rw [List.getElem?_map] at hj
  obtain ⟨nr, hnr, rfl⟩ := Option.map_eq_some_iff.mp hj
  rw [f.code_entry hnr, List.length_map]
  cases f.deny <;> split <;> rfl

variable {f} {d : SeccompData}

theorem eval_errno (a : UInt32) : eval d.load (assemble f.code) f.errnoI a =
    some (errnoRet f.errno) := placed_ret f.code_errno

theorem eval_allow (a : UInt32) : eval d.load (assemble f.code) (f.errnoI + 1) a =
    some SECCOMP_RET_ALLOW := placed_ret f.code_allow

theorem verdict_eq : f.verdict d =
    if d.arch = AUDIT_ARCH_X86_64 then eval d.load (assemble f.code) 3 d.nr
    else eval d.load (assemble f.code) (land 1 f.errnoI) d.arch := by
  have h0 : f.code[0]? = some ⟨Opcode.ld.code, 4, none, none⟩ :=
    f.code_prologue (show prologue[0]? = some (ld 4) from rfl)
  have h1 : f.code[1]? = some ⟨Opcode.jeq.code, AUDIT_ARCH_X86_64, some 2, some f.errnoI⟩ :=
    f.code_prologue (show prologue[1]? = some (jeq AUDIT_ARCH_X86_64 (.i 2) .errno) from rfl)
  have h2 : f.code[2]? = some ⟨Opcode.ld.code, 0, none, none⟩ :=
    f.code_prologue (show prologue[2]? = some (ld 0) from rfl)
  have harch : d.load 4 = some d.arch := rfl
  have hnr : d.load 0 = some d.nr := rfl
  rw [verdict, build_eq, run, placed_ld h0, harch, Option.bind_some, placed_jeq h1]
  split
  · rw [land_eq (by omega) (by omega), placed_ld h2, hnr, Option.bind_some]
  · rfl

/-- The arch check, the longest jump, reaches the return with the errno. -/
def Fits (f : Filter) : Prop := f.errnoI ≤ 257

theorem entryStart_le : f.entryStart + f.entries.length ≤ f.errnoI := by
  simp only [errnoI, wxStart, famStart]
  omega

theorem famStart_le : f.famStart + f.famPart.length ≤ f.errnoI := by
  simp only [errnoI, wxStart]
  omega

/-- Where a number goes that the gates let by. -/
def plainDest (f : Filter) (nr : UInt32) : Nat :=
  if nr ∈ f.entries then f.dest (pickT f.deny) else f.dest (pickT !f.deny)

theorem dest_pickT (b : Bool) : f.dest (pickT b) = if b then f.errnoI else f.errnoI + 1 := by
  cases b <;> rfl

theorem plain_run (hf : f.Fits) (a : UInt32) : eval d.load (assemble f.code) (f.dest .plain) a =
    eval d.load (assemble f.code) (f.plainDest a) a := by
  have hle := f.entryStart_le
  have hfits : f.errnoI ≤ 257 := hf
  have hstart : f.entryStart = 3 + f.gates.length := rfl
  cases he : f.entries.isEmpty with
  | true =>
    rw [List.isEmpty_iff] at he
    simp only [dest, plainDest, he, List.isEmpty_nil, if_true, List.not_mem_nil, if_false]
    cases f.deny <;> rfl
  | false =>
    have hne : f.entries ≠ [] := fun h ↦ by simp [h] at he
    have hdest : f.dest .plain = f.entryStart := by
      simp only [dest, he]
      rfl
    rw [hdest, f.entryChain.run_same hne, plainDest]
    · rw [dest_pickT]
      split <;> omega
    · rw [dest_pickT]
      split <;> omega

/-- The action of one of the two returns. -/
def action (f : Filter) (errnoSide : Bool) : UInt32 :=
  if errnoSide then errnoRet f.errno else SECCOMP_RET_ALLOW

theorem eval_pickT (b : Bool) (a : UInt32) :
    eval d.load (assemble f.code) (f.dest (pickT b)) a = some (f.action b) := by
  rw [dest_pickT]
  cases b
  · exact eval_allow a
  · exact eval_errno a

theorem eval_plainDest (a : UInt32) : eval d.load (assemble f.code) (f.plainDest a) a =
    some (f.action (if a ∈ f.entries then f.deny else !f.deny)) := by
  unfold plainDest
  split <;> exact eval_pickT _ a

theorem dest_le {g : UInt32 × Tgt} (h : g ∈ f.gates) :
    f.entryStart ≤ f.dest g.2 ∧ f.dest g.2 ≤ f.errnoI + 1 := by
  have hle := f.entryStart_le
  have hfam := f.famStart_le
  have hfs : f.famStart = f.entryStart + f.entries.length := rfl
  have hws : f.wxStart = f.famStart + f.famPart.length := rfl
  rcases f.gate_target h with h | h | h | h <;> rw [h] <;> simp only [dest] <;> omega

theorem gates_run (hf : f.Fits) (hne : f.gates ≠ [] ∨ f.entries ≠ []) (a : UInt32) :
    eval d.load (assemble f.code) 3 a = match f.gates.find? fun g ↦ g.1 = a with
      | some g => eval d.load (assemble f.code) (f.dest g.2) a
      | none => some (f.action (if a ∈ f.entries then f.deny else !f.deny)) := by
  have hfits : f.errnoI ≤ 257 := hf
  rw [← eval_plainDest, ← plain_run hf]
  by_cases hg : f.gates = []
  · have he : f.entries.isEmpty = false := by simpa [hg] using hne
    have hdest : f.dest .plain = 3 := by
      simp only [dest, he, entryStart, hg]
      rfl
    rw [hg, hdest]
    rfl
  · have hstart : f.entryStart = 3 + f.gates.length := rfl
    have hle := f.entryStart_le
    rw [f.gateChain.run (by simpa using hg), List.find?_map]
    · cases hfind : f.gates.find? fun g ↦ g.1 = a with
      | none =>
        simp only [Function.comp_def, hfind]
        rfl
      | some g =>
        simp only [Function.comp_def, hfind]
        rfl
    · rw [List.length_map]
      simp only [dest]
      split
      · split <;> omega
      · omega
    · rintro key hkey
      obtain ⟨g, hg, rfl⟩ := List.mem_map.mp hkey
      have := dest_le hg
      rw [List.length_map]
      dsimp only
      omega

/-- The family block only looks at the first family. -/
theorem fam_run (hf : f.Fits) {af : AfGate} {fam : UInt32} {fams : List UInt32}
    (haf : f.af = some af) (hfams : af.families = fam :: fams)
    (hneed : f.gates.any fun g ↦ g.2 = .famarg) (a : UInt32) :
    eval d.load (assemble f.code) f.famStart a =
      some (f.action (if (d.args 0).toUInt32 = fam then af.deny else af.famDefaultErrno)) := by
  have hfits : f.errnoI ≤ 257 := hf
  have hpart : f.famPart = ld 16 :: jeq fam (pickT af.deny) (pickT af.famDefaultErrno) ::
      fams.map fun fam ↦ jeq fam (pickT af.deny) (pickT af.famDefaultErrno) := by
    simp only [famPart, haf, if_pos hneed, famBlock, hfams, List.map_cons]
  have hle := f.famStart_le
  rw [hpart] at hle
  simp only [List.length_cons] at hle
  have h3 : 3 ≤ f.famStart := by
    simp only [famStart, entryStart]
    omega
  have h0 : f.code[f.famStart]? = some ⟨Opcode.ld.code, 16, none, none⟩ :=
    f.code_fam (show f.famPart[0]? = some (ld 16) by rw [hpart]; rfl)
  have h1 : f.code[f.famStart + 1]? = some ⟨Opcode.jeq.code, fam, some (f.dest (pickT af.deny)),
      some (f.dest (pickT af.famDefaultErrno))⟩ := by
    rw [f.code_fam (j := 1) (by rw [hpart]; rfl)]
    cases af.deny <;> cases af.famDefaultErrno <;> rfl
  have harg : d.load 16 = some (d.args 0).toUInt32 := rfl
  have hreach (b : Bool) : land (f.famStart + 1) (f.dest (pickT b)) = f.dest (pickT b) := by
    rw [dest_pickT]
    split <;> exact land_eq (by omega) (by omega)
  rw [placed_ld h0, harg, Option.bind_some, placed_jeq h1, hreach, hreach]
  split <;> exact eval_pickT _ _

/-- The `prot` block refuses writable and executable mappings. -/
theorem wx_run (hf : f.Fits) (hneed : f.gates.any fun g ↦ g.2 = .wxArg) (a : UInt32) :
    eval d.load (assemble f.code) f.wxStart a = some (f.action
      (decide ((d.args 2).toUInt32 &&& 6 &&& 2 ≠ 0 ∧ (d.args 2).toUInt32 &&& 6 &&& 4 ≠ 0))) := by
  have hfits : f.errnoI ≤ 257 := hf
  have hpart : f.wxPart = wxBlock f.wxStart := if_pos hneed
  have hlen : f.errnoI = f.wxStart + 4 := by
    rw [errnoI, hpart]
    rfl
  have h0 : f.code[f.wxStart]? = some ⟨Opcode.ld.code, 32, none, none⟩ :=
    f.code_wx (show f.wxPart[0]? = some (ld 32) by rw [hpart]; rfl)
  have h1 : f.code[f.wxStart + 1]? = some ⟨Opcode.and.code, 6, none, none⟩ :=
    f.code_wx (show f.wxPart[1]? = some ⟨_, 6, .none, .none⟩ by rw [hpart]; rfl)
  have h2 : f.code[f.wxStart + 2]? =
      some ⟨Opcode.jset.code, 2, some (f.wxStart + 3), some (f.errnoI + 1)⟩ :=
    f.code_wx (show f.wxPart[2]? = some ⟨_, 2, .i _, .allow⟩ by rw [hpart]; rfl)
  have h3 : f.code[f.wxStart + 3]? =
      some ⟨Opcode.jset.code, 4, some f.errnoI, some (f.errnoI + 1)⟩ :=
    f.code_wx (show f.wxPart[3]? = some ⟨_, 4, .errno, .allow⟩ by rw [hpart]; rfl)
  have harg : d.load 32 = some (d.args 2).toUInt32 := rfl
  rw [placed_ld h0, harg, Option.bind_some, placed_and h1, placed_jset h2,
    land_eq (by omega) (by omega), land_eq (by omega) (by omega)]
  split
  · next hw =>
    rw [placed_jset h3, land_eq (by omega) (by omega), land_eq (by omega) (by omega)]
    split
    · next hx => rw [eval_errno, decide_eq_true ⟨hw, hx⟩]; rfl
    · next hx => rw [eval_allow, decide_eq_false fun h ↦ hx h.2]; rfl
  · next hw => rw [eval_allow, decide_eq_false fun h ↦ hw h.1]; rfl

end Filter

section Entries

variable {l nrs extraDeny : List UInt32} {a : UInt32} {deny wx : Bool} {af : Option AfGate}

theorem sortDedup_eq (l : List UInt32) : sortDedup l = (l.insertionSort (· ≤ ·)).dedup :=
  (List.pairwise_insertionSort (· ≤ ·) l).destutter_eq_dedup

@[simp] theorem mem_sortDedup : a ∈ sortDedup l ↔ a ∈ l := by
  rw [sortDedup_eq, List.mem_dedup, List.mem_insertionSort]

theorem nodup_sortDedup (l : List UInt32) : (sortDedup l).Nodup := by
  rw [sortDedup_eq]
  exact List.nodup_dedup _

theorem mem_pushAbsent {nr : UInt32} : a ∈ pushAbsent l nr ↔ a ∈ l ∨ a = nr := by
  unfold pushAbsent
  split
  · next h =>
    constructor
    · exact .inl
    · rintro (h' | rfl)
      · exact h'
      · exact h
  · rw [List.mem_append, List.mem_singleton]

theorem mem_foldl_pushAbsent {l' : List UInt32} :
    a ∈ l'.foldl pushAbsent l ↔ a ∈ l ∨ a ∈ l' := by
  induction l' generalizing l with
  | nil => simp
  | cons nr l' ih => rw [List.foldl_cons, ih, mem_pushAbsent, List.mem_cons, or_assoc]

/-- The compared numbers are the listed ones that no gate takes, and the base or the extras. -/
theorem mem_entries : a ∈ entries nrs deny extraDeny af wx ↔
    (a ∈ nrs ∧ (af.isSome → a ∉ socketNrs) ∧ a ∉ wxNrs wx) ∨
      a ∈ if deny then extraDeny else allowBase := by
  rw [entries, mem_sortDedup, mem_foldl_pushAbsent]
  cases af with
  | none => simp
  | some => simp [and_comm (a := ¬ a ∈ wxNrs wx)]

theorem nodup_entries : (entries nrs deny extraDeny af wx).Nodup := nodup_sortDedup _

theorem find?_gate {t : UInt32 → Tgt} :
    (l.map fun s ↦ (s, t s)).find? (fun g ↦ g.1 = a) = if a ∈ l then some (a, t a) else none := by
  induction l with
  | nil => rfl
  | cons s l ih =>
    by_cases hs : s = a
    · simp [hs]
    · rw [List.map_cons, List.find?_cons_of_neg (by simpa using hs), ih]
      simp [List.mem_cons, Ne.symm hs]

end Entries

/-- Whether the family block refuses a family. -/
def AfGate.refuses (af : AfGate) (family : UInt32) : Bool :=
  if af.constErrno then af.famDefaultErrno
  else if af.families.head? = some family then af.deny else af.famDefaultErrno

/-- The family that a call names. -/
def SeccompData.family (d : SeccompData) : UInt32 := (d.args 0).toUInt32

/-- The mapping of a call is writable and executable. -/
def SeccompData.writeExec (d : SeccompData) : Bool :=
  (d.args 2).toUInt32 &&& 6 &&& 2 ≠ 0 ∧ (d.args 2).toUInt32 &&& 6 &&& 4 ≠ 0

namespace Filter

variable {f : Filter} {d : SeccompData}

/-- What the list alone decides. -/
def plainRefuses (f : Filter) (nr : UInt32) : Bool := if nr ∈ f.entries then f.deny else !f.deny

/-- What a program without overlong jumps refuses. -/
def refuses (f : Filter) (d : SeccompData) : Bool :=
  if d.nr ∈ wxNrs f.wx then listDenies f.nrs f.deny d.nr || d.writeExec
  else
    match f.af with
    | some af =>
      if d.nr ∈ socketNrs then listDenies f.nrs f.deny d.nr || af.refuses d.family
      else f.plainRefuses d.nr
    | none => f.plainRefuses d.nr

theorem wx_gate_run (hf : f.Fits) (h : d.nr ∈ wxNrs f.wx) :
    eval d.load (assemble f.code)
      (f.dest (if listDenies f.nrs f.deny d.nr then .errno else .wxArg)) d.nr =
      some (f.action (listDenies f.nrs f.deny d.nr || d.writeExec)) := by
  cases hl : listDenies f.nrs f.deny d.nr with
  | true => exact eval_errno _
  | false =>
    have hneed : f.gates.any fun g ↦ g.2 = .wxArg := by
      refine List.any_eq_true.mpr ⟨(d.nr, .wxArg), List.mem_append_left _ ?_, by simp⟩
      exact List.mem_map.mpr ⟨d.nr, h, by rw [hl]; rfl⟩
    exact wx_run hf hneed d.nr

theorem af_gate_run (hf : f.Fits) {af : AfGate} (haf : f.af = some af) (h : d.nr ∈ socketNrs) :
    eval d.load (assemble f.code) (f.dest (if listDenies f.nrs f.deny d.nr then .errno
      else if af.constErrno then pickT af.famDefaultErrno else .famarg)) d.nr =
      some (f.action (listDenies f.nrs f.deny d.nr || af.refuses d.family)) := by
  cases hl : listDenies f.nrs f.deny d.nr with
  | true => exact eval_errno _
  | false =>
    cases hc : af.constErrno with
    | true =>
      simp only [AfGate.refuses, hc, if_true, Bool.false_or]
      exact eval_pickT _ _
    | false =>
      have hneed : f.gates.any fun g ↦ g.2 = .famarg := by
        refine List.any_eq_true.mpr ⟨(d.nr, .famarg), List.mem_append_right _ ?_, by simp⟩
        rw [haf]
        exact List.mem_map.mpr ⟨d.nr, h, by rw [hl, hc]; rfl⟩
      cases hfams : af.families with
      | nil => simp [AfGate.constErrno, hfams] at hc
      | cons fam fams =>
        have hrun := fam_run (d := d) hf haf hfams hneed d.nr
        simp only [AfGate.refuses, hc, hfams, List.head?_cons, Option.some.injEq, Bool.false_or,
          eq_comm (a := fam)]
        exact hrun

/-- What a program without overlong jumps does. -/
theorem verdict_of_fits (hf : f.Fits) (hne : f.gates ≠ [] ∨ f.entries ≠ []) :
    f.verdict d = some (f.action (d.arch ≠ AUDIT_ARCH_X86_64 || f.refuses d)) := by
  rw [verdict_eq]
  by_cases harch : d.arch = AUDIT_ARCH_X86_64
  · rw [if_pos harch, gates_run hf hne, gates, Seccomp.gates, List.find?_append, wxGates,
      find?_gate]
    simp only [harch, ne_eq, not_true_eq_false, decide_false, Bool.false_or, refuses]
    by_cases hw : d.nr ∈ wxNrs f.wx
    · rw [if_pos hw, if_pos hw, Option.some_or]
      exact wx_gate_run hf hw
    · rw [if_neg hw, if_neg hw, Option.none_or]
      cases haf : f.af with
      | none => rfl
      | some af =>
        simp only [afGates, find?_gate]
        by_cases hs : d.nr ∈ socketNrs
        · rw [if_pos hs, if_pos hs]
          exact af_gate_run hf haf hs
        · rw [if_neg hs, if_neg hs]
          rfl
  · have hfits : f.errnoI ≤ 257 := hf
    have h3 : 3 ≤ f.errnoI := by
      simp only [errnoI, wxStart, famStart, entryStart]
      omega
    rw [if_neg harch, land_eq (by omega) (by omega), eval_errno]
    simp [harch, action]

end Filter

end Seccomp

end Rystemd

import Mathlib.Data.Finset.Card
import Rystemd.SeccompRun

namespace Rystemd

namespace Seccomp

open Bpf

/-- The system calls that a list and the base or the extras name. -/
def named (nrs : List UInt32) (deny : Bool) (extraDeny : List UInt32) : Finset UInt32 :=
  (nrs ++ if deny then extraDeny else allowBase).toFinset

/-- The action that a list stands for. -/
def policy (nrs : List UInt32) (deny : Bool) (errno : UInt32) (extraDeny : List UInt32)
    (d : SeccompData) : UInt32 :=
  if d.arch ≠ AUDIT_ARCH_X86_64 then errnoRet errno
  else if deny then
    if d.nr ∈ nrs ∨ d.nr ∈ extraDeny then errnoRet errno else SECCOMP_RET_ALLOW
  else
    if d.nr ∈ nrs ∨ d.nr ∈ allowBase then SECCOMP_RET_ALLOW else errnoRet errno

theorem errnoRet_ne_allow (errno : UInt32) : errnoRet errno ≠ SECCOMP_RET_ALLOW := by
  have hlt : (errnoRet errno).toNat < 2 ^ 19 := by
    rw [errnoRet, UInt32.toNat_or]
    refine Nat.or_lt_two_pow (by decide) ?_
    rw [UInt32.toNat_and]
    exact Nat.and_lt_two_pow _ (by decide)
  intro h
  rw [h] at hlt
  exact absurd hlt (by decide)

theorem Filter.action_not_ne (f : Filter) (b : Bool) : f.action (!b) ≠ f.action b := by
  cases b
  · exact errnoRet_ne_allow f.errno
  · exact (errnoRet_ne_allow f.errno).symm

/-- A short list leaves out a number. -/
theorem exists_unlisted {l : List UInt32} (h : l.length < 4294967296) : ∃ x, x ∉ l := by
  have hinj : Set.InjOn UInt32.ofNat (Finset.range (l.length + 1) : Finset Nat) := by
    intro i hi j hj hij
    simp only [Finset.coe_range, Set.mem_Iio] at hi hj
    have := congrArg UInt32.toNat hij
    simp only [UInt32.toNat_ofNat'] at this
    omega
  have hcard : l.toFinset.card < ((Finset.range (l.length + 1)).image UInt32.ofNat).card := by
    rw [Finset.card_image_of_injOn hinj, Finset.card_range]
    exact Nat.lt_succ_of_le (List.toFinset_card_le l)
  obtain ⟨x, -, hx⟩ := Finset.exists_mem_notMem_of_card_lt_card hcard
  exact ⟨x, fun hmem ↦ hx (List.mem_toFinset.mpr hmem)⟩

section List

variable {nrs extraDeny : List UInt32} {deny : Bool} {errno : UInt32} {d : SeccompData}

/-- A filter without gates. -/
def listFilter (nrs : List UInt32) (deny : Bool) (errno : UInt32) (extraDeny : List UInt32) :
    Filter := { nrs, deny, errno, extraDeny }

theorem mem_listFilter {nr : UInt32} : nr ∈ (listFilter nrs deny errno extraDeny).entries ↔
    nr ∈ nrs ∨ nr ∈ if deny then extraDeny else allowBase := by
  rw [Filter.entries, mem_entries]
  exact or_congr_left (by simp [listFilter, wxNrs])

theorem listFilter_length :
    (listFilter nrs deny errno extraDeny).entries.length = (named nrs deny extraDeny).card := by
  have hnodup : (listFilter nrs deny errno extraDeny).entries.Nodup := nodup_entries
  rw [← List.toFinset_card_of_nodup hnodup]
  congr 1
  ext nr
  rw [List.mem_toFinset, named, List.mem_toFinset, List.mem_append]
  exact mem_listFilter

theorem listFilter_errnoI :
    (listFilter nrs deny errno extraDeny).errnoI = 3 + (named nrs deny extraDeny).card := by
  have hlen : (listFilter nrs deny errno extraDeny).entries.length =
    (named nrs deny extraDeny).card := listFilter_length
  rw [← hlen]
  rfl

theorem exit_mem_allowBase : 60 ∈ allowBase :=
  allowBase_eq ▸ List.mem_cons_self

theorem listFilter_ne_nil (hne : nrs ≠ [] ∨ extraDeny ≠ []) :
    (listFilter nrs deny errno extraDeny).entries ≠ [] := by
  have hmem : ∃ nr, nr ∈ nrs ∨ nr ∈ if deny then extraDeny else allowBase := by
    cases deny with
    | false => exact ⟨60, .inr exit_mem_allowBase⟩
    | true =>
      rcases hne with hne | hne
      · obtain ⟨nr, h⟩ := List.exists_mem_of_ne_nil _ hne
        exact ⟨nr, .inl h⟩
      · obtain ⟨nr, h⟩ := List.exists_mem_of_ne_nil _ hne
        exact ⟨nr, .inr h⟩
  obtain ⟨nr, hnr⟩ := hmem
  exact List.ne_nil_of_mem (mem_listFilter.mpr hnr)

theorem listFilter_refuses : (listFilter nrs deny errno extraDeny).refuses d =
    if d.nr ∈ (listFilter nrs deny errno extraDeny).entries then deny else !deny := by
  rw [Filter.refuses, if_neg (by simp [listFilter, wxNrs])]
  rfl

theorem policy_eq : policy nrs deny errno extraDeny d =
    (listFilter nrs deny errno extraDeny).action (d.arch ≠ AUDIT_ARCH_X86_64 ||
      (listFilter nrs deny errno extraDeny).refuses d) := by
  by_cases harch : d.arch = AUDIT_ARCH_X86_64
  · rw [listFilter_refuses, if_congr mem_listFilter rfl rfl]
    simp only [policy, harch, ne_eq, not_true_eq_false, if_false, decide_false, Bool.false_or]
    cases deny with
    | false => simp only [Bool.false_eq_true, if_false]; split <;> rfl
    | true => simp only [if_true]; split <;> rfl
  · simp [policy, harch, Filter.action, listFilter]

/-- A list with few numbers is compiled faithfully. -/
theorem listFilter_faithful (hne : nrs ≠ [] ∨ extraDeny ≠ [])
    (hcard : (named nrs deny extraDeny).card ≤ 254) :
    (listFilter nrs deny errno extraDeny).verdict d =
      some (policy nrs deny errno extraDeny d) := by
  have hfits : (listFilter nrs deny errno extraDeny).Fits := by
    rw [Filter.Fits, listFilter_errnoI]
    omega
  rw [Filter.verdict_of_fits hfits (.inr (listFilter_ne_nil hne)), policy_eq]

theorem getElem_split {l : List UInt32} (h : l.Nodup) {j : Nat} (hj : j < l.length) :
    l[j] ∉ l.take j ∧ l[j] ∉ l.drop (j + 1) := by
  have hsplit : (l.take j ++ l[j] :: l.drop (j + 1)).Nodup := by
    rwa [← List.drop_eq_getElem_cons hj, List.take_append_drop]
  rw [List.nodup_middle, List.nodup_cons, List.mem_append, not_or] at hsplit
  exact hsplit.1

section Long

variable {f : Filter}

theorem listChain (hg : f.gates = []) : Chain f.code 3 (f.dest (pickT !f.deny))
    (f.entries.map fun nr ↦ (nr, f.dest (pickT f.deny))) := by
  have hchain := f.entryChain
  rwa [Filter.entryStart, hg] at hchain

theorem keys_eq : (f.entries.map fun nr ↦ (nr, f.dest (pickT f.deny))).map Prod.fst =
    f.entries := by
  rw [List.map_map]
  exact List.map_id _

/-- A match that is more than 256 instructions from its return is taken for none: its jump is cut
to a later comparison. -/
theorem far_match (hg : f.gates = []) (hE : f.errnoI = 3 + f.entries.length) {j : Nat}
    (hj : j < f.entries.length) (hfar : 3 + j + 256 < f.dest (pickT f.deny)) :
    eval d.load (assemble f.code) 3 f.entries[j] = some (f.action !f.deny) := by
  have hdest : f.dest (pickT f.deny) ≤ 4 + f.entries.length := by
    rw [Filter.dest_pickT]
    split <;> omega
  obtain ⟨k, hjk, hk, hland⟩ : ∃ k, j + 1 ≤ k ∧ k < f.entries.length ∧
      land (3 + j) (f.dest (pickT f.deny)) = 3 + k := by
    refine ⟨j + 1 + (f.dest (pickT f.deny) - (3 + j) - 1) % 256, by omega, by omega, ?_⟩
    simp only [land]
    omega
  have hchain := listChain hg
  have hget := hchain.get j (f.entries[j], f.dest (pickT f.deny)) (by simp [hj])
  obtain ⟨hbefore, hafter⟩ := getElem_split nodup_entries hj
  rw [hchain.skip (by simpa using hj) (by rwa [keys_eq]), placed_jeq hget, if_pos rfl, hland,
    (hchain.drop k).miss]
  · exact Filter.eval_pickT _ _
  · simp only [ne_eq, List.drop_eq_nil_iff, List.length_map]
    omega
  · rw [List.map_drop, keys_eq]
    intro hmem
    exact hafter (List.drop_subset_drop_left _ hjk hmem)
  · rw [List.length_drop, List.length_map, Filter.dest_pickT]
    split <;> omega

/-- A match that is nearer goes to its return. -/
theorem near_match (hg : f.gates = []) (hE : f.errnoI = 3 + f.entries.length) {j : Nat}
    (hj : j < f.entries.length) (hnear : f.dest (pickT f.deny) ≤ 3 + j + 256) :
    eval d.load (assemble f.code) 3 f.entries[j] = some (f.action f.deny) := by
  have hchain := listChain hg
  have hget := hchain.get j (f.entries[j], f.dest (pickT f.deny)) (by simp [hj])
  obtain ⟨hbefore, -⟩ := getElem_split nodup_entries hj
  have hlt : 3 + j < f.dest (pickT f.deny) := by
    rw [Filter.dest_pickT]
    split <;> omega
  rw [hchain.skip (by simpa using hj) (by rwa [keys_eq]), placed_jeq hget, if_pos rfl,
    land_eq hlt hnear]
  exact Filter.eval_pickT _ _

theorem list_miss (hg : f.gates = []) (hE : f.errnoI = 3 + f.entries.length)
    (hne : f.entries ≠ []) {a : UInt32} (ha : a ∉ f.entries) :
    eval d.load (assemble f.code) 3 a = some (f.action !f.deny) := by
  rw [(listChain hg).miss (by simpa using hne) (by rwa [keys_eq])]
  · exact Filter.eval_pickT _ _
  · rw [List.length_map, Filter.dest_pickT]
    split <;> omega

/-- The jump of the arch check is cut to the comparison of the number, or of the architecture. -/
theorem wrapped_arch (hE : f.errnoI = 3 + f.entries.length) (harch : d.arch ≠ AUDIT_ARCH_X86_64) :
    (f.entries.length = 255 → f.verdict d = eval d.load (assemble f.code) 3 d.nr) ∧
      (f.entries.length = 256 → f.verdict d = eval d.load (assemble f.code) 3 d.arch) := by
  rw [Filter.verdict_eq, if_neg harch, hE]
  constructor
  · intro h
    have h2 : f.code[2]? = some ⟨Opcode.ld.code, 0, none, none⟩ :=
      f.code_prologue (show prologue[2]? = some (ld 0) from rfl)
    have hnr : d.load 0 = some d.nr := rfl
    rw [h, show land 1 (3 + 255) = 2 from rfl, placed_ld h2, hnr, Option.bind_some]
  · intro h
    rw [h]
    rfl

/-- A list with too many numbers is refuted by a listed number, or by a foreign call. -/
theorem long_wrong (hg : f.gates = []) (hE : f.errnoI = 3 + f.entries.length)
    (hlong : 254 < f.entries.length) :
    (∃ d : SeccompData, d.arch = AUDIT_ARCH_X86_64 ∧ d.nr ∈ f.entries ∧
      f.verdict d = some (f.action !f.deny)) ∨
    ∃ d : SeccompData, d.arch ≠ AUDIT_ARCH_X86_64 ∧ f.verdict d = some SECCOMP_RET_ALLOW := by
  have hne : f.entries ≠ [] := List.ne_nil_of_length_pos (by omega)
  have far {j : Nat} (hj : j < f.entries.length) (hfar : 3 + j + 256 < f.dest (pickT f.deny)) :
      ∃ d : SeccompData, d.arch = AUDIT_ARCH_X86_64 ∧ d.nr ∈ f.entries ∧
        f.verdict d = some (f.action !f.deny) := by
    refine ⟨{ nr := f.entries[j], arch := AUDIT_ARCH_X86_64 }, rfl, List.getElem_mem hj, ?_⟩
    rw [Filter.verdict_eq, if_pos rfl]
    exact far_match hg hE hj hfar
  have h0 : (0 : UInt32) ≠ AUDIT_ARCH_X86_64 := by decide
  cases hd : f.deny with
  | false =>
    by_cases h256 : f.entries.length = 255
    · -- an allowed number, reported by a foreign architecture
      have hpos : 0 < f.entries.length := by omega
      refine .inr ⟨{ nr := f.entries[0], arch := 0 }, h0, ?_⟩
      rw [(wrapped_arch hE h0).1 h256, (listChain hg).run_same hne]
      · rw [if_pos (List.getElem_mem hpos), Filter.eval_pickT, hd]
        rfl
      · rw [Filter.dest_pickT, hd]
        simp only [Bool.not_false, if_true]
        omega
      · rw [Filter.dest_pickT, hd]
        simp only [Bool.false_eq_true, if_false]
        omega
    · rw [← hd]
      refine .inl (far (j := f.entries.length - 256) (by omega) ?_)
      rw [Filter.dest_pickT, hd]
      simp only [Bool.false_eq_true, if_false]
      omega
  | true =>
    have miss {a : UInt32} (ha : a ∉ f.entries) {d : SeccompData} :
        eval d.load (assemble f.code) 3 a = some SECCOMP_RET_ALLOW := by
      rw [list_miss hg hE hne ha, hd]
      rfl
    rcases Nat.lt_or_ge 256 f.entries.length with h | h
    · rw [← hd]
      refine .inl (far (j := f.entries.length - 257) (by omega) ?_)
      rw [Filter.dest_pickT, hd]
      simp only [if_true]
      omega
    · -- a number or an architecture that is not compared
      obtain ⟨x, hx⟩ := exists_unlisted (l := AUDIT_ARCH_X86_64 :: f.entries) (by simp; omega)
      rw [List.mem_cons, not_or] at hx
      by_cases h255 : f.entries.length = 255
      · refine .inr ⟨{ nr := x, arch := 0 }, h0, ?_⟩
        rw [(wrapped_arch hE h0).1 h255]
        exact miss hx.2
      · refine .inr ⟨{ nr := 0, arch := x }, hx.1, ?_⟩
        rw [(wrapped_arch hE hx.1).2 (by omega)]
        exact miss hx.2

end Long

theorem listFilter_unfaithful (hcard : 254 < (named nrs deny extraDeny).card) :
    ∃ d, (listFilter nrs deny errno extraDeny).verdict d ≠
      some (policy nrs deny errno extraDeny d) := by
  have hlen : (listFilter nrs deny errno extraDeny).entries.length =
    (named nrs deny extraDeny).card := listFilter_length
  have hne : errnoRet errno ≠ SECCOMP_RET_ALLOW := errnoRet_ne_allow errno
  have hE : (listFilter nrs deny errno extraDeny).errnoI =
      3 + (listFilter nrs deny errno extraDeny).entries.length := by
    rw [hlen, listFilter_errnoI]
  rcases long_wrong rfl hE (by omega) with ⟨d, harch, hmem, hv⟩ | ⟨d, harch, hv⟩
  · refine ⟨d, ?_⟩
    rw [hv, policy_eq, listFilter_refuses, if_pos hmem, harch]
    simp only [ne_eq, not_true_eq_false, decide_false, Bool.false_or, Option.some.injEq]
    exact (listFilter nrs deny errno extraDeny).action_not_ne deny
  · refine ⟨d, ?_⟩
    rw [hv, policy, if_pos harch]
    exact fun h ↦ hne (Option.some.inj h).symm

/-- The compiled list is faithful exactly when it compares at most 254 system calls. -/
theorem build_meets_policy (hne : nrs ≠ [] ∨ extraDeny ≠ []) :
    (∀ d : SeccompData, run d.load (build nrs deny errno extraDeny none false) =
      some (policy nrs deny errno extraDeny d)) ↔ (named nrs deny extraDeny).card ≤ 254 := by
  constructor
  · intro h
    by_contra hcard
    obtain ⟨d, hd⟩ := listFilter_unfaithful (Nat.lt_of_not_le hcard)
    exact hd (h d)
  · exact fun hcard d ↦ listFilter_faithful hne hcard

theorem build_meets_policy_read : (named [0] true []).card ≤ 254 ∧ ∀ d : SeccompData,
    run d.load (build [0] true 0 [] none false) = some (policy [0] true 0 [] d) := by
  have hcard : (named [0] true []).card ≤ 254 := by decide
  exact ⟨hcard, (build_meets_policy (.inl (by decide))).mpr hcard⟩

end List

section LongList

/-- The bytes of a name as a number, if none of them is an `@` or a capital. -/
def plainCode (s : String) : Option Nat :=
  s.toByteArray.data.toList.foldlM
    (fun code b ↦ if 64 ≤ b ∧ b ≤ 90 then none else some (256 * code + b.toNat)) 0

/-- The codes of the names ascend. -/
def ascends (n : Nat) : List String → Bool
  | [] => true
  | s :: rest =>
    match plainCode s with
    | some code => n < code && ascends code rest
    | none => false

/-- 255 system calls. -/
def manyNames : List String := [
  12, 32, 162, 49, 33, 60, 57, 171, 62, 86, 9, 2, 22, 7, 0, 4, 161, 192, 37, 80, 90, 92, 56, 3, 85,
  72, 73, 5, 74, 193, 16, 8, 6, 227, 83, 133, 148, 164, 26, 34, 156, 19, 84, 65, 30, 67, 138, 100,
  191, 95, 63, 135, 132, 58, 61, 1, 43, 21, 125, 126, 160, 59, 81, 91, 93, 79, 104, 39, 124, 177,
  102, 172, 240, 94, 255, 50, 25, 71, 68, 70, 69, 11, 247, 101, 168, 82, 23, 66, 64, 44, 106, 112,
  105, 31, 29, 41, 136, 166, 155, 103, 225, 87, 226, 237, 20, 238, 42, 137, 108, 107, 121, 111,
  110, 28, 27, 248, 249, 230, 149, 17, 47, 46, 109, 167, 88, 99, 165, 152, 158, 250, 78, 182, 197,
  150, 10, 18, 176, 89, 45, 254, 40, 123, 122, 114, 113, 179, 48, 76, 253, 224, 212, 75, 184, 181,
  77, 251, 115, 36, 120, 118, 97, 98, 201, 200, 183, 185, 180, 234, 231, 35, 178, 116, 38, 119,
  117, 159, 157, 223, 222, 187, 208, 55, 198, 242, 241, 236, 186, 153, 151, 252, 154, 211, 54, 53,
  52, 139, 51, 174, 134, 188, 239, 24, 169, 140, 131, 220, 204, 190, 96, 243, 199, 189, 232, 13,
  15, 163, 213, 217, 219, 218, 173, 175, 206, 229, 246, 235, 127, 130, 228, 170, 215, 214, 205,
  203, 14, 142, 141, 221, 202, 233, 210, 129, 128, 196, 209, 245, 216, 244, 195, 194, 144, 143,
  147, 145, 146].filterMap fun i : Nat ↦ SYSCALLS[i]?.map Prod.fst

theorem manyNames_ascends : ascends 0 manyNames ∧ manyNames.length = 255 := by decide +kernel

theorem numbers_ascend : (SYSCALLS.map fun s ↦ s.2.toNat).IsChain (· < ·) := by decide +kernel

theorem mem_bytes {s : String} {c : Char} (h : c ∈ s.toList) (hc : c.toNat ≤ 127) :
    UInt8.ofNat c.toNat ∈ s.toByteArray.data.toList := by
  rw [← String.utf8Encode_toList, List.utf8Encode, List.toList_data_toByteArray]
  refine List.mem_flatMap.mpr ⟨c, h, ?_⟩
  simp [String.utf8EncodeChar, if_pos hc]

theorem bytes_of_code {l : List UInt8} {n code : Nat} (h : l.foldlM
    (fun code b ↦ if 64 ≤ b ∧ b ≤ 90 then none else some (256 * code + b.toNat)) n = some code) :
    ∀ b ∈ l, ¬ (64 ≤ b ∧ b ≤ 90) := by
  induction l generalizing n with
  | nil => exact List.forall_mem_nil _
  | cons b l ih =>
    rw [List.foldlM_cons] at h
    split at h
    · cases h
    · next hb => exact List.forall_mem_cons.mpr ⟨hb, ih h⟩

/-- A name of this kind is no group, and in lower case. -/
theorem plain_of_code {s : String} {code : Nat} (h : plainCode s = some code) :
    groupName s = none ∧ s.map Char.toLower = s := by
  have plain {c : Char} (hc : c ∈ s.toList) : ¬ (64 ≤ c.toNat ∧ c.toNat ≤ 90) := by
    intro hrange
    refine bytes_of_code h _ (mem_bytes hc (by omega)) ?_
    simp only [UInt8.le_iff_toNat_le, UInt8.toNat_ofNat']
    constructor <;> simp <;> omega
  constructor
  · unfold groupName
    split
    · next rest heq => exact absurd (by decide) (plain (heq ▸ List.mem_cons_self ..))
    · rfl
  · refine String.toList_injective ?_
    rw [String.toList_map]
    refine (List.map_congr_left fun c hc ↦ dif_neg fun hupper ↦ plain hc ?_).trans (List.map_id _)
    have hlow : 65 ≤ c.toNat := hupper.1
    have hhigh : c.toNat ≤ 90 := hupper.2
    omega

theorem nodup_of_ascends {n : Nat} {names : List String} (h : ascends n names) :
    names.Nodup ∧ ∀ s ∈ names, ∃ code, plainCode s = some code ∧ n < code := by
  induction names generalizing n with
  | nil => simp
  | cons s rest ih =>
    unfold ascends at h
    cases hs : plainCode s with
    | none => simp [hs] at h
    | some code =>
      simp only [hs, Bool.and_eq_true, decide_eq_true_eq] at h
      obtain ⟨hnodup, hrest⟩ := ih h.2
      refine ⟨List.nodup_cons.mpr ⟨fun hmem ↦ ?_, hnodup⟩, fun s' hs' ↦ ?_⟩
      · obtain ⟨code', hcode', hlt⟩ := hrest s hmem
        rw [hs, Option.some.injEq] at hcode'
        omega
      · rcases List.mem_cons.mp hs' with rfl | hs'
        · exact ⟨code, hs, h.1⟩
        · obtain ⟨code', hcode', hlt⟩ := hrest s' hs'
          exact ⟨code', hcode', by omega⟩

/-- Two names do not have the same number. -/
theorem syscallNr_inj {s s' : String} {nr : UInt32} (h : syscallNr s = some nr)
    (h' : syscallNr s' = some nr) : s = s' := by
  have row {s : String} (h : syscallNr s = some nr) : (s, nr) ∈ SYSCALLS := by
    obtain ⟨r, hr, rfl⟩ := Option.map_eq_some_iff.mp h
    have hs := List.find?_some hr
    rw [← of_decide_eq_true hs]
    exact List.mem_of_find?_eq_some hr
  have hinj := List.inj_on_of_nodup_map (List.isChain_iff_pairwise.mp numbers_ascend).nodup
  exact congrArg Prod.fst (hinj (row h) (row h') rfl)

theorem resolve_plain {names : List String} {number : String → UInt32}
    (h : ∀ s ∈ names, resolveName s = .ok [number s]) :
    resolve names = .ok (sortDedup (names.map number)) := by
  have hmap : names.mapM resolveName = .ok (names.map fun s ↦ [number s]) := by
    induction names with
    | nil => rfl
    | cons s rest ih =>
      rw [List.mapM_cons, h s (List.mem_cons_self ..),
        ih fun s' hs' ↦ h s' (List.mem_cons_of_mem _ hs')]
      rfl
  rw [resolve, hmap, Except.map, ← List.flatMap_def, ← List.map_eq_flatMap]

/-- The names have as many numbers. -/
theorem resolve_many : ∃ nrs, resolve manyNames = .ok nrs ∧ (named nrs true []).card = 255 := by
  obtain ⟨hnodup, hcode⟩ := nodup_of_ascends manyNames_ascends.1
  have hnr {s : String} (hs : s ∈ manyNames) : (syscallNr s).isSome := by
    obtain ⟨i, -, hi⟩ := List.mem_filterMap.mp hs
    obtain ⟨row, hrow, rfl⟩ := Option.map_eq_some_iff.mp hi
    rw [syscallNr, Option.isSome_map, List.find?_isSome]
    exact ⟨row, List.mem_of_getElem? hrow, by simp⟩
  have hnumber {s : String} (hs : s ∈ manyNames) : syscallNr s = some ((syscallNr s).getD 0) := by
    obtain ⟨nr, h⟩ := Option.isSome_iff_exists.mp (hnr hs)
    rw [h, Option.getD_some]
  have hresolve : resolve manyNames =
      .ok (sortDedup (manyNames.map fun s ↦ (syscallNr s).getD 0)) := by
    refine resolve_plain fun s hs ↦ ?_
    obtain ⟨code, hs', -⟩ := hcode s hs
    obtain ⟨hgroup, hlower⟩ := plain_of_code hs'
    obtain ⟨nr, h⟩ := Option.isSome_iff_exists.mp (hnr hs)
    simp only [resolveName, hgroup, hlower, h, Option.getD_some]
  refine ⟨_, hresolve, ?_⟩
  have hinj : (manyNames.map fun s ↦ (syscallNr s).getD 0).Nodup := by
    refine List.Nodup.map_on (fun s hs s' hs' heq ↦ ?_) hnodup
    refine syscallNr_inj (hnumber hs) ?_
    rw [heq]
    exact hnumber hs'
  have hset : named (sortDedup (manyNames.map fun s ↦ (syscallNr s).getD 0)) true [] =
      (manyNames.map fun s ↦ (syscallNr s).getD 0).toFinset := by
    ext nr
    simp [named]
  rw [hset, List.toFinset_card_of_nodup hinj, List.length_map, manyNames_ascends.2]

/-- A deny-list of 255 system calls lets calls through that it refuses. -/
theorem long_list_leaks : ¬ ∀ names nrs deny errno extraDeny, resolve names = .ok nrs →
    (nrs ≠ [] ∨ extraDeny ≠ []) → ∀ d : SeccompData,
    run d.load (build nrs deny errno extraDeny none false) =
      some (policy nrs deny errno extraDeny d) := by
  intro h
  obtain ⟨nrs, hres, hcard⟩ := resolve_many
  have hne : nrs ≠ [] := by
    rintro rfl
    cases hcard
  have hlong : 254 < (named nrs true []).card := by omega
  have hleak : ∃ d, (listFilter nrs true 1 []).verdict d ≠ some (policy nrs true 1 [] d) :=
    listFilter_unfaithful hlong
  obtain ⟨d, hd⟩ := hleak
  exact hd (h manyNames nrs true 1 [] hres (.inl hne) d)

end LongList

end Seccomp

end Rystemd

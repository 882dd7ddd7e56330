import Rystemd.Sandbox

namespace Rystemd

open Text

/-- The capabilities that an op drops from the bounding set. -/
def Op.drops : Op → List UInt32
  | .capBoundingDrop caps invert => capDropSet caps invert
  | _ => []

namespace SandboxConfig

variable {cfg : SandboxConfig} {v : String} {cap : UInt32}

/-- What the plan of a service drops from the bounding set. -/
def plannedDrops (cfg : SandboxConfig) : List UInt32 := ((plan cfg).getD []).flatMap Op.drops

/-- The known capabilities among the words of a value. -/
def namedCaps (v : String) : List UInt32 :=
  ((splitWhitespace v).map (trimStartMatches '~')).filterMap capNumber

/-- A list that starts with `~` drops the named capabilities, another one all the others. -/
def dropsPolicy (v : String) (cap : UInt32) : Prop :=
  if startsWith '~' (trimStart v) then cap ∈ namedCaps v else cap ≤ LAST_CAP ∧ cap ∉ namedCaps v

instance : Decidable (dropsPolicy v cap) :=
  inferInstanceAs (Decidable (if startsWith '~' (trimStart v) then cap ∈ namedCaps v
    else cap ≤ LAST_CAP ∧ cap ∉ namedCaps v))

theorem mem_capDropSet {caps : List UInt32} :
    cap ∈ capDropSet caps false ↔ cap ≤ LAST_CAP ∧ cap ∉ caps := by
  have hrange : cap ∈ (List.range (LAST_CAP.toNat + 1)).map UInt32.ofNat ↔ cap ≤ LAST_CAP := by
    rw [List.mem_map]
    constructor
    · rintro ⟨n, hn, rfl⟩
      rw [List.mem_range] at hn
      have hlast : LAST_CAP.toNat = 40 := rfl
      rw [UInt32.le_iff_toNat_le, UInt32.toNat_ofNat']
      omega
    · intro h
      rw [UInt32.le_iff_toNat_le] at h
      exact ⟨cap.toNat, List.mem_range.mpr (Nat.lt_succ_of_le h), UInt32.ofNat_toNat⟩
  rw [capDropSet, if_neg Bool.false_ne_true, List.mem_filter, hrange, decide_eq_true_eq]

/-- Dropping the empty words loses no capability. -/
theorem filterMap_boundingSet :
    (cfg.setBoundingSet v).boundingSet.filterMap capNumber = namedCaps v := by
  rw [setBoundingSet, namedCaps, List.filterMap_filter]
  congr 1
  funext c
  split
  · rfl
  · next h =>
    rw [Bool.not_eq_true, Bool.not_eq_false'] at h
    rw [String.isEmpty_iff.mp h]
    decide +kernel

theorem mountOps_drops : cfg.mountOps.flatMap Op.drops = [] := by
  refine List.flatMap_eq_nil_iff.mpr fun op hop ↦ ?_
  simp only [mountOps, List.mem_append, List.mem_map] at hop
  rcases hop with ((((h | h) | h) | h) | ⟨path, -, rfl⟩) | h
  · split at h
    · rcases List.mem_pair.mp h with rfl | rfl
      · rfl
      · rfl
    · cases h
  · split at h
    · rcases List.mem_pair.mp h with rfl | rfl
      · rfl
      · rfl
    · cases h
  · split at h
    · cases h
    · obtain ⟨path, -, rfl⟩ := List.mem_map.mp h
      rfl
    · obtain ⟨path, -, rfl⟩ := List.mem_map.mp h
      rfl
  · split at h
    · cases h
    · obtain ⟨path, -, rfl⟩ := List.mem_map.mp h
      rfl
    · obtain ⟨path, -, rfl⟩ := List.mem_map.mp h
      rfl
    · obtain rfl := List.mem_singleton.mp h
      rfl
  · rfl
  · split at h
    · obtain rfl := List.mem_singleton.mp h
      rfl
    · cases h

theorem ambientOps_drops : cfg.ambientOps.flatMap Op.drops = [] := by
  rw [ambientOps]
  split
  · rfl
  · dsimp only
    split
    · rfl
    · rfl

theorem seccompOps_drops : cfg.seccompOps.flatMap Op.drops = [] := by
  rw [seccompOps]
  split
  · split
    · rfl
    · rfl
  · rfl

/-- Only `CapabilityBoundingSet=` drops capabilities. -/
theorem plannedDrops_eq : plannedDrops cfg = cfg.boundingOps.flatMap Op.drops := by
  rw [plannedDrops, plan]
  split
  · next h =>
    have hempty : cfg.boundingSet.isEmpty := by
      by_contra hset
      simp [hasSandbox, hset] at h
    rw [boundingOps, if_pos hempty]
    rfl
  · have hnnp :
        (if cfg.noNewPrivileges then [Op.noNewPrivileges] else []).flatMap Op.drops = [] := by
      split
      · rfl
      · rfl
    simp only [Option.getD_some, List.flatMap_append, mountOps_drops, hnnp, ambientOps_drops,
      seccompOps_drops, List.nil_append, List.append_nil]

theorem setBoundingSet_drops : plannedDrops (cfg.setBoundingSet v) =
    if namedCaps v = [] then [] else capDropSet (namedCaps v) (startsWith '~' (trimStart v)) := by
  rw [plannedDrops_eq, boundingOps, filterMap_boundingSet]
  by_cases hnamed : namedCaps v = []
  · simp [hnamed]
  · have hset : (cfg.setBoundingSet v).boundingSet.isEmpty = false := by
      rw [← Bool.not_eq_true, List.isEmpty_iff]
      intro h
      rw [← @filterMap_boundingSet cfg, h] at hnamed
      exact hnamed rfl
    simp only [hset, hnamed, Bool.false_eq_true, if_false, List.isEmpty_iff, List.flatMap_cons,
      List.flatMap_nil, List.append_nil]
    rfl

theorem bounding_set_meaning (cfg : SandboxConfig) (v : String) :
    (∀ cap, cap ∈ plannedDrops (cfg.setBoundingSet v) ↔ dropsPolicy v cap) ↔
    startsWith '~' (trimStart v) ∨ namedCaps v ≠ [] := by
  rw [setBoundingSet_drops]
  by_cases hnamed : namedCaps v = []
  · rw [if_pos hnamed]
    cases htilde : startsWith '~' (trimStart v) with
    | true => simp [dropsPolicy, htilde, hnamed]
    | false =>
      refine iff_of_false (fun h ↦ ?_) (by simp [hnamed])
      -- nothing is dropped instead of everything
      have h0 := (h 0).mpr
      simp [dropsPolicy, htilde, hnamed] at h0
  · rw [if_neg hnamed]
    refine iff_of_true (fun cap ↦ ?_) (.inr hnamed)
    cases htilde : startsWith '~' (trimStart v) with
    | true => simp [dropsPolicy, htilde, capDropSet]
    | false => simp [dropsPolicy, htilde, mem_capDropSet]

/-- A list of unknown names keeps every capability. -/
theorem unknown_names_keep_all : ¬ ∀ (cfg : SandboxConfig) (v : String) (cap : UInt32),
    cap ∈ plannedDrops (cfg.setBoundingSet v) ↔ dropsPolicy v cap := by
  intro h
  have hpolicy : dropsPolicy "CAP_NET_ADMN" 0 ∧
      0 ∉ plannedDrops (({} : SandboxConfig).setBoundingSet "CAP_NET_ADMN") := by
    decide +kernel
  exact hpolicy.2 ((h {} "CAP_NET_ADMN" 0).mpr hpolicy.1)

end SandboxConfig

end Rystemd

import Rystemd.Masking

namespace Rystemd

open Text FileTree.Tree Recursion

variable {paths : Paths} {name : String} {t : Tree}

/-- The unit found at this moment lists another one in `Also=`, which `enable` comes to when it has
made the links of the unit and has enabled the units listed before. -/
inductive EnableRef (paths : Paths) : String × Tree → String × Tree → Prop
  | mk {n n' : String} {path : Path} {install : InstallConfig} {messages : List String}
      {before after : List String} {t t₁ t₂ : Tree} :
      paths.findUnit (treeFs t) (normalizeFileName n) = some path →
      installSection t path (normalizeFileName n) = some install →
      makeLinks paths (normalizeFileName n) path install t = (.ok messages, t₁) →
      install.also.map normalizeFileName = before ++ n' :: after →
      (enableProcedure paths).Done before t₁ t₂ → EnableRef paths (n, t) (n', t₂)

/-- The same for `disable`, which fails for no unit. -/
inductive DisableRef (paths : Paths) : String × Tree → String × Tree → Prop
  | mk {n n' : String} {install : InstallConfig} {removed : List String}
      {before after : List String} {t t₁ t₂ t₃ : Tree} :
      linkExisting paths (normalizeFileName n) t = t₁ →
      installOf paths (normalizeFileName n) t₁ = some install →
      removeAll (installPlaces paths (normalizeFileName n) install) [] t₁ = (removed, t₂) →
      install.also.map normalizeFileName = before ++ n' :: after →
      (disableProcedure paths).Done before t₂ t₃ → DisableRef paths (n, t) (n', t₃)

/-- References go on without end, from unit to unit. -/
def EndlessRefs (ref : String × Tree → String × Tree → Prop) (name : String) (t : Tree) : Prop :=
  ∃ c : Nat → String × Tree, c 0 = (name, t) ∧ ∀ i, ref (c i) (c (i + 1))

theorem enableRef_iff {x y : String × Tree} :
    EnableRef paths x y ↔ (enableProcedure paths).Leads x y := by
  constructor
  · rintro ⟨hfind, hsection, hlinks, halso, hdone⟩
    exact .mk ((enableOwn_ok paths).mpr ⟨_, _, hfind, hsection, hlinks, halso⟩) hdone
  · rintro ⟨hown, hdone⟩
    obtain ⟨path, install, hfind, hsection, hlinks, halso⟩ := (enableOwn_ok paths).mp hown
    exact .mk hfind hsection hlinks halso hdone

theorem disableRef_iff {x y : String × Tree} :
    DisableRef paths x y ↔ (disableProcedure paths).Leads x y := by
  constructor
  · rintro ⟨rfl, hinstall, hremoved, halso, hdone⟩
    exact .mk ((disableOwn_ok paths hinstall).mpr ⟨hremoved, halso⟩) hdone
  · rintro @⟨n, n', before, after, removed, t, t₁, t₂, hown, hdone⟩
    cases hinstall : installOf paths (normalizeFileName n)
        (linkExisting paths (normalizeFileName n) t) with
    | none =>
      have hnone := disableOwn_none paths hinstall
      have hown : disableOwn paths n t = (.ok (removed, before ++ n' :: after), t₁) := hown
      rw [hnone] at hown
      simp at hown
    | some install =>
      obtain ⟨hremoved, halso⟩ := (disableOwn_ok paths hinstall).mp hown
      exact .mk rfl hinstall hremoved halso hdone

/-- Both commands return exactly where the references of `Also=` do not go on without end. -/
theorem enable_disable_return_iff (paths : Paths) (name : String) (t : Tree) :
    ((∃ depth, enable paths depth name t ≠ none) ↔ ¬ EndlessRefs (EnableRef paths) name t) ∧
    ((∃ depth, disable paths depth name t ≠ none) ↔ ¬ EndlessRefs (DisableRef paths) name t) := by
  have hreturns : ∀ p : Procedure String Tree String String,
      (∃ depth, p.run depth name t ≠ none) ↔ p.Ends (name, t) := by
    intro p
    simp only [Procedure.Ends, ← Option.isSome_iff_exists, Option.isSome_iff_ne_none]
  constructor
  · apply ((hreturns (enableProcedure paths)).trans Procedure.ends_iff_not_endless).trans
    simp only [EndlessRefs, Procedure.Endless, enableRef_iff]
  · apply ((hreturns (disableProcedure paths)).trans Procedure.ends_iff_not_endless).trans
    simp only [EndlessRefs, Procedure.Endless, disableRef_iff]

/-- A unit that lists itself in `Also=`, and nothing in the configuration directory. -/
def selfAlso : Tree := bare.addNode ["usr", "a.service"] (.file (some "[Install]\nAlso=a.service\n"))

def usrOnly : Paths where
  unitPath := [["usr"]]
  configDir := ["etc"]

theorem selfAlso_ref : EnableRef usrOnly ("a.service", selfAlso) ("a.service", selfAlso) := by
  have hname : normalizeFileName "a.service" = "a.service" := by decide +kernel
  have hfind : usrOnly.findUnit (treeFs selfAlso) (normalizeFileName "a.service") =
      some ["usr", "a.service"] := by decide +kernel
  have hsection : installSection selfAlso ["usr", "a.service"] (normalizeFileName "a.service") =
      some { also := ["a.service"] } := by decide +kernel
  have halso : ["a.service"].map normalizeFileName = [] ++ "a.service" :: [] := by
    rw [List.map_singleton, hname, List.nil_append]
  exact .mk hfind hsection rfl halso .nil

/-- A unit that lists itself in `Also=` is enabled without end. -/
theorem self_also_never_returns : ¬ ∀ paths name t,
    (∃ depth, enable paths depth name t ≠ none) ∧ ∃ depth, disable paths depth name t ≠ none := by
  intro h
  obtain ⟨depth, hreturns⟩ := (h usrOnly "a.service" selfAlso).1
  have hendless := Procedure.endless_of_leads_self (enableRef_iff.mp selfAlso_ref)
  exact Procedure.not_endless_of_run (x := ("a.service", selfAlso)) hreturns hendless

end Rystemd

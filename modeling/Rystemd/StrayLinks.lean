import Rystemd.AlsoCycles

namespace Rystemd

open Text FileTree FileTree.Tree Recursion

variable {paths : Paths} {name suffix : String} {t t' : Tree} {dir : FileTree.Path}

section Own

theorem clean_entry (hd : IsName name) : clean (dir ++ [name]) = clean dir ++ [name] :=
  clean_append dir hd.2.2.2

/-- Nothing is in what is no directory. -/
theorem lookup_of_readDir_none (h : t.readDir dir = none) (c : String) :
    t.nodes.lookup (clean dir ++ [c]) = none := by
  by_contra hsome
  have hdir := lookup_above hsome (List.cons_ne_nil c [])
  rw [readDir, node, if_pos hdir] at h
  cases h

theorem removeNamed_without (name : String) (dir : FileTree.Path) (t : Tree) :
    Without (fun q ↦ IsName name ∧ q = clean dir ++ [name]) t (removeNamed name dir t) := by
  unfold removeNamed
  cases hread : t.readDir dir with
  | none =>
    refine (Without.refl t).widen (fun q h ↦ h.elim) fun q hq _ ↦ ?_
    rw [hq.2]
    exact lookup_of_readDir_none hread name
  | some links =>
    have hstep : ∀ l ∈ links, ∀ t : Tree, Without (fun q ↦ l = name ∧ q = clean (dir ++ [l])) t
        (if l = name then (t.removeFile (dir ++ [l])).2 else t) := by
      intro l _ t
      split
      · next hl => exact (Without.removeFile (dir ++ [l])).congr fun q ↦ by simp [hl]
      · next hl => exact (Without.refl t).congr fun q ↦ by simp [hl]
    refine (Without.foldl hstep).widen ?_ ?_
    · rintro q ⟨l, hl, rfl, rfl⟩
      have hname := ((mem_readDir hread).mp hl).1
      exact ⟨hname, clean_entry hname⟩
    · rintro q ⟨hname, rfl⟩ hnot
      by_contra hsome
      exact hnot ⟨name, (mem_readDir hread).mpr ⟨hname, hsome⟩, rfl, (clean_entry hname).symm⟩

/-- The paths that `link_existing` removes for one suffix: in a directory `B.wants` if there is an
entry `Bwants` and `B` has a dot. -/
def StrippedBy (paths : Paths) (name suffix : String) (t : Tree) (q : FileTree.Path) : Prop :=
  IsName name ∧ ∃ base : String, IsName (base ++ suffix) ∧ '.' ∈ base.toList ∧
    t.nodes.lookup (clean paths.configDir ++ [base ++ suffix]) ≠ none ∧
    q = clean paths.configDir ++ [base ++ "." ++ suffix, name]

/-- A directory with a suffix that is no mere dots. -/
theorem isName_dotted {base : String} (hsuffix : suffix = "wants" ∨ suffix = "requires")
    (h : IsName (base ++ suffix)) : IsName (base ++ "." ++ suffix) := by
  have hslash : '/' ∉ (base ++ "." ++ suffix).toList := by
    have hbase := h.1
    rw [String.toList_append] at hbase
    rw [String.toList_append, String.toList_append]
    simp only [List.mem_append, not_or] at hbase ⊢
    exact ⟨⟨hbase.1, by decide +kernel⟩, hbase.2⟩
  have hlen : 2 < (base ++ "." ++ suffix).toList.length := by
    rw [String.toList_append, String.toList_append, List.length_append]
    rcases hsuffix with rfl | rfl
    · have hwants : "wants".toList.length = 5 := by decide +kernel
      omega
    · have hrequires : "requires".toList.length = 8 := by decide +kernel
      omega
  have hshort : ∀ s : String, s.toList.length ≤ 2 → base ++ "." ++ suffix ≠ s := by
    rintro s hs rfl
    omega
  exact ⟨hslash, hshort "" (by decide +kernel), hshort "." (by decide +kernel),
    hshort ".." (by decide +kernel)⟩

theorem linkExistingAt_without (paths : Paths) (name : String) (t : Tree)
    (hsuffix : suffix = "wants" ∨ suffix = "requires") {f : String} (hf : IsName f) :
    Without (fun q ↦ IsName name ∧ ∃ base : String, f = base ++ suffix ∧ '.' ∈ base.toList ∧
      q = clean paths.configDir ++ [base ++ "." ++ suffix, name]) t
      (linkExistingAt paths name suffix t f) := by
  unfold linkExistingAt
  cases hbase : stripSuffix suffix f with
  | none =>
    refine (Without.refl t).congr fun q ↦ ⟨False.elim, ?_⟩
    rintro ⟨-, base, hf, -⟩
    rw [stripSuffix_eq_some.mpr hf] at hbase
    cases hbase
  | some base =>
    obtain rfl := stripSuffix_eq_some.mp hbase
    have hinj : ∀ base' : String, base ++ suffix = base' ++ suffix → base' = base := by
      intro base' heq
      rw [stripSuffix_eq_some.mpr heq] at hbase
      exact Option.some.inj hbase
    dsimp only
    split
    · next hdot =>
      have hname := isName_dotted hsuffix hf
      have hjoin : clean (paths.configDir.join (base ++ "." ++ suffix)) =
          clean paths.configDir ++ [base ++ "." ++ suffix] := by
        rw [Path.join_component hname, clean_entry hname]
      refine (removeNamed_without name (paths.configDir.join (base ++ "." ++ suffix)) t).congr
        fun q ↦ ?_
      rw [hjoin, List.append_assoc]
      constructor
      · rintro ⟨hn, hq⟩
        exact ⟨hn, base, rfl, hdot, hq⟩
      · rintro ⟨hn, base', heq, -, hq⟩
        rw [hinj base' heq] at hq
        exact ⟨hn, hq⟩
    · next hdot =>
      refine (Without.refl t).congr fun q ↦ ⟨False.elim, ?_⟩
      rintro ⟨-, base', heq, hdot', -⟩
      rw [hinj base' heq] at hdot'
      exact hdot hdot'

/-- What one of the two loops of `link_existing` removes. -/
theorem linkExistingFor_without (paths : Paths) (name : String) (t : Tree)
    (hsuffix : suffix = "wants" ∨ suffix = "requires") :
    Without (StrippedBy paths name suffix t) t (linkExistingFor paths name t suffix) := by
  unfold linkExistingFor
  cases hread : t.readDir paths.configDir with
  | none =>
    refine (Without.refl t).congr fun q ↦ ⟨False.elim, ?_⟩
    rintro ⟨-, base, -, -, hsome, -⟩
    exact hsome (lookup_of_readDir_none hread _)
  | some names =>
    have hstep := fun f (hf : f ∈ names) t ↦
      linkExistingAt_without paths name t hsuffix ((mem_readDir hread).mp hf).1
    refine (Without.foldl hstep).congr fun q ↦ ?_
    constructor
    · rintro ⟨f, hf, hname, base, rfl, hdot, hq⟩
      obtain ⟨hf, hsome⟩ := (mem_readDir hread).mp hf
      exact ⟨hname, base, hf, hdot, hsome, hq⟩
    · rintro ⟨hname, base, hf, hdot, hsome, hq⟩
      exact ⟨_, (mem_readDir hread).mpr ⟨hf, hsome⟩, hname, base, rfl, hdot, hq⟩

/-- The paths that `link_existing` removes. -/
def Stripped (paths : Paths) (name : String) (t : Tree) (q : FileTree.Path) : Prop :=
  StrippedBy paths name "wants" t q ∨ StrippedBy paths name "requires" t q

theorem linkExisting_without (paths : Paths) (name : String) (t : Tree) :
    Without (Stripped paths name t) t (linkExisting paths name t) := by
  have hwants := linkExistingFor_without paths name t (Or.inl rfl)
  have hrequires := linkExistingFor_without paths name (linkExistingFor paths name t "wants")
    (Or.inr rfl)
  refine (hwants.trans hrequires).congr fun q ↦ or_congr_right ?_
  -- The first loop removes nothing that stands in the configuration directory itself.
  have hentry : ∀ f : String, IsName f →
      (linkExistingFor paths name t "wants").nodes.lookup (clean paths.configDir ++ [f]) =
        t.nodes.lookup (clean paths.configDir ++ [f]) := by
    intro f hf
    have hkept := hwants.kept (paths.configDir ++ [f]) (Or.inl ?_)
    · rw [node, node, clean_entry hf] at hkept
      exact hkept
    · rw [clean_entry hf]
      rintro ⟨-, base, -, -, -, hq⟩
      have hlen := congrArg List.length hq
      simp at hlen
  constructor
  · rintro ⟨hname, base, hf, hdot, hsome, hq⟩
    rw [hentry _ hf] at hsome
    exact ⟨hname, base, hf, hdot, hsome, hq⟩
  · rintro ⟨hname, base, hf, hdot, hsome, hq⟩
    rw [← hentry _ hf] at hsome
    exact ⟨hname, base, hf, hdot, hsome, hq⟩

theorem removeAll_without (places : List FileTree.Path) (removed : List String) (t : Tree) :
    Without (fun q ↦ ∃ p ∈ places, q = clean p) t (removeAll places removed t).2 := by
  induction places generalizing removed t with
  | nil => exact (Without.refl t).congr fun q ↦ by simp
  | cons p places ih =>
    rw [removeAll]
    split
    · exact ((Without.removeFile p).trans (ih _ _)).congr fun q ↦ by simp
    · next h =>
      refine (ih _ _).widen (fun q hq ↦ ?_) fun q hq hnot ↦ ?_
      · obtain ⟨p', hp', hq⟩ := hq
        exact ⟨p', List.mem_cons_of_mem p hp', hq⟩
      · obtain ⟨p', hp', rfl⟩ := hq
        rcases List.mem_cons.mp hp' with rfl | hp'
        · exact not_not.mp h
        · exact absurd ⟨p', hp', rfl⟩ hnot

/-- The paths that `disable` removes for one unit, before it comes to those of `Also=`. -/
def Removes (paths : Paths) (name : String) (t : Tree) (q : FileTree.Path) : Prop :=
  Stripped paths (normalizeFileName name) t q ∨ ∃ install,
    installOf paths (normalizeFileName name) (linkExisting paths (normalizeFileName name) t) =
      some install ∧ ∃ p ∈ installPlaces paths (normalizeFileName name) install, q = clean p

theorem disableOwn_without (paths : Paths) (name : String) (t : Tree) :
    Without (Removes paths name t) t (disableOwn paths name t).2 := by
  have hstripped := linkExisting_without paths (normalizeFileName name) t
  cases hinstall : installOf paths (normalizeFileName name)
      (linkExisting paths (normalizeFileName name) t) with
  | none =>
    rw [disableOwn_none paths hinstall]
    refine hstripped.congr fun q ↦ ⟨Or.inl, fun hq ↦ hq.resolve_right ?_⟩
    rintro ⟨install, hsome, -⟩
    rw [hinstall] at hsome
    cases hsome
  | some install =>
    have hown := (disableOwn_ok paths hinstall).mpr ⟨rfl, rfl⟩
    rw [hown]
    refine (hstripped.trans (removeAll_without _ _ _)).congr fun q ↦ or_congr_right ?_
    constructor
    · intro hq
      exact ⟨install, hinstall, hq⟩
    · rintro ⟨install', hsome, hq⟩
      rw [hinstall] at hsome
      cases hsome
      exact hq

end Own

section Runs

/-- The calls of `disable` that one call comes to, with the state that each finds. -/
abbrev DisableVisits (paths : Paths) (name : String) (t : Tree) (y : String × Tree) : Prop :=
  (disableProcedure paths).Visits (name, t) y

variable {depth : Nat} {r : Except String (List String)} {q : FileTree.Path}

theorem disableOwn_pruned (name : String) (t : Tree) :
    Pruned t ((disableProcedure paths).own name t).2 := (disableOwn_without paths name t).pruned

theorem pruned_trans (t t' t'' : Tree) (h : Pruned t t') (h' : Pruned t' t'') : Pruned t t'' :=
  h.trans h'

theorem disable_pruned (h : disable paths depth name t = some (r, t')) : Pruned t t' :=
  Procedure.run_rel (x := (name, t)) (p := disableProcedure paths) Pruned.refl pruned_trans
    (fun y _ ↦ disableOwn_pruned y.1 y.2) h

/-- What `disable` removes is what it removes for one of the units that it comes to. -/
theorem disable_removed_iff (h : disable paths depth name t = some (r, t'))
    (hsome : t.node q ≠ none) (hdir : t.node q ≠ some .dir) :
    t'.node q = none ↔ ∃ y, DisableVisits paths name t y ∧ Removes paths y.1 y.2 (clean q) := by
  constructor
  · intro hnone
    have hrel := Procedure.run_rel (x := (name, t)) (p := disableProcedure paths)
      (R := fun t₁ t₂ ↦ t₂.node q = t₁.node q ∨
        ∃ y, DisableVisits paths name t y ∧ Removes paths y.1 y.2 (clean q))
      (fun _ ↦ Or.inl rfl) (fun t₁ t₂ t₃ h₁ h₂ ↦ ?_) (fun y hy ↦ ?_) h
    · rcases hrel with hsame | hremoved
      · exact absurd (hsame.symm.trans hnone) hsome
      · exact hremoved
    · rcases h₁ with h₁ | h₁
      · rcases h₂ with h₂ | h₂
        · exact Or.inl (h₂.trans h₁)
        · exact Or.inr h₂
      · exact Or.inr h₁
    · by_cases hy' : Removes paths y.1 y.2 (clean q)
      · exact Or.inr ⟨y, hy, hy'⟩
      · exact Or.inl ((disableOwn_without paths y.1 y.2).kept q (Or.inl hy'))
  · rintro ⟨y, hy, hremoves⟩
    have hbefore : Pruned t y.2 :=
      hy.rel Pruned.refl pruned_trans fun n s ↦ disableOwn_pruned n s
    have hafter : Pruned (disableOwn paths y.1 y.2).2 t' :=
      Procedure.visited_rel (p := disableProcedure paths) Pruned.refl pruned_trans
        (fun y _ ↦ disableOwn_pruned y.1 y.2) hy h
    have hnodir : y.2.node q ≠ some .dir := by
      rcases hbefore q with hsame | ⟨hnone, -⟩
      · rw [hsame]
        exact hdir
      · rw [hnone]
        exact (Option.some_ne_none _).symm
    have hgone := (disableOwn_without paths y.1 y.2).gone q hremoves hnodir
    rcases hafter q with hsame | ⟨hnone, -⟩
    · exact hsame.trans hgone
    · exact hnone

/-- A name of a `*.wants` or `*.requires` directory. -/
def IsLinkDir (d : String) : Prop :=
  IsName d ∧ ∃ base : String, d = base ++ ".wants" ∨ d = base ++ ".requires"

/-- No `*.wants` or `*.requires` directory of the configuration directory has a link of the name. -/
def NoLinks (paths : Paths) (name : String) (t : Tree) : Prop :=
  ∀ d, IsLinkDir d → t.readLink (paths.configDir ++ [d, name]) = none

/-- The path has the file name of a unit that `disable` comes to, or is a link to its file. -/
def OfVisited (paths : Paths) (name : String) (t : Tree) (q : FileTree.Path) : Prop :=
  ∃ y, DisableVisits paths name t y ∧ ((clean q).getLast? = some (normalizeFileName y.1) ∨
    ∃ path target, paths.findUnit (treeFs (linkExisting paths (normalizeFileName y.1) y.2))
        (normalizeFileName y.1) = some path ∧
      t.node q = some (.link target) ∧ clean (target.path (clean q).dropLast) = clean path)

/-- The links of the unit are gone, and what belongs to other units is as before. -/
def Undone (paths : Paths) (name : String) (t t' : Tree) : Prop :=
  NoLinks paths (normalizeFileName name) t' ∧
    ∀ q, t'.node q ≠ t.node q → OfVisited paths name t q

/-- Each link of the unit is removed for a unit that `disable` comes to, and where an alias of such a
unit would be there is nothing that belongs to another unit. -/
structure Removable (paths : Paths) (name : String) (t : Tree) : Prop where
  links : ∀ d, IsLinkDir d →
    t.readLink (paths.configDir ++ [d, normalizeFileName name]) ≠ none →
    ∃ y, DisableVisits paths name t y ∧
      Removes paths y.1 y.2 (clean (paths.configDir ++ [d, normalizeFileName name]))
  aliases : ∀ y install a, DisableVisits paths name t y →
    installOf paths (normalizeFileName y.1) (linkExisting paths (normalizeFileName y.1) y.2) =
      some install → a ∈ install.alias_ →
    t.node (paths.configDir.join (normalizeFileName a)) ≠ none →
    t.node (paths.configDir.join (normalizeFileName a)) ≠ some .dir →
    OfVisited paths name t (paths.configDir.join (normalizeFileName a))

theorem isName_of_installOf {install : InstallConfig} (h : installOf paths name t = some install) :
    IsName name := by
  obtain ⟨path, hfind, -⟩ := Option.bind_eq_some_iff.mp h
  unfold Paths.findUnit at hfind
  split at hfind
  · next hplain => exact isComponent_of_plain hplain
  · cases hfind

/-- What is removed for a unit has its file name or is an alias. -/
theorem removes_cases (h : Removes paths name t q) :
    q.getLast? = some (normalizeFileName name) ∨ ∃ install a,
      installOf paths (normalizeFileName name) (linkExisting paths (normalizeFileName name) t) =
        some install ∧ a ∈ install.alias_ ∧
      q = clean (paths.configDir.join (normalizeFileName a)) := by
  rcases h with (h | h) | ⟨install, hinstall, p, hp, rfl⟩
  · obtain ⟨-, base, -, -, -, rfl⟩ := h
    exact Or.inl (by simp)
  · obtain ⟨-, base, -, -, -, rfl⟩ := h
    exact Or.inl (by simp)
  · have hname := isName_of_installOf hinstall
    have hlast : ∀ dir : FileTree.Path, (clean (Path.join dir (normalizeFileName name))).getLast? =
        some (normalizeFileName name) := by
      intro dir
      rw [Path.join_component hname, clean_entry hname, List.getLast?_concat]
    rcases List.mem_append.mp hp with hp | hp
    · obtain ⟨target, -, hp⟩ := List.mem_flatMap.mp hp
      rcases List.mem_cons.mp hp with rfl | hp
      · exact Or.inl (hlast _)
      · rw [List.mem_singleton.mp hp]
        exact Or.inl (hlast _)
    · obtain ⟨a, ha, rfl⟩ := List.mem_map.mp hp
      exact Or.inr ⟨install, a, hinstall, ha, rfl⟩

theorem removes_alias {install : InstallConfig} {a : String}
    (hinstall : installOf paths (normalizeFileName name)
      (linkExisting paths (normalizeFileName name) t) = some install) (ha : a ∈ install.alias_) :
    Removes paths name t (clean (paths.configDir.join (normalizeFileName a))) :=
  Or.inr ⟨install, hinstall, _, List.mem_append_right _ (List.mem_map_of_mem ha), rfl⟩

theorem OfVisited.congr {q' : FileTree.Path} (h : OfVisited paths name t q) (hq : clean q = clean q') :
    OfVisited paths name t q' := by
  have hnode : t.node q = t.node q' := by rw [node, node, hq]
  unfold OfVisited at h ⊢
  rw [hq, hnode] at h
  exact h

theorem node_of_readLink {p : FileTree.Path} (h : t.readLink p ≠ none) :
    ∃ target, t.node p = some (.link target) := by
  obtain ⟨target, htarget⟩ := Option.ne_none_iff_exists'.mp h
  exact ⟨target, readLink_eq_some.mp htarget⟩

/-- `disable` undoes `enable` exactly where it finds all links of the unit, and no alias is the name
of something else. -/
theorem disable_undoes_iff (h : disable paths depth name t = some (r, t')) :
    Undone paths name t t' ↔ Removable paths name t := by
  have hpruned := disable_pruned h
  constructor
  · rintro ⟨hlinks, hothers⟩
    constructor
    · intro d hd hlink
      obtain ⟨target, hnode⟩ := node_of_readLink hlink
      have hnone : t'.node (paths.configDir ++ [d, normalizeFileName name]) = none := by
        rcases hpruned (paths.configDir ++ [d, normalizeFileName name]) with hsame | ⟨hnone, -⟩
        · have hgone := hlinks d hd
          rw [readLink_eq_some.mpr (hsame.trans hnode)] at hgone
          cases hgone
        · exact hnone
      exact (disable_removed_iff h (by simp [hnode]) (by simp [hnode])).mp hnone
    · intro y install a hy hinstall ha hsome hdir
      apply hothers
      have hnone := (disable_removed_iff h hsome hdir).mpr ⟨y, hy, removes_alias hinstall ha⟩
      rw [hnone]
      exact hsome.symm
  · rintro ⟨hlinks, haliases⟩
    constructor
    · intro d hd
      by_contra hlink
      obtain ⟨target, hnode'⟩ := node_of_readLink hlink
      have hnode : t.node (paths.configDir ++ [d, normalizeFileName name]) =
          some (.link target) := by
        rcases hpruned (paths.configDir ++ [d, normalizeFileName name]) with hsame | ⟨hnone, -⟩
        · rw [← hsame, hnode']
        · rw [hnone] at hnode'
          cases hnode'
      have hbefore : t.readLink (paths.configDir ++ [d, normalizeFileName name]) ≠ none := by
        rw [readLink_eq_some.mpr hnode]
        exact Option.some_ne_none target
      have hnone := (disable_removed_iff h (by simp [hnode]) (by simp [hnode])).mpr
        (hlinks d hd hbefore)
      rw [hnode'] at hnone
      cases hnone
    · intro q hchanged
      obtain ⟨hnone, hdir⟩ := (hpruned q).resolve_left hchanged
      have hsome : t.node q ≠ none := by
        intro hsame
        exact hchanged (hnone.trans hsame.symm)
      obtain ⟨y, hy, hremoves⟩ := (disable_removed_iff h hsome hdir).mp hnone
      rcases removes_cases hremoves with hlast | ⟨install, a, hinstall, ha, hq⟩
      · exact ⟨y, hy, Or.inl hlast⟩
      · have hplace : t.node (paths.configDir.join (normalizeFileName a)) = t.node q := by
          rw [node, node, hq]
        exact (haliases y install a hy hinstall ha (hplace ▸ hsome) (hplace ▸ hdir)).congr hq.symm

/-- A unit that is wanted by `b.target`, and was wanted by `c.target` when it was enabled. -/
def retargeted : Tree :=
  let link : Node := .link (.absolute ["usr", "a.service"])
  ((bare.addNode ["usr", "a.service"] (.file (some "[Install]\nWantedBy=b.target\n"))).addNode
    ["etc", "b.target.wants", "a.service"] link).addNode
      ["etc", "c.target.wants", "a.service"] link

theorem disable_undoes_retargeted : ∃ r t', disable usrOnly 1 "a" retargeted = some (r, t') ∧
    (Undone usrOnly "a" retargeted t' ↔ Removable usrOnly "a" retargeted) := by
  have hreturns : (disable usrOnly 1 "a" retargeted).isSome := by decide +kernel
  obtain ⟨⟨r, t'⟩, h⟩ := Option.isSome_iff_exists.mp hreturns
  exact ⟨r, t', h, disable_undoes_iff h⟩

theorem stray_link_stays : ¬ ∀ paths depth name t r t',
    disable paths depth name t = some (r, t') → Undone paths name t t' := by
  intro hundone
  have hstays : (disable usrOnly 1 "a" retargeted).any
      (fun o ↦ (o.2.readLink ["etc", "c.target.wants", "a.service"]).isSome) = true := by
    decide +kernel
  obtain ⟨⟨r, t'⟩, h, hlink⟩ := (Option.any_eq_true _ _).mp hstays
  have hname : normalizeFileName "a" = "a.service" := by decide +kernel
  have hdir : IsLinkDir "c.target.wants" :=
    ⟨by decide +kernel, "c.target", Or.inl (by decide +kernel)⟩
  have hgone := (hundone usrOnly 1 "a" retargeted r t' h).1 "c.target.wants" hdir
  rw [hname] at hgone
  change t'.readLink ["etc", "c.target.wants", "a.service"] = none at hgone
  rw [hgone] at hlink
  cases hlink

end Runs

end Rystemd

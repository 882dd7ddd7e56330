import Rystemd.Enable

namespace Rystemd

open Text FileTree.Tree

section Names

variable {s suffix : String}

/-- A path ends with what the name in it ends with. -/
theorem exists_last_join (dir : Path) (hslash : '/' ∉ suffix.toList) (hlen : 2 ≤ suffix.toList.length)
    (h : suffix.toList <:+ s.toList) :
    ∃ init last, dir.join s = init ++ [last] ∧ suffix.toList <:+ last.toList := by
  obtain ⟨init, last, hsplit, hlast⟩ := exists_last_splitOn hslash h
  have hlong : 2 ≤ (String.ofList last).toList.length := by
    rw [String.toList_ofList]
    exact hlen.trans hlast.length_le
  have hkeep : String.ofList last ≠ "" ∧ String.ofList last ≠ "." := by
    constructor
    · intro heq
      rw [heq] at hlong
      exact absurd hlong (by decide +kernel)
    · intro heq
      rw [heq] at hlong
      exact absurd hlong (by decide +kernel)
  have hparse : ∃ init, Path.parse s = init ++ [String.ofList last] := by
    refine ⟨(init.map String.ofList).filter fun c ↦ c ≠ "" ∧ c ≠ ".", ?_⟩
    rw [Path.parse, hsplit, List.map_append, List.filter_append]
    simp [hkeep]
  obtain ⟨init, hparse⟩ := hparse
  rw [Path.join, hparse]
  split
  · exact ⟨init, _, rfl, by rwa [String.toList_ofList]⟩
  · exact ⟨dir ++ init, _, (List.append_assoc ..).symm, by rwa [String.toList_ofList]⟩

/-- A normalized name has one of the suffixes. -/
theorem suffix_normalized (name : String) :
    ∃ s ∈ suffixes, ("." ++ s).toList <:+ (normalizeFileName name).toList := by
  unfold normalizeFileName
  split
  · next h =>
    obtain ⟨s, hs, h⟩ := List.any_eq_true.mp h
    obtain ⟨base, hbase⟩ := Option.isSome_iff_exists.mp h
    refine ⟨s, hs, ?_⟩
    obtain rfl := stripSuffix_eq_some.mp hbase
    exact ⟨base.toList, String.toList_append.symm⟩
  · refine ⟨"service", List.mem_cons_self, ?_⟩
    have hservice : "." ++ "service" = ".service" := by decide +kernel
    rw [hservice, String.toList_append]
    exact List.suffix_append _ _

/-- A normalized name is not taken for the directory above. -/
theorem exists_last_normalized (dir : Path) (name : String) :
    ∃ init last, dir.join (normalizeFileName name) = init ++ [last] ∧ last ≠ ".." := by
  obtain ⟨s, hs, h⟩ := suffix_normalized name
  have hform : '/' ∉ ("." ++ s).toList ∧ 2 < ("." ++ s).toList.length := by
    simp only [suffixes, List.mem_cons, List.not_mem_nil, or_false] at hs
    rcases hs with rfl | rfl | rfl <;> decide +kernel
  obtain ⟨init, last, hjoin, hlast⟩ := exists_last_join dir hform.1 hform.2.le h
  refine ⟨init, last, hjoin, ?_⟩
  rintro rfl
  have hle := hlast.length_le
  have hdots : "..".toList.length = 2 := by decide +kernel
  omega

end Names

/-- The node of the first search directory that has one with the name. -/
def firstEntry (paths : Paths) (name : String) (t : Tree) : Option FileTree.Node :=
  paths.unitPath.findSome? fun dir ↦ t.node (dir.join (normalizeFileName name))

/-- A unit file, or a link that does not mask. -/
def IsUnitEntry : Option FileTree.Node → Prop
  | some (.file _) => True
  | some (.link target) => target ≠ devNull
  | _ => False

/-- All unit files and links that do not mask are as before. -/
def Kept (t t' : Tree) : Prop :=
  ∀ q, (IsUnitEntry (t.node q) ∨ IsUnitEntry (t'.node q)) → t'.node q = t.node q

/-- What is removed is a mask in the first search directory. -/
def RemovesMasks (paths : Paths) (name : String) (t t' : Tree) : Prop :=
  ∀ q, t.node q ≠ none → t'.node q ≠ t.node q → t.node q = some (.link devNull) ∧
    ∃ root, paths.unitPath.head? = some root ∧
      FileTree.clean q = FileTree.clean (root.join (normalizeFileName name))

/-- The name is free in the first search directory, but for a mask. -/
def RootFree (paths : Paths) (name : String) (t : Tree) : Prop :=
  ∀ root, paths.unitPath.head? = some root →
    ¬ IsUnitEntry (t.node (root.join (normalizeFileName name)))

/-- The first link with the name is a mask, and a directory before it has an entry that is none. -/
def MaskBelow (paths : Paths) (name : String) (t : Tree) : Prop :=
  ∃ above dir below, paths.unitPath = above ++ dir :: below ∧
    t.node (dir.join (normalizeFileName name)) = some (.link devNull) ∧
    (∀ d ∈ above, t.readLink (d.join (normalizeFileName name)) = none) ∧
    ∃ d ∈ above, t.node (d.join (normalizeFileName name)) ≠ none

variable {paths : Paths} {name : String} {t t' : Tree} {root : Path}

theorem readLink_eq_some {p : Path} {target : FileTree.Target} :
    t.readLink p = some target ↔ t.node p = some (.link target) := by
  unfold readLink
  split
  · next h => simp [h]
  · next h =>
    constructor
    · intro h'
      cases h'
    · intro h'
      exact absurd h' (h target)

theorem isMasked_iff : isMasked paths name t ↔ ∃ above dir below,
    paths.unitPath = above ++ dir :: below ∧
      t.node (dir.join (normalizeFileName name)) = some (.link devNull) ∧
      ∀ d ∈ above, t.readLink (d.join (normalizeFileName name)) = none := by
  rw [isMasked, decide_eq_true_eq, List.findSome?_eq_some_iff]
  simp only [readLink_eq_some]

theorem firstEntry_iff : firstEntry paths name t = some (.link devNull) ↔ ∃ above dir below,
    paths.unitPath = above ++ dir :: below ∧
      t.node (dir.join (normalizeFileName name)) = some (.link devNull) ∧
      ∀ d ∈ above, t.node (d.join (normalizeFileName name)) = none := by
  rw [firstEntry, List.findSome?_eq_some_iff]

theorem readLink_none {p : Path} (h : t.node p = none) : t.readLink p = none := by
  rw [readLink, h]

/-- The mask test is right unless a mask is below an entry that is none. -/
theorem isMasked_right_iff :
    (isMasked paths name t ↔ firstEntry paths name t = some (.link devNull)) ↔
      ¬ MaskBelow paths name t := by
  constructor
  · rintro h ⟨above, dir, below, hpath, hmask, hlinks, d, hd, hentry⟩
    have hfirst := h.mp (isMasked_iff.mpr ⟨above, dir, below, hpath, hmask, hlinks⟩)
    obtain ⟨above', dir', below', hpath', hmask', hnone⟩ := firstEntry_iff.mp hfirst
    have hnot : d ∉ above' := fun h ↦ hentry (hnone d h)
    rcases List.append_eq_append_iff.mp (hpath.symm.trans hpath') with ⟨as, rfl, -⟩ | ⟨bs, rfl, hbs⟩
    · exact hnot (List.mem_append_left as hd)
    · cases bs with
      | nil =>
        rw [List.append_nil] at hd
        exact hnot hd
      | cons e bs =>
        obtain ⟨rfl, -⟩ := List.cons.inj hbs
        have hlink := hlinks dir' (List.mem_append_right above' List.mem_cons_self)
        rw [readLink_eq_some.mpr hmask'] at hlink
        cases hlink
  · intro h
    constructor
    · intro hmasked
      obtain ⟨above, dir, below, hpath, hmask, hlinks⟩ := isMasked_iff.mp hmasked
      refine firstEntry_iff.mpr ⟨above, dir, below, hpath, hmask, fun d hd ↦ ?_⟩
      by_contra hentry
      exact h ⟨above, dir, below, hpath, hmask, hlinks, d, hd, hentry⟩
    · intro hfirst
      obtain ⟨above, dir, below, hpath, hmask, hnone⟩ := firstEntry_iff.mp hfirst
      exact isMasked_iff.mpr ⟨above, dir, below, hpath, hmask, fun d hd ↦ readLink_none (hnone d hd)⟩

/-- What `mask` may change: it makes directories, and what it leaves at its own place is as before or
no unit entry. -/
structure MasksAt (link : Path) (t t' : Tree) : Prop where
  off : ∀ q, FileTree.clean q ≠ FileTree.clean link →
    t'.node q = t.node q ∨ t.node q = none ∧ t'.node q = some .dir
  place : t'.node link = t.node link ∨ ¬ IsUnitEntry (t'.node link)

theorem not_isUnitEntry_none : ¬ IsUnitEntry none := fun h ↦ h

theorem not_isUnitEntry_dir : ¬ IsUnitEntry (some .dir) := fun h ↦ h

theorem not_isUnitEntry_mask : ¬ IsUnitEntry (some (.link devNull)) := fun h ↦ h rfl

theorem createDirAll_masksAt (p link : Path) : MasksAt link t (t.createDirAll p).2 where
  off q _ := lookup_createDirAll
  place := by
    rcases lookup_createDirAll (t := t) (p := p) (q := FileTree.clean link) with h | ⟨-, h⟩
    · exact Or.inl h
    · refine Or.inr ?_
      rw [node, h]
      exact not_isUnitEntry_dir

theorem removeFile_masksAt (link : Path) : MasksAt link t (t.removeFile link).2 where
  off q hq := by
    rw [removeFile_node, if_neg fun h ↦ hq h.1]
    exact Or.inl rfl
  place := by
    rw [removeFile_node]
    split
    · exact Or.inr not_isUnitEntry_none
    · exact Or.inl rfl

theorem symlink_masksAt (link : Path) : MasksAt link t (t.symlink devNull link).2 where
  off q hq := by
    rw [symlink_node, if_neg fun h ↦ hq h.1]
    exact Or.inl rfl
  place := by
    rw [symlink_node]
    split
    · exact Or.inr not_isUnitEntry_mask
    · exact Or.inl rfl

theorem MasksAt.refl (link : Path) (t : Tree) : MasksAt link t t :=
  ⟨fun _ _ ↦ Or.inl rfl, Or.inl rfl⟩

theorem MasksAt.trans {link : Path} {t'' : Tree} (h : MasksAt link t t') (h' : MasksAt link t' t'') :
    MasksAt link t t'' where
  off q hq := by
    rcases h'.off q hq with h₂ | ⟨hnone, hdir⟩
    · rw [h₂]
      exact h.off q hq
    · rcases h.off q hq with h₁ | ⟨-, h₁⟩
      · exact Or.inr ⟨h₁ ▸ hnone, hdir⟩
      · rw [h₁] at hnone
        cases hnone
  place := by
    rcases h'.place with h₂ | h₂
    · rw [h₂]
      exact h.place
    · exact Or.inr h₂

theorem mask_masksAt (name : String) (hroot : paths.unitPath.head? = some root) :
    MasksAt (root.join (normalizeFileName name)) t (mask paths name t).2 := by
  unfold mask
  rw [hroot]
  dsimp only
  have hdirs := createDirAll_masksAt (t := t) (root.join (normalizeFileName name)).dropLast
    (root.join (normalizeFileName name))
  split
  · next h =>
    rw [h] at hdirs
    exact hdirs
  · next h =>
    rw [h] at hdirs
    have hlink := (hdirs.trans (removeFile_masksAt _)).trans (symlink_masksAt _)
    split
    · next h =>
      rw [h] at hlink
      exact hlink
    · next h =>
      rw [h] at hlink
      exact hlink

theorem unmask_node (name : String) (hroot : paths.unitPath.head? = some root) (q : Path) :
    (unmask paths name t).2.node q = t.node q ∨
    FileTree.clean q = FileTree.clean (root.join (normalizeFileName name)) ∧
      isMasked paths name t ∧ t.node q ≠ none ∧ (unmask paths name t).2.node q = none := by
  unfold unmask
  rw [hroot]
  dsimp only
  split
  · next h =>
    have hnode := removeFile_node (t := t) (p := root.join (normalizeFileName name)) (q := q)
    by_cases hq : FileTree.clean q = FileTree.clean (root.join (normalizeFileName name)) ∧
        t.node (root.join (normalizeFileName name)) ≠ some .dir
    · rw [if_pos hq] at hnode
      have hentry : t.node q ≠ none := by
        rw [node, hq.1]
        exact h.1
      split
      · next heq =>
        rw [heq] at hnode
        exact Or.inr ⟨hq.1, h.2, hentry, hnode⟩
      · next heq =>
        rw [heq] at hnode
        exact Or.inr ⟨hq.1, h.2, hentry, hnode⟩
    · rw [if_neg hq] at hnode
      split
      · next heq =>
        rw [heq] at hnode
        exact Or.inl hnode
      · next heq =>
        rw [heq] at hnode
        exact Or.inl hnode
  · exact Or.inl rfl

theorem isMasked_of_root (hroot : paths.unitPath.head? = some root)
    (h : t.node (root.join (normalizeFileName name)) = some (.link devNull)) :
    isMasked paths name t := by
  obtain ⟨rest, hrest⟩ := List.head?_eq_some_iff.mp hroot
  exact isMasked_iff.mpr ⟨[], root, rest, hrest, h, fun d hd ↦ absurd hd List.not_mem_nil⟩

/-- An entry in the first search directory is replaced by the mask, and removed with it. -/
theorem unmask_mask_entry (hroot : paths.unitPath.head? = some root)
    (h : IsUnitEntry (t.node (root.join (normalizeFileName name)))) :
    (unmask paths name (mask paths name t).2).2.node (root.join (normalizeFileName name)) = none := by
  obtain ⟨init, last, hlink, hlast⟩ := exists_last_normalized root name
  have hclean : FileTree.clean (root.join (normalizeFileName name)) = FileTree.clean init ++ [last] := by
    rw [hlink, FileTree.clean_append init hlast]
  generalize hgen : root.join (normalizeFileName name) = link at *
  have hentry : t.node link ≠ none := by
    intro hnone
    rw [hnone] at h
    exact h
  have hnodir : t.node link ≠ some .dir := by
    intro hdir
    rw [hdir] at h
    exact h
  have habove := dir_above hentry
  have hparent : t.createDirAll link.dropLast = (none, t) := by
    apply createDirAll_of_dir
    rw [hlink, List.dropLast_concat]
    rwa [hclean, List.dropLast_concat] at habove
  have hremoved : (t.removeFile link).2.node link = none := by
    rw [removeFile_node, if_pos ⟨rfl, hnodir⟩]
  have hdir : (t.removeFile link).2.nodes.lookup (FileTree.clean link).dropLast = some .dir := by
    rw [lookup_removeFile, if_neg, habove]
    rintro ⟨heq, -⟩
    rw [hclean] at heq
    exact FileTree.dropLast_ne (List.concat_ne_nil _ _) heq
  have hok : ((t.removeFile link).2.symlink devNull link).1 = none :=
    symlink_eq_none_iff.mpr ⟨hremoved, hdir⟩
  have hmask : (mask paths name t).2.node link = some (.link devNull) := by
    unfold mask
    rw [hroot]
    dsimp only
    rw [hgen, hparent]
    dsimp only
    have hnode : ((t.removeFile link).2.symlink devNull link).2.node link = some (.link devNull) := by
      rw [symlink_node, if_pos ⟨rfl, hok⟩]
    split
    · next heq =>
      rw [heq] at hnode
      exact hnode
    · next heq =>
      rw [heq] at hnode
      exact hnode
  generalize (mask paths name t).2 = t₁ at hmask
  have hmasked : isMasked paths name t₁ := isMasked_of_root hroot (by rw [hgen, hmask])
  have hsome : t₁.node link ≠ none := by
    rw [hmask]
    exact Option.some_ne_none _
  have hfile : t₁.node link ≠ some .dir := by
    rw [hmask]
    intro heq
    cases heq
  have hnode := removeFile_node (t := t₁) (p := link) (q := link)
  rw [if_pos ⟨rfl, hfile⟩] at hnode
  unfold unmask
  rw [hroot]
  dsimp only
  rw [hgen, if_pos ⟨hsome, hmasked⟩]
  split
  · next heq =>
    rw [heq] at hnode
    exact hnode
  · next heq =>
    rw [heq] at hnode
    exact hnode

/-- Unit entries are as before where the place of the mask had none. -/
theorem kept_of_rootFree (hfree : RootFree paths name t) :
    Kept t (unmask paths name (mask paths name t).2).2 := by
  cases hroot : paths.unitPath.head? with
  | none =>
    intro q _
    rw [mask, unmask, hroot]
  | some root =>
    have hlink := hfree root hroot
    have hmask := mask_masksAt (t := t) name hroot
    intro q hq
    by_cases hplace : FileTree.clean q = FileTree.clean (root.join (normalizeFileName name))
    · have hbefore : t.node q = t.node (root.join (normalizeFileName name)) := by
        rw [node, hplace, node]
      have hafter : ¬ IsUnitEntry ((mask paths name t).2.node q) := by
        have hsame : (mask paths name t).2.node q =
            (mask paths name t).2.node (root.join (normalizeFileName name)) := by
          rw [node, hplace, node]
        rw [hsame]
        rcases hmask.place with h | h
        · rw [h]
          exact hlink
        · exact h
      rw [hbefore] at hq
      rcases unmask_node (t := (mask paths name t).2) name hroot q with h | ⟨-, -, -, h⟩
      · rw [h] at hq
        exact (hq.elim hlink hafter).elim
      · rw [h] at hq
        exact (hq.elim hlink not_isUnitEntry_none).elim
    · rcases unmask_node (t := (mask paths name t).2) name hroot q with h | ⟨h, -⟩
      · rcases hmask.off q hplace with h' | ⟨hnone, hdir⟩
        · rw [h, h']
        · rw [h, hnone, hdir] at hq
          exact (hq.elim not_isUnitEntry_none not_isUnitEntry_dir).elim
      · exact absurd h hplace

theorem removesMasks_of_right
    (h : isMasked paths name t ↔ firstEntry paths name t = some (.link devNull)) :
    RemovesMasks paths name t (unmask paths name t).2 := by
  intro q hsome hchanged
  cases hroot : paths.unitPath.head? with
  | none =>
    rw [unmask, hroot] at hchanged
    exact absurd rfl hchanged
  | some root =>
    rcases unmask_node (t := t) name hroot q with hsame | ⟨hplace, hmasked, -⟩
    · exact absurd hsame hchanged
    · refine ⟨?_, root, rfl, hplace⟩
      have hfirst := h.mp hmasked
      obtain ⟨rest, hrest⟩ : ∃ rest, paths.unitPath = root :: rest :=
        List.head?_eq_some_iff.mp hroot
      have hnode : t.node q = t.node (root.join (normalizeFileName name)) := by
        rw [node, hplace, node]
      rw [firstEntry, hrest, List.findSome?_cons, ← hnode] at hfirst
      cases hq : t.node q with
      | none => exact absurd hq hsome
      | some n =>
        rw [hq] at hfirst
        exact hfirst

/-- Masking is undone by unmasking, the mask test is right and nothing else is removed, exactly where
no unit file or link stands in the way of the mask and no mask is below an entry that is none. -/
theorem mask_unmask_iff (paths : Paths) (name : String) (t : Tree) :
    (Kept t (unmask paths name (mask paths name t).2).2 ∧
      (isMasked paths name t ↔ firstEntry paths name t = some (.link devNull)) ∧
      RemovesMasks paths name t (unmask paths name t).2) ↔
    RootFree paths name t ∧ ¬ MaskBelow paths name t := by
  rw [isMasked_right_iff]
  constructor
  · rintro ⟨hkept, hright, -⟩
    refine ⟨fun root hroot hentry ↦ ?_, hright⟩
    have hgone := unmask_mask_entry hroot hentry
    rw [hkept _ (Or.inl hentry)] at hgone
    rw [hgone] at hentry
    exact hentry
  · rintro ⟨hfree, hright⟩
    exact ⟨kept_of_rootFree hfree, hright, removesMasks_of_right (isMasked_right_iff.mpr hright)⟩

/-- A unit file in the first of two search directories. -/
def etcUsr : Paths where
  unitPath := [["etc"], ["usr"]]
  configDir := ["etc"]

theorem mask_deletes_unit_file : ¬ ∀ paths name t,
    Kept t (unmask paths name (mask paths name t).2).2 ∧
      (isMasked paths name t ↔ firstEntry paths name t = some (.link devNull)) ∧
      RemovesMasks paths name t (unmask paths name t).2 := by
  intro h
  have hkept := (h etcUsr "a" (bare.addNode ["etc", "a.service"] (.file (some "[Service]")))).1
    ["etc", "a.service"]
  have hbefore : (bare.addNode ["etc", "a.service"] (.file (some "[Service]"))).node
      ["etc", "a.service"] = some (.file (some "[Service]")) := by decide +kernel
  rw [hbefore] at hkept
  have hafter := hkept (Or.inl trivial)
  revert hafter
  decide +kernel

end Rystemd

import Rystemd.Directories

namespace Rystemd

open Text

variable {name : String} {spec : SpecifierContext} {tmpl : String}

theorem fromSuffix_at {value : String} (h : '@' ∈ value.toList) : UnitType.fromSuffix value = none := by
  have hne : ∀ s : String, '@' ∉ s.toList → value ≠ s := by
    rintro s hs rfl
    exact hs h
  rw [UnitType.fromSuffix, if_neg (hne _ (by decide +kernel)), if_neg (hne _ (by decide +kernel)),
    if_neg (hne _ (by decide +kernel)), if_neg (hne _ (by decide +kernel)),
    if_neg (hne _ (by decide +kernel)), if_neg (hne _ (by decide +kernel)),
    if_neg (hne _ (by decide +kernel))]

/-- The suffix of a name of a known kind has no dot and no `@`. -/
theorem suffix_of_kind (h : (UnitType.fromUnitName name).isSome) :
    ∃ w, '.' ∉ w ∧ '@' ∉ w ∧ '.' :: w <:+ name.toList ∧ name.toList.rtakeWhile (· ≠ '.') = w := by
  have hdot : '.' ∈ name.toList := by
    by_contra hdot
    rw [UnitType.fromUnitName, rsplitOnce, if_neg hdot] at h
    cases h
  obtain ⟨after, before, hsplit, hafter⟩ := List.eq_append_cons_of_mem (List.mem_reverse.mpr hdot)
  have hsuffix : '.' :: after.reverse <:+ name.toList := by
    refine ⟨before.reverse, ?_⟩
    rw [← List.reverse_reverse name.toList, hsplit]
    simp
  have hw : '.' ∉ after.reverse := fun hmem ↦ hafter (List.mem_reverse.mp hmem)
  have hlast := rtakeWhile_of_suffix hw hsuffix
  refine ⟨after.reverse, hw, fun hat ↦ ?_, hsuffix, hlast⟩
  rw [UnitType.fromUnitName, rsplitOnce, if_pos hdot, hlast, Option.bind_some,
    fromSuffix_at (by rwa [String.toList_ofList])] at h
  cases h

/-- The context of a unit of which only the name matters. -/
def namedContext (unitName : String) : SpecifierContext where
  unitName := unitName
  runtimeDir := ""
  userName := ""
  uid := ""
  home := ""
  hostname := ""
  machineId := ""

/-- The number of dots after the first `@`, or in the whole name of a unit that has none. -/
def dots (name : String) : Nat :=
  if '@' ∈ name.toList then (name.toList.dropWhile (· ≠ '@')).count '.' else name.toList.count '.'

/-- The type suffix of a name, after the last dot. -/
def typeSuffix (name : String) : String := String.ofList (name.toList.rtakeWhile (· ≠ '.'))

/-- The parts of a name make up the name, and that of the template that is loaded for it. -/
structure Decomposed (spec : SpecifierContext) : Prop where
  templated : '@' ∈ spec.unitName.toList →
    spec.unitName = spec.unitPrefix ++ "@" ++ spec.unitInstance ++ "." ++ typeSuffix spec.unitName
  plain : '@' ∉ spec.unitName.toList →
    spec.unitName = spec.unitPrefix ++ "." ++ typeSuffix spec.unitName
  template : ∀ (paths : Paths) (fs : Fs) (path : Path), '@' ∈ spec.unitName.toList →
    paths.findUnit fs spec.unitName = some path → paths.firstFile fs spec.unitName = none →
    path.fileName = some (spec.unitPrefix ++ "@." ++ typeSuffix spec.unitName)

theorem isComponent_template (h : templateOf name = some tmpl) (hplain : isPlainUnitName name) :
    '@' ∈ tmpl.toList ∧ Path.IsComponent tmpl := by
  obtain ⟨hslash, -⟩ := isComponent_of_plain hplain
  unfold templateOf at h
  split at h
  · cases h
    have hat : '@' ∈ (String.ofList (name.toList.takeWhile (· ≠ '@')) ++ "@." ++
        String.ofList (name.toList.rtakeWhile (· ≠ '.'))).toList := by
      simp [String.toList_append]
    refine ⟨hat, ?_, ?_, ?_, ?_⟩
    · rw [String.toList_append, String.toList_append, String.toList_ofList]
      rw [String.toList_ofList, List.mem_append, List.mem_append, not_or, not_or]
      refine ⟨⟨fun hm ↦ hslash ((List.takeWhile_prefix _).subset hm), by decide +kernel⟩, fun hm ↦ ?_⟩
      rw [String.toList_ofList] at hm
      exact hslash ((List.rtakeWhile_suffix _ _).subset hm)
    all_goals
      intro heq
      rw [heq] at hat
      revert hat
      decide +kernel
  · cases h

theorem unitPrefix_templated (h : '@' ∈ spec.unitName.toList) :
    spec.unitPrefix = String.ofList (spec.unitName.toList.takeWhile (· ≠ '@')) := by
  simp only [SpecifierContext.unitPrefix, if_pos h]

/-- The file that is loaded for an instance is the template of its prefix. -/
theorem template_fileName {paths : Paths} {fs : Fs} {path : Path}
    (hat : '@' ∈ spec.unitName.toList) (h : paths.findUnit fs spec.unitName = some path)
    (hfirst : paths.firstFile fs spec.unitName = none) :
    path.fileName = some (spec.unitPrefix ++ "@." ++ typeSuffix spec.unitName) := by
  unfold Paths.findUnit at h
  split at h
  · next hplain =>
    rw [hfirst, Option.none_or] at h
    obtain ⟨tmpl, htmpl, hfile⟩ := Option.bind_eq_some_iff.mp h
    obtain ⟨dir, -, rfl⟩ := List.mem_map.mp (List.mem_of_find?_eq_some hfile)
    have hname := (isComponent_template htmpl hplain).2
    rw [Path.join_component hname, Path.fileName_component hname, unitPrefix_templated hat]
    unfold templateOf at htmpl
    split at htmpl
    · exact htmpl.symm
    · cases htmpl
  · cases h

theorem templated_iff {w : List Char} (hat : '@' ∈ spec.unitName.toList) (hdot : '.' ∉ w)
    (hnot : '@' ∉ w) (hw : '.' :: w <:+ spec.unitName.toList)
    (hsuffix : typeSuffix spec.unitName = String.ofList w) :
    spec.unitName = spec.unitPrefix ++ "@" ++ spec.unitInstance ++ "." ++ typeSuffix spec.unitName ↔
      dots spec.unitName = 1 := by
  obtain ⟨l, r, hl, hfirst⟩ := List.eq_append_cons_of_mem hat
  have hr : '.' :: w <:+ r := by
    rw [hl] at hw
    refine suffix_after ?_ hw
    rintro (_ | ⟨_, hmem⟩)
    exact hnot hmem
  have hprefix : spec.unitPrefix = String.ofList l := by
    rw [unitPrefix_templated hat, hl, takeWhile_append_cons hfirst]
  have hinstance : spec.unitInstance = String.ofList (r.takeWhile (· ≠ '.')) := by
    have hmem : '.' ∈ (String.ofList r).toList := by
      rw [String.toList_ofList]
      exact hr.subset List.mem_cons_self
    rw [SpecifierContext.unitInstance, splitOnce, if_pos hat, hl, dropWhile_append_cons hfirst]
    change ((splitOnce '.' (String.ofList r)).map Prod.fst).getD "" = _
    rw [splitOnce, if_pos hmem, String.toList_ofList]
    rfl
  have hcount : dots spec.unitName = r.count '.' := by
    rw [dots, if_pos hat, hl, dropWhile_append_cons hfirst, List.count_cons_of_ne (by decide)]
  rw [hcount, ← takeWhile_append_iff hdot hr, ← String.toList_inj, hprefix, hinstance, hsuffix, hl]
  simp only [String.toList_append, String.toList_ofList, List.append_assoc]
  constructor
  · intro heq
    exact List.cons.inj (List.append_cancel_left heq) |>.2
  · intro heq
    exact congrArg (fun r ↦ l ++ '@' :: r) heq

theorem plain_iff {w : List Char} (hat : '@' ∉ spec.unitName.toList) (hdot : '.' ∉ w)
    (hw : '.' :: w <:+ spec.unitName.toList)
    (hsuffix : typeSuffix spec.unitName = String.ofList w) :
    spec.unitName = spec.unitPrefix ++ "." ++ typeSuffix spec.unitName ↔
      dots spec.unitName = 1 := by
  have hprefix : spec.unitPrefix = String.ofList (spec.unitName.toList.takeWhile (· ≠ '.')) := by
    simp only [SpecifierContext.unitPrefix, if_neg hat]
  rw [dots, if_neg hat, ← takeWhile_append_iff hdot hw, ← String.toList_inj, hprefix, hsuffix]
  simp only [String.toList_append, String.toList_ofList, List.append_assoc]
  exact Iff.rfl

/-- The parts of a name make it up exactly where one dot stands after the `@`, or in a name
without one. -/
theorem decomposed_iff (hkind : (UnitType.fromUnitName spec.unitName).isSome) :
    Decomposed spec ↔ dots spec.unitName = 1 := by
  obtain ⟨w, hdot, hnot, hw, hlast⟩ := suffix_of_kind hkind
  have hsuffix : typeSuffix spec.unitName = String.ofList w := by rw [typeSuffix, hlast]
  constructor
  · rintro ⟨htemplated, hplain, -⟩
    by_cases hat : '@' ∈ spec.unitName.toList
    · exact (templated_iff hat hdot hnot hw hsuffix).mp (htemplated hat)
    · exact (plain_iff hat hdot hw hsuffix).mp (hplain hat)
  · intro hone
    exact ⟨fun hat ↦ (templated_iff hat hdot hnot hw hsuffix).mpr hone,
      fun hat ↦ (plain_iff hat hdot hw hsuffix).mpr hone,
      fun paths fs path hat hfind hfirst ↦ template_fileName hat hfind hfirst⟩

theorem decomposed_iff_getty :
    Decomposed (namedContext "getty@tty1.service") ↔ dots "getty@tty1.service" = 1 :=
  decomposed_iff (by decide +kernel)

/-- The instance of an address ends at its first dot. -/
theorem instance_of_address : ¬ ∀ spec : SpecifierContext, isPlainUnitName spec.unitName →
    (UnitType.fromUnitName spec.unitName).isSome → Decomposed spec := by
  intro h
  have hname := (h (namedContext "tun@10.0.0.1.service") (by decide +kernel)
    (by decide +kernel)).templated (by decide +kernel)
  revert hname
  decide +kernel

end Rystemd

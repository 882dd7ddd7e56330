import Rystemd.Disk
import Rystemd.Library.Sorting

namespace Rystemd

open Text

namespace Path

variable {p q r : Path}

theorem le_iff : le p q ↔ ¬ List.Lex (· < ·) q p := by
  rw [le, Bool.not_eq_true', List.lex_eq_false_iff_not_lex]
  simp only [decide_eq_true_eq]

theorem le_antisymm (hpq : le p q) (hqp : le q p) : p = q :=
  List.le_antisymm (le_iff.mp hpq) (le_iff.mp hqp)

theorem le_trans (hpq : le p q) (hqr : le q r) : le p r :=
  le_iff.mpr (List.le_trans (le_iff.mp hpq) (le_iff.mp hqr))

theorem le_total (p q : Path) : le p q || le q p := by
  rw [Bool.or_eq_true, le_iff, le_iff]
  exact List.le_total p q

/-- In one directory paths are sorted by the last component. -/
theorem le_of_lt {dir : Path} {a b : String} (h : a < b) : le (dir ++ [a]) (dir ++ [b]) := by
  rw [le_iff]
  apply List.lex_asymm (fun hab hba ↦ String.lt_asymm hab hba)
  exact List.append_left_lt (List.cons_lt_cons_iff.mpr (.inl h))

end Path

namespace Paths

/-- The names of the drop-in files in a directory. -/
def confs (fs : Fs) (d : Path) : List String :=
  (fs.entries d).filter fun e ↦ (rsplitOnce '.' e).any (fun p ↦ p.1 ≠ "" ∧ p.2 = "conf") ∧
    fs.isFile (d.join e)

variable (paths : Paths) (fs : Fs) (name : String)

/-- The drop-ins of a name in one search directory. -/
def dropinsIn (dir : Path) : List Path :=
  let d := dir.join (name ++ ".d")
  (confs fs d).map fun e ↦ d.join e

theorem dropins_eq : paths.dropins fs name =
    (paths.unitPath.reverse.flatMap (dropinsIn fs name)).mergeSort Path.le := rfl

/-- A drop-in file, with the place of its search directory and its own name. -/
def DropinAt (i : Nat) (e : String) (p : Path) : Prop :=
  ∃ dir : Path, paths.unitPath[i]? = some dir ∧ e ∈ confs fs (dir.join (name ++ ".d")) ∧
    p = dir ++ [name ++ ".d", e]

/-- A drop-in comes first by its name, and for one name by the lower precedence of its directory. -/
def Before (p q : Path) : Prop := ∃ (i j : Nat) (e f : String), DropinAt paths fs name i e p ∧
  DropinAt paths fs name j f q ∧ (e < f ∨ e = f ∧ j < i)

/-- What a list of the drop-ins of a name has to be. -/
structure DropinList (l : List Path) : Prop where
  once : l.Nodup
  complete : ∀ p, p ∈ l ↔ ∃ i e, DropinAt paths fs name i e p
  ordered : l.Pairwise (Before paths fs name)

/-- No search directory that has drop-ins is listed twice. -/
def Distinct : Prop := ∀ (i j : Nat) (dir : Path), paths.unitPath[i]? = some dir →
  paths.unitPath[j]? = some dir → confs fs (dir.join (name ++ ".d")) ≠ [] → i = j

/-- The paths of drop-ins in different directories compare as their names do, and for one name as
the precedence of the directories does. -/
def PathsAgree : Prop := ∀ (i j : Nat) (dir dir' : Path) (e f : String), i ≠ j →
  paths.unitPath[i]? = some dir → paths.unitPath[j]? = some dir' →
  e ∈ confs fs (dir.join (name ++ ".d")) → f ∈ confs fs (dir'.join (name ++ ".d")) →
  (e < f ∨ e = f ∧ j < i) → Path.le (dir ++ [name ++ ".d", e]) (dir' ++ [name ++ ".d", f])

variable {paths fs name} {i j : Nat} {e f : String} {p q dir dir' : Path}

/-- The directory of the drop-ins has a name of one component. -/
theorem isComponent_dropins (h : isPlainUnitName name) : Path.IsComponent (name ++ ".d") := by
  obtain ⟨hslash, -⟩ := isComponent_of_plain h
  have hlast : (name ++ ".d").toList.getLast? = some 'd' := by simp [String.toList_append]
  have hne : ∀ s : String, s.toList.getLast? ≠ some 'd' → name ++ ".d" ≠ s := by
    rintro s hs rfl
    exact hs hlast
  refine ⟨?_, hne "" (by decide), hne "." (by decide), hne ".." (by decide)⟩
  rw [String.toList_append, List.mem_append, not_or]
  exact ⟨hslash, by decide⟩

theorem mem_dropinsIn (h : isPlainUnitName name) : p ∈ dropinsIn fs name dir ↔
    ∃ e ∈ confs fs (dir.join (name ++ ".d")), p = dir ++ [name ++ ".d", e] := by
  rw [dropinsIn, List.mem_map]
  constructor
  · rintro ⟨e, he, rfl⟩
    refine ⟨e, he, ?_⟩
    have hcomponent := Fs.isComponent_of_mem (List.mem_filter.mp he).1
    rw [Path.join_component hcomponent, Path.join_component (isComponent_dropins h),
      List.append_assoc, List.singleton_append]
  · rintro ⟨e, he, rfl⟩
    refine ⟨e, he, ?_⟩
    have hcomponent := Fs.isComponent_of_mem (List.mem_filter.mp he).1
    rw [Path.join_component hcomponent, Path.join_component (isComponent_dropins h),
      List.append_assoc, List.singleton_append]

theorem mem_dropins (h : isPlainUnitName name) :
    p ∈ paths.dropins fs name ↔ ∃ i e, DropinAt paths fs name i e p := by
  rw [dropins_eq, List.mem_mergeSort, List.mem_flatMap]
  constructor
  · rintro ⟨dir, hdir, hp⟩
    obtain ⟨e, he, rfl⟩ := (mem_dropinsIn h).mp hp
    obtain ⟨i, hi⟩ := List.mem_iff_getElem?.mp (List.mem_reverse.mp hdir)
    exact ⟨i, e, dir, hi, he, rfl⟩
  · rintro ⟨i, e, dir, hi, he, rfl⟩
    exact ⟨dir, List.mem_reverse.mpr (List.mem_of_getElem? hi), (mem_dropinsIn h).mpr ⟨e, he, rfl⟩⟩

theorem dropins_sorted : (paths.dropins fs name).Pairwise fun p q ↦ Path.le p q :=
  @List.pairwise_mergeSort Path Path.le (fun _ _ _ ↦ Path.le_trans) Path.le_total _

/-- A path is one drop-in of one directory. -/
theorem DropinAt.eq (h : DropinAt paths fs name i e (dir ++ [name ++ ".d", f])) :
    paths.unitPath[i]? = some dir ∧ e ∈ confs fs (dir.join (name ++ ".d")) ∧ e = f := by
  obtain ⟨dir', hi, he, hpath⟩ := h
  obtain ⟨rfl, htail⟩ := List.append_inj' hpath rfl
  obtain rfl : f = e := by simpa using htail
  exact ⟨hi, he, rfl⟩

theorem nodup_dropinsIn (h : (fs.entries (dir.join (name ++ ".d"))).Nodup) :
    (dropinsIn fs name dir).Nodup := by
  apply List.Nodup.map_on _ (h.filter _)
  intro e he f hf heq
  rw [Path.join_component (Fs.isComponent_of_mem (List.mem_filter.mp he).1),
    Path.join_component (Fs.isComponent_of_mem (List.mem_filter.mp hf).1)] at heq
  simpa using List.append_cancel_left heq

/-- The list has no duplicates exactly where no directory that has drop-ins is listed twice. -/
theorem nodup_dropins (hplain : isPlainUnitName name) (hentries : ∀ dir, (fs.entries dir).Nodup) :
    (paths.dropins fs name).Nodup ↔ Distinct paths fs name := by
  rw [dropins_eq, (List.mergeSort_perm _ _).nodup_iff, List.nodup_flatMap, List.pairwise_reverse]
  have hin : ∀ dir ∈ paths.unitPath.reverse, (dropinsIn fs name dir).Nodup := by
    intro dir _
    exact nodup_dropinsIn (hentries _)
  rw [and_iff_right hin, List.pairwise_iff_getElem]
  constructor
  · intro h i j dir hi hj hne
    obtain ⟨e, he⟩ := List.exists_mem_of_ne_nil _ hne
    have hmem : dir ++ [name ++ ".d", e] ∈ dropinsIn fs name dir :=
      (mem_dropinsIn hplain).mpr ⟨e, he, rfl⟩
    obtain ⟨hil, hi⟩ := List.getElem?_eq_some_iff.mp hi
    obtain ⟨hjl, hj⟩ := List.getElem?_eq_some_iff.mp hj
    by_contra hij
    rcases Nat.lt_or_gt_of_ne hij with hlt | hlt
    · have hdisjoint := h i j hil hjl hlt
      rw [hi, hj] at hdisjoint
      exact hdisjoint hmem hmem
    · have hdisjoint := h j i hjl hil hlt
      rw [hi, hj] at hdisjoint
      exact hdisjoint hmem hmem
  · intro h i j hil hjl hlt p hp hq
    obtain ⟨e, he, rfl⟩ := (mem_dropinsIn hplain).mp hp
    obtain ⟨f, hf, heq⟩ := (mem_dropinsIn hplain).mp hq
    have hdir := (List.append_inj' heq rfl).1
    rw [hdir] at he
    have hsame := h i j _ (List.getElem?_eq_some_iff.mpr ⟨hil, rfl⟩)
      (List.getElem?_eq_some_iff.mpr ⟨hjl, hdir⟩) (List.ne_nil_of_mem he)
    omega

/-- In one directory the paths of drop-ins compare as their names do. -/
theorem le_of_name_lt (h : e < f) :
    Path.le (dir ++ [name ++ ".d", e]) (dir ++ [name ++ ".d", f]) := by
  have hsplit : ∀ c, dir ++ [name ++ ".d", c] = dir ++ [name ++ ".d"] ++ [c] := by simp
  rw [hsplit, hsplit]
  exact Path.le_of_lt h

/-- Where no directory is listed twice, a path is a drop-in in one way. -/
theorem DropinAt.unique (hdistinct : Distinct paths fs name) (h : DropinAt paths fs name i e p)
    (h' : DropinAt paths fs name j f p) : i = j ∧ e = f := by
  obtain ⟨dir, hi, he, rfl⟩ := h
  obtain ⟨hj, hf, rfl⟩ := h'.eq
  exact ⟨hdistinct i j dir hi hj (List.ne_nil_of_mem he), rfl⟩

theorem Before.asymm (hdistinct : Distinct paths fs name) (h : Before paths fs name p q) :
    ¬ Before paths fs name q p := by
  rintro ⟨j', i', f', e', hq', hp', horder'⟩
  obtain ⟨i, j, e, f, hp, hq, horder⟩ := h
  obtain ⟨rfl, rfl⟩ := hp.unique hdistinct hp'
  obtain ⟨rfl, rfl⟩ := hq.unique hdistinct hq'
  rcases horder with hlt | ⟨rfl, hlt⟩
  · rcases horder' with hgt | ⟨rfl, -⟩
    · exact String.lt_asymm hlt hgt
    · exact String.lt_irrefl _ hlt
  · rcases horder' with hgt | ⟨-, hgt⟩
    · exact String.lt_irrefl _ hgt
    · omega

theorem lt_or_eq_or_gt (e f : String) : e < f ∨ e = f ∨ f < e := by
  by_cases hlt : e < f
  · exact .inl hlt
  · by_cases hgt : f < e
    · exact .inr (.inr hgt)
    · exact .inr (.inl (String.le_antisymm (String.not_lt.mp hgt) (String.not_lt.mp hlt)))

theorem Before.total (hp : DropinAt paths fs name i e p) (hq : DropinAt paths fs name j f q)
    (hne : p ≠ q) : Before paths fs name p q ∨ Before paths fs name q p := by
  rcases lt_or_eq_or_gt e f with hlt | rfl | hlt
  · exact .inl ⟨i, j, e, f, hp, hq, .inl hlt⟩
  · rcases Nat.lt_trichotomy i j with hij | rfl | hij
    · exact .inr ⟨j, i, e, e, hq, hp, .inr ⟨rfl, hij⟩⟩
    · obtain ⟨dir, hi, -, rfl⟩ := hp
      obtain ⟨dir', hj, -, rfl⟩ := hq
      rw [hi] at hj
      obtain rfl := Option.some.inj hj
      exact absurd rfl hne
    · exact .inl ⟨i, j, e, e, hp, hq, .inr ⟨rfl, hij⟩⟩
  · exact .inr ⟨j, i, f, e, hq, hp, .inl hlt⟩

theorem before_agrees_iff : PathsAgree paths fs name ↔
    ∀ p q, Before paths fs name p q → Path.le p q := by
  constructor
  · rintro h p q ⟨i, j, e, f, ⟨dir, hi, he, rfl⟩, ⟨dir', hj, hf, rfl⟩, horder⟩
    by_cases hij : i = j
    · subst hij
      rw [hi] at hj
      obtain rfl := Option.some.inj hj
      rcases horder with hlt | ⟨-, hlt⟩
      · exact le_of_name_lt hlt
      · omega
    · exact h i j dir dir' e f hij hi hj he hf horder
  · intro h i j dir dir' e f hij hi hj he hf horder
    exact h _ _ ⟨i, j, e, f, ⟨dir, hi, he, rfl⟩, ⟨dir', hj, hf, rfl⟩, horder⟩

theorem pairwise_before_iff (hplain : isPlainUnitName name)
    (hentries : ∀ dir, (fs.entries dir).Nodup) (hdistinct : Distinct paths fs name) :
    (paths.dropins fs name).Pairwise (Before paths fs name) ↔ PathsAgree paths fs name := by
  have hnodup := (nodup_dropins hplain hentries).mpr hdistinct
  rw [before_agrees_iff, Sorting.pairwise_iff_agrees dropins_sorted hnodup
    (fun _ _ ↦ Path.le_antisymm) (fun _ _ _ _ ↦ Before.asymm hdistinct)]
  · constructor
    · intro h p q hbefore
      have hfound := hbefore
      obtain ⟨i, j, e, f, hp, hq, -⟩ := hfound
      apply h p ((mem_dropins hplain).mpr ⟨i, e, hp⟩) q _ hbefore
      exact (mem_dropins hplain).mpr ⟨j, f, hq⟩
    · intro h p _ q _
      exact h p q
  · intro p hp q hq hne
    obtain ⟨i, e, hp⟩ := (mem_dropins hplain).mp hp
    obtain ⟨j, f, hq⟩ := (mem_dropins hplain).mp hq
    exact Before.total hp hq hne

/-- The drop-ins are listed once each, by name and then by precedence, exactly where no directory
that has some is listed twice and the order of the paths is that order. -/
theorem dropins_ordered_iff (hplain : isPlainUnitName name)
    (hentries : ∀ dir, (fs.entries dir).Nodup) :
    DropinList paths fs name (paths.dropins fs name) ↔
      Distinct paths fs name ∧ PathsAgree paths fs name := by
  constructor
  · intro h
    have hdistinct := (nodup_dropins hplain hentries).mp h.once
    exact ⟨hdistinct, (pairwise_before_iff hplain hentries hdistinct).mp h.ordered⟩
  · rintro ⟨hdistinct, hagree⟩
    exact ⟨(nodup_dropins hplain hentries).mpr hdistinct, fun _ ↦ mem_dropins hplain,
      (pairwise_before_iff hplain hentries hdistinct).mpr hagree⟩

end Paths

theorem Fs.nodup_entries_ofFiles (files : List (Path × Except String String)) (dir : Path) :
    ((Fs.ofFiles files).entries dir).Nodup := by
  have hentries : ∀ l : List String, (l.map Except.ok).filterMap
      (Except.toOption : Except IoError String → Option String) = l := by
    intro l
    rw [List.filterMap_map]
    exact List.filterMap_some
  rw [Fs.entries, Fs.ofFiles]
  dsimp only
  rw [hentries]
  exact List.nodup_dedup _

namespace Paths

/-- Search directories with one drop-in of the same name each, for `a.service`. -/
def sameNames (dir dir' : String) : Paths × Fs where
  fst := { unitPath := [[dir], [dir']], configDir := [dir] }
  snd := Fs.ofFiles [([dir, "a.service.d", "x.conf"], .ok ""),
    ([dir', "a.service.d", "x.conf"], .ok "")]

theorem dropins_ordered_iff_run :
    DropinList (sameNames "run" "etc").1 (sameNames "run" "etc").2 "a.service"
        ((sameNames "run" "etc").1.dropins (sameNames "run" "etc").2 "a.service") ↔
      Distinct (sameNames "run" "etc").1 (sameNames "run" "etc").2 "a.service" ∧
        PathsAgree (sameNames "run" "etc").1 (sameNames "run" "etc").2 "a.service" :=
  dropins_ordered_iff (by decide +kernel) (Fs.nodup_entries_ofFiles _)

/-- The drop-in of `/usr` comes after the one of `/etc`, which has precedence. -/
theorem lower_precedence_last : ¬ ∀ (paths : Paths) (fs : Fs) (name : String),
    isPlainUnitName name → (∀ dir, (fs.entries dir).Nodup) →
    DropinList paths fs name (paths.dropins fs name) := by
  intro h
  have hplain : isPlainUnitName "a.service" := by decide +kernel
  have hentries : ∀ dir, ((sameNames "etc" "usr").2.entries dir).Nodup :=
    Fs.nodup_entries_ofFiles _
  have hlist := h (sameNames "etc" "usr").1 _ _ hplain hentries
  have hdistinct := (nodup_dropins hplain hentries).mp hlist.once
  have hagree := (pairwise_before_iff hplain hentries hdistinct).mp hlist.ordered
  have hle := hagree 1 0 ["usr"] ["etc"] "x.conf" "x.conf" (by decide) rfl rfl (by decide +kernel)
    (by decide +kernel) (.inr ⟨rfl, by decide⟩)
  revert hle
  decide +kernel

end Paths

end Rystemd

import Mathlib.Data.List.AList
import Mathlib.Data.List.Induction

namespace FileTree

/-- A path by its components from the root on. -/
abbrev Path := List String

/-- A path without `..`. -/
def clean (p : Path) : Path := p.foldl (fun q c ↦ if c = ".." then q.dropLast else q ++ [c]) []

inductive Target
  | absolute (path : Path)
  | relative (path : Path)
  deriving DecidableEq

/-- The path in a link as it is written. -/
def Target.raw : Target → Path
  | absolute path => path
  | relative path => path

/-- Where a link in a directory points to. -/
def Target.path (dir : Path) : Target → Path
  | absolute path => path
  | relative path => dir ++ path

/-- What stands at a path; a file may be unreadable. -/
inductive Node
  | file (text : Option String)
  | dir
  | link (target : Target)
  | special
  deriving DecidableEq

/-- The nodes of a file system. All but the root are in a directory. -/
structure Tree where
  nodes : AList fun _ : Path ↦ Node
  root : nodes.lookup [] = some .dir
  rooted : ∀ p ∈ nodes, nodes.lookup p.dropLast = some .dir

inductive Error
  | notFound
  | exists_
  | notDir
  | isDir
  deriving DecidableEq

/-- A name that an entry of a directory can have. -/
def IsName (c : String) : Prop := '/' ∉ c.toList ∧ c ≠ "" ∧ c ≠ "." ∧ c ≠ ".."

instance : DecidablePred IsName := fun _ ↦ inferInstanceAs (Decidable (_ ∧ _))

theorem clean_append (p : Path) {c : String} (h : c ≠ "..") : clean (p ++ [c]) = clean p ++ [c] := by
  rw [clean, List.foldl_append, List.foldl_cons, List.foldl_nil, if_neg h, clean]

theorem dots_notMem_clean (p : Path) : ".." ∉ clean p := by
  induction p using List.reverseRecOn with
  | nil => exact List.not_mem_nil
  | append_singleton p c ih =>
    by_cases hc : c = ".."
    · rw [clean, List.foldl_append, List.foldl_cons, List.foldl_nil, if_pos hc, ← clean]
      exact fun h ↦ ih (List.dropLast_subset _ h)
    · rw [clean_append p hc, List.mem_append, List.mem_singleton]
      exact fun h ↦ h.elim ih fun h ↦ hc h.symm

theorem clean_eq_self {p : Path} (h : ".." ∉ p) : clean p = p := by
  induction p using List.reverseRecOn with
  | nil => rfl
  | append_singleton p c ih =>
    rw [List.mem_append, List.mem_singleton, not_or] at h
    rw [clean_append p (Ne.symm h.2), ih h.1]

theorem clean_clean_dropLast (p : Path) : clean (clean p).dropLast = (clean p).dropLast :=
  clean_eq_self fun h ↦ dots_notMem_clean p (List.dropLast_subset _ h)

theorem dropLast_ne {p : Path} (h : p ≠ []) : p.dropLast ≠ p := by
  intro heq
  have hlen := congrArg List.length heq
  have hpos := List.length_pos_of_ne_nil h
  rw [List.length_dropLast] at hlen
  omega

namespace Tree

/-- The node at a path; a link stands for itself. -/
def node (t : Tree) (p : Path) : Option Node := t.nodes.lookup (clean p)

section Updates

variable {t : Tree} {p q : Path} {n : Node}

def put (t : Tree) (p : Path) (n : Node) (hp : t.nodes.lookup p.dropLast = some .dir)
    (hnew : t.nodes.lookup p = none) : Tree where
  nodes := t.nodes.insert p n
  root := by
    rw [AList.lookup_insert_ne, t.root]
    rintro rfl
    rw [t.root] at hnew
    cases hnew
  rooted q hq := by
    have hlookup : t.nodes.lookup q.dropLast = some .dir := by
      rcases (AList.mem_insert t.nodes).mp hq with rfl | hq
      · exact hp
      · exact t.rooted q hq
    rw [AList.lookup_insert_ne, hlookup]
    rintro rfl
    rw [hnew] at hlookup
    cases hlookup

/-- The tree without a node that is no directory. -/
def drop (t : Tree) (p : Path) (hn : t.nodes.lookup p ≠ some .dir) : Tree where
  nodes := t.nodes.erase p
  root := by
    rw [AList.lookup_erase_ne, t.root]
    rintro rfl
    exact hn t.root
  rooted q hq := by
    have hlookup := t.rooted q (AList.mem_erase.mp hq).2
    rw [AList.lookup_erase_ne, hlookup]
    rintro rfl
    exact hn hlookup

end Updates

/-- Why there is nothing at a path: a component before the last is no directory, or is missing. -/
def missing (t : Tree) (p : Path) : Error :=
  if p.dropLast.inits.any fun q ↦ (t.nodes.lookup q).any (· ≠ .dir) then .notDir else .notFound

/-- Remove what is at a path, unless it is a directory. -/
def removeFile (t : Tree) (p : Path) : Option Error × Tree :=
  if h : t.node p = some .dir then (some .isDir, t)
  else if t.node p = none then (some (t.missing (clean p)), t)
  else (none, t.drop (clean p) h)

/-- Make a link where nothing is. -/
def symlink (t : Tree) (target : Target) (p : Path) : Option Error × Tree :=
  if hdir : t.nodes.lookup (clean p).dropLast = some .dir then
    if hnew : t.node p = none then (none, t.put (clean p) (.link target) hdir hnew)
    else (some .exists_, t)
  else (some (t.missing (clean p)), t)

/-- Make the directories below a directory, one in the other. -/
def createDirs (dir : Path) : List String → Tree → Option Error × Tree
  | [], t => (none, t)
  | c :: cs, t =>
    if t.nodes.lookup (dir ++ [c]) = some .dir then createDirs (dir ++ [c]) cs t
    else if hnew : t.nodes.lookup (dir ++ [c]) = none then
      if hdir : t.nodes.lookup (dir ++ [c]).dropLast = some .dir then
        createDirs (dir ++ [c]) cs (t.put (dir ++ [c]) .dir hdir hnew)
      else (some .notDir, t)
    else (some (if cs = [] then .exists_ else .notDir), t)

def createDirAll (t : Tree) (p : Path) : Option Error × Tree := createDirs [] (clean p) t

/-- The file system with nothing but the root. -/
def bare : Tree where
  nodes := AList.singleton [] .dir
  root := rfl
  rooted p hp := by
    rw [AList.mem_keys, AList.keys_singleton, List.mem_singleton] at hp
    rw [hp]
    rfl

/-- The tree with a new node, and the directories above it. -/
def addNode (t : Tree) (p : Path) (n : Node) : Tree :=
  let t := (t.createDirAll p.dropLast).2
  if h : t.nodes.lookup p.dropLast = some .dir ∧ t.nodes.lookup p = none then t.put p n h.1 h.2
  else t

/-- The names in a directory. -/
def readDir (t : Tree) (p : Path) : Option (List String) :=
  if t.node p = some .dir then
    some ((t.nodes.keys.filterMap fun q ↦
      if q ≠ [] ∧ q.dropLast = clean p then q.getLast? else none).filter IsName)
  else none

/-- The number of links that are followed one after the other. -/
def maxLinks : Nat := 40

/-- What is at a path when so many links may be followed. -/
def follow (t : Tree) : Nat → Path → Option Node
  | 0, p =>
    match t.node p with
    | some (.link _) => none
    | n => n
  | links + 1, p =>
    match t.node p with
    | some (.link target) => t.follow links (target.path (clean p).dropLast)
    | n => n

/-- What is at the end of the links at a path. -/
def stat (t : Tree) (p : Path) : Option Node := t.follow maxLinks p

def readLink (t : Tree) (p : Path) : Option Target :=
  match t.node p with
  | some (.link target) => some target
  | _ => none

section Lemmas

variable {t : Tree} {p q dir : Path} {n : Node} {target : Target} {c : String} {cs : List String}

theorem lookup_put (hp : t.nodes.lookup p.dropLast = some .dir) (hnew : t.nodes.lookup p = none) :
    (t.put p n hp hnew).nodes.lookup q = if q = p then some n else t.nodes.lookup q := by
  unfold put
  split
  · next h => rw [h, AList.lookup_insert]
  · next h => rw [AList.lookup_insert_ne h]

theorem removeFile_eq_none_iff :
    (t.removeFile p).1 = none ↔ t.node p ≠ none ∧ t.node p ≠ some .dir := by
  unfold removeFile
  split
  · next h => simp [h]
  · next h =>
    split
    · next hnone => simp [hnone]
    · next hnone => simp [h, hnone]

theorem lookup_removeFile : (t.removeFile p).2.nodes.lookup q =
    if q = clean p ∧ t.node p ≠ some .dir then none else t.nodes.lookup q := by
  unfold removeFile
  split
  · next h => rw [if_neg fun h' ↦ h'.2 h]
  · next h =>
    split
    · next hnone =>
      split
      · next hq =>
        rw [hq.1]
        exact hnone
      · rfl
    · unfold drop
      by_cases hq : q = clean p
      · rw [if_pos ⟨hq, h⟩, hq, AList.lookup_erase]
      · rw [if_neg fun h' ↦ hq h'.1, AList.lookup_erase_ne hq]

theorem removeFile_node : (t.removeFile p).2.node q =
    if clean q = clean p ∧ t.node p ≠ some .dir then none else t.node q := lookup_removeFile

theorem symlink_eq_none_iff : (t.symlink target p).1 = none ↔
    t.node p = none ∧ t.nodes.lookup (clean p).dropLast = some .dir := by
  unfold symlink
  split
  · next hdir =>
    split
    · next hnew => simp [hdir, hnew]
    · next hnew => simp [hnew]
  · next hdir => simp [hdir]

theorem symlink_error (h : (t.symlink target p).1 ≠ none) : (t.symlink target p).2 = t := by
  unfold symlink at h ⊢
  split
  · next hdir =>
    rw [dif_pos hdir] at h
    split
    · next hnew =>
      rw [dif_pos hnew] at h
      exact absurd rfl h
    · rfl
  · rfl

theorem lookup_symlink : (t.symlink target p).2.nodes.lookup q =
    if q = clean p ∧ (t.symlink target p).1 = none then some (.link target)
    else t.nodes.lookup q := by
  by_cases h : (t.symlink target p).1 = none
  · obtain ⟨hnew, hdir⟩ := symlink_eq_none_iff.mp h
    simp only [h, and_true]
    unfold symlink
    rw [dif_pos hdir, dif_pos hnew]
    exact lookup_put hdir hnew
  · rw [if_neg fun h' ↦ h h'.2, symlink_error h]

theorem symlink_node : (t.symlink target p).2.node q =
    if clean q = clean p ∧ (t.symlink target p).1 = none then some (.link target)
    else t.node q := lookup_symlink

/-- What stands in the tree has a directory above it. -/
theorem dir_above (h : t.node p ≠ none) : t.nodes.lookup (clean p).dropLast = some .dir := by
  apply t.rooted
  rw [← AList.lookup_isSome]
  exact Option.isSome_iff_ne_none.mpr h

theorem mem_readDir {names : List String} (h : t.readDir p = some names) :
    c ∈ names ↔ IsName c ∧ t.nodes.lookup (clean p ++ [c]) ≠ none := by
  unfold readDir at h
  split at h
  · cases h
    rw [List.mem_filter, List.mem_filterMap, ← Option.isSome_iff_ne_none, AList.lookup_isSome,
      and_comm, decide_eq_true_eq]
    apply and_congr_right
    intro _
    constructor
    · rintro ⟨q, hq, hc⟩
      split at hc
      · next hdir =>
        rw [← hdir.2, List.dropLast_append_getLast? c hc]
        exact hq
      · cases hc
    · intro hmem
      refine ⟨clean p ++ [c], hmem, ?_⟩
      rw [if_pos ⟨List.concat_ne_nil c (clean p), List.dropLast_concat⟩, List.getLast?_concat]
  · cases h

/-- What is above a node is a directory. -/
theorem lookup_above (h : t.nodes.lookup (p ++ cs) ≠ none) (hcs : cs ≠ []) :
    t.nodes.lookup p = some .dir := by
  induction cs using List.reverseRecOn with
  | nil => exact absurd rfl hcs
  | append_singleton cs c ih =>
    have habove := t.rooted (p ++ (cs ++ [c])) (by
      rw [← AList.lookup_isSome]
      exact Option.isSome_iff_ne_none.mpr h)
    rw [← List.append_assoc, List.dropLast_concat] at habove
    cases cs with
    | nil =>
      rw [List.append_nil] at habove
      exact habove
    | cons d cs =>
      apply ih
      · rw [habove]
        exact Option.some_ne_none _
      · exact List.cons_ne_nil d cs

/-- Nothing is to be made where the directory is. -/
theorem createDirs_of_dir (h : t.nodes.lookup (dir ++ cs) = some .dir) :
    createDirs dir cs t = (none, t) := by
  induction cs generalizing dir with
  | nil => rfl
  | cons c cs ih =>
    have hsplit : dir ++ c :: cs = dir ++ [c] ++ cs := by simp
    rw [hsplit] at h
    have hc : t.nodes.lookup (dir ++ [c]) = some .dir := by
      cases cs with
      | nil =>
        rw [List.append_nil] at h
        exact h
      | cons d cs =>
        apply lookup_above
        · rw [h]
          exact Option.some_ne_none _
        · exact List.cons_ne_nil d cs
    rw [createDirs, if_pos hc]
    exact ih h

/-- What is made are directories, where nothing was. -/
theorem lookup_createDirs : (createDirs dir cs t).2.nodes.lookup q = t.nodes.lookup q ∨
    t.nodes.lookup q = none ∧ (createDirs dir cs t).2.nodes.lookup q = some .dir := by
  induction cs generalizing dir t with
  | nil => exact Or.inl rfl
  | cons c cs ih =>
    rw [createDirs]
    split
    · exact ih
    · split
      · next hnew =>
        split
        · next hdir =>
          have hput := lookup_put (q := q) (n := .dir) hdir hnew
          by_cases hq : q = dir ++ [c]
          · rw [if_pos hq] at hput
            have hnone : t.nodes.lookup q = none := by rw [hq, hnew]
            refine Or.inr ⟨hnone, ?_⟩
            rw [← hput]
            apply ih.resolve_right
            rw [hput]
            rintro ⟨h, -⟩
            cases h
          · rw [if_neg hq] at hput
            rw [← hput]
            exact ih
        · exact Or.inl rfl
      · exact Or.inl rfl

theorem createDirs_dir (hdir : t.nodes.lookup dir = some .dir)
    (h : (createDirs dir cs t).1 = none) :
    (createDirs dir cs t).2.nodes.lookup (dir ++ cs) = some .dir := by
  induction cs generalizing dir t with
  | nil =>
    rw [List.append_nil]
    exact hdir
  | cons c cs ih =>
    rw [createDirs] at h ⊢
    have hsplit : dir ++ c :: cs = dir ++ [c] ++ cs := by simp
    rw [hsplit]
    split at h
    · next hc =>
      rw [if_pos hc]
      exact ih hc h
    · next hc =>
      rw [if_neg hc]
      split at h
      · next hnew =>
        rw [dif_pos hnew]
        split at h
        · next hd =>
          rw [dif_pos hd]
          exact ih (AList.lookup_insert _) h
        · cases h
      · cases h

theorem createDirAll_of_dir (h : t.nodes.lookup (clean p) = some .dir) :
    t.createDirAll p = (none, t) := createDirs_of_dir h

theorem createDirAll_dir (h : (t.createDirAll p).1 = none) :
    (t.createDirAll p).2.nodes.lookup (clean p) = some .dir := createDirs_dir t.root h

theorem lookup_createDirAll : (t.createDirAll p).2.nodes.lookup q = t.nodes.lookup q ∨
    t.nodes.lookup q = none ∧ (t.createDirAll p).2.nodes.lookup q = some .dir :=
  lookup_createDirs

theorem stat_none (h : t.node p = none) : t.stat p = none := by
  rw [stat, maxLinks, follow, h]

end Lemmas

/-- Nothing is new, and no directory is gone. -/
def Pruned (t t' : Tree) : Prop :=
  ∀ q, t'.node q = t.node q ∨ t'.node q = none ∧ t.node q ≠ some .dir

theorem Pruned.refl (t : Tree) : Pruned t t := fun _ ↦ Or.inl rfl

theorem Pruned.trans {t t' t'' : Tree} (h : Pruned t t') (h' : Pruned t' t'') : Pruned t t'' := by
  intro q
  rcases h q with hsame | ⟨hnone, hdir⟩
  · rw [← hsame]
    exact h' q
  · rcases h' q with hsame | ⟨hnone', -⟩
    · exact Or.inr ⟨hsame.trans hnone, hdir⟩
    · exact Or.inr ⟨hnone', hdir⟩

/-- One tree is the other without what is at some paths, directories apart. -/
structure Without (S : Path → Prop) (t t' : Tree) : Prop where
  gone : ∀ q, S (clean q) → t.node q ≠ some .dir → t'.node q = none
  kept : ∀ q, ¬ S (clean q) ∨ t.node q = some .dir → t'.node q = t.node q

namespace Without

variable {S S' : Path → Prop} {t t' t'' : Tree}

theorem refl (t : Tree) : Without (fun _ ↦ False) t t := ⟨fun _ h ↦ h.elim, fun _ _ ↦ rfl⟩

theorem congr (h : Without S t t') (hs : ∀ q, S q ↔ S' q) : Without S' t t' where
  gone q hq := h.gone q ((hs _).mpr hq)
  kept q hq := h.kept q (hq.imp (fun hq h ↦ hq ((hs _).mp h)) id)

theorem trans (h : Without S t t') (h' : Without S' t' t'') :
    Without (fun q ↦ S q ∨ S' q) t t'' where
  gone q hq hdir := by
    by_cases hs : S (clean q)
    · have hnone := h.gone q hs hdir
      by_cases hs' : S' (clean q)
      · exact h'.gone q hs' (by rw [hnone]; exact Option.some_ne_none _ |>.symm)
      · rw [h'.kept q (Or.inl hs'), hnone]
    · have hsame := h.kept q (Or.inl hs)
      exact h'.gone q (hq.resolve_left hs) (by rwa [hsame])
  kept q hq := by
    have hsame := h.kept q (hq.imp (fun hq h ↦ hq (Or.inl h)) id)
    rw [h'.kept q (hq.imp (fun hq h ↦ hq (Or.inr h)) (by rw [hsame]; exact id)), hsame]

/-- Paths at which nothing is may be added. -/
theorem widen (h : Without S t t') (hs : ∀ q, S q → S' q)
    (hnew : ∀ q, S' q → ¬ S q → t.nodes.lookup q = none) : Without S' t t' where
  gone q hq hdir := by
    by_cases hold : S (clean q)
    · exact h.gone q hold hdir
    · rw [h.kept q (Or.inl hold)]
      exact hnew _ hq hold
  kept q hq := h.kept q (hq.imp (fun hq hold ↦ hq (hs _ hold)) id)

theorem pruned (h : Without S t t') : Pruned t t' := by
  intro q
  by_cases hs : S (clean q)
  · by_cases hdir : t.node q = some .dir
    · exact Or.inl (h.kept q (Or.inr hdir))
    · exact Or.inr ⟨h.gone q hs hdir, hdir⟩
  · exact Or.inl (h.kept q (Or.inl hs))

theorem removeFile (p : Path) : Without (· = clean p) t (t.removeFile p).2 where
  gone q hq hdir := by
    have hp : t.node p ≠ some .dir := by
      rw [node, ← hq]
      exact hdir
    rw [removeFile_node, if_pos ⟨hq, hp⟩]
  kept q hq := by
    rw [removeFile_node, if_neg]
    rintro ⟨heq, hp⟩
    rcases hq with hq | hdir
    · exact hq heq
    · rw [node, heq] at hdir
      exact hp hdir

theorem foldl {α : Type} {S : α → Path → Prop} {f : Tree → α → Tree} {l : List α}
    (h : ∀ a ∈ l, ∀ t, Without (S a) t (f t a)) :
    Without (fun q ↦ ∃ a ∈ l, S a q) t (l.foldl f t) := by
  induction l generalizing t with
  | nil => exact (refl t).congr fun q ↦ by simp
  | cons a l ih =>
    have hhead := h a List.mem_cons_self t
    have htail := ih (t := f t a) fun b hb ↦ h b (List.mem_cons_of_mem a hb)
    exact (hhead.trans htail).congr fun q ↦ by simp

end Without

/-- One tree is the other with some links, where no directories were, and with new directories. -/
def Linked (L : Path → Target → Prop) (t t' : Tree) : Prop :=
  ∀ q, t'.node q = t.node q ∨ t.node q = none ∧ t'.node q = some .dir ∨
    ∃ target, L (clean q) target ∧ t'.node q = some (.link target)

section Follow

variable {t t' : Tree} {p q : Path} {n : Node} {k k' : Nat} {target : Target} {text : Option String}

end Follow

namespace Linked

variable {L L' : Path → Target → Prop} {t t' t'' : Tree} {p q : Path} {target : Target} {k : Nat}
  {text : Option String}

theorem refl (t : Tree) : Linked L t t := fun _ ↦ Or.inl rfl

theorem trans (h : Linked L t t') (h' : Linked L t' t'') : Linked L t t'' := by
  intro q
  rcases h' q with hsame | ⟨hnone, hdir⟩ | hlink
  · rw [hsame]
    exact h q
  · rcases h q with hsame | ⟨-, hdir'⟩ | ⟨target, -, hlink⟩
    · exact Or.inr (Or.inl ⟨hsame.symm.trans hnone, hdir⟩)
    · rw [hnone] at hdir'
      cases hdir'
    · rw [hnone] at hlink
      cases hlink
  · exact Or.inr (Or.inr hlink)

theorem mono (h : Linked L t t') (hL : ∀ q target, L q target → L' q target) : Linked L' t t' := by
  intro q
  rcases h q with hsame | hdir | ⟨target, hlink, hnode⟩
  · exact Or.inl hsame
  · exact Or.inr (Or.inl hdir)
  · exact Or.inr (Or.inr ⟨target, hL _ _ hlink, hnode⟩)

theorem createDirAll (p : Path) : Linked L t (t.createDirAll p).2 := by
  intro q
  rcases lookup_createDirAll (t := t) (p := p) (q := clean q) with hsame | hdir
  · exact Or.inl hsame
  · exact Or.inr (Or.inl hdir)

/-- A link takes the place of what has been removed there. -/
theorem symlink (h : Without (· = clean p) t t') :
    Linked (fun q target' ↦ q = clean p ∧ target' = target) t (t'.symlink target p).2 := by
  intro q
  rw [symlink_node]
  split
  · next hq => exact Or.inr (Or.inr ⟨target, ⟨hq.1, rfl⟩, rfl⟩)
  · next hq =>
    left
    by_cases hp : clean q = clean p
    · -- The link was not made, so that nothing had been removed.
      have hfail : (t'.symlink target p).1 ≠ none := fun hmade ↦ hq ⟨hp, hmade⟩
      have hnode : t'.node q = t'.node p := by rw [node, node, hp]
      have hnode' : t.node q = t.node p := by rw [node, node, hp]
      rw [hnode, hnode']
      by_cases hdir : t.node p = some .dir
      · exact h.kept p (Or.inr hdir)
      · have hgone := h.gone p rfl hdir
        rw [hgone]
        by_contra hsome
        apply hfail
        rw [symlink_eq_none_iff]
        refine ⟨hgone, ?_⟩
        have habove := dir_above (Ne.symm hsome)
        have hne : clean p ≠ [] := by
          intro hnil
          rw [node, hnil] at hdir
          exact hdir t.root
        have hkept := h.kept (clean p).dropLast (Or.inl (by
          rw [clean_clean_dropLast]
          exact dropLast_ne hne))
        rw [node, node, clean_clean_dropLast] at hkept
        rw [hkept]
        exact habove
    · exact h.kept q (Or.inl hp)

end Linked

end Tree

end FileTree

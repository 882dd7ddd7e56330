import Rystemd.Disk
import Rystemd.Library.Calls
import Rystemd.Library.Segments
import Rystemd.Library.Utf8

namespace Rystemd

open Text Calls

/-- The bytes of a key: letters, digits, dots, underscores and hyphens. -/
def isKeyByte (b : UInt8) : Bool := Utf8.isAlphanumeric b || b = 46 || b = 95 || b = 45

def sysctlKeyIsSafe (key : String) : Bool :=
  key ≠ "" && !contains "\x00" key && !contains "/" key && !contains ".." key &&
    !startsWith '.' key && key.toList.getLast? ≠ some '.' &&
    (Utf8.encode key.toList).all isKeyByte

/-- The file of a key. -/
def sysctlPath (key : String) : String :=
  "/proc/sys/" ++ String.ofList (key.toList.map fun c ↦ if c = '.' then '/' else c)

inductive SysctlCall
  | readDir (path : String)
  | read (path : String)
  | write (path value : String)
  | log (message : String)

inductive SysctlAnswer
  | names (entries : Option (List String))
  | text (contents : Option String)
  | done (error : Option String)

abbrev SysctlProg := Prog SysctlCall SysctlAnswer String

/-- The key and the value of a line that has them. -/
def sysctlSetting (rawLine : String) : Option (String × String) :=
  let line := trim rawLine
  if line = "" ∨ startsWith '#' line ∨ startsWith ';' line then none
  else
    let rest := (stripPrefix "-" line).getD line
    (splitOnce '=' rest).map fun setting ↦ (trim setting.1, trim setting.2)

/-- What a line does; it counts as bad if its key is refused or the write fails. -/
@[irreducible]
def applyLine (f : String) (lineno : Nat) (rawLine : String) : SysctlProg Nat :=
  match sysctlSetting rawLine with
  | none => return 0
  | some (key, val) =>
    if sysctlKeyIsSafe key then do
      let path := sysctlPath key
      match ← Prog.ask (.write path val) with
      | .done (some e) =>
        let _ ← Prog.ask (.log s!"rystemd boot[sysctl]: {f}:{lineno + 1}: write {path} failed: {e}")
        return 1
      | _ => return 0
    else do
      let _ ← Prog.ask
        (.log s!"rystemd boot[sysctl]: {f}:{lineno + 1}: refused unsafe sysctl key `{key}`")
      return 1

/-- A file that cannot be read is passed over. -/
def applySysctlFile (badLines : Nat) (f : String) : SysctlProg Nat := do
  match ← Prog.ask (.read f) with
  | .text (some text) =>
    (lines text).zipIdx.foldlM (fun badLines line ↦ do
      return badLines + (← applyLine f line.2 line.1)) badLines
  | _ => return badLines

/-- The files with settings, those of the directory in the order of their paths. -/
def sysctlFiles : SysctlProg (List String) := do
  match ← Prog.ask (.readDir "/etc/sysctl.d") with
  | .names (some entries) =>
    let confs := entries.filter fun e ↦
      (rsplitOnce '.' e).any fun p ↦ p.1 ≠ "" ∧ p.2 = "conf"
    return "/etc/sysctl.conf" ::
      ((confs.map ("/etc/sysctl.d/" ++ ·)).mergeSort fun p q ↦ !decide (q < p))
  | _ => return ["/etc/sysctl.conf"]

def applySysctl : SysctlProg PUnit := do
  let files ← sysctlFiles
  let badLines ← files.foldlM applySysctlFile 0
  if badLines = 0 then return () else .fail s!"{badLines} sysctl line(s) skipped or failed"

/-- A path that never leads out of `/proc/sys`. -/
def InsideProcSys (path : String) : Prop :=
  ∃ comps : List String, comps ≠ [] ∧ (∀ c ∈ comps, Path.IsComponent c ∧ '\x00' ∉ c.toList) ∧
    path = "/proc/sys/" ++ "/".intercalate comps

/-- A character of a segment of a key. -/
def isSegmentChar (c : Char) : Bool := c.isAlphanum || c = '_' || c = '-'

variable {key f : String} {n : Nat}

theorem isKeyByte_ascii {c : Char} (h : c.toNat < 128) :
    isKeyByte (UInt8.ofNat c.toNat) ↔ isSegmentChar c ∨ c = '.' := by
  have hall : ∀ n : Fin 128, isKeyByte (UInt8.ofNat n.val) ↔
      isSegmentChar (Char.ofNat n.val) ∨ Char.ofNat n.val = '.' := by decide +kernel
  have hc := hall ⟨c.toNat, h⟩
  rwa [Char.ofNat_toNat] at hc

theorem ascii_of_isSegmentChar {c : Char} (h : isSegmentChar c ∨ c = '.') : c.toNat < 128 := by
  rw [isSegmentChar, Bool.or_eq_true, Bool.or_eq_true, decide_eq_true_eq, decide_eq_true_eq] at h
  rcases h with ((h | rfl) | rfl) | rfl
  · have := isAlphanum_iff.mp h
    omega
  · decide
  · decide
  · decide

theorem isKeyByte_lt {b : UInt8} (h : isKeyByte b) : b.toNat < 128 := by
  have hall : ∀ n : Fin 256, isKeyByte (UInt8.ofNat n.val) → n.val < 128 := by decide +kernel
  have hb := hall ⟨b.toNat, b.toNat_lt⟩
  rw [UInt8.ofNat_toNat] at hb
  exact hb h

/-- The bytes of a text are those of a key if its characters are. -/
theorem keyBytes_iff {cs : List Char} :
    (Utf8.encode cs).all isKeyByte ↔ ∀ c ∈ cs, isSegmentChar c ∨ c = '.' := by
  induction cs with
  | nil => exact ⟨fun _ c hc ↦ (List.not_mem_nil hc).elim, fun _ ↦ rfl⟩
  | cons c cs ih =>
    rw [Utf8.encode_cons, List.all_append, Bool.and_eq_true, ih, List.forall_mem_cons]
    apply and_congr_left
    intro _
    by_cases hc : c.toNat < 128
    · rw [Utf8.encodeChar_ascii hc, List.all_cons, List.all_nil, Bool.and_true, isKeyByte_ascii hc]
    · constructor
      · intro h
        obtain ⟨b, bs, hchar, -⟩ := Utf8.encodeChar_first c
        have hb : b ∈ String.utf8EncodeChar c := hchar ▸ List.mem_cons_self
        have hlt := isKeyByte_lt (List.all_eq_true.mp h b hb)
        have hge := Utf8.encodeChar_great (Nat.not_lt.mp hc) hb
        omega
      · intro h
        exact absurd (ascii_of_isSegmentChar h) hc

/-- A key is safe if it is made of segments with single dots between them. -/
theorem sysctlKeyIsSafe_iff : sysctlKeyIsSafe key ↔
    Segments.Tight '.' key.toList ∧ ∀ c ∈ key.toList, isSegmentChar c ∨ c = '.' := by
  have hnot : ∀ p : String, ¬ contains p key ↔ ¬ p.toList <:+: key.toList := fun p ↦
    not_congr contains_iff
  simp only [sysctlKeyIsSafe, startsWith, Bool.and_eq_true, keyBytes_iff, Bool.not_eq_true',
    decide_eq_true_eq, ← Bool.not_eq_true, hnot]
  constructor
  · rintro ⟨⟨⟨⟨⟨⟨hne, -⟩, -⟩, hapart⟩, hhead⟩, hlast⟩, hchars⟩
    exact ⟨⟨mt String.toList_eq_nil_iff.mp hne, hhead, hlast, hapart⟩, hchars⟩
  · rintro ⟨⟨hne, hhead, hlast, hapart⟩, hchars⟩
    refine ⟨⟨⟨⟨⟨⟨mt String.toList_eq_nil_iff.mpr hne, ?_⟩, ?_⟩, hapart⟩, hhead⟩, hlast⟩, hchars⟩
    · intro h
      rcases hchars '\x00' (h.subset (by decide)) with h | h
      · revert h
        decide
      · revert h
        decide
    · intro h
      rcases hchars '/' (h.subset (by decide)) with h | h
      · revert h
        decide
      · revert h
        decide

/-- A segment is a component of a path. -/
theorem component_of_segment {part : List Char} (hne : part ≠ [])
    (h : ∀ d ∈ part, isSegmentChar d) :
    Path.IsComponent (String.ofList part) ∧ '\x00' ∉ (String.ofList part).toList := by
  have hnot : ∀ d, ¬ isSegmentChar d → d ∉ part := fun d hd hmem ↦ hd (h d hmem)
  rw [Path.IsComponent, String.toList_ofList]
  refine ⟨⟨hnot '/' (by decide), ?_, ?_, ?_⟩, hnot '\x00' (by decide)⟩
  · rwa [ne_eq, String.ofList_eq_empty_iff]
  · intro heq
    have hpart : part = ['.'] := by rw [← String.toList_ofList (l := part), heq]; rfl
    exact hnot '.' (by decide) (hpart ▸ List.mem_cons_self)
  · intro heq
    have hpart : part = ['.', '.'] := by rw [← String.toList_ofList (l := part), heq]; rfl
    exact hnot '.' (by decide) (hpart ▸ List.mem_cons_self)

/-- The path of a safe key has the segments of the key as its components. -/
theorem inside_of_safe (h : sysctlKeyIsSafe key) : InsideProcSys (sysctlPath key) := by
  obtain ⟨htight, hchars⟩ := sysctlKeyIsSafe_iff.mp h
  have hdots : ∀ part ∈ key.toList.splitOn '.', '.' ∉ part := fun part ↦ not_mem_splitOn
  have hne : ∀ part ∈ key.toList.splitOn '.', part ≠ [] := by
    apply (Segments.tight_intercalate (List.splitOn_ne_nil _ _) hdots).mp
    rw [List.intercalate_splitOn]
    exact htight
  refine ⟨(key.toList.splitOn '.').map String.ofList, ?_, ?_, ?_⟩
  · rw [ne_eq, List.map_eq_nil_iff]
    exact List.splitOn_ne_nil _ _
  · intro c hc
    obtain ⟨part, hpart, rfl⟩ := List.mem_map.mp hc
    have hmem : ∀ d ∈ part, isSegmentChar d := by
      intro d hd
      have hkey : d ∈ key.toList := by
        rw [← @List.intercalate_splitOn _ key.toList _ _ '.']
        exact Segments.mem_intercalate_of_mem hpart hd
      apply (hchars d hkey).resolve_right
      rintro rfl
      exact hdots part hpart hd
    exact component_of_segment (hne part hpart) hmem
  · rw [sysctlPath]
    congr 1
    have hparts : ((key.toList.splitOn '.').map String.ofList).map String.toList =
        key.toList.splitOn '.' := by
      rw [List.map_map]
      exact (List.map_congr_left fun part _ ↦ String.toList_ofList).trans (List.map_id _)
    rw [← String.toList_inj, String.toList_ofList, String.toList_intercalate, hparts]
    have hmap := Segments.map_intercalate (b := '/') hdots
    rw [List.intercalate_splitOn] at hmap
    exact hmap

/-- Segments that are joined by single dots make a safe key. -/
theorem safe_of_segments {segs : List String} (hsegs : segs ≠ [])
    (h : ∀ s ∈ segs, s ≠ "" ∧ ∀ c ∈ s.toList, isSegmentChar c) :
    sysctlKeyIsSafe (".".intercalate segs) := by
  have hlist : (".".intercalate segs).toList = ['.'].intercalate (segs.map String.toList) :=
    String.toList_intercalate
  rw [sysctlKeyIsSafe_iff, hlist]
  constructor
  · have hdots : ∀ l ∈ segs.map String.toList, '.' ∉ l := by
      intro l hl hdot
      obtain ⟨s, hs, rfl⟩ := List.mem_map.mp hl
      exact absurd ((h s hs).2 '.' hdot) (by decide)
    apply (Segments.tight_intercalate (mt List.map_eq_nil_iff.mp hsegs) hdots).mpr
    intro l hl
    obtain ⟨s, hs, rfl⟩ := List.mem_map.mp hl
    exact mt String.toList_eq_nil_iff.mp (h s hs).1
  · intro c hc
    rcases Segments.mem_intercalate hc with rfl | ⟨l, hl, hcl⟩
    · exact .inr rfl
    · obtain ⟨s, hs, rfl⟩ := List.mem_map.mp hl
      exact .inl ((h s hs).2 c hcl)

/-- A call that writes nowhere else than below `/proc/sys`. -/
def StaysInside : SysctlCall → Prop
  | .write path _ => InsideProcSys path
  | _ => True

theorem only_applyLine (line : String) : (applyLine f n line).Only StaysInside := by
  unfold applyLine
  split
  · exact Prog.only_pure _
  · next key val hline =>
    split
    · next hsafe =>
      have hwrite : StaysInside (.write (sysctlPath key) val) := inside_of_safe hsafe
      apply Prog.only_bind (Prog.only_ask hwrite)
      intro r
      split
      · exact Prog.only_bind (Prog.only_ask trivial) fun _ ↦ Prog.only_pure _
      · exact Prog.only_pure _
    · exact Prog.only_bind (Prog.only_ask trivial) fun _ ↦ Prog.only_pure _

theorem only_applySysctlFile : (applySysctlFile n f).Only StaysInside := by
  have hread : (Prog.ask (.read f) : SysctlProg SysctlAnswer).Only StaysInside :=
    Prog.only_ask trivial
  apply Prog.only_bind hread
  intro r
  split
  · next text =>
    apply Prog.only_foldlM
    intro badLines line _
    have hline : (applyLine f line.2 line.1).Only StaysInside := only_applyLine line.1
    exact Prog.only_bind hline fun bad ↦ Prog.only_pure (badLines + bad)
  · exact Prog.only_pure _

theorem only_sysctlFiles : sysctlFiles.Only StaysInside := by
  apply Prog.only_bind (Prog.only_ask trivial)
  intro r
  split
  · exact Prog.only_pure _
  · exact Prog.only_pure _

theorem only_applySysctl : applySysctl.Only StaysInside := by
  apply Prog.only_bind only_sysctlFiles
  intro files
  apply Prog.only_bind (Prog.only_foldlM (fun _ _ _ ↦ only_applySysctlFile) 0)
  intro badLines
  split
  · exact Prog.only_pure _
  · trivial

/-- A line with a safe key is written first of all to the file of the key. -/
theorem applyLine_safe {line val : String} (hline : sysctlSetting line = some (key, val))
    (hsafe : sysctlKeyIsSafe key) :
    ∃ next, applyLine f n line = .call (.write (sysctlPath key) val) next := by
  unfold applyLine
  rw [hline]
  dsimp only
  rw [if_pos hsafe]
  exact ⟨_, rfl⟩

/-- The path of each line whose key is safe lies below `/proc/sys`, no run writes elsewhere, and
keys of segments with single dots between them are accepted. -/
theorem sysctl_keys_stay_inside :
    (∀ f n line key val, sysctlSetting line = some (key, val) → sysctlKeyIsSafe key →
      InsideProcSys (sysctlPath key) ∧
        ∃ next, applyLine f n line = .call (.write (sysctlPath key) val) next) ∧
      (∀ t res, Prog.Runs applySysctl t res → ∀ path value answer,
        (.write path value, answer) ∈ t → InsideProcSys path) ∧
      ∀ segs : List String, segs ≠ [] →
        (∀ s ∈ segs, s ≠ "" ∧ ∀ c ∈ s.toList, isSegmentChar c) →
        sysctlKeyIsSafe (".".intercalate segs) := by
  refine ⟨fun f n line key val hline hsafe ↦ ?_, fun t res hrun path value answer hmem ↦ ?_, ?_⟩
  · exact ⟨inside_of_safe hsafe, applyLine_safe hline hsafe⟩
  · exact hrun.only only_applySysctl hmem
  · exact fun segs ↦ safe_of_segments

end Rystemd

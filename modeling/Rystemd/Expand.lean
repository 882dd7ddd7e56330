import Rystemd.Library.Table
import Rystemd.Library.Text

namespace Rystemd

namespace Expand

def isNameChar (c : Char) : Bool := c.isAlphanum || c = '_'

/-- The name of the reference that starts with a dollar sign, given what comes after the sign, and
how many characters the reference has. -/
def reference (rest : List Char) : List Char × Nat :=
  if rest.head? = some '{' then
    let braced := rest.tail
    if '}' ∈ braced then
      let name := braced.takeWhile (· ≠ '}')
      (name, name.length + 3)
    else ([], rest.length + 1)
  else
    let name := rest.takeWhile isNameChar
    (name, name.length + 1)

/-- The text of a variable, which is empty if it is not set. -/
def valueOf (env : Table String String) (name : List Char) : List Char :=
  ((env.get (String.ofList name)).getD "").toList

/-- The scanner, which first passes over the characters of a reference it has replaced. -/
def scan (env : Table String String) : Nat → List Char → List Char
  | _, [] => []
  | skipped + 1, _ :: cs => scan env skipped cs
  | 0, c :: cs =>
    if c = '$' then
      if (reference cs).1 = [] then '$' :: cs
      else valueOf env (reference cs).1 ++ scan env ((reference cs).2 - 1) cs
    else c :: scan env 0 cs

end Expand

/-- A token with its references replaced. -/
def expandEnvToken (tok : String) (env : Table String String) : String :=
  String.ofList (Expand.scan env 0 tok.toList)

def expandEnvArgv (argv : List String) (env : Table String String) : List String :=
  argv.map fun tok ↦ expandEnvToken tok env

example : expandEnvArgv ["pre$FOO/${FOO}bar", "$.b"] (Table.empty.insert "FOO" "x") =
    ["prex/xbar", "$.b"] := by decide +kernel

namespace Expand

/-- What a token is put together from. -/
inductive Piece
  | literal (text : List Char)
  | plain (name : List Char)
  | braced (name : List Char)

namespace Piece

def written : Piece → List Char
  | .literal text => text
  | .plain name => '$' :: name
  | .braced name => '$' :: '{' :: (name ++ ['}'])

def value (env : Table String String) : Piece → List Char
  | .literal text => text
  | .plain name => valueOf env name
  | .braced name => valueOf env name

/-- A literal with a dollar sign. -/
def IsLone : Piece → Prop
  | .literal text => '$' ∈ text
  | .plain _ => False
  | .braced _ => False

instance : DecidablePred IsLone := fun p ↦
  match p with
  | .literal text => inferInstanceAs (Decidable ('$' ∈ text))
  | .plain _ => .isFalse id
  | .braced _ => .isFalse id

end Piece

/-- A name that is not in braces ends where no character of a name follows. -/
structure PlainName (name rest : List Char) : Prop where
  ne : name ≠ []
  chars : ∀ c ∈ name, isNameChar c
  ends : ∀ c ∈ rest.head?, ¬ isNameChar c

structure BracedName (name : List Char) : Prop where
  ne : name ≠ []
  brace : '}' ∉ name

/-- A reference starts with a dollar sign before these characters. -/
def Starts (cs : List Char) : Prop :=
  ∃ name rest, cs = name ++ rest ∧ PlainName name rest ∨
    cs = '{' :: (name ++ '}' :: rest) ∧ BracedName name

/-- A piece of a token that is well formed before what follows it. -/
def Piece.Fits (rest : List Char) : Piece → Prop
  | .literal text => ∀ before after, text = before ++ '$' :: after → ¬ Starts (after ++ rest)
  | .plain name => PlainName name rest
  | .braced name => BracedName name

def written (ps : List Piece) : List Char := ps.flatMap Piece.written

def values (env : Table String String) (ps : List Piece) : List Char := ps.flatMap (Piece.value env)

def WellFormed : List Piece → Prop
  | [] => True
  | p :: ps => p.Fits (written ps) ∧ WellFormed ps

/-- The pieces after the first that has a lone dollar sign. -/
def afterLone (ps : List Piece) : List Piece := (ps.dropWhile fun p ↦ ¬ p.IsLone).tail

variable {env : Table String String} {name rest cs text : List Char} {ps : List Piece} {p : Piece}
  {c : Char}

theorem scan_skip (n : Nat) : scan env n cs = scan env 0 (cs.drop n) := by
  induction n generalizing cs with
  | zero => rfl
  | succ n ih =>
    cases cs with
    | nil => simp [scan]
    | cons c cs => exact ih

theorem scan_cons : scan env 0 (c :: cs) =
    if c = '$' then
      if (reference cs).1 = [] then '$' :: cs
      else valueOf env (reference cs).1 ++ scan env ((reference cs).2 - 1) cs
    else c :: scan env 0 cs := by
  rw [scan.eq_def]

theorem scan_char (hc : c ≠ '$') : scan env 0 (c :: cs) = c :: scan env 0 cs := by
  rw [scan_cons, if_neg hc]

theorem scan_lone (h : (reference cs).1 = []) : scan env 0 ('$' :: cs) = '$' :: cs := by
  rw [scan_cons, if_pos rfl, if_pos h]

theorem scan_reference {n : Nat} (h : reference cs = (name, n + 1)) (hne : name ≠ []) :
    scan env 0 ('$' :: cs) = valueOf env name ++ scan env 0 (cs.drop n) := by
  rw [scan_cons, if_pos rfl, h, if_neg hne, ← scan_skip n]
  rfl

theorem takeWhile_ends (h : PlainName name rest) : (name ++ rest).takeWhile isNameChar = name := by
  rw [List.takeWhile_append_of_pos h.chars]
  cases rest with
  | nil => simp
  | cons c rest =>
    have hc := h.ends c rfl
    rw [List.takeWhile_cons, if_neg hc, List.append_nil]

theorem reference_plain (h : PlainName name rest) :
    reference (name ++ rest) = (name, name.length + 1) := by
  have hhead : (name ++ rest).head? ≠ some '{' := by
    obtain ⟨c, name, rfl⟩ := List.exists_cons_of_ne_nil h.ne
    intro heq
    obtain rfl := Option.some.inj heq
    exact absurd (h.chars '{' List.mem_cons_self) (by decide)
  rw [reference, if_neg hhead, takeWhile_ends h]

theorem reference_braced (h : BracedName name) :
    reference ('{' :: (name ++ '}' :: rest)) = (name, name.length + 3) := by
  have hhead : ('{' :: (name ++ '}' :: rest)).head? = some '{' := rfl
  rw [reference, if_pos hhead]
  dsimp only
  rw [List.tail_cons, if_pos (by simp), Text.takeWhile_append_cons h.brace]

theorem reference_none (h : ¬ Starts cs) : (reference cs).1 = [] := by
  by_contra hne
  apply h
  by_cases hhead : cs.head? = some '{'
  · obtain ⟨braced, rfl⟩ := List.head?_eq_some_iff.mp hhead
    rw [reference, if_pos hhead] at hne
    dsimp only [List.tail_cons] at hne
    by_cases hclosed : '}' ∈ braced
    · obtain ⟨name, rest, rfl, hname⟩ := List.eq_append_cons_of_mem hclosed
      rw [if_pos hclosed, Text.takeWhile_append_cons hname] at hne
      exact ⟨name, rest, .inr ⟨rfl, hne, hname⟩⟩
    · rw [if_neg hclosed] at hne
      exact absurd rfl hne
  · rw [reference, if_neg hhead] at hne
    refine ⟨_, _, .inl ⟨List.takeWhile_append_dropWhile.symm, hne, ?_, ?_⟩⟩
    · intro c hc
      exact List.mem_takeWhile_imp hc
    · intro c hc
      have hnot := List.head?_dropWhile_not isNameChar cs
      rw [Option.mem_def] at hc
      rw [hc] at hnot
      simpa using hnot

/-- A literal without a dollar sign is kept, and the scan goes on. -/
theorem scan_literal (h : '$' ∉ text) : scan env 0 (text ++ rest) = text ++ scan env 0 rest := by
  induction text with
  | nil => rfl
  | cons c text ih =>
    rw [List.mem_cons, not_or] at h
    rw [List.cons_append, scan_char (Ne.symm h.1), ih h.2]
    rfl

/-- At a lone dollar sign the scan stops, and keeps all that is left. -/
theorem scan_stops (h : '$' ∈ text) (hfits : Piece.Fits rest (.literal text)) :
    scan env 0 (text ++ rest) = text ++ rest := by
  obtain ⟨before, after, rfl, hbefore⟩ := List.eq_append_cons_of_mem h
  have hnone := reference_none (hfits before after rfl)
  rw [List.append_assoc, scan_literal hbefore, List.cons_append, scan_lone hnone]

/-- A piece that is not a lone dollar sign is replaced by its value. -/
theorem scan_piece (h : ¬ p.IsLone) (hfits : p.Fits rest) :
    scan env 0 (p.written ++ rest) = p.value env ++ scan env 0 rest := by
  cases p with
  | literal text => exact scan_literal h
  | plain name =>
    change scan env 0 ('$' :: (name ++ rest)) = _
    rw [scan_reference (reference_plain hfits) hfits.ne, List.drop_left]
    rfl
  | braced name =>
    have htext : (Piece.braced name).written ++ rest = '$' :: '{' :: (name ++ '}' :: rest) := by
      simp [Piece.written]
    have hdrop : ('{' :: (name ++ '}' :: rest)).drop (name.length + 2) = rest := by
      simp [List.drop_append]
    rw [htext, scan_reference (reference_braced hfits) hfits.ne, hdrop]
    rfl

/-- The scan gives the values exactly where what follows the first lone dollar sign keeps its text
under the replacement. -/
theorem scan_written_iff (h : WellFormed ps) : scan env 0 (written ps) = values env ps ↔
    written (afterLone ps) = values env (afterLone ps) := by
  induction ps with
  | nil => exact iff_of_true rfl rfl
  | cons p ps ih =>
    obtain ⟨hfits, hrest⟩ := h
    have hwritten : written (p :: ps) = p.written ++ written ps := List.flatMap_cons
    have hvalues : values env (p :: ps) = p.value env ++ values env ps := List.flatMap_cons
    rw [hwritten, hvalues]
    by_cases hlone : p.IsLone
    · have hafter : afterLone (p :: ps) = ps := by simp [afterLone, hlone]
      cases p with
      | literal text =>
        rw [hafter, Piece.written, scan_stops hlone hfits]
        exact List.append_right_inj text
      | plain name => exact absurd hlone id
      | braced name => exact absurd hlone id
    · have hafter : afterLone (p :: ps) = afterLone ps := by simp [afterLone, hlone]
      rw [hafter, scan_piece hlone hfits, List.append_right_inj]
      exact ih hrest

/-- A token that is put together from pieces becomes their values exactly where what follows its
first lone dollar sign keeps its text under the replacement. -/
theorem expandEnvToken_iff (h : WellFormed ps) :
    expandEnvToken (String.ofList (written ps)) env = String.ofList (values env ps) ↔
      written (afterLone ps) = values env (afterLone ps) := by
  rw [expandEnvToken, String.toList_ofList, String.ofList_inj]
  exact scan_written_iff h

/-- A name in braces, a literal, and a name that ends the token. -/
theorem expandEnvToken_home :
    expandEnvToken (String.ofList (written [.braced ['H'], .literal ['/'], .plain ['X']]))
        (Table.empty.insert "H" "home") =
      String.ofList (values (Table.empty.insert "H" "home")
        [.braced ['H'], .literal ['/'], .plain ['X']]) := by
  have hname : ∀ c ∈ ['X'], isNameChar c := List.forall_mem_singleton.mpr (by decide)
  have hformed : WellFormed [.braced ['H'], .literal ['/'], .plain ['X']] := by
    refine ⟨⟨by simp, by decide⟩, ?_, ⟨by simp, hname, by simp [written]⟩, trivial⟩
    intro before after heq
    have hmem : '$' ∈ ['/'] := by
      rw [heq]
      simp
    exact absurd hmem (by decide)
  have hafter : afterLone [.braced ['H'], .literal ['/'], .plain ['X']] = [] := by
    simp [afterLone, Piece.IsLone]
  apply (expandEnvToken_iff hformed).mpr
  rw [hafter]
  rfl

/-- A reference after a lone dollar sign is not replaced. -/
theorem reference_after_lone : ¬ ∀ (env : Table String String) (ps : List Piece), WellFormed ps →
    expandEnvToken (String.ofList (written ps)) env = String.ofList (values env ps) := by
  intro h
  have hname : ∀ c ∈ ['X'], isNameChar c := List.forall_mem_singleton.mpr (by decide)
  have hformed : WellFormed [.literal ['$', '!'], .plain ['X']] := by
    refine ⟨?_, ⟨by simp, hname, by simp [written]⟩, trivial⟩
    intro before after heq
    have hafter : after = ['!'] := by
      cases before with
      | nil => exact (List.cons.inj heq).2.symm
      | cons c before =>
        have hmem : '$' ∈ ['!'] := by
          rw [(List.cons.inj heq).2]
          simp
        exact absurd hmem (by decide)
    rw [hafter]
    rintro ⟨name, rest, ⟨htext, hname⟩ | ⟨htext, -⟩⟩
    · obtain ⟨c, name, rfl⟩ := List.exists_cons_of_ne_nil hname.ne
      obtain rfl := (List.cons.inj htext).1
      exact absurd (hname.chars '!' List.mem_cons_self) (by decide)
    · exact absurd (List.cons.inj htext).1 (by decide)
  have hexpanded := h (Table.empty.insert "X" "y") _ hformed
  revert hexpanded
  decide +kernel

end Expand

end Rystemd

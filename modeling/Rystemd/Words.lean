import Rystemd.Library.Text

namespace Rystemd

open Text

/-- What a character stands for after a backslash. -/
def unescapeOne (c : Char) : Char :=
  if c = 'a' then '\x07'
  else if c = 'b' then '\x08'
  else if c = 'f' then '\x0c'
  else if c = 'n' then '\n'
  else if c = 'r' then '\r'
  else if c = 't' then '\t'
  else if c = 'v' then '\x0b'
  else if c = 's' then ' '
  else c

namespace Tokenize

inductive Mode
  | unquoted | single | double
  deriving DecidableEq

/-- A word that ends is taken unless it is empty. -/
def pushWord (words : List String) (cur : List Char) : List String :=
  if cur = [] then words else words ++ [String.ofList cur]

/-- The scanner: how it reads, the word read so far, the words before it, and what is left. -/
def scan : Mode → List Char → List String → List Char → Except String (List String)
  | .single, _, _, [] => .error "unbalanced single quote"
  | .double, _, _, [] => .error "unbalanced double quote"
  | .unquoted, cur, words, [] => .ok (pushWord words cur)
  | .unquoted, cur, words, c :: cs =>
    if c = '\'' then scan .single cur words cs
    else if c = '"' then scan .double cur words cs
    else if isWhitespace c then scan .unquoted [] (pushWord words cur) cs
    else if c = '\\' then
      match cs with
      | [] => scan .unquoted (cur ++ ['\\']) words []
      | e :: cs => scan .unquoted (cur ++ [unescapeOne e]) words cs
    else scan .unquoted (cur ++ [c]) words cs
  | .single, cur, words, c :: cs =>
    if c = '\'' then scan .unquoted cur words cs else scan .single (cur ++ [c]) words cs
  | .double, cur, words, c :: cs =>
    if c = '"' then scan .unquoted cur words cs
    else if c = '\\' then
      match cs with
      | [] => scan .double (cur ++ ['\\']) words []
      | e :: cs => scan .double (cur ++ [unescapeOne e]) words cs
    else scan .double (cur ++ [c]) words cs

end Tokenize

/-- The words of a value, with quotes and escapes. -/
def tokenize (raw : String) : Except String (List String) :=
  Tokenize.scan .unquoted [] [] raw.toList

example : tokenize "a \"b c\" d\\ e" = .ok ["a", "b c", "d e"] := by decide +kernel

namespace Tokenize

variable {cur w q ws cs : List Char} {words acc : List String} {s : String}

/-- A backslash before each backslash and double quote. -/
def escaped (w : List Char) : List Char :=
  w.flatMap fun c ↦ if c = '\\' ∨ c = '"' then ['\\', c] else [c]

/-- A word in double quotes, or in single quotes if it has none itself. -/
inductive Quoted (w : List Char) : List Char → Prop
  | double : Quoted w ('"' :: (escaped w ++ ['"']))
  | single : '\'' ∉ w → Quoted w ('\'' :: (w ++ ['\'']))

/-- Quoted words with white space between them. -/
inductive Written : List String → List Char → Prop
  | nil : Written [] []
  | one {w : String} {q : List Char} : Quoted w.toList q → Written [w] q
  | cons {w : String} {q ws cs : List Char} {words : List String} : Quoted w.toList q →
      ws ≠ [] → (∀ c ∈ ws, isWhitespace c) → words ≠ [] → Written words cs →
      Written (w :: words) (q ++ ws ++ cs)

section Steps

variable {c e : Char}

theorem scan_unquoted : scan .unquoted cur acc (c :: cs) =
    if c = '\'' then scan .single cur acc cs
    else if c = '"' then scan .double cur acc cs
    else if isWhitespace c then scan .unquoted [] (pushWord acc cur) cs
    else if c = '\\' then
      match cs with
      | [] => scan .unquoted (cur ++ ['\\']) acc []
      | e :: cs => scan .unquoted (cur ++ [unescapeOne e]) acc cs
    else scan .unquoted (cur ++ [c]) acc cs := by
  rw [scan.eq_def]

theorem scan_in_single : scan .single cur acc (c :: cs) =
    if c = '\'' then scan .unquoted cur acc cs else scan .single (cur ++ [c]) acc cs := by
  rw [scan.eq_def]

theorem scan_in_double : scan .double cur acc (c :: cs) =
    if c = '"' then scan .unquoted cur acc cs
    else if c = '\\' then
      match cs with
      | [] => scan .double (cur ++ ['\\']) acc []
      | e :: cs => scan .double (cur ++ [unescapeOne e]) acc cs
    else scan .double (cur ++ [c]) acc cs := by
  rw [scan.eq_def]

theorem scan_single_quote : scan .unquoted cur acc ('\'' :: cs) = scan .single cur acc cs := by
  rw [scan_unquoted, if_pos rfl]

theorem scan_double_quote : scan .unquoted cur acc ('"' :: cs) = scan .double cur acc cs := by
  rw [scan_unquoted, if_neg (by decide), if_pos rfl]

theorem scan_space (hc : isWhitespace c) (hs : c ≠ '\'') (hd : c ≠ '"') :
    scan .unquoted cur acc (c :: cs) = scan .unquoted [] (pushWord acc cur) cs := by
  rw [scan_unquoted, if_neg hs, if_neg hd, if_pos hc]

theorem scan_single_end : scan .single cur acc ('\'' :: cs) = scan .unquoted cur acc cs := by
  rw [scan_in_single, if_pos rfl]

theorem scan_single_char (hc : c ≠ '\'') :
    scan .single cur acc (c :: cs) = scan .single (cur ++ [c]) acc cs := by
  rw [scan_in_single, if_neg hc]

theorem scan_double_end : scan .double cur acc ('"' :: cs) = scan .unquoted cur acc cs := by
  rw [scan_in_double, if_pos rfl]

theorem scan_double_escape : scan .double cur acc ('\\' :: e :: cs) =
    scan .double (cur ++ [unescapeOne e]) acc cs := by
  rw [scan_in_double, if_neg (by decide), if_pos rfl]

theorem scan_double_char (hd : c ≠ '"') (hb : c ≠ '\\') :
    scan .double cur acc (c :: cs) = scan .double (cur ++ [c]) acc cs := by
  rw [scan_in_double, if_neg hd, if_neg hb]

end Steps

theorem scan_escaped : scan .double cur acc (escaped w ++ '"' :: cs) =
    scan .unquoted (cur ++ w) acc cs := by
  induction w generalizing cur with
  | nil =>
    rw [List.append_nil]
    exact scan_double_end
  | cons c w ih =>
    have hrest : cur ++ c :: w = cur ++ [c] ++ w := by simp
    rw [hrest, ← ih, escaped, List.flatMap_cons, ← escaped]
    by_cases hc : c = '\\' ∨ c = '"'
    · rw [if_pos hc, List.append_assoc]
      have hsame : unescapeOne c = c := by
        rcases hc with rfl | rfl <;> decide
      change scan .double cur acc ('\\' :: c :: (escaped w ++ '"' :: cs)) = _
      rw [scan_double_escape, hsame]
    · rw [if_neg hc, List.append_assoc]
      change scan .double cur acc (c :: (escaped w ++ '"' :: cs)) = _
      rw [not_or] at hc
      exact scan_double_char hc.2 hc.1

theorem scan_single (hw : '\'' ∉ w) : scan .single cur acc (w ++ '\'' :: cs) =
    scan .unquoted (cur ++ w) acc cs := by
  induction w generalizing cur with
  | nil =>
    rw [List.append_nil, List.nil_append, scan_single_end]
  | cons c w ih =>
    rw [List.mem_cons, not_or] at hw
    have hrest : cur ++ c :: w = cur ++ [c] ++ w := by simp
    rw [hrest, ← ih hw.2, List.cons_append, scan_single_char (Ne.symm hw.1)]

theorem Quoted.scan (h : Quoted w q) :
    scan .unquoted cur acc (q ++ cs) = scan .unquoted (cur ++ w) acc cs := by
  cases h with
  | double =>
    rw [List.cons_append, List.append_assoc, scan_double_quote]
    exact scan_escaped
  | single hw =>
    rw [List.cons_append, List.append_assoc, scan_single_quote]
    exact scan_single hw

theorem not_quote_of_isWhitespace {c : Char} (h : isWhitespace c) : c ≠ '\'' ∧ c ≠ '"' := by
  constructor
  · rintro rfl
    revert h
    decide
  · rintro rfl
    revert h
    decide

/-- White space ends a word. -/
theorem scan_whitespace (hne : ws ≠ []) (hws : ∀ c ∈ ws, isWhitespace c) :
    scan .unquoted cur acc (ws ++ cs) = scan .unquoted [] (pushWord acc cur) cs := by
  induction ws generalizing cur acc with
  | nil => exact absurd rfl hne
  | cons c ws ih =>
    have hc := hws c List.mem_cons_self
    obtain ⟨hsingle, hdouble⟩ := not_quote_of_isWhitespace hc
    rw [List.cons_append, scan_space hc hsingle hdouble]
    by_cases hnil : ws = []
    · rw [hnil, List.nil_append]
    · rw [ih hnil fun c hc ↦ hws c (List.mem_cons_of_mem _ hc)]
      rfl

theorem pushWord_toList (w : String) : pushWord acc w.toList = acc ++ [w].filter (· ≠ "") := by
  unfold pushWord
  by_cases hw : w = ""
  · subst hw
    simp
  · have hne : w.toList ≠ [] := fun hnil ↦ hw (String.toList_inj.mp hnil)
    rw [if_neg hne, String.ofList_toList]
    simp [hw]

/-- Of words that are written with quotes the scanner drops the empty ones. -/
theorem Written.scan (h : Written words cs) :
    scan .unquoted [] acc cs = .ok (acc ++ words.filter (· ≠ "")) := by
  induction h generalizing acc with
  | nil => simp [Tokenize.scan, pushWord]
  | @one w q hq =>
    have hread : scan .unquoted [] acc (q ++ []) = _ := hq.scan
    rw [List.append_nil, List.nil_append] at hread
    rw [hread, Tokenize.scan, pushWord_toList]
  | @cons w q ws cs words hq hne hws _ _ ih =>
    rw [List.append_assoc, hq.scan, List.nil_append, scan_whitespace hne hws, pushWord_toList, ih,
      List.append_assoc, ← List.filter_append]
    rfl

end Tokenize

/-- Quoted words come back exactly where none of them is empty. -/
theorem tokenize_written_iff {words : List String} {s : String}
    (h : Tokenize.Written words s.toList) : tokenize s = .ok words ↔ "" ∉ words := by
  rw [tokenize, h.scan, List.nil_append, Except.ok.injEq, List.filter_eq_self]
  constructor
  · intro hall hmem
    simpa using hall "" hmem
  · intro hnot w hw
    rw [decide_eq_true_eq]
    rintro rfl
    exact hnot hw

theorem written_pair : Tokenize.Written ["a b", "'"] "\"a b\" \"'\"".toList := by
  have hfirst : Tokenize.Quoted "a b".toList "\"a b\"".toList := .double
  have hspace : ∀ c ∈ [' '], isWhitespace c := List.forall_mem_singleton.mpr (by decide)
  exact .cons hfirst (List.cons_ne_nil _ _) hspace (List.cons_ne_nil _ _) (.one .double)

/-- Two words, one with a space and one that is a single quote. -/
theorem tokenize_written_pair : tokenize "\"a b\" \"'\"" = .ok ["a b", "'"] ↔ "" ∉ ["a b", "'"] :=
  tokenize_written_iff written_pair

/-- An empty word is lost. -/
theorem empty_word_lost : ¬ ∀ (words : List String) (s : String),
    Tokenize.Written words s.toList → tokenize s = .ok words := by
  intro h
  have hlost := h [""] "\"\"" (.one .double)
  revert hlost
  decide +kernel

section Escapes

def hexDigit (c : Char) : Option Nat :=
  if '0' ≤ c ∧ c ≤ '9' then some (c.toNat - '0'.toNat)
  else if 'a' ≤ c ∧ c ≤ 'f' then some (c.toNat - 'a'.toNat + 10)
  else if 'A' ≤ c ∧ c ≤ 'F' then some (c.toNat - 'A'.toNat + 10)
  else none

/-- The byte of two characters as `u8::from_str_radix` reads them, which takes a sign. -/
def hexByte (h₁ h₂ : Char) : Option Nat :=
  if h₁ = '+' then hexDigit h₂
  else (hexDigit h₁).bind fun a ↦ (hexDigit h₂).map fun b ↦ 16 * a + b

/-- The escapes of one character that `cunescape` knows. -/
def simpleEscape (e : Char) : Option Char :=
  if e = 'a' then some '\x07'
  else if e = 'b' then some '\x08'
  else if e = 'f' then some '\x0c'
  else if e = 'n' then some '\n'
  else if e = 'r' then some '\r'
  else if e = 't' then some '\t'
  else if e = 'v' then some '\x0b'
  else if e = 's' then some ' '
  else if e = '\\' then some '\\'
  else if e = '"' then some '"'
  else if e = '\'' then some '\''
  else none

def cunescapeChars : List Char → List Char
  | [] => []
  | c :: cs =>
    if c ≠ '\\' then c :: cunescapeChars cs
    else
      match cs with
      | [] => ['\\']
      | e :: cs =>
        match simpleEscape e with
        | some c => c :: cunescapeChars cs
        | none =>
          if e = 'x' then
            match cs with
            | h₁ :: h₂ :: cs =>
              match hexByte h₁ h₂ with
              | some v => Char.ofNat v :: cunescapeChars cs
              | none => '\\' :: 'x' :: h₁ :: h₂ :: cunescapeChars cs
            | hex => '\\' :: 'x' :: hex
          else '\\' :: e :: cunescapeChars cs

def cunescape (s : String) : String := String.ofList (cunescapeChars s.toList)

example : cunescape "a\\x41\\qb\\n" = "aA\\qb\n" := by decide +kernel

/-- What the scanner makes of the characters between double quotes. -/
def decodedChars : List Char → List Char
  | [] => []
  | c :: cs =>
    if c ≠ '\\' then c :: decodedChars cs
    else
      match cs with
      | [] => ['\\']
      | e :: cs => unescapeOne e :: decodedChars cs

/-- Characters without an unescaped double quote, and without a backslash that nothing follows. -/
inductive Enclosed : List Char → Prop
  | nil : Enclosed []
  | char {c : Char} {cs : List Char} : c ≠ '"' → c ≠ '\\' → Enclosed cs → Enclosed (c :: cs)
  | escape {e : Char} {cs : List Char} : Enclosed cs → Enclosed ('\\' :: e :: cs)

/-- The characters that are escaped. -/
def escapes : List Char → List Char
  | [] => []
  | c :: cs =>
    if c ≠ '\\' then escapes cs
    else
      match cs with
      | [] => []
      | e :: cs => e :: escapes cs

variable {c e h₁ h₂ : Char} {w cs cur : List Char} {acc : List String} {v : Nat}

def simpleEscapes : List Char := ['a', 'b', 'f', 'n', 'r', 't', 'v', 's', '\\', '"', '\'']

theorem simpleEscape_eq (e : Char) :
    simpleEscape e = if e ∈ simpleEscapes then some (unescapeOne e) else none := by
  by_cases he : e ∈ simpleEscapes
  · rw [if_pos he]
    simp only [simpleEscapes, List.mem_cons, List.not_mem_nil, or_false] at he
    rcases he with rfl | rfl | rfl | rfl | rfl | rfl | rfl | rfl | rfl | rfl | rfl <;> rfl
  · rw [if_neg he]
    simp only [simpleEscapes, List.mem_cons, List.not_mem_nil, or_false, not_or] at he
    simp only [simpleEscape, he, if_false]

theorem unescapeOne_of_notMem (he : e ∉ simpleEscapes) : unescapeOne e = e ∧ e ≠ '\\' := by
  simp only [simpleEscapes, List.mem_cons, List.not_mem_nil, or_false, not_or] at he
  exact ⟨by simp only [unescapeOne, he, if_false], he.2.2.2.2.2.2.2.2.1⟩

theorem cunescape_cons : cunescapeChars (c :: cs) =
    if c ≠ '\\' then c :: cunescapeChars cs
    else
      match cs with
      | [] => ['\\']
      | e :: cs =>
        match simpleEscape e with
        | some c => c :: cunescapeChars cs
        | none =>
          if e = 'x' then
            match cs with
            | h₁ :: h₂ :: cs =>
              match hexByte h₁ h₂ with
              | some v => Char.ofNat v :: cunescapeChars cs
              | none => '\\' :: 'x' :: h₁ :: h₂ :: cunescapeChars cs
            | hex => '\\' :: 'x' :: hex
          else '\\' :: e :: cunescapeChars cs := by
  rw [cunescapeChars.eq_def]

theorem decoded_cons : decodedChars (c :: cs) =
    if c ≠ '\\' then c :: decodedChars cs
    else
      match cs with
      | [] => ['\\']
      | e :: cs => unescapeOne e :: decodedChars cs := by
  rw [decodedChars.eq_def]

theorem escapes_cons : escapes (c :: cs) =
    if c ≠ '\\' then escapes cs
    else
      match cs with
      | [] => []
      | e :: cs => e :: escapes cs := by
  rw [escapes.eq_def]

theorem cunescape_char (hc : c ≠ '\\') : cunescapeChars (c :: cs) = c :: cunescapeChars cs := by
  rw [cunescape_cons, if_pos hc]

theorem cunescape_simple (he : e ∈ simpleEscapes) :
    cunescapeChars ('\\' :: e :: cs) = unescapeOne e :: cunescapeChars cs := by
  have hsome : simpleEscape e = some (unescapeOne e) := by rw [simpleEscape_eq, if_pos he]
  rw [cunescape_cons]
  dsimp only
  rw [if_neg (not_not.mpr rfl), hsome]

theorem cunescape_byte (h : hexByte h₁ h₂ = some v) :
    cunescapeChars ('\\' :: 'x' :: h₁ :: h₂ :: cs) = Char.ofNat v :: cunescapeChars cs := by
  have hnone : simpleEscape 'x' = none := by decide
  rw [cunescape_cons]
  dsimp only
  rw [if_neg (not_not.mpr rfl), hnone]
  dsimp only
  rw [if_pos rfl, h]

/-- An escape that is not known, and names no byte, is kept. -/
theorem cunescape_kept (he : e ∉ simpleEscapes)
    (h : ∀ h₁ h₂ cs', e = 'x' → cs = h₁ :: h₂ :: cs' → hexByte h₁ h₂ = none) :
    ∃ rest, cunescapeChars ('\\' :: e :: cs) = '\\' :: rest := by
  have hnone : simpleEscape e = none := by rw [simpleEscape_eq, if_neg he]
  rw [cunescape_cons]
  dsimp only
  rw [if_neg (not_not.mpr rfl), hnone]
  dsimp only
  split
  · next hx =>
    split
    · rw [h _ _ _ hx rfl]
      exact ⟨_, rfl⟩
    · exact ⟨_, rfl⟩
  · exact ⟨_, rfl⟩

theorem decoded_char (hc : c ≠ '\\') : decodedChars (c :: cs) = c :: decodedChars cs := by
  rw [decoded_cons, if_pos hc]

theorem decoded_escape : decodedChars ('\\' :: e :: cs) = unescapeOne e :: decodedChars cs := by
  rw [decoded_cons, if_neg (not_not.mpr rfl)]

theorem escapes_char (hc : c ≠ '\\') : escapes (c :: cs) = escapes cs := by
  rw [escapes_cons, if_pos hc]

theorem escapes_escape : escapes ('\\' :: e :: cs) = e :: escapes cs := by
  rw [escapes_cons, if_neg (not_not.mpr rfl)]

theorem hexByte_plain (h : hexByte h₁ h₂ = some v) : h₁ ≠ '\\' ∧ h₂ ≠ '\\' := by
  have hnone : hexDigit '\\' = none := by decide
  constructor
  · rintro rfl
    rw [hexByte, if_neg (by decide), hnone] at h
    cases h
  · rintro rfl
    rw [hexByte, hnone] at h
    split at h
    · cases h
    · obtain ⟨a, -, hb⟩ := Option.bind_eq_some_iff.mp h
      cases hb

/-- The ways in which a text can go on for `cunescape`. -/
theorem unescape_induction {motive : List Char → Prop} (nil : motive []) (lone : motive ['\\'])
    (char : ∀ c cs, c ≠ '\\' → motive cs → motive (c :: cs))
    (simple : ∀ e cs, e ∈ simpleEscapes → motive cs → motive ('\\' :: e :: cs))
    (byte : ∀ h₁ h₂ cs v, hexByte h₁ h₂ = some v → motive cs →
      motive ('\\' :: 'x' :: h₁ :: h₂ :: cs))
    (kept : ∀ e cs, e ∉ simpleEscapes →
      (∀ h₁ h₂ cs', e = 'x' → cs = h₁ :: h₂ :: cs' → hexByte h₁ h₂ = none) →
      motive ('\\' :: e :: cs)) (cs : List Char) : motive cs := by
  have hx : 'x' ∉ simpleEscapes := by decide
  have hnot : ∀ e, simpleEscape e = none → e ∉ simpleEscapes := by
    intro e he hmem
    rw [simpleEscape_eq, if_pos hmem] at he
    cases he
  induction cs using cunescapeChars.induct with
  | case1 => exact nil
  | case2 c cs hc ih => exact char c cs hc ih
  | case3 c hc =>
    obtain rfl := not_not.mp hc
    exact lone
  | case4 c hc e cs k he ih =>
    obtain rfl := not_not.mp hc
    apply simple e cs _ ih
    by_contra hmem
    rw [simpleEscape_eq, if_neg hmem] at he
    cases he
  | case5 c hc h₁ h₂ cs v hv _ ih =>
    obtain rfl := not_not.mp hc
    exact byte h₁ h₂ cs v hv ih
  | case6 c hc h₁ h₂ cs hv =>
    obtain rfl := not_not.mp hc
    apply kept 'x' _ hx
    intro h₁ h₂ cs' _ heq
    cases heq
    exact hv
  | case7 c hc hex hshort =>
    obtain rfl := not_not.mp hc
    apply kept 'x' _ hx
    intro h₁ h₂ cs' _ heq
    exact absurd heq (hshort h₁ h₂ cs')
  | case8 c hc e cs he hne =>
    obtain rfl := not_not.mp hc
    apply kept e cs (hnot e he)
    intro h₁ h₂ cs' heq
    exact absurd heq hne

theorem cons_eq_append {k : Char} {u l : List Char} (hne : w ≠ []) (h : k :: u = w ++ l) :
    ∃ w', w = k :: w' ∧ u = w' ++ l := by
  obtain ⟨k', w', rfl⟩ := List.exists_cons_of_ne_nil hne
  obtain ⟨rfl, hrest⟩ := List.cons.inj h
  exact ⟨w', rfl, hrest⟩

/-- The unescaped text is not the scanner's text behind more characters. -/
theorem cunescape_ne (hw : '\\' ∉ w) (hne : w ≠ []) : cunescapeChars cs ≠ w ++ decodedChars cs := by
  intro h
  induction cs using unescape_induction generalizing w with
  | nil => exact hne (List.append_eq_nil_iff.mp h.symm).1
  | lone =>
    obtain ⟨w', rfl, -⟩ := cons_eq_append hne h
    exact hw List.mem_cons_self
  | char c cs hc ih =>
    rw [cunescape_char hc, decoded_char hc] at h
    obtain ⟨w', rfl, hrest⟩ := cons_eq_append hne h
    apply ih (w := w' ++ [c])
    · simpa [Ne.symm hc] using hw
    · simp
    · rw [hrest, List.append_assoc, List.singleton_append]
  | simple e cs he ih =>
    rw [cunescape_simple he, decoded_escape] at h
    obtain ⟨w', rfl, hrest⟩ := cons_eq_append hne h
    rw [List.mem_cons, not_or] at hw
    apply ih (w := w' ++ [unescapeOne e])
    · simp [hw]
    · simp
    · rw [hrest, List.append_assoc, List.singleton_append]
  | byte h₁ h₂ cs v hv ih =>
    obtain ⟨hh₁, hh₂⟩ := hexByte_plain hv
    rw [cunescape_byte hv, decoded_escape, decoded_char hh₁, decoded_char hh₂] at h
    obtain ⟨w', rfl, hrest⟩ := cons_eq_append hne h
    rw [List.mem_cons, not_or] at hw
    have hx : unescapeOne 'x' = 'x' := by decide
    apply ih (w := w' ++ ['x', h₁, h₂])
    · simp [hw, Ne.symm hh₁, Ne.symm hh₂]
    · simp
    · rw [hrest, hx, List.append_assoc]
      rfl
  | kept e cs he hnone =>
    obtain ⟨rest, hrest⟩ := cunescape_kept he hnone
    rw [hrest] at h
    obtain ⟨w', rfl, -⟩ := cons_eq_append hne h
    exact hw List.mem_cons_self

/-- Both decoders agree where each escape is a simple one. -/
theorem cunescape_eq_iff :
    cunescapeChars cs = decodedChars cs ↔ ∀ e ∈ escapes cs, e ∈ simpleEscapes := by
  induction cs using unescape_induction with
  | nil => exact iff_of_true rfl fun e he ↦ absurd he List.not_mem_nil
  | lone => exact iff_of_true rfl fun e he ↦ absurd he List.not_mem_nil
  | char c cs hc ih =>
    rw [cunescape_char hc, decoded_char hc, escapes_char hc, List.cons_inj_right]
    exact ih
  | simple e cs he ih =>
    rw [cunescape_simple he, decoded_escape, escapes_escape, List.cons_inj_right, ih]
    simp [he]
  | byte h₁ h₂ cs v hv ih =>
    obtain ⟨hh₁, hh₂⟩ := hexByte_plain hv
    rw [cunescape_byte hv, decoded_escape, decoded_char hh₁, decoded_char hh₂, escapes_escape]
    apply iff_of_false
    · intro h
      have hrest := (List.cons.inj h).2
      exact cunescape_ne (w := [h₁, h₂]) (by simp [Ne.symm hh₁, Ne.symm hh₂]) (by simp) hrest
    · intro hall
      exact absurd (hall 'x' List.mem_cons_self) (by decide)
  | kept e cs he hnone =>
    obtain ⟨rest, hrest⟩ := cunescape_kept he hnone
    obtain ⟨hsame, hback⟩ := unescapeOne_of_notMem he
    rw [hrest, decoded_escape, escapes_escape, hsame]
    apply iff_of_false
    · intro h
      exact hback (List.cons.inj h).1.symm
    · intro hall
      exact he (hall e List.mem_cons_self)

theorem Enclosed.scan (h : Enclosed cs) (rest : List Char) :
    Tokenize.scan .double cur acc (cs ++ '"' :: rest) =
      Tokenize.scan .unquoted (cur ++ decodedChars cs) acc rest := by
  induction h generalizing cur with
  | nil =>
    rw [decodedChars, List.append_nil]
    exact Tokenize.scan_double_end
  | @char c cs hd hb _ ih =>
    rw [List.cons_append, Tokenize.scan_double_char hd hb, ih, decoded_char hb, List.append_assoc]
    rfl
  | @escape e cs _ ih =>
    rw [List.cons_append, List.cons_append, Tokenize.scan_double_escape, ih, decoded_escape,
      List.append_assoc]
    rfl

theorem decodedChars_eq_nil : decodedChars cs = [] ↔ cs = [] := by
  cases cs with
  | nil => exact iff_of_true rfl rfl
  | cons c cs =>
    apply iff_of_false
    · rw [decoded_cons]
      split
      · exact List.cons_ne_nil _ _
      · split
        · exact List.cons_ne_nil _ _
        · exact List.cons_ne_nil _ _
    · exact List.cons_ne_nil _ _

/-- A quoted word is decoded as a scalar is exactly where it is not empty and its escapes are
simple. -/
theorem tokenize_cunescape_iff {s : String} (h : Enclosed s.toList) :
    tokenize ("\"" ++ s ++ "\"") = .ok [cunescape s] ↔
      s ≠ "" ∧ ∀ e ∈ escapes s.toList, e ∈ simpleEscapes := by
  have hscan : tokenize ("\"" ++ s ++ "\"") =
      .ok (Tokenize.pushWord [] (decodedChars s.toList)) := by
    have hchars : ("\"" ++ s ++ "\"").toList = '"' :: (s.toList ++ ['"']) := by
      rw [String.toList_append, String.toList_append]
      rfl
    rw [tokenize, hchars, Tokenize.scan_double_quote, h.scan, List.nil_append, Tokenize.scan]
  rw [hscan, Except.ok.injEq, Tokenize.pushWord, ← cunescape_eq_iff]
  by_cases hs : s = ""
  · subst hs
    simp [decodedChars]
  · have hne : decodedChars s.toList ≠ [] := by
      intro hnil
      exact hs (String.toList_inj.mp (decodedChars_eq_nil.mp hnil))
    rw [if_neg hne, and_iff_right hs, List.nil_append, cunescape, List.cons.injEq,
      and_iff_left rfl, ← String.toList_inj, String.toList_ofList, String.toList_ofList]
    exact eq_comm

theorem tokenize_cunescape_tab :
    tokenize ("\"" ++ "a\\t" ++ "\"") = .ok [cunescape "a\\t"] ↔
      "a\\t" ≠ "" ∧ ∀ e ∈ escapes "a\\t".toList, e ∈ simpleEscapes := by
  have henclosed : Enclosed ['a', '\\', 't'] := .char (by decide) (by decide) (.escape .nil)
  have hchars : "a\\t".toList = ['a', '\\', 't'] := by decide +kernel
  exact tokenize_cunescape_iff (by rw [hchars]; exact henclosed)

/-- A byte in hexadecimal is one character in a scalar, and three in a word. -/
theorem hex_escape_differs : ¬ ∀ s : String, Enclosed s.toList →
    tokenize ("\"" ++ s ++ "\"") = .ok [cunescape s] := by
  intro h
  have henclosed : Enclosed ['\\', 'x', '4', '1'] :=
    .escape (.char (by decide) (by decide) (.char (by decide) (by decide) .nil))
  have hchars : "\\x41".toList = ['\\', 'x', '4', '1'] := by decide +kernel
  have hdiffers := h "\\x41" (by rw [hchars]; exact henclosed)
  revert hdiffers
  decide +kernel

end Escapes

end Rystemd

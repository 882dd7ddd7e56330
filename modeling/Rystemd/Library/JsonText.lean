import Rystemd.Library.Hex
import Rystemd.Library.Json

namespace Json

/-- A text form of values: it has no line break in it, and a reader gets the value back from it,
also with a line break behind it. -/
structure TextForm where
  toString : Json → String
  fromStr : String → Except String Json
  oneLine {v : Json} : v.Canonical → '\n' ∉ (toString v).toList
  fromStr_toString {v : Json} : v.Canonical → fromStr (toString v) = .ok v
  fromStr_line {v : Json} : v.Canonical → fromStr (toString v ++ "\n") = .ok v

section Write

/-- The characters with an escape of their own. -/
def shortEscape (c : Char) : Option Char :=
  if c = '"' then some '"'
  else if c = '\\' then some '\\'
  else if c.toNat = 8 then some 'b'
  else if c.toNat = 9 then some 't'
  else if c.toNat = 10 then some 'n'
  else if c.toNat = 12 then some 'f'
  else if c.toNat = 13 then some 'r'
  else none

def escape (c : Char) : List Char :=
  match shortEscape c with
  | some e => ['\\', e]
  | none =>
    if c.toNat < 32 then
      ['\\', 'u', '0', '0', Hex.digit (c.toNat / 16), Hex.digit (c.toNat % 16)]
    else [c]

def quote (s : String) : List Char := '"' :: (s.toList.flatMap escape ++ ['"'])

def writeInt : Int → List Char
  | .ofNat n => Nat.toDigits 10 n
  | .negSucc n => '-' :: Nat.toDigits 10 (n + 1)

mutual

def write : Json → List Char
  | null => ['n', 'u', 'l', 'l']
  | bool true => ['t', 'r', 'u', 'e']
  | bool false => ['f', 'a', 'l', 's', 'e']
  | num n => writeInt n
  | float text => text.toList
  | str s => quote s
  | arr vs => '[' :: (writeElements vs ++ [']'])
  | obj es => '\x7b' :: (writeEntries es ++ ['\x7d'])

def writeElements : List Json → List Char
  | [] => []
  | v :: vs => write v ++ (if vs.isEmpty then [] else ',' :: writeElements vs)

def writeEntries : List (String × Json) → List Char
  | [] => []
  | (k, v) :: es =>
    quote k ++ ':' :: (write v ++ (if es.isEmpty then [] else ',' :: writeEntries es))

end

end Write

section Read

/-- What an escape of one character stands for. -/
def unescape (e : Char) : Option Char :=
  if e = '"' then some '"'
  else if e = '\\' then some '\\'
  else if e = 'b' then some '\x08'
  else if e = 't' then some '\t'
  else if e = 'n' then some '\n'
  else if e = 'f' then some '\x0c'
  else if e = 'r' then some '\r'
  else none

/-- A string up to its closing quote, and what follows it. -/
def readString : List Char → Option (List Char × List Char)
  | [] => none
  | '"' :: cs => some ([], cs)
  | '\\' :: 'u' :: '0' :: '0' :: a :: b :: cs => do
    let hi ← Hex.value a
    let lo ← Hex.value b
    let r ← readString cs
    return (Char.ofNat (16 * hi + lo) :: r.1, r.2)
  | '\\' :: e :: cs => do
    let c ← unescape e
    let r ← readString cs
    return (c :: r.1, r.2)
  | c :: cs => do
    let r ← readString cs
    return (c :: r.1, r.2)

def readNat (cs : List Char) : Option (Nat × List Char) :=
  if cs.takeWhile Char.isDigit = [] then none
  else some (Nat.ofDigitChars 10 (cs.takeWhile Char.isDigit) 0, cs.dropWhile Char.isDigit)

mutual

/-- A value at the beginning of a text, and what follows it. -/
def readValue : Nat → List Char → Option (Json × List Char)
  | 0, _ => none
  | _ + 1, [] => none
  | n + 1, c :: cs =>
    if c = 'n' then if cs.take 3 = ['u', 'l', 'l'] then some (null, cs.drop 3) else none
    else if c = 't' then if cs.take 3 = ['r', 'u', 'e'] then some (bool true, cs.drop 3) else none
    else if c = 'f' then
      if cs.take 4 = ['a', 'l', 's', 'e'] then some (bool false, cs.drop 4) else none
    else if c = '"' then (readString cs).map fun r ↦ (str (String.ofList r.1), r.2)
    else if c = '[' then
      if cs.head? = some ']' then some (arr [], cs.drop 1)
      else (readElements n cs).map fun r ↦ (arr r.1, r.2)
    else if c = '\x7b' then
      if cs.head? = some '\x7d' then some (obj [], cs.drop 1)
      else (readEntries n cs).map fun r ↦ (obj r.1, r.2)
    else if c = '-' then (readNat cs).map fun r ↦ (num (-r.1), r.2)
    else (readNat (c :: cs)).map fun r ↦ (num r.1, r.2)

def readElements : Nat → List Char → Option (List Json × List Char)
  | 0, _ => none
  | n + 1, cs => do
    let r ← readValue n cs
    match r.2 with
    | [] => none
    | c :: cs =>
      if c = ']' then return ([r.1], cs)
      else if c = ',' then
        let rs ← readElements n cs
        return (r.1 :: rs.1, rs.2)
      else none

def readEntries : Nat → List Char → Option (List (String × Json) × List Char)
  | 0, _ => none
  | _ + 1, [] => none
  | n + 1, q :: cs => do
    if q ≠ '"' then none
    let k ← readString cs
    match k.2 with
    | [] => none
    | c :: cs =>
      if c ≠ ':' then none
      let r ← readValue n cs
      match r.2 with
      | [] => none
      | c :: cs =>
        if c = '\x7d' then return ([(String.ofList k.1, r.1)], cs)
        else if c = ',' then
          let rs ← readEntries n cs
          return ((String.ofList k.1, r.1) :: rs.1, rs.2)
        else none

end

/-- The value of a whole text; blanks may follow it. -/
def read (s : String) : Except String Json :=
  match readValue (s.length + 1) s.toList with
  | none => .error "expected value"
  | some r =>
    if r.2.all (· ∈ [' ', '\t', '\n', '\r']) then .ok r.1 else .error "trailing characters"

end Read

section Strings

variable {c e : Char} {cs rest : List Char}

theorem unescape_shortEscape (h : shortEscape c = some e) : unescape e = some c ∧ e ≠ 'u' := by
  have hc {n : Nat} (hn : c.toNat = n) : Char.ofNat n = c := by rw [← hn, Char.ofNat_toNat]
  unfold shortEscape at h
  split at h
  · next hq => injection h with h; rw [← h, hq]; exact ⟨rfl, by decide⟩
  split at h
  · next hb => injection h with h; rw [← h, hb]; exact ⟨rfl, by decide⟩
  split at h
  · next hn => injection h with h; rw [← h, ← hc hn]; exact ⟨rfl, by decide⟩
  split at h
  · next hn => injection h with h; rw [← h, ← hc hn]; exact ⟨rfl, by decide⟩
  split at h
  · next hn => injection h with h; rw [← h, ← hc hn]; exact ⟨rfl, by decide⟩
  split at h
  · next hn => injection h with h; rw [← h, ← hc hn]; exact ⟨rfl, by decide⟩
  split at h
  · next hn => injection h with h; rw [← h, ← hc hn]; exact ⟨rfl, by decide⟩
  · cases h

theorem readString_backslash (he : e ≠ 'u') : readString ('\\' :: e :: cs) = do
    let c ← unescape e
    let r ← readString cs
    return (c :: r.1, r.2) := by
  rw [readString.eq_def]
  split <;> grind

theorem readString_plain (hq : c ≠ '"') (hb : c ≠ '\\') : readString (c :: cs) = do
    let r ← readString cs
    return (c :: r.1, r.2) := by
  rw [readString.eq_def]
  split <;> simp_all

theorem readString_escape : readString (escape c ++ rest) =
    (readString rest).map fun r ↦ (c :: r.1, r.2) := by
  unfold escape
  split
  · next e he =>
    obtain ⟨hun, hu⟩ := unescape_shortEscape he
    change readString ('\\' :: e :: rest) = _
    rw [readString_backslash hu, hun]
    cases readString rest with
    | none => rfl
    | some r => rfl
  · next hnone =>
    split
    · next hlt =>
      change readString ('\\' :: 'u' :: '0' :: '0' :: _ :: _ :: rest) = _
      rw [readString, Hex.value_digit (by omega), Hex.value_digit (by omega)]
      have hc : Char.ofNat (16 * (c.toNat / 16) + c.toNat % 16) = c := by
        rw [Nat.div_add_mod, Char.ofNat_toNat]
      cases readString rest with
      | none => rfl
      | some r => exact congrArg (fun d ↦ some (d :: r.1, r.2)) hc
    · have hq : c ≠ '"' := fun h ↦ by rw [h] at hnone; cases hnone
      have hb : c ≠ '\\' := fun h ↦ by rw [h] at hnone; cases hnone
      change readString (c :: rest) = _
      rw [readString_plain hq hb]
      cases readString rest with
      | none => rfl
      | some r => rfl

theorem readString_escapes : readString (cs.flatMap escape ++ '"' :: rest) = some (cs, rest) := by
  induction cs with
  | nil => rfl
  | cons c cs ih =>
    rw [List.flatMap_cons, List.append_assoc, readString_escape, ih, Option.map_some]

theorem escape_ne_newline : '\n' ∉ escape c := by
  unfold escape
  split
  · next e he =>
    have hun := (unescape_shortEscape he).1
    intro h
    rw [List.mem_cons, List.mem_singleton] at h
    rcases h with h | rfl
    · cases h
    · cases hun
  · next hnone =>
    split
    · next hlt =>
      have hhigh := Hex.digit_range (show c.toNat / 16 < 16 by omega)
      have hlow := Hex.digit_range (show c.toNat % 16 < 16 by omega)
      intro h
      simp only [List.mem_cons, List.not_mem_nil, or_false] at h
      rcases h with h | h | h | h | h | h
      · cases h
      · cases h
      · cases h
      · cases h
      · rw [← h] at hhigh
        revert hhigh
        decide
      · rw [← h] at hlow
        revert hlow
        decide
    · intro h
      rw [List.mem_singleton] at h
      rw [← h] at hnone
      cases hnone

end Strings

section Numbers

variable {rest : List Char}

/-- What follows does not go on with a number. -/
def Stops (rest : List Char) : Prop := ∀ c, rest.head? = some c → c.isDigit = false

theorem readNat_toDigits (n : Nat) (h : Stops rest) :
    readNat (Nat.toDigits 10 n ++ rest) = some (n, rest) := by
  have hdigits : ∀ c ∈ Nat.toDigits 10 n, c.isDigit := fun c hc ↦
    Nat.isDigit_of_mem_toDigits (by omega) (by omega) hc
  have htake : (Nat.toDigits 10 n ++ rest).takeWhile Char.isDigit = Nat.toDigits 10 n := by
    rw [List.takeWhile_append_of_pos hdigits]
    cases rest with
    | nil => simp
    | cons c cs => simp [h c rfl]
  have hdrop : (Nat.toDigits 10 n ++ rest).dropWhile Char.isDigit = rest := by
    rw [List.dropWhile_append_of_pos hdigits]
    cases rest with
    | nil => rfl
    | cons c cs => simp [h c rfl]
  rw [readNat, htake, hdrop, if_neg Nat.toDigits_ne_nil,
    Nat.ofDigitChars_toDigits (by omega) (by omega)]

end Numbers

section Values

variable {v : Json} {vs : List Json} {e : String × Json} {es : List (String × Json)} {n : Nat}
  {rest : List Char}

/-- A value is read from its text, whatever stands behind it. -/
def ReadsBack (v : Json) : Prop := ∀ n rest, (write v).length ≤ n → Stops rest →
  readValue n (write v ++ rest) = some (v, rest)

theorem stops_cons {c : Char} {cs : List Char} (h : c.isDigit = false) : Stops (c :: cs) := by
  intro d hd
  obtain rfl := Option.some.inj hd
  exact h

theorem digit_ne {c : Char} (h : c.isDigit) : c ≠ 'n' ∧ c ≠ 't' ∧ c ≠ 'f' ∧ c ≠ '"' ∧ c ≠ '[' ∧
    c ≠ '\x7b' ∧ c ≠ '-' ∧ c ≠ ']' := by
  refine ⟨?_, ?_, ?_, ?_, ?_, ?_, ?_, ?_⟩ <;>
  · intro hc
    rw [hc] at h
    cases h

theorem writeInt_readsBack (i : Int) : ReadsBack (num i) := by
  intro n rest hn hrest
  cases i with
  | ofNat m =>
    obtain ⟨d, ds, hd⟩ := List.exists_cons_of_ne_nil (@Nat.toDigits_ne_nil m 10)
    have hdigit : d.isDigit := Nat.isDigit_of_mem_toDigits (by omega) (by omega)
      (hd ▸ List.mem_cons_self)
    obtain ⟨hnull, htrue, hfalse, hstr, harr, hobj, hneg, -⟩ := digit_ne hdigit
    have hread := readNat_toDigits m hrest
    rw [write, writeInt, hd] at hn ⊢
    rw [hd] at hread
    cases n with
    | zero => cases hn
    | succ n =>
      rw [List.cons_append] at hread ⊢
      rw [readValue, if_neg hnull, if_neg htrue, if_neg hfalse, if_neg hstr, if_neg harr,
        if_neg hobj, if_neg hneg, hread]
      rfl
  | negSucc m =>
    rw [write, writeInt] at hn ⊢
    cases n with
    | zero => cases hn
    | succ n =>
      rw [List.cons_append, readValue, readNat_toDigits (m + 1) hrest]
      rfl

theorem write_ne_close (h : v.Canonical) (rest : List Char) :
    (write v ++ rest).head? ≠ some ']' := by
  cases h with
  | null => intro h; cases h
  | bool b =>
    cases b with
    | false => intro h; cases h
    | true => intro h; cases h
  | @num i _ _ =>
    cases i with
    | ofNat m =>
      obtain ⟨d, ds, hd⟩ := List.exists_cons_of_ne_nil (@Nat.toDigits_ne_nil m 10)
      have hdigit : d.isDigit := Nat.isDigit_of_mem_toDigits (by omega) (by omega)
        (hd ▸ List.mem_cons_self)
      rw [write, writeInt, hd]
      intro h
      exact (digit_ne hdigit).2.2.2.2.2.2.2 (Option.some.inj h)
    | negSucc m => intro h; cases h
  | str s => intro h; cases h
  | arr _ => intro h; cases h
  | obj _ _ => intro h; cases h

theorem writeElements_ne_close (h : ∀ v ∈ vs, v.Canonical) (hne : vs ≠ []) (rest : List Char) :
    (writeElements vs ++ rest).head? ≠ some ']' := by
  cases vs with
  | nil => exact absurd rfl hne
  | cons v vs =>
    rw [writeElements, List.append_assoc]
    exact write_ne_close (h v List.mem_cons_self) _

theorem writeElements_readsBack (h : ∀ v ∈ vs, ReadsBack v) (hne : vs ≠ [])
    (hn : (writeElements vs).length < n) :
    readElements n (writeElements vs ++ ']' :: rest) = some (vs, rest) := by
  induction vs generalizing n with
  | nil => exact absurd rfl hne
  | cons v vs ih =>
    cases n with
    | zero => omega
    | succ n =>
      have hv := h v List.mem_cons_self
      rw [writeElements] at hn ⊢
      cases vs with
      | nil =>
        rw [List.isEmpty_nil, if_pos rfl, List.append_nil] at hn ⊢
        rw [readElements, hv n _ (by omega) (stops_cons rfl)]
        rfl
      | cons w ws =>
        rw [List.isEmpty_cons, if_neg Bool.false_ne_true, List.length_append,
          List.length_cons] at hn
        have hrest := @ih n (fun w hw ↦ h w (List.mem_cons_of_mem _ hw)) (List.cons_ne_nil _ _)
          (by omega)
        rw [List.isEmpty_cons, if_neg Bool.false_ne_true, List.append_assoc, List.cons_append,
          readElements, hv n _ (by omega) (stops_cons rfl)]
        change (readElements n (writeElements (w :: ws) ++ ']' :: rest) >>=
          fun rs ↦ pure (v :: rs.1, rs.2)) = _
        rw [hrest]
        rfl

/-- An entry is read up to what its value is followed by. -/
theorem readEntries_quote (k : String) (cs : List Char) :
    readEntries (n + 1) (quote k ++ ':' :: cs) = (readValue n cs).bind fun r ↦ match r.2 with
      | [] => none
      | c :: cs =>
        if c = '\x7d' then some ([(k, r.1)], cs)
        else if c = ',' then (readEntries n cs).map fun rs ↦ ((k, r.1) :: rs.1, rs.2)
        else none := by
  rw [quote, List.cons_append, List.append_assoc, List.singleton_append, readEntries,
    if_neg (not_not.mpr rfl), readString_escapes]
  change (readValue n cs >>= _) = _
  congr 1
  funext r
  rw [String.ofList_toList]
  cases r.2 with
  | nil => rfl
  | cons c cs =>
    dsimp only
    split
    · rfl
    · split
      · cases readEntries n cs with
        | none => rfl
        | some rs => rfl
      · rfl

theorem writeEntries_readsBack (h : ∀ e ∈ es, ReadsBack e.2) (hne : es ≠ [])
    (hn : (writeEntries es).length < n) :
    readEntries n (writeEntries es ++ '\x7d' :: rest) = some (es, rest) := by
  induction es generalizing n with
  | nil => exact absurd rfl hne
  | cons e es ih =>
    obtain ⟨k, v⟩ := e
    cases n with
    | zero => omega
    | succ n =>
      have hv : ReadsBack v := h (k, v) List.mem_cons_self
      rw [writeEntries, List.length_append, List.length_cons, List.length_append] at hn
      rw [writeEntries, List.append_assoc, List.cons_append, List.append_assoc, readEntries_quote]
      cases es with
      | nil =>
        rw [List.isEmpty_nil, if_pos rfl, List.nil_append, hv n _ (by omega) (stops_cons rfl)]
        rfl
      | cons e es =>
        rw [List.isEmpty_cons, if_neg Bool.false_ne_true, List.length_cons] at hn
        have hrest := @ih n (fun e he ↦ h e (List.mem_cons_of_mem _ he)) (List.cons_ne_nil _ _)
          (by omega)
        rw [List.isEmpty_cons, if_neg Bool.false_ne_true, List.cons_append,
          hv n _ (by omega) (stops_cons rfl), Option.bind_some]
        change (readEntries n (writeEntries (e :: es) ++ '\x7d' :: rest)).map _ = _
        rw [hrest]
        rfl

theorem writeEntries_ne_close (hne : es ≠ []) (rest : List Char) :
    (writeEntries es ++ rest).head? ≠ some '\x7d' := by
  cases es with
  | nil => exact absurd rfl hne
  | cons e es => intro h; cases h

theorem readValue_bracket (cs : List Char) : readValue (n + 1) ('[' :: cs) =
    if cs.head? = some ']' then some (arr [], cs.drop 1)
    else (readElements n cs).map fun r ↦ (arr r.1, r.2) := rfl

theorem readValue_brace (cs : List Char) : readValue (n + 1) ('\x7b' :: cs) =
    if cs.head? = some '\x7d' then some (obj [], cs.drop 1)
    else (readEntries n cs).map fun r ↦ (obj r.1, r.2) := rfl

/-- Every canonical value is read back from its text. -/
theorem readsBack (h : v.Canonical) : ReadsBack v := by
  induction h with
  | num _ _ => exact writeInt_readsBack _
  | @arr vs h ih =>
    intro n rest hn hrest
    rw [write, List.length_cons, List.length_append, List.length_singleton] at hn
    cases n with
    | zero => omega
    | succ n =>
      rw [write, List.cons_append, List.append_assoc, List.singleton_append, readValue_bracket]
      cases vs with
      | nil => rfl
      | cons v vs =>
        have hhead := writeElements_ne_close h (List.cons_ne_nil _ _) (']' :: rest)
        rw [if_neg hhead, writeElements_readsBack ih (List.cons_ne_nil _ _) (by omega)]
        rfl
  | @obj es hkeys h ih =>
    intro n rest hn hrest
    rw [write, List.length_cons, List.length_append, List.length_singleton] at hn
    cases n with
    | zero => omega
    | succ n =>
      rw [write, List.cons_append, List.append_assoc, List.singleton_append, readValue_brace]
      cases es with
      | nil => rfl
      | cons e es =>
        have hhead := @writeEntries_ne_close (e :: es) (List.cons_ne_nil _ _) ('\x7d' :: rest)
        rw [if_neg hhead, writeEntries_readsBack ih (List.cons_ne_nil _ _) (by omega)]
        rfl
  | null =>
    intro n rest hn hrest
    cases n with
    | zero => cases hn
    | succ n => rfl
  | bool b =>
    intro n rest hn hrest
    cases n with
    | zero => cases b <;> cases hn
    | succ n => cases b <;> rfl
  | str s =>
    intro n rest hn hrest
    cases n with
    | zero => cases hn
    | succ n =>
      rw [write, quote, List.cons_append, List.append_assoc, List.singleton_append, readValue]
      change (readString _).map _ = _
      rw [readString_escapes, Option.map_some, String.ofList_toList]

theorem read_write (h : v.Canonical) (blanks : List Char)
    (hblanks : ∀ c ∈ blanks, c ∈ [' ', '\t', '\n', '\r']) :
    read (String.ofList (write v ++ blanks)) = .ok v := by
  have hstops : Stops blanks := by
    intro c hc
    have hall : ∀ c ∈ [' ', '\t', '\n', '\r'], !c.isDigit := List.all_eq_true.mp (by decide)
    exact (Bool.not_eq_true' _).mp (hall c (hblanks c (List.mem_of_head? hc)))
  have hread := readsBack h ((write v ++ blanks).length + 1) blanks
    (by rw [List.length_append]; omega) hstops
  rw [read, String.length_ofList, String.toList_ofList, hread]
  exact if_pos (List.all_eq_true.mpr fun c hc ↦ decide_eq_true (hblanks c hc))

theorem newline_notMem_quote (s : String) : '\n' ∉ quote s := by
  intro h
  rw [quote, List.mem_cons, List.mem_append, List.mem_flatMap, List.mem_singleton] at h
  rcases h with h | ⟨c, -, hc⟩ | h
  · cases h
  · exact escape_ne_newline hc
  · cases h

theorem newline_notMem_digits (n : Nat) : '\n' ∉ Nat.toDigits 10 n := fun h ↦
  absurd (Nat.isDigit_of_mem_toDigits (by omega) (by omega) h) (by decide)

theorem newline_notMem_elements (h : ∀ v ∈ vs, '\n' ∉ write v) : '\n' ∉ writeElements vs := by
  induction vs with
  | nil => exact List.not_mem_nil
  | cons v vs ih =>
    rw [writeElements, List.mem_append, not_or]
    refine ⟨h v List.mem_cons_self, ?_⟩
    split
    · exact List.not_mem_nil
    · rw [List.mem_cons, not_or]
      exact ⟨by decide, ih fun v hv ↦ h v (List.mem_cons_of_mem _ hv)⟩

theorem newline_notMem_entries (h : ∀ e ∈ es, '\n' ∉ write e.2) : '\n' ∉ writeEntries es := by
  induction es with
  | nil => exact List.not_mem_nil
  | cons e es ih =>
    rw [writeEntries, List.mem_append, List.mem_cons, List.mem_append, not_or, not_or, not_or]
    refine ⟨newline_notMem_quote e.1, by decide, h e List.mem_cons_self, ?_⟩
    split
    · exact List.not_mem_nil
    · rw [List.mem_cons, not_or]
      exact ⟨by decide, ih fun e he ↦ h e (List.mem_cons_of_mem _ he)⟩

theorem newline_notMem_write (h : v.Canonical) : '\n' ∉ write v := by
  induction h with
  | null => decide
  | bool b => cases b <;> decide
  | @num i _ _ =>
    cases i with
    | ofNat m => exact newline_notMem_digits m
    | negSucc m =>
      rw [write, writeInt, List.mem_cons, not_or]
      exact ⟨by decide, newline_notMem_digits (m + 1)⟩
  | str s => exact newline_notMem_quote s
  | arr _ ih =>
    rw [write, List.mem_cons, List.mem_append, List.mem_singleton, not_or, not_or]
    exact ⟨by decide, newline_notMem_elements ih, by decide⟩
  | obj _ _ ih =>
    rw [write, List.mem_cons, List.mem_append, List.mem_singleton, not_or, not_or]
    exact ⟨by decide, newline_notMem_entries ih, by decide⟩

/-- The compact form, which has no blanks in it. -/
def compact : TextForm where
  toString v := String.ofList (write v)
  fromStr := read
  oneLine h := by rw [String.toList_ofList]; exact newline_notMem_write h
  fromStr_toString h := by
    have hread := read_write h [] (List.forall_mem_nil _)
    rwa [List.append_nil] at hread
  fromStr_line h := by
    have hread := read_write h ['\n'] (List.forall_mem_singleton.mpr (by decide))
    rwa [String.ofList_append] at hread

end Values

end Json

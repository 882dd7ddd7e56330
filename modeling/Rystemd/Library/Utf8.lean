import Mathlib.Data.List.Basic

namespace Utf8

/-- The bytes of a text. -/
def encode (cs : List Char) : List UInt8 := cs.flatMap String.utf8EncodeChar

/-- The first character, if the bytes start with one. -/
def decodeChar (bs : List UInt8) : Option Char := bs.toByteArray.utf8DecodeChar? 0

def isContinuation (b : UInt8) : Bool := 0x80 ≤ b && b ≤ 0xBF

/-- A byte that can follow `lead` in a character of three or four bytes. -/
def isSecond (lead b : UInt8) : Bool :=
  if lead = 0xE0 then 0xA0 ≤ b && b ≤ 0xBF
  else if lead = 0xED then 0x80 ≤ b && b ≤ 0x9F
  else if lead = 0xF0 then 0x90 ≤ b && b ≤ 0xBF
  else if lead = 0xF4 then 0x80 ≤ b && b ≤ 0x8F
  else 0xE1 ≤ lead && lead ≤ 0xF4 && isContinuation b

/-- How many bytes after `lead` are left out with it, where no character starts: those that could
still have been part of one. -/
def skipped (lead : UInt8) : List UInt8 → Nat
  | [] => 0
  | b :: bs =>
    if isSecond lead b then if 0xF0 ≤ lead && bs.head?.any isContinuation then 2 else 1 else 0

/-- The characters of some bytes, with a replacement character for what is none. The first argument
counts the bytes that belong to what has been decoded already. -/
def lossy : Nat → List UInt8 → List Char
  | _, [] => []
  | n + 1, _ :: bs => lossy n bs
  | 0, b :: bs =>
    match decodeChar (b :: bs) with
    | some c => c :: lossy (c.utf8Size - 1) bs
    | none => '\uFFFD' :: lossy (skipped b bs) bs

def decodeLossy (bs : List UInt8) : List Char := lossy 0 bs

example : decodeLossy [0x61, 0xE2, 0x82, 0x62, 0xC3, 0xA9, 0x80] =
    ['a', '\uFFFD', 'b', 'é', '\uFFFD'] := by decide +kernel

variable {b lead : UInt8} {bs as : List UInt8} {c : Char} {cs : List Char} {n : Nat}

theorem lossy_skip (n : Nat) : lossy n bs = lossy 0 (bs.drop n) := by
  induction n generalizing bs with
  | zero => rfl
  | succ n ih =>
    cases bs with
    | nil => simp [lossy]
    | cons b bs => exact ih

/-- A continuation byte is not the first of a character. -/
theorem not_first_of_continuation (h : isContinuation b) : ¬ b.IsUTF8FirstByte := by
  have hall : ∀ n : Fin 256, isContinuation (UInt8.ofNat n.val) →
      ¬ (UInt8.ofNat n.val).IsUTF8FirstByte := by decide +kernel
  have hb := hall ⟨b.toNat, b.toNat_lt⟩
  rw [UInt8.ofNat_toNat] at hb
  exact hb h

theorem continuation_of_range {low high : UInt8} (hlow : 0x80 ≤ low) (hhigh : high ≤ 0xBF)
    (h : low ≤ b && b ≤ high) : isContinuation b := by
  rw [Bool.and_eq_true, decide_eq_true_eq, decide_eq_true_eq] at h
  rw [isContinuation, Bool.and_eq_true, decide_eq_true_eq, decide_eq_true_eq]
  exact ⟨UInt8.le_trans hlow h.1, UInt8.le_trans h.2 hhigh⟩

theorem continuation_of_second (h : isSecond lead b) : isContinuation b := by
  unfold isSecond at h
  split at h
  · exact continuation_of_range (by decide) (by decide) h
  · split at h
    · exact continuation_of_range (by decide) (by decide) h
    · split at h
      · exact continuation_of_range (by decide) (by decide) h
      · split at h
        · exact continuation_of_range (by decide) (by decide) h
        · rw [Bool.and_eq_true] at h
          exact h.2

/-- A character has one byte that can be the first of one, and starts with it. -/
theorem encodeChar_first (c : Char) : ∃ b bs, String.utf8EncodeChar c = b :: bs ∧
    b.IsUTF8FirstByte ∧ ∀ b' ∈ bs, ¬ b'.IsUTF8FirstByte := by
  cases h : String.utf8EncodeChar c with
  | nil => exact absurd h String.utf8EncodeChar_ne_nil
  | cons b bs =>
    have hfirst : ∀ i (hi : i < (b :: bs).length), (b :: bs)[i].IsUTF8FirstByte ↔ i = 0 := by
      rw [← h]
      intro i hi
      exact UInt8.isUTF8FirstByte_getElem_utf8EncodeChar
    refine ⟨b, bs, rfl, (hfirst 0 (Nat.zero_lt_succ _)).mpr rfl, ?_⟩
    intro b' hmem
    obtain ⟨i, hi, rfl⟩ := List.getElem_of_mem hmem
    intro hb
    exact absurd ((hfirst (i + 1) (Nat.succ_lt_succ hi)).mp hb) (Nat.succ_ne_zero i)

theorem decodeChar_encodeChar : decodeChar (String.utf8EncodeChar c ++ bs) = some c := by
  rw [decodeChar, List.toByteArray_append]
  exact ByteArray.utf8DecodeChar?_utf8EncodeChar_append

theorem eq_of_decodeChar (h : decodeChar bs = some c) : ∃ as, bs = String.utf8EncodeChar c ++ as := by
  obtain ⟨l, hl⟩ := ByteArray.exists_of_utf8DecodeChar?_eq_some h
  refine ⟨l.data.toList, ?_⟩
  have hdata := congrArg (fun b : ByteArray ↦ b.data.toList) hl
  simpa [ByteArray.data_append] using hdata

theorem lossy_encodeChar :
    lossy 0 (String.utf8EncodeChar c ++ bs) = c :: lossy 0 bs := by
  obtain ⟨b, as, hchar, -⟩ := encodeChar_first c
  have hlength := String.length_utf8EncodeChar c
  have hdecode : decodeChar (String.utf8EncodeChar c ++ bs) = some c := decodeChar_encodeChar
  rw [hchar, List.length_cons] at hlength
  rw [hchar, List.cons_append] at hdecode ⊢
  have hdrop : (as ++ bs).drop (c.utf8Size - 1) = bs := List.drop_left' (by omega)
  rw [lossy, hdecode]
  dsimp only
  rw [lossy_skip, hdrop]

/-- What is a text is decoded as it is. -/
theorem decodeLossy_encode : decodeLossy (encode cs) = cs := by
  induction cs with
  | nil => rfl
  | cons c cs ih =>
    rw [encode, List.flatMap_cons, decodeLossy, lossy_encodeChar]
    exact congrArg (c :: ·) ih

theorem encode_cons : encode (c :: cs) = String.utf8EncodeChar c ++ encode cs := List.flatMap_cons

theorem encode_append {cs' : List Char} : encode (cs ++ cs') = encode cs ++ encode cs' :=
  List.flatMap_append

theorem encodeChar_ascii (h : c.toNat < 128) :
    String.utf8EncodeChar c = [UInt8.ofNat c.toNat] := by
  have hle : c.val.toNat ≤ 127 := Nat.le_of_lt_succ h
  unfold String.utf8EncodeChar
  dsimp only
  rw [if_pos hle]
  rfl

theorem encode_ascii (h : ∀ c ∈ cs, c.toNat < 128) :
    encode cs = cs.map fun c ↦ UInt8.ofNat c.toNat := by
  induction cs with
  | nil => rfl
  | cons c cs ih =>
    rw [encode_cons, encodeChar_ascii (h c List.mem_cons_self), List.map_cons,
      ih fun c' hc' ↦ h c' (List.mem_cons_of_mem _ hc'), List.singleton_append]

/-- A character outside ASCII has no byte in it. -/
theorem encodeChar_great (h : 128 ≤ c.toNat) (hb : b ∈ String.utf8EncodeChar c) :
    128 ≤ b.toNat := by
  have hgt : ¬ c.val.toNat ≤ 127 := Nat.not_le.mpr h
  unfold String.utf8EncodeChar at hb
  dsimp only at hb
  rw [if_neg hgt] at hb
  split at hb
  · simp only [List.mem_cons, List.not_mem_nil, or_false] at hb
    rcases hb with rfl | rfl <;> rw [UInt8.toNat_ofNat'] <;> omega
  · split at hb
    · simp only [List.mem_cons, List.not_mem_nil, or_false] at hb
      rcases hb with rfl | rfl | rfl <;> rw [UInt8.toNat_ofNat'] <;> omega
    · simp only [List.mem_cons, List.not_mem_nil, or_false] at hb
      rcases hb with rfl | rfl | rfl | rfl <;> rw [UInt8.toNat_ofNat'] <;> omega

def isAlphanumeric (b : UInt8) : Bool :=
  48 ≤ b && b ≤ 57 || 65 ≤ b && b ≤ 90 || 97 ≤ b && b ≤ 122

theorem isAlphanumeric_iff : isAlphanumeric b ↔ 48 ≤ b.toNat ∧ b.toNat ≤ 57 ∨
    65 ≤ b.toNat ∧ b.toNat ≤ 90 ∨ 97 ≤ b.toNat ∧ b.toNat ≤ 122 := by
  simp only [isAlphanumeric, Bool.or_eq_true, Bool.and_eq_true, decide_eq_true_eq,
    UInt8.le_iff_toNat_le, UInt8.reduceToNat, or_assoc]

/-- A character of ASCII is in a text where its byte is in the bytes of the text. -/
theorem mem_of_mem_encode (hb : b ∈ encode cs) (h : b.toNat < 128) :
    ∃ c ∈ cs, c.toNat = b.toNat := by
  obtain ⟨c, hc, hmem⟩ := List.mem_flatMap.mp hb
  have hlt : c.toNat < 128 := by
    by_contra hge
    have := encodeChar_great (Nat.not_lt.mp hge) hmem
    omega
  rw [encodeChar_ascii hlt, List.mem_singleton] at hmem
  refine ⟨c, hc, ?_⟩
  rw [hmem, UInt8.toNat_ofNat']
  omega

/-- The character that a byte of ASCII is. -/
def char (b : UInt8) : Char := Char.ofNat b.toNat

theorem toNat_char (h : b.toNat < 128) : (char b).toNat = b.toNat := by
  have hvalid : b.toNat.isValidChar := .inl (Nat.lt_trans h (by decide))
  rw [char, Char.ofNat, dif_pos hvalid]
  rfl

theorem encode_char (h : b.toNat < 128) : encode [char b] = [b] := by
  have hchar := toNat_char h
  rw [encode_cons, encodeChar_ascii (by omega), hchar, UInt8.ofNat_toNat]
  rfl

/-- The characters of some bytes, if they are a text. -/
def strict : Nat → List UInt8 → Option (List Char)
  | _, [] => some []
  | n + 1, _ :: bs => strict n bs
  | 0, b :: bs => (decodeChar (b :: bs)).bind fun c ↦ (strict (c.utf8Size - 1) bs).map (c :: ·)

def decode (bs : List UInt8) : Option (List Char) := strict 0 bs

theorem strict_skip (n : Nat) : strict n bs = strict 0 (bs.drop n) := by
  induction n generalizing bs with
  | zero => rfl
  | succ n ih =>
    cases bs with
    | nil => simp [strict]
    | cons b bs => exact ih

theorem decode_encode : decode (encode cs) = some cs := by
  induction cs with
  | nil => rfl
  | cons c cs ih =>
    obtain ⟨b, as, hchar, -⟩ := encodeChar_first c
    have hlength := String.length_utf8EncodeChar c
    have hdecode : decodeChar (String.utf8EncodeChar c ++ encode cs) = some c :=
      decodeChar_encodeChar
    rw [hchar, List.length_cons] at hlength
    rw [hchar, List.cons_append] at hdecode
    have hdrop : (as ++ encode cs).drop (c.utf8Size - 1) = encode cs := List.drop_left' (by omega)
    rw [decode] at ih ⊢
    rw [encode_cons, hchar, List.cons_append, strict, hdecode, Option.bind_some, strict_skip,
      hdrop, ih, Option.map_some]

theorem encode_injective {cs' : List Char} (h : encode cs = encode cs') : cs = cs' := by
  have hdecode : decode (encode cs) = some cs := decode_encode
  rw [h, decode_encode] at hdecode
  exact (Option.some.inj hdecode).symm

/-- The number of bytes that can be the first of a character. -/
def firsts (bs : List UInt8) : Nat := bs.countP fun b ↦ b.IsUTF8FirstByte

theorem firsts_append : firsts (as ++ bs) = firsts as + firsts bs := List.countP_append

theorem firsts_eq_zero (h : ∀ b ∈ bs, ¬ b.IsUTF8FirstByte) : firsts bs = 0 := by
  rw [firsts, List.countP_eq_zero]
  simpa using h

theorem firsts_cons (hb : b.IsUTF8FirstByte) : firsts (b :: bs) = firsts bs + 1 := by
  rw [firsts, List.countP_cons_of_pos (by simpa using hb)]
  rfl

theorem firsts_cons_of_not (hb : ¬ b.IsUTF8FirstByte) : firsts (b :: bs) = firsts bs := by
  rw [firsts, List.countP_cons_of_neg (by simpa using hb)]
  rfl

theorem firsts_encode : firsts (encode cs) = cs.length := by
  induction cs with
  | nil => rfl
  | cons c cs ih =>
    obtain ⟨b, bs, hchar, hb, hbs⟩ := encodeChar_first c
    rw [encode, List.flatMap_cons, hchar, List.cons_append, firsts_cons hb, firsts_append,
      firsts_eq_zero hbs, List.length_cons, Nat.zero_add, ← ih]
    rfl

/-- What is left out behind a first byte has no other one. -/
theorem firsts_skipped : firsts (bs.take (skipped lead bs)) = 0 := by
  apply firsts_eq_zero
  cases bs with
  | nil => simp
  | cons b bs =>
    intro b' hmem
    rw [skipped] at hmem
    split at hmem
    · next hsecond =>
      have hb := not_first_of_continuation (continuation_of_second hsecond)
      split at hmem
      · next hthird =>
        rw [Bool.and_eq_true] at hthird
        obtain ⟨b₂, hhead, hb₂⟩ := (Option.any_eq_true _ _).mp hthird.2
        obtain ⟨rest, rfl⟩ := List.head?_eq_some_iff.mp hhead
        rw [List.take_succ_cons, List.take_succ_cons, List.take_zero] at hmem
        rcases List.mem_cons.mp hmem with rfl | hmem
        · exact hb
        · rw [List.mem_singleton.mp hmem]
          exact not_first_of_continuation hb₂
      · rw [List.take_succ_cons, List.take_zero, List.mem_singleton] at hmem
        rw [hmem]
        exact hb
    · rw [List.take_zero] at hmem
      cases hmem

/-- One character is decoded from some bytes, of which only the first can be the first of one. -/
theorem lossy_cons (b : UInt8) (bs : List UInt8) : ∃ c n,
    lossy 0 (b :: bs) = c :: lossy 0 (bs.drop n) ∧ firsts (bs.take n) = 0 := by
  cases h : decodeChar (b :: bs) with
  | some c =>
    refine ⟨c, c.utf8Size - 1, ?_, ?_⟩
    · rw [lossy, h]
      dsimp only
      rw [lossy_skip]
    · obtain ⟨as, has⟩ := eq_of_decodeChar h
      obtain ⟨b', tail, hchar, -, htail⟩ := encodeChar_first c
      have hlength := String.length_utf8EncodeChar c
      rw [hchar, List.length_cons] at hlength
      rw [hchar, List.cons_append] at has
      obtain ⟨rfl, rfl⟩ := List.cons.inj has
      rw [List.take_left' (by omega)]
      exact firsts_eq_zero htail
  | none =>
    refine ⟨'\uFFFD', skipped b bs, ?_, firsts_skipped⟩
    rw [lossy, h]
    dsimp only
    rw [lossy_skip]

/-- There is a character for each byte that can be the first of one. -/
theorem firsts_le_length : firsts bs ≤ (decodeLossy bs).length := by
  induction hlen : bs.length using Nat.strongRecOn generalizing bs with
  | _ n ih =>
    cases bs with
    | nil => exact Nat.zero_le _
    | cons b bs =>
      obtain ⟨c, m, hlossy, hzero⟩ := lossy_cons b bs
      have hlt : (bs.drop m).length < n := by
        rw [← hlen, List.length_drop, List.length_cons]
        omega
      have hrest := ih (bs.drop m).length hlt rfl
      have hsplit : firsts bs = firsts (bs.take m) + firsts (bs.drop m) := by
        rw [← firsts_append, List.take_append_drop]
      rw [decodeLossy] at hrest ⊢
      rw [hlossy, List.length_cons]
      have hone : firsts (b :: bs) ≤ firsts bs + 1 := by
        by_cases hb : b.IsUTF8FirstByte
        · exact Nat.le_of_eq (firsts_cons hb)
        · rw [firsts_cons_of_not hb]
          omega
      omega

/-- There is one more if the first byte is not the first of a character. -/
theorem firsts_lt_length (hb : ¬ b.IsUTF8FirstByte) :
    firsts (b :: bs) < (decodeLossy (b :: bs)).length := by
  obtain ⟨c, m, hlossy, hzero⟩ := lossy_cons b bs
  have hrest : firsts (bs.drop m) ≤ _ := firsts_le_length
  have hsplit : firsts bs = firsts (bs.take m) + firsts (bs.drop m) := by
    rw [← firsts_append, List.take_append_drop]
  rw [decodeLossy] at hrest ⊢
  rw [hlossy, List.length_cons, firsts_cons_of_not hb]
  omega

/-- A text that is cut before a byte that can be the first of a character is cut between two. -/
theorem encode_eq_append (h : encode cs = as ++ bs) (hbs : ∀ b ∈ bs.head?, b.IsUTF8FirstByte) :
    ∃ cs₁ cs₂, cs = cs₁ ++ cs₂ ∧ as = encode cs₁ ∧ bs = encode cs₂ := by
  induction cs generalizing as with
  | nil =>
    obtain ⟨rfl, rfl⟩ := List.append_eq_nil_iff.mp h.symm
    exact ⟨[], [], rfl, rfl, rfl⟩
  | cons c cs ih =>
    have hcons : encode (c :: cs) = String.utf8EncodeChar c ++ encode cs := List.flatMap_cons
    rw [hcons] at h
    rcases List.append_eq_append_iff.mp h with ⟨as', has, hcs⟩ | ⟨bs', hc, hbs'⟩
    · obtain ⟨cs₁, cs₂, rfl, rfl, rfl⟩ := ih hcs
      exact ⟨c :: cs₁, cs₂, rfl, has.trans List.flatMap_cons.symm, rfl⟩
    · obtain ⟨b, tail, hchar, -, htail⟩ := encodeChar_first c
      cases bs' with
      | nil =>
        rw [List.append_nil] at hc
        refine ⟨[c], cs, rfl, ?_, hbs'⟩
        rw [← hc, encode, List.flatMap_singleton]
      | cons b' bs' =>
        cases as with
        | nil => exact ⟨[], c :: cs, rfl, rfl, by rw [hbs', hcons, hc, List.nil_append]⟩
        | cons a as =>
          have hb' := hbs b' (by rw [hbs']; rfl)
          rw [hchar] at hc
          obtain ⟨-, rfl⟩ := List.cons.inj hc
          exact absurd hb' (htail b' (by simp))

/-- A text whose bytes have those of a character in them has that character there. -/
theorem encode_eq_append_char (h : encode cs = as ++ (String.utf8EncodeChar c ++ bs)) :
    ∃ cs₁ cs₂, cs = cs₁ ++ c :: cs₂ ∧ as = encode cs₁ ∧ bs = encode cs₂ := by
  have hfirst : ∀ b ∈ (String.utf8EncodeChar c ++ bs).head?, b.IsUTF8FirstByte := by
    obtain ⟨b, tail, hchar, hb, -⟩ := encodeChar_first c
    rw [hchar]
    rintro b' hb'
    exact Option.some.inj hb' ▸ hb
  obtain ⟨cs₁, cs₂, rfl, has, hbs⟩ := encode_eq_append h hfirst
  have hdecode : decodeChar (String.utf8EncodeChar c ++ bs) = some c := decodeChar_encodeChar
  rw [hbs] at hdecode
  cases cs₂ with
  | nil => cases hdecode
  | cons d cs₂ =>
    rw [encode_cons, decodeChar_encodeChar] at hdecode
    obtain rfl := Option.some.inj hdecode
    rw [encode_cons] at hbs
    exact ⟨cs₁, cs₂, rfl, has, List.append_cancel_left hbs⟩

theorem length_encodeChar : (String.utf8EncodeChar c).length = 1 ↔ c.toNat < 128 := by
  rw [String.length_utf8EncodeChar, Char.utf8Size_eq_one_iff]
  exact Nat.lt_succ_iff.symm

/-- A text has no fewer bytes than characters, and more if a character is outside ASCII. -/
theorem length_encode (cs : List Char) : cs.length ≤ (encode cs).length ∧
    ((encode cs).length = cs.length ↔ ∀ c ∈ cs, c.toNat < 128) := by
  induction cs with
  | nil => exact ⟨Nat.le_refl 0, fun _ c hc ↦ (List.not_mem_nil hc).elim, fun _ ↦ rfl⟩
  | cons c cs ih =>
    obtain ⟨hle, hiff⟩ := ih
    have hpos := Char.utf8Size_pos c
    have hlength := String.length_utf8EncodeChar c
    rw [encode_cons, List.length_append, List.length_cons, List.forall_mem_cons, ← hiff,
      ← length_encodeChar]
    omega

end Utf8

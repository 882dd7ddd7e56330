import Mathlib.Data.List.Basic

namespace Bpf

/-- An instruction of a classic BPF filter; the jumps count from the next instruction on. -/
structure Insn where
  code : UInt16
  jt : UInt8
  jf : UInt8
  k : UInt32
deriving DecidableEq, Repr

/-- The opcodes of a filter. -/
inductive Opcode
  | ld
  | jeq
  | jset
  | and
  | ret
deriving DecidableEq, Repr

def Opcode.code : Opcode → UInt16
  | .ld => 0x20
  | .jeq => 0x15
  | .jset => 0x45
  | .and => 0x54
  | .ret => 0x06

def Opcode.decode (code : UInt16) : Option Opcode :=
  [ld, jeq, jset, and, ret].find? fun op ↦ op.code = code

@[simp] theorem Opcode.decode_code (op : Opcode) : decode op.code = some op := by
  cases op <;> decide

/-- Run a filter that skips the next `n` instructions, with `a` in the accumulator. `none` stands
for a load outside the data, an unknown opcode and a run that leaves the program. -/
def eval (load : UInt32 → Option UInt32) : List Insn → Nat → UInt32 → Option UInt32
  | [], _, _ => none
  | _ :: rest, n + 1, a => eval load rest n a
  | i :: rest, 0, a =>
    match Opcode.decode i.code with
    | none => none
    | some .ld => (load i.k).bind fun v ↦ eval load rest 0 v
    | some .jeq => eval load rest (if a = i.k then i.jt else i.jf).toNat a
    | some .jset => eval load rest (if a &&& i.k ≠ 0 then i.jt else i.jf).toNat a
    | some .and => eval load rest 0 (a &&& i.k)
    | some .ret => some i.k

/-- The return value of a filter. -/
def run (load : UInt32 → Option UInt32) (prog : List Insn) : Option UInt32 := eval load prog 0 0

section Steps

variable {load : UInt32 → Option UInt32} {prog : List Insn} {i : Nat} {a k : UInt32} {jt jf : UInt8}

theorem eval_cons {ins : Insn} : eval load (ins :: prog) 0 a =
    match Opcode.decode ins.code with
    | none => none
    | some .ld => (load ins.k).bind fun v ↦ eval load prog 0 v
    | some .jeq => eval load prog (if a = ins.k then ins.jt else ins.jf).toNat a
    | some .jset => eval load prog (if a &&& ins.k ≠ 0 then ins.jt else ins.jf).toNat a
    | some .and => eval load prog 0 (a &&& ins.k)
    | some .ret => some ins.k := rfl

theorem eval_drop (n : Nat) : eval load prog n a = eval load (prog.drop n) 0 a := by
  induction prog generalizing n with
  | nil => simp [eval]
  | cons ins rest ih =>
    cases n with
    | zero => rfl
    | succ n => simpa only [eval, List.drop_succ_cons] using ih n

theorem eval_at {ins : Insn} (h : prog[i]? = some ins) (a : UInt32) :
    eval load prog i a = eval load (ins :: prog.drop (i + 1)) 0 a := by
  obtain ⟨hi, rfl⟩ := List.getElem?_eq_some_iff.mp h
  rw [eval_drop, List.drop_eq_getElem_cons hi]

theorem eval_ld (h : prog[i]? = some ⟨Opcode.ld.code, jt, jf, k⟩) :
    eval load prog i a = (load k).bind fun v ↦ eval load prog (i + 1) v := by
  simp only [eval_at h, eval_cons, Opcode.decode_code, eval_drop (i + 1)]

theorem eval_jeq (h : prog[i]? = some ⟨Opcode.jeq.code, jt, jf, k⟩) :
    eval load prog i a = eval load prog (i + 1 + (if a = k then jt else jf).toNat) a := by
  simp only [eval_at h, eval_cons, Opcode.decode_code]
  rw [eval_drop, List.drop_drop, ← eval_drop]

theorem eval_jset (h : prog[i]? = some ⟨Opcode.jset.code, jt, jf, k⟩) :
    eval load prog i a = eval load prog (i + 1 + (if a &&& k ≠ 0 then jt else jf).toNat) a := by
  simp only [eval_at h, eval_cons, Opcode.decode_code]
  rw [eval_drop, List.drop_drop, ← eval_drop]

theorem eval_and (h : prog[i]? = some ⟨Opcode.and.code, jt, jf, k⟩) :
    eval load prog i a = eval load prog (i + 1) (a &&& k) := by
  simp only [eval_at h, eval_cons, Opcode.decode_code, eval_drop (i + 1)]

theorem eval_ret (h : prog[i]? = some ⟨Opcode.ret.code, jt, jf, k⟩) :
    eval load prog i a = some k := by
  simp only [eval_at h, eval_cons, Opcode.decode_code]

end Steps

/-- An instruction whose jumps name the instructions that they go to. -/
structure Placed where
  code : UInt16
  k : UInt32
  jt : Option Nat
  jf : Option Nat
deriving DecidableEq, Repr

/-- The offset of a jump from instruction `i`, cut to eight bits. -/
def offset (i : Nat) (target : Option Nat) : UInt8 :=
  (target.map fun t ↦ UInt8.ofNat (t - i - 1)).getD 0

def assemble (prog : List Placed) : List Insn :=
  prog.mapIdx fun i ins ↦ ⟨ins.code, offset i ins.jt, offset i ins.jf, ins.k⟩

/-- Where a jump from instruction `i` lands. -/
def land (i t : Nat) : Nat := i + 1 + (t - i - 1) % 256

/-- A jump over at most 255 instructions lands at its target. -/
theorem land_eq {i t : Nat} (h : i < t) (hr : t ≤ i + 256) : land i t = t := by
  simp only [land]
  omega

section Placed

variable {load : UInt32 → Option UInt32} {prog : List Placed} {i t f : Nat} {a k : UInt32}
  {jt jf : Option Nat}

theorem assemble_get {ins : Placed} (h : prog[i]? = some ins) :
    (assemble prog)[i]? = some ⟨ins.code, offset i ins.jt, offset i ins.jf, ins.k⟩ := by
  simp [assemble, h]

theorem land_offset : i + 1 + (offset i (some t)).toNat = land i t := by
  simp [offset, land]

theorem placed_ld (h : prog[i]? = some ⟨Opcode.ld.code, k, jt, jf⟩) :
    eval load (assemble prog) i a =
      (load k).bind fun v ↦ eval load (assemble prog) (i + 1) v := eval_ld (assemble_get h)

theorem placed_and (h : prog[i]? = some ⟨Opcode.and.code, k, jt, jf⟩) :
    eval load (assemble prog) i a = eval load (assemble prog) (i + 1) (a &&& k) :=
  eval_and (assemble_get h)

theorem placed_ret (h : prog[i]? = some ⟨Opcode.ret.code, k, jt, jf⟩) :
    eval load (assemble prog) i a = some k := eval_ret (assemble_get h)

theorem placed_jeq (h : prog[i]? = some ⟨Opcode.jeq.code, k, some t, some f⟩) :
    eval load (assemble prog) i a =
      eval load (assemble prog) (if a = k then land i t else land i f) a := by
  rw [eval_jeq (assemble_get h)]
  split <;> rw [land_offset]

theorem placed_jset (h : prog[i]? = some ⟨Opcode.jset.code, k, some t, some f⟩) :
    eval load (assemble prog) i a =
      eval load (assemble prog) (if a &&& k ≠ 0 then land i t else land i f) a := by
  rw [eval_jset (assemble_get h)]
  split <;> rw [land_offset]

/-- The comparisons with the keys stand at `base`, one after the other: a match goes to the target
of the key, the last one without a match to `d`. -/
structure Chain (prog : List Placed) (base d : Nat) (keys : List (UInt32 × Nat)) : Prop where
  get : ∀ j key, keys[j]? = some key → prog[base + j]? = some ⟨Opcode.jeq.code, key.1, some key.2,
    some (if j + 1 = keys.length then d else base + j + 1)⟩

theorem Chain.tail {key : UInt32 × Nat} {keys : List (UInt32 × Nat)} {base d : Nat}
    (h : Chain prog base d (key :: keys)) : Chain prog (base + 1) d keys := by
  refine ⟨fun j key' hj ↦ ?_⟩
  have hget := h.get (j + 1) key' hj
  simp only [List.length_cons, Nat.add_right_cancel_iff] at hget
  rwa [Nat.add_right_comm base 1 j]

theorem Chain.drop {keys : List (UInt32 × Nat)} {base d : Nat} (h : Chain prog base d keys)
    (j : Nat) : Chain prog (base + j) d (keys.drop j) := by
  induction j generalizing base keys with
  | zero => exact h
  | succ j ih =>
    cases keys with
    | nil => exact ⟨fun j key hj ↦ by simp at hj⟩
    | cons key keys =>
      rw [List.drop_succ_cons, ← Nat.add_assoc, Nat.add_right_comm]
      exact ih h.tail

/-- Before the first match, a chain goes on to its next comparison. -/
theorem Chain.next {keys : List (UInt32 × Nat)} {base d j : Nat} (h : Chain prog base d keys)
    (hj : j + 1 < keys.length) (ha : (keys.map Prod.fst)[j]? ≠ some a) :
    eval load (assemble prog) (base + j) a = eval load (assemble prog) (base + (j + 1)) a := by
  have hlt : j < keys.length := by omega
  have hget := h.get j _ (List.getElem?_eq_getElem hlt)
  have hne : ¬ a = keys[j].1 := by
    rintro rfl
    simp [hlt] at ha
  rw [placed_jeq hget, if_neg hne, if_neg (by omega), land_eq (by omega) (by omega), Nat.add_assoc]

/-- Up to the first match. -/
theorem Chain.skip {keys : List (UInt32 × Nat)} {base d j : Nat} (h : Chain prog base d keys)
    (hj : j < keys.length) (ha : a ∉ (keys.map Prod.fst).take j) :
    eval load (assemble prog) base a = eval load (assemble prog) (base + j) a := by
  induction j with
  | zero => rfl
  | succ j ih =>
    have hlt : j < (keys.map Prod.fst).length := by
      rw [List.length_map]
      omega
    rw [List.take_succ_eq_append_getElem hlt, List.mem_append, not_or, List.mem_singleton] at ha
    rw [ih (by omega) ha.1]
    refine h.next hj fun heq ↦ ha.2 ?_
    rw [List.getElem?_eq_getElem hlt] at heq
    exact (Option.some.inj heq).symm

/-- A chain without a match goes to its end. -/
theorem Chain.miss {keys : List (UInt32 × Nat)} {base d : Nat} (h : Chain prog base d keys)
    (hne : keys ≠ []) (ha : a ∉ keys.map Prod.fst)
    (hd : base + keys.length ≤ d ∧ d ≤ base + keys.length + 255) :
    eval load (assemble prog) base a = eval load (assemble prog) d a := by
  have hpos : 0 < keys.length := List.length_pos_iff.mpr hne
  have hlast : keys.length - 1 < keys.length := by omega
  rw [h.skip hlast fun hmem ↦ ha (List.mem_of_mem_take hmem)]
  have hkey : a ≠ keys[keys.length - 1].1 := fun he ↦
    ha (List.mem_map.mpr ⟨_, List.getElem_mem hlast, he.symm⟩)
  rw [placed_jeq (h.get _ _ (List.getElem?_eq_getElem hlast)), if_neg hkey, if_pos (by omega),
    land_eq (by omega) (by omega)]

/-- A chain all of whose jumps reach their targets finds the target of its first match. -/
theorem Chain.run {keys : List (UInt32 × Nat)} {base d : Nat} (h : Chain prog base d keys)
    (hne : keys ≠ []) (hd : base + keys.length ≤ d ∧ d ≤ base + 256)
    (ht : ∀ key ∈ keys, base + keys.length ≤ key.2 ∧ key.2 ≤ base + 256) :
    eval load (assemble prog) base a =
      eval load (assemble prog) (((keys.find? fun key ↦ key.1 = a).map Prod.snd).getD d) a := by
  induction keys generalizing base with
  | nil => exact absurd rfl hne
  | cons key keys ih =>
    have hget := h.get 0 key rfl
    simp only [List.length_cons] at hd ht hget
    have hkey := ht key (List.mem_cons_self ..)
    rw [Nat.add_zero] at hget
    rw [placed_jeq hget]
    by_cases ha : a = key.1
    · subst ha
      rw [if_pos rfl, land_eq (by omega) (by omega)]
      simp
    · rw [if_neg ha, List.find?_cons_of_neg (by simpa using fun he ↦ ha he.symm)]
      cases keys with
      | nil =>
        rw [if_pos (by simp), land_eq (by omega) (by omega)]
        rfl
      | cons key' keys =>
        rw [if_neg (by simp), land_eq (by omega) (by omega)]
        simp only [List.length_cons] at hd ht ih
        refine ih h.tail (by simp) ⟨by omega, ?_⟩ fun k hk ↦ ?_
        · omega
        · have := ht k (List.mem_cons_of_mem _ hk)
          omega

/-- A chain all of whose keys go to one target. -/
theorem Chain.run_same {keys : List UInt32} {base d t : Nat}
    (h : Chain prog base d (keys.map fun key ↦ (key, t))) (hne : keys ≠ [])
    (hd : base + keys.length ≤ d ∧ d ≤ base + 256) (ht : base + keys.length ≤ t ∧ t ≤ base + 256) :
    eval load (assemble prog) base a = eval load (assemble prog) (if a ∈ keys then t else d) a := by
  rw [h.run (by simpa using hne) (by rwa [List.length_map])]
  · congr 1
    clear h hne hd ht
    induction keys with
    | nil => rfl
    | cons key keys ih =>
      by_cases ha : key = a
      · simp [ha]
      · rw [List.map_cons, List.find?_cons_of_neg (by simpa using ha), ih]
        simp [List.mem_cons, Ne.symm ha]
  · rintro key hkey
    obtain ⟨nr, -, rfl⟩ := List.mem_map.mp hkey
    rwa [List.length_map]

end Placed

end Bpf

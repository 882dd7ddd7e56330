import Mathlib.Data.List.Basic
import Mathlib.Logic.Relation

namespace LeastSearch

variable {α β γ : Type} {le : β → β → Prop} {P Q : β → Prop} {o : Option β}

/-- A search for the values with `P` finds the least of them, and nothing where there is none. -/
def Finds (le : β → β → Prop) (P : β → Prop) : Option β → Prop
  | none => ∀ b, ¬ P b
  | some b => P b ∧ ∀ b', P b' → le b b'

theorem Finds.congr (h : Finds le P o) (hpq : ∀ b, P b ↔ Q b) : Finds le Q o := by
  cases o with
  | none => exact fun b hb ↦ h b ((hpq b).mpr hb)
  | some b => exact ⟨(hpq b).mp h.1, fun b' hb' ↦ h.2 b' ((hpq b').mpr hb')⟩

/-- One value, if it is wanted. -/
theorem finds_ite {c : Prop} [Decidable c] (hle : ∀ b, le b b) (a : β) :
    Finds le (fun b ↦ b = a ∧ c) (if c then some a else none) := by
  split
  · next hc => exact ⟨⟨rfl, hc⟩, fun b hb ↦ hb.1 ▸ hle a⟩
  · next hc => exact fun b hb ↦ hc hb.2

/-- Nothing is wanted where the condition fails. -/
theorem Finds.guard {c : Prop} [Decidable c] (h : c → Finds le P o) :
    Finds le (fun b ↦ c ∧ P b) (if c then o else none) := by
  split
  · next hc => exact (h hc).congr fun b ↦ (and_iff_right hc).symm
  · next hc => exact fun b hb ↦ hc hb.1

/-- The places of a list are searched one after the other, and what is wanted at one of them is not
above what is wanted at a later one. -/
theorem Finds.findSome {P : α → β → Prop} {f : α → Option β} {l : List α}
    (hf : ∀ a ∈ l, Finds le (P a) (f a))
    (hl : l.Pairwise fun a a' ↦ ∀ b b', P a b → P a' b' → le b b') :
    Finds le (fun b ↦ ∃ a ∈ l, P a b) (l.findSome? f) := by
  induction l with
  | nil =>
    rintro b ⟨a, ha, -⟩
    cases ha
  | cons a l ih =>
    obtain ⟨ha, hf⟩ := List.forall_mem_cons.mp hf
    obtain ⟨hfirst, hl⟩ := List.pairwise_cons.mp hl
    rw [List.findSome?_cons]
    cases hfa : f a with
    | none =>
      rw [hfa] at ha
      apply (ih hf hl).congr
      intro b
      rw [List.exists_mem_cons_iff]
      exact (or_iff_right (ha b)).symm
    | some b =>
      rw [hfa] at ha
      refine ⟨⟨a, List.mem_cons_self, ha.1⟩, fun b' hb' ↦ ?_⟩
      obtain ⟨a', ha', h⟩ := hb'
      rcases List.mem_cons.mp ha' with rfl | ha'
      · exact ha.2 b' h
      · exact hfirst a' ha' b b' ha.1 h

/-- What is found is carried over to other values. -/
theorem Finds.bind {le' : γ → γ → Prop} {Q : γ → Prop} {k : β → Option γ} (h : Finds le P o)
    (hk : ∀ b, P b → ∃ c, k b = some c ∧ Q c)
    (hq : ∀ c, Q c → ∃ b, P b ∧ k b = some c)
    (hle : ∀ b b' c c', k b = some c → k b' = some c' → le b b' → le' c c') :
    Finds le' Q (o.bind k) := by
  cases o with
  | none =>
    intro c hc
    obtain ⟨b, hb, -⟩ := hq c hc
    exact h b hb
  | some b =>
    obtain ⟨hb, hleast⟩ := h
    obtain ⟨c, hc, hqc⟩ := hk b hb
    rw [Option.bind_some, hc]
    refine ⟨hqc, fun c' hc' ↦ ?_⟩
    obtain ⟨b', hb', hkb'⟩ := hq c' hc'
    exact hle b b' c c' hc hkb' (hleast b' hb')

/-- A search that is taken up again from each value that it finds comes to every value that was
wanted at first, if the wanted values are numbered and those behind a value that is found are wanted
from there too. -/
theorem Finds.transGen {W : β → β → Prop} {next : β → Option β} {key : β → Int}
    (hfind : ∀ a, Finds (fun b c ↦ key b ≤ key c) (W a) (next a))
    (hlt : ∀ a b, W a b → key a < key b)
    (hinj : ∀ a b c, W a b → W a c → key b = key c → b = c)
    (hrest : ∀ a b c, W a b → W a c → key b < key c → W b c) {a c : β} (h : W a c) :
    Relation.TransGen (fun a b ↦ next a = some b) a c := by
  -- by induction on the distance that is left
  generalize hn : (key c - key a).toNat = n
  induction n using Nat.strongRecOn generalizing a with
  | ind n ih =>
    have hfound := hfind a
    cases hnext : next a with
    | none =>
      rw [hnext] at hfound
      exact absurd h (hfound c)
    | some b =>
      rw [hnext] at hfound
      obtain ⟨hb, hleast⟩ := hfound
      rcases Int.lt_or_eq_of_le (hleast c h) with hbc | hbc
      · have hab := hlt a b hb
        exact .head hnext (ih _ (by omega) (hrest a b c hb h hbc) rfl)
      · obtain rfl := hinj a b c hb h hbc
        exact .single hnext

end LeastSearch

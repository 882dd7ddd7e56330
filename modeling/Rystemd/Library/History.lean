import Rystemd.Library.Worklist

namespace Rystemd.Worklist

/-- A call that was made: the answers of the environment, the states before and after it, and
the calls that it queued. -/
structure Made (σ κ ω : Type) where
  answers : ω
  call : κ
  before : σ
  after : σ
  queued : List κ

variable {σ κ ω : Type}

/-- The call could be made there, and this is what it did. -/
structure Made.Real (M : Engine σ κ ω) (C : ω → κ → σ → Prop) (d : Made σ κ ω) : Prop where
  admissible : M.admissible d.answers d.call d.before
  meets : C d.answers d.call d.before
  exec : M.exec d.answers d.call d.before = some (d.after, d.queued)

variable (M : Engine σ κ ω)

/-- A run together with the calls that are made in it, the first one first. -/
inductive History (C : ω → κ → σ → Prop) (a : Config σ κ) : List (Made σ κ ω) → Config σ κ → Prop
  | start : History C a [] a
  | arrive {l : List (Made σ κ ω)} {s : σ} {c : κ} : History C a l ⟨s, []⟩ → M.external c →
      History C a l ⟨s, [c]⟩
  | call {l : List (Made σ κ ω)} {d : Made σ κ ω} {rest : List κ} :
      History C a l ⟨d.before, d.call :: rest⟩ → d.Real M C →
      History C a (l ++ [d]) ⟨d.after, d.queued ++ rest⟩

variable {M} {C : ω → κ → σ → Prop} {a b : Config σ κ} {l : List (Made σ κ ω)} {d : Made σ κ ω}

theorem History.run (h : History M C a l b) : Run M C a b := by
  induction h with
  | start => exact .refl
  | arrive _ hc ih => exact ih.tail (.arrive hc)
  | call _ hd ih => exact ih.tail (.call (.mk hd.admissible hd.meets hd.exec))

/-- Each run has its history. -/
theorem Run.history (h : Run M C a b) : ∃ l, History M C a l b := by
  induction h with
  | refl => exact ⟨[], .start⟩
  | tail _ hs ih =>
    obtain ⟨l, hl⟩ := ih
    cases hs with
    | arrive hc => exact ⟨l, hl.arrive hc⟩
    | call hs =>
      cases hs with
      | @mk w c s s' cs rest hw hC he => exact ⟨l ++ [⟨w, c, s, s', cs⟩], hl.call ⟨hw, hC, he⟩⟩

/-- Each call of a history was the next one of a configuration that a run reaches. -/
theorem History.made (h : History M C a l b) (hd : d ∈ l) :
    d.Real M C ∧ ∃ rest, Run M C a ⟨d.before, d.call :: rest⟩ := by
  induction h with
  | start => cases hd
  | arrive _ _ ih => exact ih hd
  | @call l d' rest hl hr ih =>
    rcases List.mem_append.mp hd with hd | hd
    · exact ih hd
    · obtain rfl := List.mem_singleton.mp hd
      exact ⟨hr, rest, hl.run⟩

/-- No call of a kind that does not arrive is lost or made twice: as many were made, or are
still queued, as the calls of the history queued. -/
theorem History.accounts {p : κ → Bool} (hp : ∀ c, M.external c → p c = false)
    (h : History M C a l b) :
    l.countP (fun d ↦ p d.call) + b.todo.countP p =
      (l.flatMap Made.queued).countP p + a.todo.countP p := by
  induction h with
  | start => simp
  | arrive _ hc ih => simpa [hp _ hc] using ih
  | call _ _ ih =>
    simp only [List.countP_cons, List.countP_append, List.countP_nil, List.flatMap_append,
      List.flatMap_cons, List.flatMap_nil, List.append_nil] at ih ⊢
    omega

/-- What has another value after a run than before it was given its value by one call, and the
calls after that one left it. -/
theorem History.last_change {α : Type} {f : σ → α} {v : α} (h : History M C a l b)
    (ha : f a.state ≠ v) (hb : f b.state = v) :
    ∃ before d after, l = before ++ d :: after ∧ f d.before ≠ v ∧ f d.after = v ∧
      ∀ d' ∈ after, f d'.before = v ∧ f d'.after = v := by
  induction h with
  | start => exact absurd hb ha
  | arrive _ _ ih => exact ih hb
  | @call l d rest _ _ ih =>
    by_cases hd : f d.before = v
    · obtain ⟨before, e, after, rfl, he, he', hafter⟩ := ih hd
      refine ⟨before, e, after ++ [d], by simp, he, he', fun d' hd' ↦ ?_⟩
      rcases List.mem_append.mp hd' with hd' | hd'
      · exact hafter d' hd'
      · obtain rfl := List.mem_singleton.mp hd'
        exact ⟨hd, hb⟩
    · exact ⟨l, d, [], rfl, hd, hb, fun _ hd' ↦ by cases hd'⟩

end Rystemd.Worklist

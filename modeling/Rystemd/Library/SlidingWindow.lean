import Mathlib.Algebra.Order.Monoid.Unbundled.Basic
import Mathlib.Data.List.Basic
import Mathlib.Data.List.Induction
import Mathlib.Order.Defs.LinearOrder

namespace Rystemd.SlidingWindow

variable {α : Type}

variable [LinearOrder α] [Add α]

/-- The times that are at most `span` ago. -/
def recent (span now : α) (l : List α) : List α := l.filter fun t ↦ now ≤ t + span

/-- Whether a call is refused, and the window after it: the times of the calls that were accepted,
less those that are too old. -/
def check (limit : Nat) (span now : α) (window : List α) : Bool × List α :=
  if limit ≤ (recent span now window).length then (true, recent span now window)
  else (false, recent span now window ++ [now])

/-- The window after a sequence of calls. -/
def after (limit : Nat) (span : α) (window nows : List α) : List α :=
  nows.foldl (fun window now ↦ (check limit span now window).2) window

/-- The calls of a sequence, each with whether it is refused. -/
def answers (limit : Nat) (span : α) : List α → List α → List (α × Bool)
  | _, [] => []
  | window, now :: nows =>
    (now, (check limit span now window).1) :: answers limit span (check limit span now window).2 nows

/-- From `now` on the window stands for these times. -/
def StandsFor (span now : α) (window times : List α) : Prop :=
  ∀ t, now ≤ t → recent span t window = recent span t times

variable {limit : Nat} {span now t : α} {window window' nows nows' times : List α}
  {l l' : List (α × Bool)}

theorem answers_append : answers limit span window (nows ++ nows') =
    answers limit span window nows ++ answers limit span (after limit span window nows) nows' := by
  induction nows generalizing window with
  | nil => rfl
  | cons now nows ih =>
    rw [List.cons_append, answers, ih]
    rfl

theorem recent_recent (h : now ≤ t) : recent span t (recent span now times) = recent span t times := by
  apply List.filter_filter.trans
  apply List.filter_congr
  intro x _
  simp only [Bool.and_eq_left_iff_imp, decide_eq_true_eq]
  intro hx
  exact h.trans hx

namespace StandsFor

theorem refl : StandsFor span now window window := fun _ _ ↦ rfl

theorem later (h : StandsFor span now window times) (ht : now ≤ t) :
    StandsFor span t window times :=
  fun _ ht' ↦ h _ (ht.trans ht')

theorem recent (h : StandsFor span now window times) :
    StandsFor span now (SlidingWindow.recent span now window) times :=
  fun t ht ↦ (recent_recent ht).trans (h t ht)

theorem append (h : StandsFor span now window times) :
    StandsFor span now (window ++ [t]) (times ++ [t]) := by
  intro s hs
  have := h s hs
  simp only [SlidingWindow.recent, List.filter_append] at this ⊢
  rw [this]

end StandsFor

/-- Windows that agree on what is recent at the first call answer alike. -/
theorem answers_eq (h : StandsFor span now window window') (hn : ∀ t ∈ nows, now ≤ t) :
    answers limit span window nows = answers limit span window' nows := by
  cases nows with
  | nil => rfl
  | cons t nows =>
    have ht := h t (hn t List.mem_cons_self)
    rw [answers, answers, check, check, ht]

end Rystemd.SlidingWindow

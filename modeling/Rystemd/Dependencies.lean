import Rystemd.Units

namespace Rystemd

def requires (u : Unit) : List Name := u.config.requires ++ u.config.bindsTo

def wants (u : Unit) : List Name := u.config.wants

def requisite (u : Unit) : List Name := u.config.requisite

def conflicts (u : Unit) : List Name := u.config.conflicts

variable (units : Table Name Unit)

/-- The inner loop of `closure`: the names reached from `n` that are new go to the end of
the result and on top of the stack. The source keeps the names of the result once more in
a hash set. -/
def visitEdges (n : Name) (found : List Name) (stack out : List Name) : List Name × List Name :=
  found.foldl (fun acc d ↦ if d = n ∨ d ∈ acc.2 then acc else (d :: acc.1, acc.2 ++ [d])) (stack, out)

/-- The outer loop of `closure`; the stack is the `queue` of the source, last element first. -/
def closureLoop (edge : Unit → List Name) : Nat → List Name → List Name → List Name
  | 0, _, out => out
  | _ + 1, [], out => out
  | fuel + 1, n :: stack, out =>
    match units.get n with
    | none => closureLoop edge fuel stack out
    | some u =>
      let r := visitEdges n (edge u) stack out
      closureLoop edge fuel r.1 r.2

/-- A name is pushed at most once, so the number of edges bounds the rounds of the loop. -/
def closureFuel (edge : Unit → List Name) : Nat :=
  2 + (units.keys.flatMap fun n ↦ (units.get n).elim [] edge).length

def closure (start : Name) (edge : Unit → List Name) : List Name :=
  closureLoop units edge (closureFuel units edge) [start] []

def startClosure (name : Name) : List Name × List Name × List Name :=
  (closure units name requires, closure units name wants, closure units name requisite)

def closureConflicts (name : Name) : List Name := closure units name conflicts

/-- The loaded units other than `name` that require it, in the order `names` of the table. -/
def stopPropagate (names : List Name) (name : Name) : List Name :=
  names.filter fun n ↦ n ≠ name && (units.get n).any fun u ↦ (requires u).contains name

/-- The edge relation that `closure` follows. -/
def Edge (edge : Unit → List Name) (a b : Name) : Prop := ∃ u, units.get a = some u ∧ b ∈ edge u

variable {units} {edge : Unit → List Name} {start : Name}

theorem mem_visitEdges {n d : Name} {found stack out : List Name} :
    (d ∈ (visitEdges n found stack out).1 → d ∈ stack ∨ d ∈ found) ∧
      (d ∈ (visitEdges n found stack out).2 → d ∈ out ∨ d ∈ found) := by
  unfold visitEdges
  induction found generalizing stack out with
  | nil => simp
  | cons a found ih =>
    rw [List.foldl_cons]
    split
    · exact ⟨fun h ↦ (ih.1 h).imp_right (List.mem_cons_of_mem _),
        fun h ↦ (ih.2 h).imp_right (List.mem_cons_of_mem _)⟩
    · constructor
      · intro h
        rcases ih.1 h with h | h
        · rcases List.mem_cons.mp h with rfl | h
          · exact .inr (List.mem_cons_self ..)
          · exact .inl h
        · exact .inr (List.mem_cons_of_mem _ h)
      · intro h
        rcases ih.2 h with h | h
        · rcases List.mem_append.mp h with h | h
          · exact .inl h
          · obtain rfl := List.mem_singleton.mp h
            exact .inr (List.mem_cons_self ..)
        · exact .inr (List.mem_cons_of_mem _ h)

theorem closureLoop_sound (fuel : Nat) {stack out : List Name}
    (hstack : ∀ n ∈ stack, n = start ∨ Relation.TransGen (Edge units edge) start n)
    (hout : ∀ n ∈ out, Relation.TransGen (Edge units edge) start n) :
    ∀ n ∈ closureLoop units edge fuel stack out, Relation.TransGen (Edge units edge) start n := by
  induction fuel generalizing stack out with
  | zero => exact hout
  | succ fuel ih =>
    cases stack with
    | nil => exact hout
    | cons a stack =>
      unfold closureLoop
      split
      · exact ih (fun n hn ↦ hstack n (List.mem_cons_of_mem _ hn)) hout
      · next u hu =>
        have hedge : ∀ d ∈ edge u, Relation.TransGen (Edge units edge) start d := by
          intro d hd
          rcases hstack a (List.mem_cons_self ..) with rfl | h
          · exact .single ⟨u, hu, hd⟩
          · exact h.tail ⟨u, hu, hd⟩
        refine ih (fun n hn ↦ ?_) (fun n hn ↦ ?_)
        · rcases mem_visitEdges.1 hn with h | h
          · exact hstack n (List.mem_cons_of_mem _ h)
          · exact .inr (hedge n h)
        · rcases mem_visitEdges.2 hn with h | h
          · exact hout n h
          · exact hedge n h

/-- Whatever the closure contains is reached from the start by at least one edge. -/
theorem closure_sound {n : Name} (h : n ∈ closure units start edge) :
    Relation.TransGen (Edge units edge) start n :=
  closureLoop_sound _ (fun _ hm ↦ .inl (List.mem_singleton.mp hm)) (fun _ hm ↦ by cases hm) n h

end Rystemd

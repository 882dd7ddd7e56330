import Mathlib.Data.Finset.Basic
import Rystemd.ManagerOps
import Rystemd.ObjectPaths

namespace Rystemd.Dbus

/-- A unit's listing row. -/
structure UnitEntry where
  name : String
  load : String
  active : String
  sub : String
  description : String

def dbusEntry (name : Name) (u : UnitView) : UnitEntry where
  name := name
  load := loadStr u.load
  active := activeStr u.active
  sub := u.sub.asStr
  description := u.description

/-- The unit table of a manager, as the bus sees it. -/
abbrev UnitRows := List (Name × UnitView)

def UnitRows.get (units : UnitRows) (name : Name) : Option UnitView :=
  (units.find? fun e ↦ e.1 = name).map Prod.snd

/-- What `drain_dbus` sends to the monitor thread: a row for each unit. -/
def unitSnapshot (units : UnitRows) : List UnitEntry :=
  (ManagerOps.sorted (units.map Prod.fst)).filterMap fun n ↦ (units.get n).map (dbusEntry n)

/-- What the bus answers: why it refused to register an object, or lost a signal, by how many
such calls came before, and the texts of the errors that it always has. -/
structure BusAnswers where
  refused : Nat → Option String := fun _ ↦ none
  lost : Nat → Option String := fun _ ↦ none
  invalidPath : String := ""
  notFound : String := ""

inductive UnitSignal
  | unitNew (name : Name) (path : String)
  | unitRemoved (name : Name) (path : String)

def UnitSignal.member : UnitSignal → String
  | unitNew .. => "UnitNew"
  | unitRemoved .. => "UnitRemoved"

def UnitSignal.subject : UnitSignal → Name × String
  | unitNew name path => (name, path)
  | unitRemoved name path => (name, path)

/-- The monitor thread's units and the bus connection that it serves them on. An object is served
from a shared state, which is named by when it was made. -/
structure Surface where
  systemd1Ready : Bool := true
  units : Table Name Nat := .empty
  cells : List UnitEntry := []
  objects : Table String Nat := .empty
  signals : List UnitSignal := []
  log : List String := []
  calls : Nat := 0

/-- The rest of an object path, after a slash or not. -/
def isPathTail : Bool → List Char → Bool
  | slash, [] => !slash
  | slash, c :: cs =>
    if c = '/' then !slash && isPathTail true cs else isLabelChar c && isPathTail false cs

def isObjectPath (path : String) : Bool :=
  path = "/" || (path.toList.head? = some '/' && isPathTail true path.toList.tail)

namespace Surface

def mgrLog (s : Surface) (text : String) : Surface := { s with log := s.log ++ [text] }

/-- `object_server().at`: an object that is there already stays. -/
def registerObject (w : BusAnswers) (s : Surface) (path : String) (cell : Nat) :
    Option String × Surface :=
  let counted := { s with calls := s.calls + 1 }
  if isObjectPath path then
    match w.refused s.calls with
    | some e => (some e, counted)
    | none =>
      if s.objects.contains path then (none, counted)
      else (none, { counted with objects := s.objects.insert path cell })
  else (some w.invalidPath, counted)

/-- `object_server().remove`. -/
def removeObject (w : BusAnswers) (s : Surface) (path : String) : Option String × Surface :=
  if s.objects.contains path then (none, { s with objects := s.objects.remove path })
  else (some w.notFound, s)

def emitUnitSignal (w : BusAnswers) (s : Surface) (signal : UnitSignal) : Surface :=
  let (name, path) := signal.subject
  if isObjectPath path then
    match w.lost s.calls with
    | some e =>
      { s.mgrLog s!"D-Bus: failed to emit {signal.member} for {name}: {e}" with
        calls := s.calls + 1 }
    | none => { s with signals := s.signals ++ [signal], calls := s.calls + 1 }
  else s.mgrLog s!"D-Bus: invalid unit object path {path}"

/-- A row of a snapshot: the unit's state is replaced, or the unit is registered. -/
def applyEntry (w : BusAnswers) (acc : Surface × List Name) (entry : UnitEntry) :
    Surface × List Name :=
  let (s, seen) := acc
  let name := entry.name
  let path := unitDbusPath name
  match s.units.get name with
  | some cell => ({ s with cells := s.cells.set cell entry }, name :: seen)
  | none =>
    let cell := s.cells.length
    match { s with cells := s.cells ++ [entry] }.registerObject w path cell with
    | (some e, s) =>
      (s.mgrLog s!"D-Bus: failed to register systemd1 unit {name} at {path}: {e}", seen)
    | (none, s) =>
      let s := s.emitUnitSignal w (.unitNew name path)
      ({ s with units := s.units.insert name cell }, name :: seen)

def removeVanished (w : BusAnswers) (seen : List Name) (s : Surface) (name : Name) : Surface :=
  if name ∈ seen then s
  else
    let path := unitDbusPath name
    let s := match s.removeObject w path with
      | (none, s) => s.emitUnitSignal w (.unitRemoved name path)
      | (some e, s) =>
        s.mgrLog s!"D-Bus: failed to remove systemd1 unit {name} at {path}: {e}"
    { s with units := s.units.remove name }

def applyUnitSnapshot (w : BusAnswers) (s : Surface) (snapshot : List UnitEntry) : Surface :=
  let (s, seen) := snapshot.foldl (applyEntry w) (s, [])
  s.units.keys.foldl (removeVanished w seen) s

/-- A turn of the monitor thread: of the snapshots that wait for it only the last counts. -/
def serveTurn (w : BusAnswers) (s : Surface) (waiting : List (List UnitEntry)) : Surface :=
  match waiting.getLast? with
  | some snapshot => if s.systemd1Ready then s.applyUnitSnapshot w snapshot else s
  | none => s

/-- The state that the properties of an object are read from. -/
def entryAt (s : Surface) (path : String) : Option UnitEntry :=
  (s.objects.get path).bind (s.cells[·]?)

end Surface

/-- Who listens to the signals from the start knows the units; a signal about a unit that is
known already, or that is not known, would be a fault. -/
def follow (known : Finset Name) : UnitSignal → Option (Finset Name)
  | .unitNew name _ => if name ∈ known then none else some (insert name known)
  | .unitRemoved name _ => if name ∈ known then some (known.erase name) else none

/-- The last row of a snapshot that is about a unit. -/
def latest (snapshot : List UnitEntry) (n : Name) : Option UnitEntry :=
  snapshot.reverse.find? fun e ↦ e.name = n

theorem isPathTail_label {cs : List Char} {slash : Bool} (h : ∀ c ∈ cs, isLabelChar c)
    (hne : slash = true → cs ≠ []) : isPathTail slash cs := by
  induction cs generalizing slash with
  | nil =>
    cases slash with
    | false => rfl
    | true => exact absurd rfl (hne rfl)
  | cons c cs ih =>
    have hc := h c List.mem_cons_self
    have hslash : c ≠ '/' := by
      rintro rfl
      exact absurd hc (by decide)
    rw [isPathTail, if_neg hslash, hc, Bool.true_and]
    exact ih (fun d hd ↦ h d (List.mem_cons_of_mem _ hd)) nofun

/-- The path of a unit with a name is an object path. -/
theorem isObjectPath_unitDbusPath {name : Name} (h : name ≠ "") :
    isObjectPath (unitDbusPath name) := by
  have hlabel : (Utf8.encode name.toList).flatMap labelByte ≠ [] := by
    intro hnil
    have hname := nameOfPath_unitDbusPath name
    have hempty : unitDbusPath name = unitDbusPath "" := by
      rw [unitDbusPath, hnil]
      rfl
    rw [hempty, nameOfPath_unitDbusPath] at hname
    exact h (Option.some.inj hname).symm
  have htail : isPathTail true ((Utf8.encode name.toList).flatMap labelByte) := by
    apply isPathTail_label _ fun _ ↦ hlabel
    intro c hc
    obtain ⟨b, -, hb⟩ := List.mem_flatMap.mp hc
    exact isLabelChar_of_mem hb
  have hlist : (unitDbusPath name).toList =
      unitPathPrefix.toList ++ (Utf8.encode name.toList).flatMap labelByte := by
    rw [unitDbusPath, String.toList_append, String.toList_ofList]
  rw [isObjectPath, hlist]
  apply Bool.or_eq_true_iff.mpr
  right
  exact htail

theorem unitDbusPath_injective {a b : Name} (h : unitDbusPath a = unitDbusPath b) : a = b := by
  have ha := nameOfPath_unitDbusPath a
  rw [h, nameOfPath_unitDbusPath] at ha
  exact (Option.some.inj ha).symm

namespace Surface

/-- The state of a unit that the thread has registered. -/
def entryOf (s : Surface) (n : Name) : Option UnitEntry := (s.units.get n).bind (s.cells[·]?)

/-- The objects that are served are those of the registered units, each with a state of its own. -/
structure Tied (s : Surface) : Prop where
  objects : ∀ n, s.objects.get (unitDbusPath n) = s.units.get n
  paths : ∀ path c, s.objects.get path = some c →
    ∃ n, path = unitDbusPath n ∧ isObjectPath path
  cells : ∀ n c, s.units.get n = some c → ∃ e, s.cells[c]? = some e ∧ e.name = n

/-- Who listened from the start knows the registered units. -/
def Heard (s : Surface) : Prop :=
  ∃ known, s.signals.foldlM follow ∅ = some known ∧ ∀ n, n ∈ known ↔ s.units.contains n

section Steps

variable {w : BusAnswers} {s : Surface} {entry : UnitEntry} {seen : List Name} {n : Name}
  {path text : String} {cell : Nat} {signal : UnitSignal}

theorem Tied.entryAt (h : s.Tied) : s.entryAt (unitDbusPath n) = s.entryOf n := by
  rw [Surface.entryAt, h.objects, entryOf]

theorem Tied.entryOf_isSome (h : s.Tied) : (s.entryOf n).isSome = s.units.contains n := by
  rw [entryOf, Table.contains]
  cases hc : s.units.get n with
  | none => rfl
  | some c =>
    obtain ⟨e, he, -⟩ := h.cells n c hc
    rw [Option.bind_some, he]
    rfl

theorem Tied.name_entryOf {e : UnitEntry} (h : s.Tied) (he : s.entryOf n = some e) :
    e.name = n := by
  obtain ⟨c, hc, hcell⟩ := Option.bind_eq_some_iff.mp he
  obtain ⟨e', he', hname⟩ := h.cells n c hc
  rw [hcell] at he'
  rw [Option.some.inj he', hname]

@[simp] theorem units_emitUnitSignal : (s.emitUnitSignal w signal).units = s.units := by
  unfold emitUnitSignal
  dsimp only
  split
  · split <;> rfl
  · rfl

@[simp] theorem cells_emitUnitSignal : (s.emitUnitSignal w signal).cells = s.cells := by
  unfold emitUnitSignal
  dsimp only
  split
  · split <;> rfl
  · rfl

@[simp] theorem objects_emitUnitSignal : (s.emitUnitSignal w signal).objects = s.objects := by
  unfold emitUnitSignal
  dsimp only
  split
  · split <;> rfl
  · rfl

@[simp] theorem ready_emitUnitSignal :
    (s.emitUnitSignal w signal).systemd1Ready = s.systemd1Ready := by
  unfold emitUnitSignal
  dsimp only
  split
  · split <;> rfl
  · rfl

theorem signals_emitUnitSignal (hpath : isObjectPath signal.subject.2)
    (hlost : ∀ k, w.lost k = none) :
    (s.emitUnitSignal w signal).signals = s.signals ++ [signal] := by
  unfold emitUnitSignal
  dsimp only
  rw [if_pos hpath, hlost]

/-- A registration is refused and changes nothing, or the object is there. -/
theorem registerObject_cases (w : BusAnswers) (cell : Nat) (h : s.objects.get path = none) :
    (∃ e, s.registerObject w path cell = (some e, { s with calls := s.calls + 1 }) ∧
      (isObjectPath path = false ∨ (w.refused s.calls).isSome)) ∨
    (isObjectPath path ∧ s.registerObject w path cell =
      (none, { s with calls := s.calls + 1, objects := s.objects.insert path cell })) := by
  unfold registerObject
  dsimp only
  split
  · next hpath =>
    cases hr : w.refused s.calls with
    | some e => exact .inl ⟨e, rfl, .inr rfl⟩
    | none => exact .inr ⟨hpath, if_neg (by rw [Table.contains, h]; simp)⟩
  · next hpath => exact .inl ⟨_, rfl, .inl (Bool.eq_false_iff.mpr hpath)⟩

/-- What a row does to the units: those of other rows stay as they are, and its own unit is
registered with its state, or stays unregistered. -/
structure Applied (w : BusAnswers) (entry : UnitEntry) (acc acc' : Surface × List Name) : Prop where
  tied : acc'.1.Tied
  heard : (∀ k, w.lost k = none) → acc.1.Heard → acc'.1.Heard
  ready : acc'.1.systemd1Ready = acc.1.systemd1Ready
  others : ∀ n ≠ entry.name, acc'.1.entryOf n = acc.1.entryOf n
  own : (acc'.2 = entry.name :: acc.2 ∧ acc'.1.entryOf entry.name = some entry) ∨
    (acc'.2 = acc.2 ∧ acc'.1.entryOf entry.name = none ∧ acc.1.entryOf entry.name = none ∧
      (entry.name = "" ∨ ∃ k, (w.refused k).isSome))

theorem Tied.applied_set (h : s.Tied) (hcell : s.units.get entry.name = some cell) :
    Applied w entry (s, seen) ({ s with cells := s.cells.set cell entry }, entry.name :: seen) := by
  obtain ⟨e, he, -⟩ := h.cells _ _ hcell
  have hlt : cell < s.cells.length := (List.getElem?_eq_some_iff.mp he).1
  have hset (c : Nat) :
      (s.cells.set cell entry)[c]? = if cell = c then some entry else s.cells[c]? := by
    rw [List.getElem?_set, if_pos hlt]
  have hother {n : Name} {c : Nat} (hn : n ≠ entry.name) (hc : s.units.get n = some c) :
      cell ≠ c := by
    rintro rfl
    obtain ⟨e₁, he₁, hname₁⟩ := h.cells _ _ hcell
    obtain ⟨e₂, he₂, hname₂⟩ := h.cells _ _ hc
    rw [he₁] at he₂
    obtain rfl := Option.some.inj he₂
    exact hn (hname₂.symm.trans hname₁)
  constructor
  · refine ⟨h.objects, h.paths, fun n c hc ↦ ?_⟩
    change ∃ e, (s.cells.set cell entry)[c]? = some e ∧ e.name = n
    rw [hset]
    by_cases hn : n = entry.name
    · subst hn
      rw [hcell] at hc
      exact ⟨entry, if_pos (Option.some.inj hc), rfl⟩
    · rw [if_neg (hother hn hc)]
      exact h.cells n c hc
  · exact fun _ hh ↦ hh
  · rfl
  · intro n hn
    change (s.units.get n).bind ((s.cells.set cell entry)[·]?) = (s.units.get n).bind (s.cells[·]?)
    cases hc : s.units.get n with
    | none => rfl
    | some c => rw [Option.bind_some, Option.bind_some, hset, if_neg (hother hn hc)]
  · left
    refine ⟨rfl, ?_⟩
    change (s.units.get entry.name).bind ((s.cells.set cell entry)[·]?) = some entry
    rw [hcell, Option.bind_some, hset, if_pos rfl]

/-- A state that no unit has yet is added. -/
theorem Tied.entryOf_append (h : s.Tied) {s' : Surface} (hu : s'.units = s.units)
    (hc : s'.cells = s.cells ++ [entry]) : s'.entryOf n = s.entryOf n := by
  rw [entryOf, entryOf, hu, hc]
  cases hcell : s.units.get n with
  | none => rfl
  | some c =>
    obtain ⟨e, he, -⟩ := h.cells _ _ hcell
    rw [Option.bind_some, Option.bind_some,
      List.getElem?_append_left (List.getElem?_eq_some_iff.mp he).1]

theorem Tied.applied_refused (h : s.Tied) {s' : Surface}
    (hnone : s.units.get entry.name = none) (hu : s'.units = s.units)
    (hc : s'.cells = s.cells ++ [entry]) (ho : s'.objects = s.objects)
    (hs : s'.signals = s.signals) (hr : s'.systemd1Ready = s.systemd1Ready)
    (hwhy : entry.name = "" ∨ ∃ k, (w.refused k).isSome) :
    Applied w entry (s, seen) (s', seen) := by
  have hown : s.entryOf entry.name = none := by
    rw [entryOf, hnone, Option.bind_none]
  constructor
  · refine ⟨fun n ↦ by rw [ho, hu, h.objects], fun path c hp ↦ ?_, fun n c hn ↦ ?_⟩
    · rw [ho] at hp
      exact h.paths path c hp
    · rw [hu] at hn
      obtain ⟨e, he, hname⟩ := h.cells n c hn
      refine ⟨e, ?_, hname⟩
      rw [hc, List.getElem?_append_left (List.getElem?_eq_some_iff.mp he).1, he]
  · intro _ hh
    obtain ⟨known, hf, hk⟩ := hh
    refine ⟨known, ?_, fun n ↦ ?_⟩
    · rw [hs, hf]
    · rw [hu, hk]
  · exact hr
  · exact fun n _ ↦ h.entryOf_append hu hc
  · exact .inr ⟨rfl, (h.entryOf_append hu hc).trans hown, hown, hwhy⟩

theorem Tied.applied_registered (h : s.Tied) {s' : Surface}
    (hnone : s.units.get entry.name = none) (hpath : isObjectPath (unitDbusPath entry.name))
    (hu : s'.units = s.units.insert entry.name s.cells.length)
    (hc : s'.cells = s.cells ++ [entry])
    (ho : s'.objects = s.objects.insert (unitDbusPath entry.name) s.cells.length)
    (hs : (∀ k, w.lost k = none) →
      s'.signals = s.signals ++ [.unitNew entry.name (unitDbusPath entry.name)])
    (hr : s'.systemd1Ready = s.systemd1Ready) :
    Applied w entry (s, seen) (s', entry.name :: seen) := by
  have hnew : (s.cells ++ [entry])[s.cells.length]? = some entry := List.getElem?_concat_length
  constructor
  · refine ⟨fun n ↦ ?_, fun path c hp ↦ ?_, fun n c hn ↦ ?_⟩
    · rw [ho, hu, Table.get_insert, Table.get_insert, h.objects]
      by_cases hn : n = entry.name
      · rw [if_pos (congrArg unitDbusPath hn), if_pos hn]
      · rw [if_neg fun hp ↦ hn (unitDbusPath_injective hp), if_neg hn]
    · rw [ho, Table.get_insert] at hp
      split at hp
      · next heq => exact ⟨_, heq, heq ▸ hpath⟩
      · exact h.paths path c hp
    · rw [hu, Table.get_insert] at hn
      rw [hc]
      split at hn
      · next heq =>
        obtain rfl := Option.some.inj hn
        exact ⟨entry, hnew, heq.symm⟩
      · obtain ⟨e, he, hname⟩ := h.cells n c hn
        refine ⟨e, ?_, hname⟩
        rw [List.getElem?_append_left (List.getElem?_eq_some_iff.mp he).1, he]
  · intro hlost hh
    obtain ⟨known, hf, hk⟩ := hh
    have hfresh : entry.name ∉ known := by
      rw [hk, Table.contains, hnone]
      exact Bool.false_ne_true
    refine ⟨insert entry.name known, ?_, fun n ↦ ?_⟩
    · rw [hs hlost, List.foldlM_append, hf, Option.bind_eq_bind, Option.bind_some, List.foldlM_cons,
        follow, if_neg hfresh]
      rfl
    · rw [Finset.mem_insert, hk, hu, Table.contains, Table.contains, Table.get_insert]
      split
      · next heq => exact iff_of_true (.inl heq) rfl
      · next hne => exact or_iff_right hne
  · exact hr
  · intro n hn
    change s'.entryOf n = s.entryOf n
    rw [entryOf, hu, hc, Table.get_insert, if_neg hn]
    have happend : ({ s with cells := s.cells ++ [entry] } : Surface).entryOf n = s.entryOf n :=
      h.entryOf_append rfl rfl
    exact happend
  · left
    refine ⟨rfl, ?_⟩
    change s'.entryOf entry.name = some entry
    rw [entryOf, hu, hc, Table.get_insert_self, Option.bind_some, hnew]

theorem Tied.applyEntry (h : s.Tied) :
    Applied w entry (s, seen) (Surface.applyEntry w (s, seen) entry) := by
  unfold Surface.applyEntry
  dsimp only
  cases hcell : s.units.get entry.name with
  | some cell => exact h.applied_set hcell
  | none =>
    have hfree : ({ s with cells := s.cells ++ [entry] } : Surface).objects.get
        (unitDbusPath entry.name) = none := (h.objects _).trans hcell
    rcases registerObject_cases w s.cells.length hfree with
      ⟨e, he, hwhy⟩ | ⟨hpath, hok⟩
    · rw [he]
      apply h.applied_refused hcell
      · rfl
      · rfl
      · rfl
      · rfl
      · rfl
      rcases hwhy with hbad | hrefused
      · left
        by_contra hne
        rw [isObjectPath_unitDbusPath hne] at hbad
        cases hbad
      · exact .inr ⟨_, hrefused⟩
    · rw [hok]
      apply h.applied_registered hcell hpath
      · simp
      · simp
      · simp
      · intro hlost
        exact signals_emitUnitSignal hpath hlost
      · simp

/-- What the rows of a snapshot have done so far. -/
structure Scanned (w : BusAnswers) (s : Surface) (snapshot : List UnitEntry)
    (acc : Surface × List Name) : Prop where
  tied : acc.1.Tied
  heard : (∀ k, w.lost k = none) → s.Heard → acc.1.Heard
  ready : acc.1.systemd1Ready = s.systemd1Ready
  seen : ∀ n ∈ acc.2, acc.1.entryOf n = latest snapshot n ∧ (latest snapshot n).isSome
  unseen : ∀ n ∉ acc.2, (latest snapshot n).isSome → n = "" ∨ ∃ k, (w.refused k).isSome

theorem latest_append {pre : List UnitEntry} :
    latest (pre ++ [entry]) n = if entry.name = n then some entry else latest pre n := by
  rw [latest, List.reverse_append, List.reverse_singleton, List.singleton_append, List.find?_cons,
    latest]
  split
  · next h => rw [if_pos (of_decide_eq_true h)]
  · next h => rw [if_neg (of_decide_eq_false h)]

theorem Scanned.step {pre : List UnitEntry} {acc acc' : Surface × List Name}
    (h : Scanned w s pre acc) (ha : Applied w entry acc acc') :
    Scanned w s (pre ++ [entry]) acc' := by
  have hother {n : Name} (hn : n ≠ entry.name) : latest (pre ++ [entry]) n = latest pre n := by
    rw [latest_append, if_neg fun he ↦ hn he.symm]
  have hown : latest (pre ++ [entry]) entry.name = some entry := by
    rw [latest_append, if_pos rfl]
  constructor
  · exact ha.tied
  · exact fun hlost hh ↦ ha.heard hlost (h.heard hlost hh)
  · exact ha.ready.trans h.ready
  · intro n hn
    by_cases heq : n = entry.name
    · subst heq
      rw [hown]
      rcases ha.own with ⟨-, he⟩ | ⟨hseen, -, hnone, -⟩
      · exact ⟨he, rfl⟩
      · rw [hseen] at hn
        obtain ⟨hentry, hsome⟩ := h.seen _ hn
        rw [← hentry, hnone] at hsome
        cases hsome
    · have hmem : n ∈ acc.2 := by
        rcases ha.own with ⟨hseen, -⟩ | ⟨hseen, -⟩
        · rw [hseen] at hn
          exact (List.mem_cons.mp hn).resolve_left heq
        · rwa [hseen] at hn
      rw [hother heq, ha.others n heq]
      exact h.seen n hmem
  · intro n hn hsome
    rcases ha.own with ⟨hseen, -⟩ | ⟨hseen, -, -, hwhy⟩
    · rw [hseen, List.mem_cons, not_or] at hn
      rw [hother hn.1] at hsome
      exact h.unseen n hn.2 hsome
    · by_cases heq : n = entry.name
      · exact heq ▸ hwhy
      · rw [hseen] at hn
        rw [hother heq] at hsome
        exact h.unseen n hn hsome

theorem Tied.scan (h : s.Tied) (snapshot : List UnitEntry) :
    Scanned w s snapshot (snapshot.foldl (Surface.applyEntry w) (s, [])) := by
  induction snapshot using List.reverseRecOn with
  | nil => exact ⟨h, fun _ hh ↦ hh, rfl, fun n hn ↦ (List.not_mem_nil hn).elim, fun n _ hn ↦ by
      cases hn⟩
  | append_singleton pre entry ih =>
    rw [List.foldl_append, List.foldl_cons, List.foldl_nil]
    exact ih.step ih.tied.applyEntry

/-- A unit that was not seen is dropped, its object with it. -/
theorem Tied.removeVanished (h : s.Tied) (w : BusAnswers) (seen : List Name) (name : Name) :
    (Surface.removeVanished w seen s name).Tied ∧
      (Surface.removeVanished w seen s name).systemd1Ready = s.systemd1Ready ∧
      ((∀ k, w.lost k = none) → s.Heard → (Surface.removeVanished w seen s name).Heard) ∧
      ∀ n, (Surface.removeVanished w seen s name).entryOf n =
        if n = name ∧ name ∉ seen then none else s.entryOf n := by
  unfold Surface.removeVanished
  by_cases hseen : name ∈ seen
  · rw [if_pos hseen]
    exact ⟨h, rfl, fun _ hh ↦ hh, fun n ↦ (if_neg fun hn ↦ hn.2 hseen).symm⟩
  rw [if_neg hseen]
  dsimp only
  cases hobject : s.objects.get (unitDbusPath name) with
  | none =>
    have hnone : s.units.get name = none := (h.objects name).symm.trans hobject
    have hremoved : s.removeObject w (unitDbusPath name) = (some w.notFound, s) := by
      rw [removeObject, if_neg (by rw [Table.contains, hobject]; exact Bool.false_ne_true)]
    have hget (n : Name) : (s.units.remove name).get n = s.units.get n := by
      rw [Table.get_remove]
      split
      · next heq => rw [heq, hnone]
      · rfl
    rw [hremoved]
    refine ⟨⟨fun n ↦ ?_, h.paths, fun n c hc ↦ ?_⟩, rfl, fun _ hh ↦ ?_, fun n ↦ ?_⟩
    · exact (h.objects n).trans (hget n).symm
    · exact h.cells n c ((hget n).symm.trans hc)
    · obtain ⟨known, hf, hk⟩ := hh
      refine ⟨known, hf, fun n ↦ (hk n).trans ?_⟩
      change _ ↔ (s.units.remove name).contains n
      rw [Table.contains, Table.contains, hget]
    · change ((s.units.remove name).get n).bind (s.cells[·]?) = _
      rw [hget]
      split
      · next heq => rw [heq.1, hnone, Option.bind_none]
      · rfl
  | some cell =>
    have hcell : s.units.get name = some cell := (h.objects name).symm.trans hobject
    have hremoved : s.removeObject w (unitDbusPath name) =
        (none, { s with objects := s.objects.remove (unitDbusPath name) }) := by
      rw [removeObject, if_pos (by rw [Table.contains, hobject]; rfl)]
    have hpath : isObjectPath (unitDbusPath name) := (h.paths _ _ hobject).choose_spec.2
    rw [hremoved]
    refine ⟨⟨fun n ↦ ?_, fun path c hp ↦ ?_, fun n c hc ↦ ?_⟩, ?_, fun hlost hh ↦ ?_, fun n ↦ ?_⟩
    · simp only [objects_emitUnitSignal, units_emitUnitSignal]
      rw [Table.get_remove, Table.get_remove, h.objects]
      by_cases hn : n = name
      · rw [if_pos (congrArg unitDbusPath hn), if_pos hn]
      · rw [if_neg fun hp ↦ hn (unitDbusPath_injective hp), if_neg hn]
    · simp only [objects_emitUnitSignal] at hp
      exact h.paths path c (Table.get_of_get_remove hp)
    · simp only [units_emitUnitSignal] at hc
      simp only [cells_emitUnitSignal]
      exact h.cells n c (Table.get_of_get_remove hc)
    · simp
    · obtain ⟨known, hf, hk⟩ := hh
      have hmem : name ∈ known := by
        rw [hk, Table.contains, hcell]
        rfl
      have hsignals : (emitUnitSignal w { s with objects := s.objects.remove (unitDbusPath name) }
          (.unitRemoved name (unitDbusPath name))).signals =
            s.signals ++ [.unitRemoved name (unitDbusPath name)] :=
        signals_emitUnitSignal hpath hlost
      refine ⟨known.erase name, ?_, fun n ↦ ?_⟩
      · dsimp only
        rw [hsignals, List.foldlM_append, hf, Option.bind_eq_bind, Option.bind_some,
          List.foldlM_cons, follow, if_pos hmem]
        rfl
      · simp only [units_emitUnitSignal]
        rw [Finset.mem_erase, hk, Table.contains, Table.contains, Table.get_remove]
        split
        · next heq => exact iff_of_false (fun hn ↦ hn.1 heq) Bool.false_ne_true
        · next hne => exact and_iff_right hne
    · rw [entryOf]
      simp only [units_emitUnitSignal, cells_emitUnitSignal]
      rw [Table.get_remove]
      by_cases hn : n = name
      · rw [if_pos hn, if_pos ⟨hn, hseen⟩, Option.bind_none]
      · rw [if_neg hn, if_neg fun h ↦ hn h.1]
        rfl

theorem Tied.removeAll (h : s.Tied) (w : BusAnswers) (seen names : List Name) :
    (names.foldl (Surface.removeVanished w seen) s).Tied ∧
      (names.foldl (Surface.removeVanished w seen) s).systemd1Ready = s.systemd1Ready ∧
      ((∀ k, w.lost k = none) → s.Heard →
        (names.foldl (Surface.removeVanished w seen) s).Heard) ∧
      ∀ n, (names.foldl (Surface.removeVanished w seen) s).entryOf n =
        if n ∈ names ∧ n ∉ seen then none else s.entryOf n := by
  induction names generalizing s with
  | nil => exact ⟨h, rfl, fun _ hh ↦ hh, fun n ↦ (if_neg fun hn ↦ List.not_mem_nil hn.1).symm⟩
  | cons name names ih =>
    obtain ⟨htied, hready, hheard, hentry⟩ := h.removeVanished w seen name
    obtain ⟨htied', hready', hheard', hentry'⟩ := ih htied
    rw [List.foldl_cons]
    refine ⟨htied', hready'.trans hready, fun hlost hh ↦ hheard' hlost (hheard hlost hh), ?_⟩
    intro n
    rw [hentry' n, hentry n]
    by_cases hn : n = name
    · subst hn
      by_cases hseen : n ∈ seen <;> simp [hseen]
    · simp [hn]

/-- What a snapshot makes of the surface. -/
structure Shows (w : BusAnswers) (snapshot : List UnitEntry) (s : Surface) : Prop where
  tied : s.Tied
  current : ∀ n e, s.entryOf n = some e → latest snapshot n = some e
  complete : (∀ k, w.refused k = none) → ∀ n ≠ "", s.entryOf n = latest snapshot n
  heard : (∀ k, w.lost k = none) → s.Heard

theorem Tied.applyUnitSnapshot (h : s.Tied) (hh : (∀ k, w.lost k = none) → s.Heard)
    (snapshot : List UnitEntry) :
    Shows w snapshot (s.applyUnitSnapshot w snapshot) ∧
      (s.applyUnitSnapshot w snapshot).systemd1Ready = s.systemd1Ready := by
  have hscan := h.scan (w := w) snapshot
  unfold Surface.applyUnitSnapshot
  generalize snapshot.foldl (Surface.applyEntry w) (s, []) = acc at hscan
  obtain ⟨htied, hready, hheard, hentry⟩ :=
    hscan.tied.removeAll w acc.2 acc.1.units.keys
  have hfinal (n : Name) :
      (acc.1.units.keys.foldl (Surface.removeVanished w acc.2) acc.1).entryOf n =
        if n ∈ acc.2 then latest snapshot n else none := by
    rw [hentry]
    by_cases hseen : n ∈ acc.2
    · rw [if_neg fun hn ↦ hn.2 hseen, if_pos hseen, (hscan.seen n hseen).1]
    · rw [if_neg hseen]
      split
      · rfl
      · next hkey =>
        rw [entryOf]
        cases hc : acc.1.units.get n with
        | none => rfl
        | some c => exact absurd ⟨Table.mem_keys.mpr ⟨c, hc⟩, hseen⟩ hkey
  refine ⟨⟨htied, fun n e he ↦ ?_, fun hrefused n hne ↦ ?_, fun hlost ↦ ?_⟩,
    hready.trans hscan.ready⟩
  · rw [hfinal] at he
    split at he
    · exact he
    · cases he
  · rw [hfinal]
    split
    · rfl
    · next hseen =>
      cases hl : latest snapshot n with
      | none => rfl
      | some e =>
        rcases hscan.unseen n hseen (by rw [hl]; rfl) with hempty | ⟨k, hk⟩
        · exact absurd hempty hne
        · rw [hrefused k] at hk
          cases hk
  · exact hheard hlost (hscan.heard hlost (hh hlost))

end Steps

end Surface

theorem name_of_mem_unitSnapshot {units : UnitRows} {e : UnitEntry} (h : e ∈ unitSnapshot units) :
    (units.get e.name).map (dbusEntry e.name) = some e := by
  obtain ⟨n, -, he⟩ := List.mem_filterMap.mp h
  obtain ⟨u, hu, rfl⟩ := Option.map_eq_some_iff.mp he
  exact he

/-- A snapshot has one row for each unit. -/
theorem latest_unitSnapshot (units : UnitRows) (n : Name) :
    latest (unitSnapshot units) n = (units.get n).map (dbusEntry n) := by
  cases hl : latest (unitSnapshot units) n with
  | some e =>
    have hname : e.name = n := by simpa using List.find?_some hl
    have hmem := name_of_mem_unitSnapshot (List.mem_reverse.mp (List.mem_of_find?_eq_some hl))
    rw [hname] at hmem
    exact hmem.symm
  | none =>
    cases hu : units.get n with
    | none => rfl
    | some u =>
      obtain ⟨e, he, -⟩ := Option.map_eq_some_iff.mp hu
      have hkey : e.1 = n := by simpa using List.find?_some he
      have hmem : n ∈ ManagerOps.sorted (units.map Prod.fst) :=
        List.mem_mergeSort.mpr (hkey ▸ List.mem_map_of_mem (List.mem_of_find?_eq_some he))
      have hrow : dbusEntry n u ∈ unitSnapshot units :=
        List.mem_filterMap.mpr ⟨n, hmem, by rw [hu, Option.map_some]⟩
      have hnot := List.find?_eq_none.mp hl _ (List.mem_reverse.mpr hrow)
      exact absurd (decide_eq_true rfl) hnot

/-- The turns of the monitor thread, each with the unit tables whose snapshots wait for it. -/
def serveTurns (w : BusAnswers) (turns : List (List UnitRows)) : Surface :=
  turns.foldl (fun s waiting ↦ s.serveTurn w (waiting.map unitSnapshot)) {}

/-- The unit table that the monitor thread heard of last. -/
def lastTable (turns : List (List UnitRows)) : UnitRows := turns.flatten.getLast?.getD []

/-- What a client of the bus finds: each object has the state that its unit had in the last table,
there is an object for each unit that was not refused, and who follows the signals knows them. -/
structure ServesUnits (w : BusAnswers) (units : UnitRows) (s : Surface) : Prop where
  current : ∀ path e, s.entryAt path = some e →
    ∃ n u, path = unitDbusPath n ∧ units.get n = some u ∧ e = dbusEntry n u
  complete : (∀ k, w.refused k = none) → ∀ n u, n ≠ "" → units.get n = some u →
    s.entryAt (unitDbusPath n) = some (dbusEntry n u)
  heard : (∀ k, w.lost k = none) → ∃ known, s.signals.foldlM follow ∅ = some known ∧
    ∀ n, n ∈ known ↔ (s.entryAt (unitDbusPath n)).isSome

theorem shows_serveTurns (w : BusAnswers) (turns : List (List UnitRows)) :
    Surface.Shows w (unitSnapshot (lastTable turns)) (serveTurns w turns) ∧
      (serveTurns w turns).systemd1Ready := by
  induction turns using List.reverseRecOn with
  | nil =>
    have htied : (serveTurns w []).Tied :=
      ⟨fun _ ↦ rfl, fun _ _ h ↦ (by cases h), fun _ _ h ↦ (by cases h)⟩
    refine ⟨⟨htied, fun _ _ h ↦ (by cases h), fun _ n _ ↦ ?_, fun _ ↦ ⟨∅, rfl, fun n ↦ ?_⟩⟩, rfl⟩
    · rw [latest_unitSnapshot]
      rfl
    · exact iff_of_false (Finset.notMem_empty n) Bool.false_ne_true
  | append_singleton turns waiting ih =>
    obtain ⟨hshows, hready⟩ := ih
    have hrun : serveTurns w (turns ++ [waiting]) =
        (serveTurns w turns).serveTurn w (waiting.map unitSnapshot) := by
      rw [serveTurns, List.foldl_append]
      rfl
    have hlast : lastTable (turns ++ [waiting]) = waiting.getLast?.getD (lastTable turns) := by
      rw [lastTable, List.flatten_concat, List.getLast?_append, lastTable]
      cases waiting.getLast? <;> rfl
    rw [hrun, hlast, Surface.serveTurn, List.getLast?_map]
    cases waiting.getLast? with
    | none => exact ⟨hshows, hready⟩
    | some units =>
      obtain ⟨hnext, hsame⟩ := hshows.tied.applyUnitSnapshot hshows.heard (unitSnapshot units)
      rw [Option.map_some]
      dsimp only
      rw [if_pos hready]
      exact ⟨hnext, hsame.trans hready⟩

/-- In every run, whatever the bus refuses, no object shows anything but the last table. -/
theorem objects_mirror_units (w : BusAnswers) (turns : List (List UnitRows)) :
    ServesUnits w (lastTable turns) (serveTurns w turns) := by
  obtain ⟨hshows, -⟩ := shows_serveTurns w turns
  generalize serveTurns w turns = s at hshows
  have htied := hshows.tied
  constructor
  · intro path e he
    obtain ⟨c, hc, -⟩ := Option.bind_eq_some_iff.mp he
    obtain ⟨n, rfl, -⟩ := htied.paths path c hc
    rw [htied.entryAt] at he
    have hlatest := hshows.current n e he
    rw [latest_unitSnapshot] at hlatest
    obtain ⟨u, hu, rfl⟩ := Option.map_eq_some_iff.mp hlatest
    exact ⟨n, u, rfl, hu, rfl⟩
  · intro hrefused n u hne hu
    rw [htied.entryAt, hshows.complete hrefused n hne, latest_unitSnapshot, hu, Option.map_some]
  · intro hlost
    obtain ⟨known, hf, hk⟩ := hshows.heard hlost
    refine ⟨known, hf, fun n ↦ (hk n).trans ?_⟩
    rw [htied.entryAt, htied.entryOf_isSome]

end Rystemd.Dbus

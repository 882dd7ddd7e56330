import Rystemd.Actions

namespace Rystemd.Dbus

open Manager

/-- Manager to monitor thread: which bus names to watch. -/
inductive DbWatch
  | add (name : String)
  | remove (name : String)
  deriving DecidableEq

def DbWatch.name : DbWatch → String
  | add name => name
  | remove name => name

/-- Monitor thread to manager. The thread sends no `nameLost`. -/
inductive DbEvent
  | nameAcquired (name : String)
  | nameLost (name : String)
  deriving DecidableEq

/-- The monitor thread: for each watched name whether it was owned when it was last looked up, and
the names that the present poll has found acquired. -/
structure Monitor where
  watched : Table String Bool := .empty
  acquired : List String := []

namespace Monitor

/-- A request to watch a name, or to stop watching it, with what the lookup of the name answers. -/
def receive (mon : Monitor) (owner : Option Bool) : DbWatch → Monitor × List DbEvent
  | .add name =>
    match owner with
    | some now =>
      ({ mon with watched := mon.watched.insert name now },
        if now then [.nameAcquired name] else [])
    | none => (mon, [])
  | .remove name => ({ mon with watched := mon.watched.remove name }, [])

/-- The poll of one watched name. -/
def poll (mon : Monitor) (owner : Option Bool) (name : String) : Monitor :=
  match owner, mon.watched.get name with
  | some now, some was =>
    { watched := mon.watched.insert name now
      acquired := if now && !was then mon.acquired ++ [name] else mon.acquired }
  | _, _ => mon

end Monitor

/-- The manager, the monitor thread, and what is on its way between them. -/
structure Bridge where
  manager : Manager
  watches : List DbWatch := []
  events : List DbEvent := []
  monitor : Monitor := {}

namespace Bridge

/-- `watch_bus_name`. -/
def watch (b : Bridge) (unit : Name) (busName : String) : Bridge :=
  { b with
    manager := b.manager.watchBusName unit busName
    watches := b.watches ++ [.add busName] }

/-- The names that the manager awaits for a unit. -/
def awaitedBy (m : Manager) (unit : Name) : List String :=
  m.pendingBusNames.keys.filter fun name ↦ m.pendingBusNames.get name = some unit

/-- `release_bus_name_watch`. -/
def release (b : Bridge) (unit : Name) : Bridge :=
  { b with
    manager := b.manager.releaseBusNameWatch unit
    watches := b.watches ++ (awaitedBy b.manager unit).map .remove }

/-- `handle_dbus_event`: the manager no longer awaits the name, and its unit is running. -/
def handle (b : Bridge) (w : World) : DbEvent → Option (Bridge × List Call)
  | .nameAcquired name => do
    let out ← b.manager.nameAcquired w name
    let watches := if b.manager.pendingBusNames.contains name then [DbWatch.remove name] else []
    return ({ b with manager := out.1, watches := b.watches ++ watches }, out.2)
  | .nameLost _ => some (b, [])

/-- The thread takes a request. -/
def receive (b : Bridge) (owner : Option Bool) : Bridge :=
  match b.watches with
  | [] => b
  | request :: watches =>
    let r := b.monitor.receive owner request
    { b with watches := watches, monitor := r.1, events := b.events ++ r.2 }

def poll (b : Bridge) (owner : Option Bool) (name : String) : Bridge :=
  { b with monitor := b.monitor.poll owner name }

/-- The thread sends what the poll has found. -/
def send (b : Bridge) : Bridge :=
  { b with
    events := b.events ++ b.monitor.acquired.map .nameAcquired
    monitor := { b.monitor with acquired := [] } }

/-- The requests that wait for the thread, each with a lookup at its own time. -/
def receiveAll (b : Bridge) (owner : Nat → String → Option Bool) : Bridge :=
  b.watches.zipIdx.foldl (fun b e ↦ b.receive (owner e.2 e.1.name)) b

def pollAll (b : Bridge) (owner : Nat → String → Option Bool) : Bridge :=
  b.monitor.watched.keys.zipIdx.foldl (fun b e ↦ b.poll (owner e.2 e.1) e.1) b

/-- A turn of the monitor thread during which the manager sends nothing. -/
def turn (b : Bridge) (received polled : Nat → String → Option Bool) : Bridge :=
  ((b.receiveAll received).pollAll polled).send

end Bridge

/-- What the run of a bridge is made of. -/
inductive BridgeEvent
  | manager
  | received (request : DbWatch) (owner : Option Bool)
  | polled (name : String) (owner : Option Bool)
  | sent
  deriving DecidableEq

/-- The manager and the thread go on in any order. What else the manager does leaves the names that
it awaits as they are. -/
inductive BridgeStep : Bridge → BridgeEvent → Bridge → Prop
  | watch (b : Bridge) (unit : Name) (busName : String) :
      BridgeStep b .manager (b.watch unit busName)
  | release (b : Bridge) (unit : Name) : BridgeStep b .manager (b.release unit)
  | handle {b b' : Bridge} {w : World} {e : DbEvent} {es : List DbEvent} {calls : List Call} :
      b.events = e :: es → { b with events := es }.handle w e = some (b', calls) →
      BridgeStep b .manager b'
  | other {b : Bridge} {m : Manager} : m.pendingBusNames = b.manager.pendingBusNames →
      BridgeStep b .manager { b with manager := m }
  | receive {b : Bridge} {request : DbWatch} {watches : List DbWatch} (owner : Option Bool) :
      b.watches = request :: watches → BridgeStep b (.received request owner) (b.receive owner)
  | poll (b : Bridge) (name : String) (owner : Option Bool) :
      BridgeStep b (.polled name owner) (b.poll owner name)
  | send (b : Bridge) : BridgeStep b .sent b.send

/-- A run from the start, where the manager awaits no name yet. Its last event comes first. -/
inductive BridgeRun : List BridgeEvent → Bridge → Prop
  | start {m : Manager} : m.pendingBusNames = .empty → BridgeRun [] { manager := m }
  | step {l : List BridgeEvent} {e : BridgeEvent} {b b' : Bridge} :
      BridgeRun l b → BridgeStep b e b' → BridgeRun (e :: l) b'

/-- An event that was caused by a lookup which found the name owned. -/
def BridgeEvent.Finds (name : String) : BridgeEvent → Prop
  | received request owner => request = .add name ∧ owner = some true
  | polled looked owner => looked = name ∧ owner = some true
  | _ => False

/-- The last request about a name that waits for the thread. -/
def lastWatch (watches : List DbWatch) (name : String) : Option DbWatch :=
  watches.reverse.find? fun request ↦ request.name = name

/-- The news that a name is owned is on its way to the manager. -/
def Bridge.Coming (b : Bridge) (name : String) : Prop :=
  .nameAcquired name ∈ b.events ∨ name ∈ b.monitor.acquired

/-- The thread's names are those that the manager awaits, once it has taken the requests that wait
for it, and where it has found a name owned the news is on its way. That the name is watched is
sure as long as `ok` holds. -/
structure Settled (ok : Prop) (name : String) (b : Bridge) : Prop where
  added : lastWatch b.watches name = some (.add name) →
    (b.manager.pendingBusNames.get name).isSome
  removed : lastWatch b.watches name = some (.remove name) →
    b.manager.pendingBusNames.get name = none
  unwatched : lastWatch b.watches name = none →
    b.manager.pendingBusNames.get name = none → b.monitor.watched.get name = none
  watched : ok → lastWatch b.watches name = none →
    (b.manager.pendingBusNames.get name).isSome →
      ∃ v, b.monitor.watched.get name = some v ∧ (v = true → b.Coming name)

section Manager

variable {w : World} {m m' : Manager} {out : Out} {name : Name}

theorem finishJob_pendingBusNames {id : JobId} :
    (m.finishJob w id).1.pendingBusNames = m.pendingBusNames := by
  unfold Manager.finishJob
  split <;> rfl

theorem completeJob_pendingBusNames {kinds : JobKind → Bool}
    (h : m.completeJob w name kinds = some out) : out.1.pendingBusNames = m.pendingBusNames := by
  unfold Manager.completeJob at h
  split at h
  · cases h
    rfl
  · obtain ⟨job, -, h⟩ := Option.bind_eq_some_iff.mp h
    cases h
    split
    · exact finishJob_pendingBusNames
    · rfl

theorem nowRunning_pendingBusNames (h : m.nowRunning w name = some out) :
    out.1.pendingBusNames = m.pendingBusNames := by
  unfold Manager.nowRunning at h
  split at h
  · have hjob : out.1.pendingBusNames =
        (m.setActive w name .active .running .success).pendingBusNames :=
      completeJob_pendingBusNames h
    exact hjob
  · cases h
    rfl

/-- The manager no longer awaits the name, and awaits the others as before. -/
theorem nameAcquired_pendingBusNames {busName n : String}
    (h : m.nameAcquired w busName = some out) :
    out.1.pendingBusNames.get n = if n = busName then none else m.pendingBusNames.get n := by
  unfold Manager.nameAcquired at h
  split at h
  · next hnone =>
    cases h
    split
    · next heq => rw [heq, hnone]
    · rfl
  · rw [nowRunning_pendingBusNames h, Table.get_remove]

/-- A unit that waited for the name is active. -/
theorem nameAcquired_active {busName : String} (hp : m.pendingBusNames.get busName = some name)
    (ha : m.activeOf name = some .activating) (h : m.nameAcquired w busName = some out) :
    out.1.activeOf name = some .active := by
  unfold Manager.nameAcquired at h
  rw [hp] at h
  dsimp only at h
  obtain ⟨u, hu, hact⟩ := Option.map_eq_some_iff.mp ha
  unfold Manager.nowRunning at h
  rw [if_pos ((Option.any_eq_true ..).mpr ⟨u, hu, decide_eq_true hact⟩)] at h
  rw [(JobsOnly.completeJob h).activeOf]
  apply Puts.active
  apply Puts.setActive
  · exact Option.isSome_iff_exists.mpr ⟨u, hu⟩
  · decide

end Manager

section Requests

variable {ws : List DbWatch} {request : DbWatch} {name : String}

theorem lastWatch_append (ws ws' : List DbWatch) (name : String) :
    lastWatch (ws ++ ws') name = (lastWatch ws' name).or (lastWatch ws name) := by
  rw [lastWatch, List.reverse_append, List.find?_append, lastWatch, lastWatch]

theorem lastWatch_singleton (request : DbWatch) (name : String) :
    lastWatch [request] name = if request.name = name then some request else none := by
  rw [lastWatch, List.reverse_singleton, List.find?_singleton]
  simp only [decide_eq_true_eq]

theorem lastWatch_removes (names : List String) (name : String) :
    lastWatch (names.map .remove) name = if name ∈ names then some (.remove name) else none := by
  induction names with
  | nil => rfl
  | cons n names ih =>
    rw [List.map_cons, ← List.singleton_append, lastWatch_append, ih, lastWatch_singleton]
    by_cases hmem : name ∈ names
    · rw [if_pos hmem, if_pos (List.mem_cons_of_mem _ hmem), Option.some_or]
    · rw [if_neg hmem, Option.none_or]
      by_cases hn : n = name
      · subst hn
        rw [if_pos (by rfl), if_pos List.mem_cons_self]
      · rw [if_neg (by exact hn), if_neg]
        intro h
        rcases List.mem_cons.mp h with rfl | h
        · exact hn rfl
        · exact hmem h

theorem lastWatch_cons (request : DbWatch) (ws : List DbWatch) (name : String) :
    lastWatch (request :: ws) name =
      (lastWatch ws name).or (if request.name = name then some request else none) := by
  rw [← List.singleton_append, lastWatch_append, lastWatch_singleton]

end Requests

section Steps

variable {ok ok' : Prop} {name n : String} {b b' : Bridge} {owner : Option Bool} {w : World}
  {m : Manager} {unit : Name} {calls : List Call}

theorem Settled.awaits (hl : lastWatch b.watches name = some (.add name))
    (hp : (b.manager.pendingBusNames.get name).isSome) : Settled ok name b where
  added _ := hp
  removed h := by rw [hl] at h; cases h
  unwatched h := by rw [hl] at h; cases h
  watched _ h := by rw [hl] at h; cases h

theorem Settled.dropped (hl : lastWatch b.watches name = some (.remove name))
    (hp : b.manager.pendingBusNames.get name = none) : Settled ok name b where
  added h := by rw [hl] at h; cases h
  removed _ := hp
  unwatched h := by rw [hl] at h; cases h
  watched _ h := by rw [hl] at h; cases h

/-- A step that does not touch the name, and loses no news about it. -/
theorem Settled.same (h : Settled ok name b)
    (hl : lastWatch b'.watches name = lastWatch b.watches name)
    (hp : b'.manager.pendingBusNames.get name = b.manager.pendingBusNames.get name)
    (hm : b'.monitor.watched.get name = b.monitor.watched.get name)
    (hc : (b.manager.pendingBusNames.get name).isSome → b.Coming name → b'.Coming name) :
    Settled ok name b' where
  added hl' := by rw [hp]; exact h.added (hl ▸ hl')
  removed hl' := by rw [hp]; exact h.removed (hl ▸ hl')
  unwatched hl' hp' := by rw [hm]; exact h.unwatched (hl ▸ hl') (hp ▸ hp')
  watched hok hl' hp' := by
    have hsome : (b.manager.pendingBusNames.get name).isSome := hp ▸ hp'
    obtain ⟨v, hv, hcoming⟩ := h.watched hok (hl ▸ hl') hsome
    exact ⟨v, hm.trans hv, fun htrue ↦ hc hsome (hcoming htrue)⟩

theorem Settled.mono (h : Settled ok name b) (hok : ok' → ok) : Settled ok' name b :=
  ⟨h.added, h.removed, h.unwatched, fun h' ↦ h.watched (hok h')⟩

theorem Settled.watch (h : Settled ok name b) (unit : Name) (n : String) :
    Settled ok name (b.watch unit n) := by
  have hlast : lastWatch (b.watch unit n).watches name =
      if n = name then some (.add n) else lastWatch b.watches name := by
    rw [Bridge.watch, lastWatch_append, lastWatch_singleton, DbWatch.name]
    split
    · rfl
    · rfl
  have hget : (b.watch unit n).manager.pendingBusNames.get name =
      if name = n then some unit else b.manager.pendingBusNames.get name := Table.get_insert
  by_cases hn : n = name
  · subst hn
    rw [if_pos rfl] at hlast hget
    exact .awaits hlast (by rw [hget]; rfl)
  · rw [if_neg hn] at hlast
    rw [if_neg fun h ↦ hn h.symm] at hget
    exact h.same hlast hget rfl fun _ hc ↦ hc

theorem mem_awaitedBy :
    name ∈ Bridge.awaitedBy m unit ↔ m.pendingBusNames.get name = some unit := by
  rw [Bridge.awaitedBy, List.mem_filter, Table.mem_keys, decide_eq_true_eq]
  exact and_iff_right_of_imp fun h ↦ ⟨unit, h⟩

theorem Settled.release (h : Settled ok name b) (unit : Name) :
    Settled ok name (b.release unit) := by
  have hlast : lastWatch (b.release unit).watches name =
      if b.manager.pendingBusNames.get name = some unit then some (.remove name)
        else lastWatch b.watches name := by
    rw [Bridge.release, lastWatch_append, lastWatch_removes]
    simp only [mem_awaitedBy]
    split
    · rfl
    · rfl
  have hget : (b.release unit).manager.pendingBusNames.get name =
      (b.manager.pendingBusNames.get name).filter fun u ↦ u ≠ unit := Table.get_retain _
  by_cases hp : b.manager.pendingBusNames.get name = some unit
  · rw [if_pos hp] at hlast
    apply Settled.dropped hlast
    rw [hget, hp]
    simp
  · rw [if_neg hp] at hlast
    refine h.same hlast ?_ rfl fun _ hc ↦ hc
    rw [hget]
    cases hg : b.manager.pendingBusNames.get name with
    | none => rfl
    | some u =>
      have hu : u ≠ unit := fun he ↦ hp (he ▸ hg)
      simp [hu]

theorem Settled.handle {e : DbEvent} {es : List DbEvent} (h : Settled ok name b)
    (he : b.events = e :: es) (hh : { b with events := es }.handle w e = some (b', calls)) :
    Settled ok name b' := by
  cases e with
  | nameLost n =>
    cases hh
    refine h.same rfl rfl rfl ?_
    intro _ hc
    rcases hc with hc | hc
    · rw [he] at hc
      exact .inl ((List.mem_cons.mp hc).resolve_left nofun)
    · exact .inr hc
  | nameAcquired n =>
    obtain ⟨out, hout, hret⟩ := Option.bind_eq_some_iff.mp hh
    have hget : out.1.pendingBusNames.get name =
        if name = n then none else b.manager.pendingBusNames.get name :=
      nameAcquired_pendingBusNames hout
    cases hret
    by_cases hn : name = n
    · subst hn
      rw [if_pos rfl] at hget
      cases hp : b.manager.pendingBusNames.get name with
      | some u =>
        apply Settled.dropped _ hget
        have hcontains : b.manager.pendingBusNames.contains name := by
          rw [Table.contains, hp]
          rfl
        dsimp only
        rw [if_pos hcontains, lastWatch_append, lastWatch_singleton, if_pos (by rfl),
          Option.some_or]
      | none =>
        refine h.same ?_ (hget.trans hp.symm) rfl fun hsome ↦ ?_
        · have hcontains : ¬b.manager.pendingBusNames.contains name := by
            rw [Table.contains, hp]
            exact Bool.false_ne_true
          dsimp only
          rw [if_neg hcontains, List.append_nil]
        · rw [hp] at hsome
          cases hsome
    · rw [if_neg hn] at hget
      refine h.same ?_ hget rfl fun _ hc ↦ ?_
      · dsimp only
        rw [lastWatch_append]
        split
        · rw [lastWatch_singleton, if_neg (fun h ↦ hn h.symm), Option.none_or]
        · rfl
      · rcases hc with hc | hc
        · rw [he] at hc
          refine .inl ((List.mem_cons.mp hc).resolve_left fun heq ↦ ?_)
          cases heq
          exact hn rfl
        · exact .inr hc

theorem receive_watched_ne {mon : Monitor} {request : DbWatch} (hn : request.name ≠ name) :
    (mon.receive owner request).1.watched.get name = mon.watched.get name := by
  cases request with
  | add n =>
    cases owner with
    | none => rfl
    | some now => exact Table.get_insert.trans (if_neg fun h ↦ hn h.symm)
  | remove n => exact Table.get_remove.trans (if_neg fun h ↦ hn h.symm)

theorem receive_acquired {mon : Monitor} {request : DbWatch} :
    (mon.receive owner request).1.acquired = mon.acquired := by
  cases request with
  | add n => cases owner <;> rfl
  | remove n => rfl

theorem Settled.receive {request : DbWatch} {ws : List DbWatch} (h : Settled ok name b)
    (hw : b.watches = request :: ws) (hok : ok' → ok)
    (hlook : ok' → request = .add name → owner ≠ none) : Settled ok' name (b.receive owner) := by
  have hreceive : b.receive owner = { b with
      watches := ws
      monitor := (b.monitor.receive owner request).1
      events := b.events ++ (b.monitor.receive owner request).2 } := by
    rw [Bridge.receive, hw]
  have hlast := lastWatch_cons request ws name
  rw [← hw] at hlast
  rw [hreceive]
  cases hrest : lastWatch ws name with
  | some r =>
    rw [hrest, Option.some_or] at hlast
    refine ⟨fun hl ↦ ?_, fun hl ↦ ?_, fun hl ↦ ?_, fun _ hl ↦ ?_⟩
    · exact h.added (hlast.trans (hrest.symm.trans hl))
    · exact h.removed (hlast.trans (hrest.symm.trans hl))
    · cases hrest.symm.trans hl
    · cases hrest.symm.trans hl
  | none =>
    rw [hrest, Option.none_or] at hlast
    by_cases hn : request.name = name
    · rw [if_pos hn] at hlast
      cases request with
      | remove n =>
        obtain rfl : n = name := hn
        have hp := h.removed hlast
        refine ⟨fun hl ↦ ?_, fun hl ↦ ?_, fun _ _ ↦ ?_, fun _ _ hsome ↦ ?_⟩
        · cases hrest.symm.trans hl
        · cases hrest.symm.trans hl
        · exact Table.get_remove_self
        · rw [hp] at hsome
          cases hsome
      | add n =>
        obtain rfl : n = name := hn
        have hp := h.added hlast
        refine ⟨fun hl ↦ ?_, fun hl ↦ ?_, fun _ hnone ↦ ?_, fun hok' _ _ ↦ ?_⟩
        · cases hrest.symm.trans hl
        · cases hrest.symm.trans hl
        · rw [hnone] at hp
          cases hp
        · cases howner : owner with
          | none => exact absurd howner (hlook hok' rfl)
          | some now =>
            refine ⟨now, Table.get_insert_self, ?_⟩
            rintro rfl
            exact .inl (List.mem_append_right _ List.mem_cons_self)
    · rw [if_neg hn] at hlast
      refine (h.mono hok).same (hrest.trans hlast.symm) rfl (receive_watched_ne hn) fun _ hc ↦ ?_
      rcases hc with hc | hc
      · exact .inl (List.mem_append_left _ hc)
      · right
        change name ∈ (b.monitor.receive owner request).1.acquired
        rwa [receive_acquired]

theorem poll_none {mon : Monitor} : mon.poll none n = mon := by
  unfold Monitor.poll
  rfl

theorem poll_some {mon : Monitor} {now : Bool} : mon.poll (some now) n =
    (mon.watched.get n).elim mon fun was ↦
      { watched := mon.watched.insert n now
        acquired := if now && !was then mon.acquired ++ [n] else mon.acquired } := by
  unfold Monitor.poll
  cases mon.watched.get n <;> rfl

/-- A poll looks whether a name that is watched is owned now. -/
theorem poll_watched {mon : Monitor} :
    (mon.poll owner n).watched.get name =
      if name = n ∧ (mon.watched.get n).isSome then owner.or (mon.watched.get n)
        else mon.watched.get name := by
  cases owner with
  | none =>
    rw [poll_none, Option.none_or]
    split
    · next h => rw [h.1]
    · rfl
  | some now =>
    rw [poll_some]
    cases hn : mon.watched.get n with
    | none =>
      split
      · next h => cases h.2
      · rfl
    | some was =>
      rw [Option.elim_some]
      dsimp only
      rw [Table.get_insert]
      simp

theorem mem_poll_acquired {mon : Monitor} (h : name ∈ mon.acquired) :
    name ∈ (mon.poll owner n).acquired := by
  cases owner with
  | none => rwa [poll_none]
  | some now =>
    rw [poll_some]
    cases mon.watched.get n with
    | none => exact h
    | some was =>
      rw [Option.elim_some]
      dsimp only
      split
      · exact List.mem_append_left _ h
      · exact h

theorem Settled.poll (h : Settled ok name b) (owner : Option Bool) (n : String) :
    Settled ok name (b.poll owner n) := by
  have hcoming (hc : b.Coming name) : (b.poll owner n).Coming name :=
    hc.imp_right mem_poll_acquired
  have hwatched : (b.poll owner n).monitor.watched.get name =
      if name = n ∧ (b.monitor.watched.get n).isSome then owner.or (b.monitor.watched.get n)
        else b.monitor.watched.get name := poll_watched
  by_cases hn : name = n ∧ (b.monitor.watched.get n).isSome
  · obtain ⟨rfl, hsome⟩ := hn
    rw [if_pos ⟨rfl, hsome⟩] at hwatched
    refine ⟨h.added, h.removed, fun hl hp ↦ ?_, fun hok hl hp ↦ ?_⟩
    · rw [h.unwatched hl hp] at hsome
      cases hsome
    · obtain ⟨was, hwas, hw⟩ := h.watched hok hl hp
      rw [hwatched, hwas]
      cases owner with
      | none => exact ⟨was, rfl, fun htrue ↦ hcoming (hw htrue)⟩
      | some now =>
        refine ⟨now, rfl, ?_⟩
        rintro rfl
        cases was with
        | true => exact hcoming (hw rfl)
        | false =>
          right
          change name ∈ (b.monitor.poll (some true) name).acquired
          rw [poll_some, hwas]
          exact List.mem_append_right _ List.mem_cons_self
  · rw [if_neg hn] at hwatched
    exact h.same rfl rfl hwatched fun _ hc ↦ hcoming hc

theorem Settled.send (h : Settled ok name b) : Settled ok name b.send := by
  refine h.same rfl rfl rfl fun _ hc ↦ .inl ?_
  rcases hc with hc | hc
  · exact List.mem_append_left _ hc
  · exact List.mem_append_right _ (List.mem_map_of_mem hc)

/-- No lookup for a request to watch the name has failed. -/
def Looked (name : String) (l : List BridgeEvent) : Prop := .received (.add name) none ∉ l

theorem Settled.step {l : List BridgeEvent} {e : BridgeEvent} (h : Settled (Looked name l) name b)
    (hs : BridgeStep b e b') : Settled (Looked name (e :: l)) name b' := by
  have hok : Looked name (e :: l) → Looked name l := fun hl hmem ↦ hl (List.mem_cons_of_mem _ hmem)
  cases hs with
  | watch unit n => exact (h.mono hok).watch unit n
  | release unit => exact (h.mono hok).release unit
  | handle he hh => exact (h.mono hok).handle he hh
  | other hp =>
    refine (h.mono hok).same rfl ?_ rfl fun _ hc ↦ hc
    dsimp only
    rw [hp]
  | receive owner hw =>
    refine h.receive hw hok fun hl hadd hnone ↦ hl ?_
    rw [hadd, hnone]
    exact List.mem_cons_self
  | poll n owner => exact (h.mono hok).poll owner n
  | send => exact (h.mono hok).send

/-- In every run, whatever the order of its events. -/
theorem BridgeRun.settled {l : List BridgeEvent} (h : BridgeRun l b) (name : String) :
    Settled (Looked name l) name b := by
  induction h with
  | start hp =>
    refine ⟨fun hl ↦ (by cases hl), fun hl ↦ (by cases hl), fun _ _ ↦ rfl, fun _ _ hsome ↦ ?_⟩
    dsimp only at hsome
    rw [hp] at hsome
    cases hsome
  | step _ hs ih => exact ih.step hs

end Steps

section Turns

variable {ok ok' : Prop} {name : String} {b b' : Bridge} {l : List BridgeEvent}

theorem receive_watches {request : DbWatch} {ws : List DbWatch}
    (hw : b.watches = request :: ws) (owner : Option Bool) :
    (b.receive owner).watches = ws ∧ (b.receive owner).manager = b.manager := by
  rw [Bridge.receive, hw]
  exact ⟨rfl, rfl⟩

theorem settled_receives (owner : Nat → String → Option Bool) (es : List (DbWatch × Nat))
    (h : Settled ok name b) (hw : b.watches = es.map Prod.fst) (hok : ok' → ok)
    (howner : ok' → ∀ k, owner k name ≠ none) :
    Settled ok' name (es.foldl (fun b e ↦ b.receive (owner e.2 e.1.name)) b) ∧
      (es.foldl (fun b e ↦ b.receive (owner e.2 e.1.name)) b).watches = [] ∧
      (es.foldl (fun b e ↦ b.receive (owner e.2 e.1.name)) b).manager = b.manager := by
  induction es generalizing b ok with
  | nil => exact ⟨h.mono hok, hw, rfl⟩
  | cons e es ih =>
    obtain ⟨hrest, hmanager⟩ := receive_watches hw (owner e.2 e.1.name)
    have hnext : Settled ok' name (b.receive (owner e.2 e.1.name)) := by
      refine h.receive hw hok fun hok' hadd ↦ ?_
      rw [hadd]
      exact howner hok' e.2
    obtain ⟨hsettled, hempty, hsame⟩ := ih hnext hrest id
    exact ⟨hsettled, hempty, hsame.trans hmanager⟩

theorem settled_polls (owner : Nat → String → Option Bool) (es : List (String × Nat))
    (h : Settled ok name b) :
    Settled ok name (es.foldl (fun b e ↦ b.poll (owner e.2 e.1) e.1) b) ∧
      (es.foldl (fun b e ↦ b.poll (owner e.2 e.1) e.1) b).watches = b.watches ∧
      (es.foldl (fun b e ↦ b.poll (owner e.2 e.1) e.1) b).manager = b.manager := by
  induction es generalizing b with
  | nil => exact ⟨h, rfl, rfl⟩
  | cons e es ih =>
    obtain ⟨hsettled, hwatches, hmanager⟩ := ih (h.poll (owner e.2 e.1) e.1)
    exact ⟨hsettled, hwatches, hmanager⟩

/-- A name that is owned at each lookup is found owned, when it is among those that are polled. -/
theorem polls_owned {owner : Nat → String → Option Bool} {es : List (String × Nat)}
    (ho : ∀ k, owner k name = some true) (hsome : (b.monitor.watched.get name).isSome)
    (hmem : b.monitor.watched.get name = some true ∨ name ∈ es.map Prod.fst) :
    (es.foldl (fun b e ↦ b.poll (owner e.2 e.1) e.1) b).monitor.watched.get name = some true := by
  induction es generalizing b with
  | nil => exact hmem.resolve_right List.not_mem_nil
  | cons e es ih =>
    have hwatched : (b.poll (owner e.2 e.1) e.1).monitor.watched.get name =
        if name = e.1 ∧ (b.monitor.watched.get e.1).isSome then
          (owner e.2 e.1).or (b.monitor.watched.get e.1)
        else b.monitor.watched.get name := poll_watched
    by_cases hn : name = e.1
    · have htrue : (b.poll (owner e.2 e.1) e.1).monitor.watched.get name = some true := by
        rw [hwatched, if_pos ⟨hn, hn ▸ hsome⟩, ← hn, ho, Option.some_or]
      exact ih (by rw [htrue]; rfl) (.inl htrue)
    · rw [if_neg fun h ↦ hn h.1] at hwatched
      apply ih (by rwa [hwatched])
      rw [hwatched]
      exact hmem.imp_right fun h ↦ (List.mem_cons.mp h).resolve_left hn

theorem settled_turn (received polled : Nat → String → Option Bool) (h : Settled ok name b)
    (hok : ok' → ok) (howner : ok' → ∀ k, received k name ≠ none) :
    Settled ok' name (b.turn received polled) ∧
      lastWatch (b.turn received polled).watches name = none ∧
      (b.turn received polled).manager = b.manager := by
  obtain ⟨hr, hempty, hmanager⟩ := settled_receives received b.watches.zipIdx h
    (List.zipIdx_map_fst ..).symm hok howner
  obtain ⟨hp, hwatches, hsame⟩ :=
    settled_polls polled (b.receiveAll received).monitor.watched.keys.zipIdx hr
  refine ⟨hp.send, ?_, hsame.trans hmanager⟩
  have hnone : (b.turn received polled).watches = [] := hwatches.trans hempty
  rw [hnone]
  rfl

theorem coming_finds (h : BridgeRun l b) (hc : b.Coming name) : ∃ e ∈ l, e.Finds name := by
  induction h with
  | start => rcases hc with hc | hc <;> cases hc
  | @step l e b b' _ hs ih =>
    have keep (hc : b.Coming name) : ∃ e' ∈ e :: l, e'.Finds name := by
      obtain ⟨e', he', hf⟩ := ih hc
      exact ⟨e', List.mem_cons_of_mem _ he', hf⟩
    cases hs with
    | watch | release | other => exact keep hc
    | @handle _ _ e es calls he hh =>
      apply keep
      have hsame : b'.events = es ∧ b'.monitor = b.monitor := by
        cases e with
        | nameLost n =>
          cases hh
          exact ⟨rfl, rfl⟩
        | nameAcquired n =>
          obtain ⟨out, -, hret⟩ := Option.bind_eq_some_iff.mp hh
          cases hret
          exact ⟨rfl, rfl⟩
      rcases hc with hc | hc
      · left
        rw [he, ← hsame.1]
        exact List.mem_cons_of_mem _ hc
      · right
        rwa [← hsame.2]
    | @receive request ws owner hw =>
      rw [Bridge.receive, hw] at hc
      rcases hc with hc | hc
      · rcases List.mem_append.mp hc with hc | hc
        · exact keep (.inl hc)
        · refine ⟨_, List.mem_cons_self, ?_⟩
          cases request with
          | remove n => cases hc
          | add n =>
            cases owner with
            | none => cases hc
            | some now =>
              cases now with
              | false => cases hc
              | true =>
                cases List.mem_singleton.mp hc
                exact ⟨rfl, rfl⟩
      · exact keep (.inr (receive_acquired ▸ hc))
    | poll n owner =>
      rcases hc with hc | hc
      · exact keep (.inl hc)
      · change name ∈ (b.monitor.poll owner n).acquired at hc
        cases owner with
        | none =>
          rw [poll_none] at hc
          exact keep (.inr hc)
        | some now =>
          rw [poll_some] at hc
          cases hwas : b.monitor.watched.get n with
          | none =>
            rw [hwas] at hc
            exact keep (.inr hc)
          | some was =>
            rw [hwas, Option.elim_some] at hc
            dsimp only at hc
            split at hc
            · next hnow =>
              rcases List.mem_append.mp hc with hc | hc
              · exact keep (.inr hc)
              · cases List.mem_singleton.mp hc
                have htrue : now = true := (Bool.and_eq_true_iff.mp hnow).1
                exact ⟨_, List.mem_cons_self, rfl, congrArg some htrue⟩
            · exact keep (.inr hc)
    | send =>
      apply keep
      rcases hc with hc | hc
      · rcases List.mem_append.mp hc with hc | hc
        · exact .inl hc
        · obtain ⟨n, hn, heq⟩ := List.mem_map.mp hc
          cases heq
          exact .inr hn
      · cases hc

/-- What becomes of a name. One that the manager awaits and that is owned is announced after a turn
of the thread, and then its unit is active; one that the manager does not await is no longer watched
after a turn; and no name is announced that was not found owned. -/
structure Announces (l : List BridgeEvent) (b : Bridge) (name : String) : Prop where
  announced : Looked name l → ∀ unit received polled,
    b.manager.pendingBusNames.get name = some unit → (∀ k, received k name ≠ none) →
    (∀ k, polled k name = some true) → .nameAcquired name ∈ (b.turn received polled).events ∧
      ∀ w out, b.manager.nameAcquired w name = some out →
        out.1.pendingBusNames.get name = none ∧
          (b.manager.activeOf unit = some .activating → out.1.activeOf unit = some .active)
  forgotten : ∀ received polled, b.manager.pendingBusNames.get name = none →
    (b.turn received polled).monitor.watched.get name = none
  owned : .nameAcquired name ∈ b.events → ∃ e ∈ l, e.Finds name

/-- However the manager and the monitor thread are interleaved, no acquisition is lost. -/
theorem acquisitions_announced (h : BridgeRun l b) (name : String) : Announces l b name := by
  have hsettled := h.settled name
  constructor
  · intro hlook unit received polled hp hreceived hpolled
    obtain ⟨hr, hempty, hmanager⟩ := settled_receives received b.watches.zipIdx hsettled
      (List.zipIdx_map_fst ..).symm id fun _ ↦ hreceived
    have hsome : ((b.receiveAll received).manager.pendingBusNames.get name).isSome := by
      rw [Bridge.receiveAll, hmanager, hp]
      rfl
    have hnone : lastWatch (b.receiveAll received).watches name = none := by
      rw [Bridge.receiveAll, hempty]
      rfl
    obtain ⟨v, hv, -⟩ := hr.watched hlook hnone hsome
    have htrue : (b.turn received polled).monitor.watched.get name = some true := by
      apply polls_owned hpolled
      · rw [Bridge.receiveAll, hv]
        rfl
      · right
        rw [List.zipIdx_map_fst]
        exact Table.mem_keys.mpr ⟨v, hv⟩
    obtain ⟨ht, hlast, hsame⟩ := settled_turn received polled hsettled id fun _ ↦ hreceived
    obtain ⟨v', hv', hcoming⟩ := ht.watched hlook hlast (by rw [hsame, hp]; rfl)
    rw [htrue] at hv'
    refine ⟨(hcoming (Option.some.inj hv').symm).resolve_right List.not_mem_nil, fun w out ho ↦ ?_⟩
    refine ⟨?_, fun ha ↦ nameAcquired_active hp ha ho⟩
    rw [nameAcquired_pendingBusNames ho, if_pos rfl]
  · intro received polled hp
    obtain ⟨ht, hlast, hmanager⟩ :=
      settled_turn received polled (hsettled.mono False.elim) id False.elim
    exact ht.unwatched hlast (by rw [hmanager, hp])
  · exact fun hmem ↦ coming_finds h (.inl hmem)

/-- A unit that has just started to wait for its name. -/
theorem acquisitions_announced_waiting : ∃ l b, BridgeRun l b ∧ Looked "org.app" l ∧
    b.manager.pendingBusNames.get "org.app" = some "app.service" ∧ Announces l b "org.app" := by
  have hrun : BridgeRun [.manager] (Bridge.watch { manager := {} } "app.service" "org.app") :=
    .step (.start rfl) (.watch ..)
  refine ⟨_, _, hrun, ?_, Table.get_insert_self, acquisitions_announced hrun "org.app"⟩
  intro hmem
  cases List.mem_singleton.mp hmem

end Turns

end Rystemd.Dbus

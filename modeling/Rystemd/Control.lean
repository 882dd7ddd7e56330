import Rystemd.Journal
import Rystemd.Library.Json
import Rystemd.Manager

namespace Rystemd

open Json

/-- Status of one unit. -/
structure UnitStatus where
  name : String
  description : String
  load : String
  active : String
  sub : String
  result : String
  mainPid : Option Int32
  path : Option String
  activeEnter : Option UInt64
  log : List String
  enabled : String

/-- One row of `list-units`. -/
structure UnitSummary where
  unit : String
  loaded : String
  active : String
  sub : String
  description : String

/-- One row of `list-timers`. -/
structure TimerInfo where
  unit : String
  activates : String
  next : Option UInt64
  nextLeft : Option Int64
  last : Option UInt64
  lastPassed : Option Int64
  spec : List String

/-- One row of `list-unit-files`. -/
structure UnitFileInfo where
  file : String
  path : String
  state : String

/-- One unit file with its text. -/
structure CatEntry where
  unit : String
  path : String
  text : String

/-- The repository that a manager uses, the primary root first. -/
structure RepoInfo where
  root : String
  roots : List String

/-- A queued job. -/
structure JobSummary where
  id : UInt64
  unit : String
  jobType : String
  state : String

section Records

instance : Serde UnitStatus where
  toValue s := object [("name", toValue s.name), ("description", toValue s.description),
    ("load", toValue s.load), ("active", toValue s.active), ("sub", toValue s.sub),
    ("result", toValue s.result), ("main_pid", toValue s.mainPid), ("path", toValue s.path),
    ("active_enter", toValue s.activeEnter), ("log", toValue s.log), ("enabled", toValue s.enabled)]
  fromValue v := do
    return {
      name := ← v.field String "name"
      description := ← v.field String "description"
      load := ← v.field String "load"
      active := ← v.field String "active"
      sub := ← v.field String "sub"
      result := ← v.field String "result"
      mainPid := ← v.optField Int32 "main_pid"
      path := ← v.optField String "path"
      activeEnter := ← v.optField UInt64 "active_enter"
      log := ← v.field (List String) "log"
      enabled := ← v.field String "enabled" }
  canonical s := canonical_object (by simp [canonical])
  fromValue_toValue s := by
    simp [field, optField, get_object, entryOf_cons, fromValue_toValue]

instance : Serde UnitSummary where
  toValue s := object [("unit", toValue s.unit), ("loaded", toValue s.loaded),
    ("active", toValue s.active), ("sub", toValue s.sub), ("description", toValue s.description)]
  fromValue v := do
    return {
      unit := ← v.field String "unit"
      loaded := ← v.field String "loaded"
      active := ← v.field String "active"
      sub := ← v.field String "sub"
      description := ← v.field String "description" }
  canonical s := canonical_object (by simp [canonical])
  fromValue_toValue s := by simp [field, get_object, entryOf_cons, fromValue_toValue]

instance : Serde TimerInfo where
  toValue s := object [("unit", toValue s.unit), ("activates", toValue s.activates),
    ("next", toValue s.next), ("next_left", toValue s.nextLeft), ("last", toValue s.last),
    ("last_passed", toValue s.lastPassed), ("spec", toValue s.spec)]
  fromValue v := do
    return {
      unit := ← v.field String "unit"
      activates := ← v.field String "activates"
      next := ← v.optField UInt64 "next"
      nextLeft := ← v.optField Int64 "next_left"
      last := ← v.optField UInt64 "last"
      lastPassed := ← v.optField Int64 "last_passed"
      spec := ← v.field (List String) "spec" }
  canonical s := canonical_object (by simp [canonical])
  fromValue_toValue s := by simp [field, optField, get_object, entryOf_cons, fromValue_toValue]

instance : Serde UnitFileInfo where
  toValue s := object [("file", toValue s.file), ("path", toValue s.path),
    ("state", toValue s.state)]
  fromValue v := do
    return {
      file := ← v.field String "file"
      path := ← v.field String "path"
      state := ← v.field String "state" }
  canonical s := canonical_object (by simp [canonical])
  fromValue_toValue s := by simp [field, get_object, entryOf_cons, fromValue_toValue]

instance : Serde CatEntry where
  toValue s := object [("unit", toValue s.unit), ("path", toValue s.path),
    ("text", toValue s.text)]
  fromValue v := do
    return {
      unit := ← v.field String "unit"
      path := ← v.field String "path"
      text := ← v.field String "text" }
  canonical s := canonical_object (by simp [canonical])
  fromValue_toValue s := by simp [field, get_object, entryOf_cons, fromValue_toValue]

instance : Serde RepoInfo where
  toValue s := object [("root", toValue s.root), ("roots", toValue s.roots)]
  fromValue v := do
    return {
      root := ← v.field String "root"
      roots := ← v.field (List String) "roots" }
  canonical s := canonical_object (by simp [canonical])
  fromValue_toValue s := by simp [field, get_object, entryOf_cons, fromValue_toValue]

instance : Serde JournalRecord where
  toValue r := object [("secs", toValue r.secs), ("unit", toValue r.unit), ("text", toValue r.text)]
  fromValue v := do
    return {
      secs := ← v.field UInt64 "secs"
      unit := ← v.field String "unit"
      text := ← v.field String "text" }
  canonical r := canonical_object (by simp [canonical])
  fromValue_toValue r := by
    have hsecs : ∀ v : Json, v.get "secs" = some (toValue r.secs) →
        v.field UInt64 "secs" = some r.secs := fun v ↦ field_of_get
    rw [hsecs _ (by simp [get_object, entryOf_cons])]
    simp [field, get_object, entryOf_cons, fromValue_toValue]

def JobSummary.toValue (s : JobSummary) : Json :=
  object [("id", Json.toValue s.id), ("unit", Json.toValue s.unit),
    ("type", Json.toValue s.jobType), ("state", Json.toValue s.state)]

def JobStatus.toValue (s : JobStatus) : Json :=
  object [("id", num s.id), ("unit", Json.toValue s.unit), ("state", Json.toValue s.state),
    ("ok", s.ok.elim null bool), ("error", Json.toValue s.error)]

end Records

end Rystemd

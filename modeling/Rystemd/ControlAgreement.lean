import Rystemd.SocketClient

namespace Rystemd

open Json (null object toValue fromValue fromValue_toValue)
open Ipc

section Responses

theorem readResponse_ok (d : Json) :
    readResponse (object [("ok", .bool true), ("data", d)]) = .ok d := by
  unfold readResponse
  rw [Json.get_object, Json.get_object]
  rfl

theorem readResponse_error (e : String) :
    readResponse (object [("ok", .bool false), ("error", .str e)]) = .error e := by
  unfold readResponse
  rw [Json.get_object, Json.get_object, Json.get_object]
  rfl

end Responses

section Requests

variable {units : List String} {op name : String}

theorem normalizeUnit_idem (name : String) :
    normalizeUnit (normalizeUnit name) = normalizeUnit name := by
  unfold normalizeUnit
  by_cases h : '.' ∈ name.toList
  · rw [if_pos h, if_pos h]
  · rw [if_neg h, if_pos]
    rw [String.toList_append]
    exact List.mem_append_right _ (by decide)

theorem filterMap_asStr (ss : List String) : (ss.map Json.str).filterMap Json.asStr = ss := by
  induction ss with
  | nil => rfl
  | cons s ss ih => exact congrArg (s :: ·) ih

theorem reqStrings_of_get {req : Json} {key : String} {ss : List String}
    (h : req.get key = some (toValue ss)) : reqStrings req key = ss := by
  rw [reqStrings, h]
  exact filterMap_asStr ss

theorem reqUnits_of_get {req : Json}
    (h : req.get "units" = some (toValue (units.map normalizeUnit))) :
    reqUnits req = units.map normalizeUnit := by
  rw [reqUnits, reqStrings_of_get h, List.map_map]
  exact List.map_congr_left fun u _ ↦ normalizeUnit_idem u

theorem reqUnits_unitsRequest :
    reqUnits (ControlCall.unitsRequest op units) = units.map normalizeUnit :=
  reqUnits_of_get Json.get_object

theorem reqStr_of_get {req : Json} {key s : String} (h : req.get key = some (.str s)) :
    reqStr req key = some s := by
  rw [reqStr, h]
  rfl

theorem reqU64_of_get {req : Json} {key : String} {n : UInt64}
    (h : req.get key = some (toValue n)) : reqU64 req key = some n := by
  rw [reqU64, h, Option.bind_some]
  exact fromValue_toValue n

theorem reqStr_nameRequest :
    reqStr (ControlCall.nameRequest op name) "name" = some (normalizeUnit name) :=
  reqStr_of_get Json.get_object

theorem reqJobMode_unitsRequest :
    reqJobMode (ControlCall.unitsRequest op units) = pure .replace := by
  have hmode : reqStr (ControlCall.unitsRequest op units) "job_mode" = none := by
    rw [reqStr, ControlCall.unitsRequest, Json.get_object]
    rfl
  unfold reqJobMode
  rw [hmode]
  rfl

theorem entryOf_entry {β : Type} [Serde β] (key k : String) (b : Option β) :
    Json.entryOf k (ControlCall.entry key b) = if key = k then b.map toValue else none := by
  cases b with
  | none =>
    rw [Option.map_none, ite_self]
    rfl
  | some b => exact Json.entryOf_cons

theorem get_journal (k : String) (unit : Option String) (since tail : Option UInt64) :
    (ControlCall.journal unit since tail).request.get k =
      ((if "tail" = k then tail.map toValue else none).or
        ((if "since" = k then since.map toValue else none).or
          (if "unit" = k then unit.map toValue else none))).or
        (if "op" = k then some (.str "journal") else none) := by
  have hreverse {β : Type} [Serde β] (key : String) (b : Option β) :
      (ControlCall.entry key b).reverse = ControlCall.entry key b := by
    cases b with
    | none => rfl
    | some b => rfl
  change (object (_ :: (_ ++ _ ++ _))).get k = _
  rw [Json.get_object, List.reverse_cons, List.reverse_append, List.reverse_append,
    hreverse, hreverse, hreverse, Json.entryOf_append, Json.entryOf_append,
    Json.entryOf_append, entryOf_entry, entryOf_entry, entryOf_entry, Json.entryOf_cons]
  rfl

end Requests

section Agreement

variable {σ α : Type} {ops : ManagerOps σ} {mismatch : Json → String}

theorem bind_apply {β : Type} (x : Action σ α) (f : α → Action σ β) (s : σ) : (x >>= f) s =
    match x s with
    | (.ok a, s) => f a s
    | (.error e, s) => (.error e, s) := by
  change ExceptT.bindCont f (x s).1 (x s).2 = _
  cases x s with
  | mk r s =>
    cases r with
    | ok a => rfl
    | error e => rfl

theorem viaSocket_eq (call : ControlCall α) : call.viaSocket ops mismatch = (do
    let v ← runOp ops ((call.request.get "op").bind Json.asStr) call.request
    call.answer mismatch v) := by
  funext s
  rw [bind_apply, ControlCall.viaSocket, respond]
  cases runOp ops ((call.request.get "op").bind Json.asStr) call.request s with
  | mk r s =>
    cases r with
    | ok d =>
      dsimp only
      rw [readResponse_ok]
      rfl
    | error e =>
      dsimp only
      rw [readResponse_error]
      rfl

/-- A call whose operation does `x` and answers with `f`, which the client reads as `g`. -/
theorem viaSocket_of {β : Type} {call : ControlCall α} (op : String) (name : OpName)
    (x : Action σ β) (f : β → Json) (g : β → α) (hop : call.request.get "op" = some (.str op))
    (hname : OpName.parse op = some name)
    (hperform : perform ops call.request name = x >>= fun b ↦ pure (f b))
    (hanswer : ∀ b, call.answer mismatch (f b) = pure (g b)) :
    call.viaSocket ops mismatch = x >>= fun b ↦ pure (g b) := by
  rw [viaSocket_eq, hop, Option.bind_some, Json.asStr, runOp, hname]
  dsimp only
  rw [hperform, bind_assoc]
  congr 1
  funext b
  rw [pure_bind, hanswer]
  rfl

theorem forM_ignore {β γ : Type} (f : β → Action σ γ) (bs : List β) :
    (bs.forM fun b ↦ (f b).ignore) = (bs.mapM f).ignore := by
  induction bs with
  | nil => rfl
  | cons b bs ih =>
    have hforM : (b :: bs).forM (fun b ↦ (f b).ignore) =
      (f b).ignore >>= fun _ ↦ bs.forM fun b ↦ (f b).ignore := rfl
    rw [hforM, ih, List.mapM_cons]
    simp only [Action.ignore, bind_assoc, pure_bind]

theorem unlessMasked_ignore (f : Name → Action σ α) (u : Name) :
    unlessMasked ops (fun u ↦ (f u).ignore) u = (unlessMasked ops f u).ignore := by
  unfold unlessMasked
  rw [Action.ignore, bind_assoc]
  congr 1
  funext s
  split
  · rfl
  · rfl

/-- A call whose answer is the value that the manager returns. -/
theorem value_carried {call : ControlCall α} (op : String) (name : OpName) (x : Action σ α)
    (f : α → Json) (hop : call.request.get "op" = some (.str op))
    (hname : OpName.parse op = some name)
    (hperform : perform ops call.request name = x >>= fun a ↦ pure (f a))
    (hanswer : ∀ a, call.answer mismatch (f a) = pure a) : call.viaSocket ops mismatch = x :=
  (viaSocket_of op name x f id hop hname hperform hanswer).trans (bind_pure x)

/-- A call about some units. -/
theorem units_carried {call : ControlCall α} (op : String) (name : OpName) (units : List String)
    (x : List Name → Action σ α) (f : α → Json)
    (hrequest : call.request = ControlCall.unitsRequest op units)
    (hname : OpName.parse op = some name)
    (hperform : ∀ req, perform ops req name = x (reqUnits req) >>= fun a ↦ pure (f a))
    (hanswer : ∀ a, call.answer mismatch (f a) = pure a) :
    call.viaSocket ops mismatch = x (units.map normalizeUnit) := by
  apply value_carried op name _ f _ hname _ hanswer
  · rw [hrequest]
    exact Json.get_object
  · rw [hperform, hrequest, reqUnits_unitsRequest]

theorem decode_toValue {β : Type} [Serde β] (b : β) :
    ControlCall.decode mismatch β (toValue b) = pure b := by
  rw [ControlCall.decode, Json.fromValue_toValue]

theorem strVec_toValue (op : String) (ss : List String) :
    ControlCall.strVec op (toValue ss) = pure ss :=
  congrArg pure (filterMap_asStr ss)

theorem strVecOrNone_toValue (ss : List String) : ControlCall.strVecOrNone (toValue ss) = ss :=
  filterMap_asStr ss

variable (units : List String)

theorem start_carried :
    (ControlCall.start units).viaSocket ops mismatch = (ControlCall.start units).direct ops := by
  have hstart : unlessMasked ops ops.start = fun u ↦
      (unlessMasked ops (fun u ↦ ops.startWithMode u .replace) u).ignore :=
    funext (unlessMasked_ignore _)
  change _ = (units.map normalizeUnit).forM (unlessMasked ops ops.start)
  rw [hstart, forM_ignore]
  apply viaSocket_of "start" .start _ jobsValue (fun _ ↦ ()) Json.get_object rfl _ fun _ ↦ rfl
  change (liftM (reqJobMode (ControlCall.unitsRequest "start" units)) >>= fun mode ↦
    (reqUnits (ControlCall.unitsRequest "start" units)).mapM
      (unlessMasked ops fun u ↦ ops.startWithMode u mode) >>= fun jobs ↦ pure (jobsValue jobs)) = _
  rw [reqJobMode_unitsRequest, reqUnits_unitsRequest]
  rfl

theorem stop_carried :
    (ControlCall.stop units).viaSocket ops mismatch = (ControlCall.stop units).direct ops := by
  change _ = (units.map normalizeUnit).forM fun u ↦ (ops.stopWithMode u .replace).ignore
  rw [forM_ignore]
  apply viaSocket_of "stop" .stop _ jobsValue (fun _ ↦ ()) Json.get_object rfl _ fun _ ↦ rfl
  change (liftM (reqJobMode (ControlCall.unitsRequest "stop" units)) >>= fun mode ↦
    (reqUnits (ControlCall.unitsRequest "stop" units)).mapM
      (fun u ↦ ops.stopWithMode u mode) >>= fun jobs ↦ pure (jobsValue jobs)) = _
  rw [reqJobMode_unitsRequest, reqUnits_unitsRequest]
  rfl

theorem restart_carried : (ControlCall.restart units).viaSocket ops mismatch =
    (ControlCall.restart units).direct ops :=
  units_carried "restart" .restart units (·.forM ops.restart) (fun _ ↦ null) rfl rfl
    (fun _ ↦ rfl) fun _ ↦ rfl

theorem tryRestart_carried : (ControlCall.tryRestart units).viaSocket ops mismatch =
    (ControlCall.tryRestart units).direct ops :=
  units_carried "try_restart" .tryRestart units ops.tryRestartUnits (fun _ ↦ null) rfl rfl
    (fun _ ↦ rfl) fun _ ↦ rfl

theorem reload_carried :
    (ControlCall.reload units).viaSocket ops mismatch = (ControlCall.reload units).direct ops :=
  units_carried "reload" .reload units (·.forM ops.reload) (fun _ ↦ null) rfl rfl
    (fun _ ↦ rfl) fun _ ↦ rfl

theorem resetFailed_carried : (ControlCall.resetFailed units).viaSocket ops mismatch =
    (ControlCall.resetFailed units).direct ops :=
  units_carried "reset_failed" .resetFailed units ops.resetFailedUnits (fun _ ↦ null) rfl rfl
    (fun _ ↦ rfl) fun _ ↦ rfl

theorem mask_carried :
    (ControlCall.mask units).viaSocket ops mismatch = (ControlCall.mask units).direct ops :=
  units_carried "mask" .mask units ops.maskUnits (fun _ ↦ null) rfl rfl (fun _ ↦ rfl) fun _ ↦ rfl

theorem unmask_carried :
    (ControlCall.unmask units).viaSocket ops mismatch = (ControlCall.unmask units).direct ops :=
  units_carried "unmask" .unmask units ops.unmaskUnits (fun _ ↦ null) rfl rfl
    (fun _ ↦ rfl) fun _ ↦ rfl

theorem clean_carried :
    (ControlCall.clean units).viaSocket ops mismatch = (ControlCall.clean units).direct ops :=
  units_carried "clean" .clean units ops.cleanUnits toValue rfl rfl (fun _ ↦ rfl)
    (strVec_toValue "clean")

theorem reenable_carried : (ControlCall.reenable units).viaSocket ops mismatch =
    (ControlCall.reenable units).direct ops :=
  units_carried "reenable" .reenable units ops.reenableUnits toValue rfl rfl (fun _ ↦ rfl)
    (strVec_toValue "reenable")

theorem enable_carried :
    (ControlCall.enable units).viaSocket ops mismatch = (ControlCall.enable units).direct ops :=
  units_carried "enable" .enable units (fun us ↦ do return (← us.mapM ops.enable).flatten) toValue
    rfl rfl
    (fun req ↦ (bind_assoc ((reqUnits req).mapM ops.enable) (pure ·.flatten)
      fun ss ↦ pure (toValue ss)).symm)
    fun ss ↦ congrArg pure (strVecOrNone_toValue ss)

theorem disable_carried : (ControlCall.disable units).viaSocket ops mismatch =
    (ControlCall.disable units).direct ops :=
  units_carried "disable" .disable units
    (fun us ↦ do return (← us.mapM ops.disable).flatten) toValue rfl rfl
    (fun req ↦ (bind_assoc ((reqUnits req).mapM ops.disable) (pure ·.flatten)
      fun ss ↦ pure (toValue ss)).symm)
    fun ss ↦ congrArg pure (strVecOrNone_toValue ss)

theorem status_carried :
    (ControlCall.status units).viaSocket ops mismatch = (ControlCall.status units).direct ops :=
  units_carried "status" .status units
    (fun us ↦ do
      let s ← get
      return (ops.queryNames s us).filterMap (ops.statusOf s))
    toValue rfl rfl (fun _ ↦ rfl) decode_toValue

theorem isEnabled_carried : (ControlCall.isEnabled units).viaSocket ops mismatch =
    (ControlCall.isEnabled units).direct ops :=
  units_carried "is_enabled" .isEnabled units
    (fun us ↦ do return us.map (ops.enabledState (← get))) toValue rfl rfl (fun _ ↦ rfl)
    decode_toValue

theorem reloadDaemon_carried : ControlCall.reloadDaemon.viaSocket ops mismatch =
    ControlCall.reloadDaemon.direct ops := by
  apply value_carried "daemon_reload" .daemonReload _ (fun _ ↦ null) Json.get_object rfl _
    fun _ ↦ rfl
  change (ops.reloadAll >>= fun errs ↦
    if errs.isEmpty then pure null else throw ("; ".intercalate errs)) =
      (ops.reloadAll >>= fun errs ↦
        if errs.isEmpty then pure () else throw ("; ".intercalate errs)) >>= _
  rw [bind_assoc]
  congr 1
  funext errs
  split
  all_goals rfl

theorem isolate_carried (unit : String) : (ControlCall.isolate unit).viaSocket ops mismatch =
    (ControlCall.isolate unit).direct ops := by
  have hnormal : ops.isolate (normalizeUnit unit) = ops.isolate unit := by
    unfold ManagerOps.isolate
    rw [normalizeUnit_idem]
  change _ = ops.isolate unit
  rw [← hnormal]
  apply value_carried "isolate" .isolate _ (fun _ ↦ null) Json.get_object rfl _ fun _ ↦ rfl
  change (okOr (reqStr (ControlCall.nameRequest "isolate" unit) "name") _ >>= fun name ↦
    ops.isolate name >>= fun _ ↦ pure null) = _
  rw [reqStr_nameRequest]
  rfl

theorem listDependencies_carried (unit : String) (reverse : Bool) :
    (ControlCall.listDependencies unit reverse).viaSocket ops mismatch =
      (ControlCall.listDependencies unit reverse).direct ops := by
  have hname : reqStr (ControlCall.listDependencies unit reverse).request "name" =
      some (normalizeUnit unit) := reqStr_of_get Json.get_object
  have hreverse : (ControlCall.listDependencies unit reverse).request.get "reverse" =
      some (.bool reverse) := Json.get_object
  apply value_carried "list_dependencies" .listDependencies _ toValue Json.get_object rfl _
    (strVec_toValue "list_dependencies")
  change (okOr (reqStr (ControlCall.listDependencies unit reverse).request "name") _ >>= fun name ↦
    get >>= fun s ↦ pure (toValue (ops.listDependencies s name
      (((ControlCall.listDependencies unit reverse).request.get "reverse").bind
        Json.asBool |>.getD false)))) = _
  rw [hname, hreverse]
  rfl

theorem listUnits_carried (types : List String) (state : Option String) :
    (ControlCall.listUnits types state).viaSocket ops mismatch =
      (ControlCall.listUnits types state).direct ops := by
  apply value_carried "list_units" .listUnits _ toValue Json.get_object rfl _ decode_toValue
  have htypes : reqStrings (ControlCall.listUnits types state).request "types" = types :=
    reqStrings_of_get Json.get_object
  have hstate : reqStr (ControlCall.listUnits types state).request "state" = state := by
    have hget : (ControlCall.listUnits types state).request.get "state" = some (toValue state) :=
      Json.get_object
    rw [reqStr, hget]
    cases state with
    | none => rfl
    | some s => rfl
  have hpattern : reqStr (ControlCall.listUnits types state).request "pattern" = none := by
    have hget : (ControlCall.listUnits types state).request.get "pattern" = some null :=
      Json.get_object
    rw [reqStr, hget]
    rfl
  change (get >>= fun s ↦ pure (toValue (ops.listUnitSummaries s
    (reqStrings (ControlCall.listUnits types state).request "types")
    (reqStr (ControlCall.listUnits types state).request "state")
    (reqStr (ControlCall.listUnits types state).request "pattern")))) = _
  rw [htypes, hstate, hpattern]
  rfl

theorem listTimers_carried : ControlCall.listTimers.viaSocket ops mismatch =
    ControlCall.listTimers.direct ops :=
  value_carried "list_timers" .listTimers _ toValue Json.get_object rfl rfl decode_toValue

theorem listUnitFiles_carried : ControlCall.listUnitFiles.viaSocket ops mismatch =
    ControlCall.listUnitFiles.direct ops :=
  value_carried "list_unit_files" .listUnitFiles _ toValue Json.get_object rfl rfl decode_toValue

theorem repo_carried : ControlCall.repo.viaSocket ops mismatch = ControlCall.repo.direct ops :=
  value_carried "repo" .repo _ toValue Json.get_object rfl rfl decode_toValue

theorem getDefault_carried : ControlCall.getDefault.viaSocket ops mismatch =
    ControlCall.getDefault.direct ops :=
  value_carried "get_default" .getDefault _ Json.str Json.get_object rfl rfl fun _ ↦ rfl

theorem journal_carried (unit : Option String) (since tail : Option UInt64) :
    (ControlCall.journal unit since tail).viaSocket ops mismatch =
      (ControlCall.journal unit since tail).direct ops := by
  have hop : (ControlCall.journal unit since tail).request.get "op" = some (.str "journal") :=
    get_journal "op" unit since tail
  have hunit : reqStr (ControlCall.journal unit since tail).request "unit" = unit := by
    rw [reqStr, get_journal]
    cases unit with
    | none => rfl
    | some u => rfl
  have hsince : reqU64 (ControlCall.journal unit since tail).request "since" = since := by
    cases since with
    | none =>
      rw [reqU64, get_journal]
      rfl
    | some n => exact reqU64_of_get (get_journal ..)
  have htail : reqU64 (ControlCall.journal unit since tail).request "tail" = tail := by
    cases tail with
    | none =>
      rw [reqU64, get_journal]
      rfl
    | some n => exact reqU64_of_get (get_journal ..)
  apply value_carried "journal" .journal _
    (fun r : List JournalRecord × String ↦ object [("records", toValue r.1), ("dir", .str r.2)])
    hop rfl _ _
  · change (get >>= fun s ↦ pure (object [("records", toValue (ops.journal s
        (reqStr (ControlCall.journal unit since tail).request "unit")
        (reqU64 (ControlCall.journal unit since tail).request "since")
        (reqU64 (ControlCall.journal unit since tail).request "tail"))),
      ("dir", .str (ops.journalDir s))])) = _
    rw [hunit, hsince, htail]
    rfl
  · intro r
    have hrecords : (object [("records", toValue r.1), ("dir", .str r.2)]).get "records" =
        some (toValue r.1) := Json.get_object
    have hdir : (object [("records", toValue r.1), ("dir", .str r.2)]).get "dir" =
        some (.str r.2) := Json.get_object
    change (ControlCall.decode mismatch (List JournalRecord)
      (((object [("records", toValue r.1), ("dir", .str r.2)]).get "records").getD (.arr [])) >>=
        fun records ↦ pure (records,
          (((object [("records", toValue r.1), ("dir", .str r.2)]).get "dir").bind
            Json.asStr).getD "")) = _
    rw [hrecords, hdir, Option.getD_some, decode_toValue]
    rfl

/-- The daemon takes a name that is no signal for SIGTERM. -/
theorem kill_viaSocket (unit signal : String) :
    (ControlCall.kill unit signal).viaSocket ops mismatch =
      ops.kill (normalizeUnit unit) ((sigFromName signal).getD sigterm) := by
  have hunits : reqUnits (ControlCall.kill unit signal).request = [normalizeUnit unit] :=
    @reqUnits_of_get [unit] _ Json.get_object
  have hsignal : reqStr (ControlCall.kill unit signal).request "signal" = some signal :=
    reqStr_of_get Json.get_object
  apply value_carried "kill" .kill _ (fun _ ↦ null) Json.get_object rfl _ fun _ ↦ rfl
  change (okOr (reqUnits (ControlCall.kill unit signal).request).head? _ >>= fun u ↦
    ops.kill u (((reqStr (ControlCall.kill unit signal).request "signal").bind sigFromName).getD
      sigterm) >>= fun _ ↦ pure null) = _
  rw [hunits, hsignal]
  rfl

theorem setDefault_viaSocket (unit : String) :
    (ControlCall.setDefault unit).viaSocket ops mismatch = ops.setDefault (normalizeUnit unit) := by
  apply value_carried "set_default" .setDefault _ (fun _ ↦ null) Json.get_object rfl _ fun _ ↦ rfl
  change (okOr (reqStr (ControlCall.nameRequest "set_default" unit) "name") _ >>= fun name ↦
    ops.setDefault name >>= fun _ ↦ pure null) = _
  rw [reqStr_nameRequest]
  rfl

theorem filterMap_states (states : List (Name × String)) :
    ((states.map fun e ↦ Json.arr [.str e.1, .str e.2]).filterMap fun x ↦
      (x.asArray.bind fun p ↦ p[1]?).bind Json.asStr) = states.map Prod.snd := by
  induction states with
  | nil => rfl
  | cons e states ih => exact congrArg (e.2 :: ·) ih

theorem isActive_viaSocket : (ControlCall.isActive units).viaSocket ops mismatch = (do
    let states ← activeStates ops (units.map normalizeUnit) (← get)
    return states.map Prod.snd) := by
  apply (viaSocket_of "is_active" .isActive
    (do activeStates ops (units.map normalizeUnit) (← get)) (fun states ↦ object
      [("states", .arr (states.map fun e ↦ .arr [.str e.1, .str e.2])),
        ("exit", .num (((states.map fun e ↦ stateRank e.2).max?).getD 0))])
    (fun states ↦ states.map Prod.snd) Json.get_object rfl _ _).trans
  · rw [bind_assoc]
  · change (get >>= fun s ↦
      liftM (activeStates ops (reqUnits (ControlCall.unitsRequest "is_active" units)) s) >>= _) = _
    rw [reqUnits_unitsRequest, bind_assoc]
  · intro states
    have hstates : (object [("states", .arr (states.map fun e ↦ .arr [.str e.1, .str e.2])),
        ("exit", .num (((states.map fun e ↦ stateRank e.2).max?).getD 0))]).get "states" =
          some (.arr (states.map fun e ↦ .arr [.str e.1, .str e.2])) := Json.get_object
    exact congrArg pure ((congrArg (fun v ↦ ((v.bind Json.asArray).getD []).filterMap fun x ↦
      (x.asArray.bind fun p ↦ p[1]?).bind Json.asStr) hstates).trans (filterMap_states states))

theorem activeStates_cons {names : List Name} {s : σ} {u : Name} {x : UnitView}
    (hx : ops.unit s u = some x) : activeStates ops (u :: names) s =
      (activeStates ops names s).map ((u, activeStr x.active) :: ·) := by
  rw [activeStates, List.mapM_cons, hx]
  rfl

theorem activeStates_known {names : List Name} {s : σ}
    (h : ∀ u ∈ names, (ops.unit s u).isSome) : activeStates ops names s = .ok (names.map fun u ↦
      (u, (ops.unit s u).elim "unknown" fun x ↦ activeStr x.active)) := by
  induction names with
  | nil => rfl
  | cons u names ih =>
    obtain ⟨x, hx⟩ := Option.isSome_iff_exists.mp (h u List.mem_cons_self)
    rw [activeStates_cons hx, ih fun u hu ↦ h u (List.mem_cons_of_mem _ hu), List.map_cons, hx]
    rfl

theorem activeStates_unknown {names : List Name} {s : σ} {u : Name} (hu : u ∈ names)
    (h : ops.unit s u = none) : ∃ e, activeStates ops names s = .error e := by
  induction names with
  | nil => cases hu
  | cons v names ih =>
    cases hv : ops.unit s v with
    | none =>
      refine ⟨s!"Unit {v} not found.", ?_⟩
      rw [activeStates, List.mapM_cons, hv]
      rfl
    | some x =>
      have hmem : u ∈ names := by
        rcases List.mem_cons.mp hu with rfl | hmem
        · rw [h] at hv
          cases hv
        · exact hmem
      obtain ⟨e, he⟩ := ih hmem
      refine ⟨e, ?_⟩
      rw [activeStates_cons hv, he]
      rfl

theorem kill_carried_iff (unit signal : String) (s : σ) :
    (ControlCall.kill unit signal).viaSocket ops mismatch s =
      (ControlCall.kill unit signal).direct ops s ↔ (sigFromName signal = none →
        ops.kill (normalizeUnit unit) sigterm s = (.error s!"unknown signal `{signal}`", s)) := by
  have hdirect : (ControlCall.kill unit signal).direct ops =
      okOr (sigFromName signal) s!"unknown signal `{signal}`" >>=
        ops.kill (normalizeUnit unit) := rfl
  rw [kill_viaSocket, hdirect]
  cases sigFromName signal with
  | none => exact ⟨fun h _ ↦ h, fun h ↦ h rfl⟩
  | some sig => exact iff_of_true rfl fun h ↦ by cases h

theorem setDefault_carried_iff (unit : String) (s : σ) :
    (ControlCall.setDefault unit).viaSocket ops mismatch s =
      (ControlCall.setDefault unit).direct ops s ↔ ('.' ∉ unit.toList →
        ops.setDefault (unit ++ ".service") s = ops.setDefault unit s) := by
  have hdirect : (ControlCall.setDefault unit).direct ops = ops.setDefault unit := rfl
  rw [setDefault_viaSocket, hdirect, normalizeUnit]
  by_cases h : '.' ∈ unit.toList
  · rw [if_pos h]
    exact iff_of_true rfl fun hn ↦ absurd h hn
  · rw [if_neg h]
    exact ⟨fun he _ ↦ he, fun he ↦ he h⟩

theorem isActive_carried_iff (s : σ) : (ControlCall.isActive units).viaSocket ops mismatch s =
    (ControlCall.isActive units).direct ops s ↔
      ∀ u ∈ units, (ops.unit s (normalizeUnit u)).isSome := by
  have hsocket : (ControlCall.isActive units).viaSocket ops mismatch s =
      ((activeStates ops (units.map normalizeUnit) s).map (List.map Prod.snd), s) := by
    rw [isActive_viaSocket, bind_apply]
    change ((liftM (activeStates ops (units.map normalizeUnit) s) : Action σ _) >>= _) s = _
    cases activeStates ops (units.map normalizeUnit) s with
    | ok states => rfl
    | error e => rfl
  have hdirect : (ControlCall.isActive units).direct ops s =
      (.ok ((units.map normalizeUnit).map fun u ↦
        (ops.unit s u).elim "unknown" fun x ↦ activeStr x.active), s) := rfl
  rw [hsocket, hdirect, Prod.mk.injEq, and_iff_left rfl]
  constructor
  · intro h u hu
    by_contra hn
    obtain ⟨e, he⟩ := activeStates_unknown (List.mem_map_of_mem hu)
      (Option.not_isSome_iff_eq_none.mp hn)
    rw [he] at h
    cases h
  · intro h
    rw [activeStates_known (List.forall_mem_map.mpr h), Except.map, List.map_map]
    rfl

end Agreement

/-- What a call meets with when the socket does not change what it does: a signal name is known, a
default target is given with its suffix, and the units whose state is asked for are loaded. -/
def ControlCall.Carried {σ α : Type} (ops : ManagerOps σ) (s : σ) : ControlCall α → Prop
  | kill unit signal => sigFromName signal = none →
      ops.kill (normalizeUnit unit) sigterm s = (.error s!"unknown signal `{signal}`", s)
  | setDefault unit => '.' ∉ unit.toList →
      ops.setDefault (unit ++ ".service") s = ops.setDefault unit s
  | isActive units => ∀ u ∈ units, (ops.unit s (normalizeUnit u)).isSome
  | _ => True

/-- A call that meets its condition does the same through the socket. -/
theorem ControlCall.Carried.viaSocket_eq {σ α : Type} {ops : ManagerOps σ}
    {mismatch : Json → String} {call : ControlCall α} {s : σ} (h : call.Carried ops s) :
    call.viaSocket ops mismatch s = call.direct ops s := by
  cases call with
  | start units => exact congrFun (start_carried units) s
  | stop units => exact congrFun (stop_carried units) s
  | restart units => exact congrFun (restart_carried units) s
  | tryRestart units => exact congrFun (tryRestart_carried units) s
  | reload units => exact congrFun (reload_carried units) s
  | resetFailed units => exact congrFun (resetFailed_carried units) s
  | clean units => exact congrFun (clean_carried units) s
  | kill unit signal => exact (kill_carried_iff unit signal s).mpr h
  | reloadDaemon => exact congrFun reloadDaemon_carried s
  | isolate unit => exact congrFun (isolate_carried unit) s
  | setDefault unit => exact (setDefault_carried_iff unit s).mpr h
  | enable units => exact congrFun (enable_carried units) s
  | disable units => exact congrFun (disable_carried units) s
  | mask units => exact congrFun (mask_carried units) s
  | unmask units => exact congrFun (unmask_carried units) s
  | reenable units => exact congrFun (reenable_carried units) s
  | listDependencies unit reverse => exact congrFun (listDependencies_carried unit reverse) s
  | status units => exact congrFun (status_carried units) s
  | listUnits types state => exact congrFun (listUnits_carried types state) s
  | listTimers => exact congrFun listTimers_carried s
  | listUnitFiles => exact congrFun listUnitFiles_carried s
  | isEnabled units => exact congrFun (isEnabled_carried units) s
  | isActive units => exact (isActive_carried_iff units s).mpr h
  | getDefault => exact congrFun getDefault_carried s
  | repo => exact congrFun repo_carried s
  | journal unit since tail => exact congrFun (journal_carried unit since tail) s

end Rystemd

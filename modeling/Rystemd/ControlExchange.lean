import Rystemd.ControlAgreement
import Rystemd.ControlClients
import Rystemd.Library.JsonText
import Rystemd.Library.Utf8

namespace Rystemd

open Json (null object toValue)
open Ipc

/-- The bytes of a value's text. -/
def textBytes (text : Json.TextForm) (v : Json) : List UInt8 :=
  Utf8.encode (text.toString v).toList

theorem nil_addressable : ([] : List UInt8).length + 1 < usizeEnd := by
  decide

/-- A serialized response; a text that no memory could hold is not one. -/
def payloadOf (bytes : List UInt8) : Payload :=
  if h : bytes.length + 1 < usizeEnd then ⟨bytes, h⟩ else ⟨[], nil_addressable⟩

section Exchange

variable {σ α : Type}

/-- The daemon's answer to a line of bytes. -/
def dispatchLine (text : Json.TextForm) (ops : ManagerOps σ) (s : σ) (line : List UInt8) :
    σ × Payload :=
  let r := dispatch ops text.fromStr (String.ofList (Utf8.decodeLossy line)) s
  (r.2, payloadOf (textBytes text r.1))

/-- The line that a client sends, without its newline. -/
def ControlCall.line (text : Json.TextForm) (call : ControlCall α) : List UInt8 :=
  textBytes text call.request

/-- What `read_line` takes: the bytes up to a newline, and the newline. -/
def readLine (bytes : List UInt8) : List UInt8 :=
  match firstLine bytes with
  | some line => line ++ [newline]
  | none => bytes

/-- What a call returns after its client received `bytes`. -/
def ControlCall.receive (text : Json.TextForm) (mismatch : Json → String) (call : ControlCall α)
    (bytes : List UInt8) : Except String α := do
  let some cs := Utf8.decode (readLine bytes)
    | throw "failed to read response: stream did not contain valid UTF-8"
  match text.fromStr (String.ofList cs) with
  | .error e => throw s!"bad response: {e}"
  | .ok v => call.answer mismatch (← readResponse v)

/-- The response leaves room for its newline under the cap. -/
def ControlCall.Fits (text : Json.TextForm) (ops : ManagerOps σ) (s : σ) (call : ControlCall α) :
    Prop :=
  (textBytes text (respond ops call.request s).1).length < maxPendingResponse

/-- A call whose request came in as this dispatch is made there and then: its client reads what the
call returns in the manager's process, and the manager goes on as after it. -/
def Atomic (text : Json.TextForm) (mismatch : Json → String) (ops : ManagerOps σ)
    (d : Dispatch σ) (next : σ) : Prop :=
  ∀ (α : Type) (call : ControlCall α), d.line = call.line text → call.Carried ops d.manager →
    call.Fits text ops d.manager →
      (call.receive text mismatch d.response, next) = call.direct ops d.manager

/-- The manager's history while the control plane runs: other work and atomic calls, one after the
other. -/
inductive Sequential (text : Json.TextForm) (mismatch : Json → String) (ops : ManagerOps σ) :
    σ → List (ControlPlane.Event σ) → List (Dispatch σ) → σ → Prop
  | done (s : σ) : Sequential text mismatch ops s [] [] s
  | other {s s' : σ} {f : σ → σ} {es : List (ControlPlane.Event σ)} {ds : List (Dispatch σ)} :
      Sequential text mismatch ops (f s) es ds s' →
      Sequential text mismatch ops s (.other f :: es) ds s'
  | quiet {s s' : σ} {e : ControlPlane.Event σ} {es : List (ControlPlane.Event σ)}
      {ds : List (Dispatch σ)} : (∀ f, e ≠ .other f) → Sequential text mismatch ops s es ds s' →
      Sequential text mismatch ops s (e :: es) ds s'
  | call {s s' : σ} {e : ControlPlane.Event σ} {es : List (ControlPlane.Event σ)}
      {d : Dispatch σ} {ds : List (Dispatch σ)} {next : σ} : (∀ f, e ≠ .other f) →
      d.manager = s → Atomic text mismatch ops d next → Sequential text mismatch ops next es ds s' →
      Sequential text mismatch ops s (e :: es) (d :: ds) s'

section Canonical

variable {ops : ManagerOps σ} {mismatch : Json → String}

/-- Whatever the action returns has the property. -/
def Returns (P : α → Prop) (x : Action σ α) : Prop :=
  ∀ s a s', x s = (.ok a, s') → P a

theorem returns_pure {P : α → Prop} {a : α} (h : P a) : Returns P (pure a : Action σ α) := by
  intro s b s' hb
  cases hb
  exact h

theorem returns_bind {β : Type} {P : β → Prop} {x : Action σ α} {f : α → Action σ β}
    (h : ∀ a, Returns P (f a)) : Returns P (x >>= f) := by
  intro s b s' hb
  rw [bind_apply] at hb
  cases hx : x s with
  | mk r s₁ =>
    rw [hx] at hb
    cases r with
    | ok a => exact h a s₁ b s' hb
    | error e => cases hb

theorem returns_throw {P : α → Prop} {e : String} : Returns P (throw e : Action σ α) := by
  intro s a s' h
  cases h

theorem canonical_arr {β : Type} {bs : List β} {f : β → Json} (h : ∀ b, (f b).Canonical) :
    (Json.arr (bs.map f)).Canonical := .arr (List.forall_mem_map.mpr fun b _ ↦ h b)

theorem canonical_jobSummary (s : JobSummary) : s.toValue.Canonical :=
  Json.canonical_object (by simp [Json.canonical])

theorem canonical_show {s : σ} {units : List Name} {props : List String} :
    (Json.arr (ops.show s units props)).Canonical := by
  refine .arr fun v hv ↦ ?_
  obtain ⟨n, -, hn⟩ := List.mem_filterMap.mp hv
  obtain ⟨u, -, rfl⟩ := Option.map_eq_some_iff.mp hn
  refine Json.canonical_object fun e he ↦ ?_
  have hall : ∀ e ∈ ops.properties s n u, e.2.Canonical := by
    have hrestarts : (Json.num u.nRestarts.toNat).Canonical :=
      .num (by omega) (by have := u.nRestarts.toNat_lt; omega)
    simp [ManagerOps.properties, Json.canonical, hrestarts, Json.Canonical.str]
  exact hall e (List.mem_of_mem_filter he)

theorem canonical_worst (states : List (Name × String)) :
    (Json.num (((states.map fun e ↦ stateRank e.2).max?).getD 0)).Canonical := by
  have hrank : ∀ text, stateRank text = 4 ∨ stateRank text = 3 ∨ stateRank text = 0 := by
    intro text
    unfold stateRank
    split
    · exact .inl rfl
    · exact .inr (.inl rfl)
    · exact .inr (.inr rfl)
  cases h : (states.map fun e ↦ stateRank e.2).max? with
  | none => exact .num (by decide) (by decide)
  | some n =>
    obtain ⟨e, -, rfl⟩ := List.mem_map.mp (List.max?_mem h)
    rw [Option.getD_some]
    rcases hrank e.2 with h | h | h
    all_goals
      rw [h]
      exact .num (by decide) (by decide)

/-- The data of a response can be written; only the ids of jobs are not bounded here. -/
theorem perform_canonical {req : Json} {name : OpName} (hname : name ≠ .jobStatus) :
    Returns Json.Canonical (perform ops req name) := by
  have hnull {x : Action σ PUnit} : Returns Json.Canonical (x >>= fun _ ↦ pure null) :=
    returns_bind fun _ ↦ returns_pure .null
  have hstr {f : σ → String} :
      Returns Json.Canonical (do return .str (f (← get)) : Action σ Json) :=
    returns_bind fun s ↦ returns_pure (.str (f s))
  cases name with
  | jobStatus => exact absurd rfl hname
  | start | stop =>
    exact returns_bind fun _ ↦ returns_bind fun _ ↦
      returns_pure (Json.canonical_object (by simp [Json.canonical]))
  | startIgnoreDependencies | restart | tryRestart | restartOrStart | resetFailed | reload | mask
  | unmask | shutdown => exact hnull
  | daemonReexec => exact returns_pure .null
  | clean | reenable | enable | disable | listUnits | listUnitFiles | listTimers | repo
  | isEnabled | status => exact returns_bind fun _ ↦ returns_pure (Json.canonical _)
  | cat => exact returns_bind fun _ ↦ returns_bind fun _ ↦ returns_pure (Json.canonical _)
  | getDefault => exact hstr
  | isFailed =>
    refine returns_bind fun _ ↦ returns_bind fun b ↦ returns_pure (.arr fun v hv ↦ ?_)
    rw [List.mem_singleton.mp hv]
    exact .bool b
  | «show» => exact returns_bind fun _ ↦ returns_pure canonical_show
  | listJobs => exact returns_bind fun _ ↦ returns_pure (canonical_arr canonical_jobSummary)
  | isSystemRunning =>
    exact returns_bind fun _ ↦ returns_pure (Json.canonical_object (by simp [Json.Canonical.bool]))
  | journal =>
    exact returns_bind fun _ ↦ returns_pure
      (Json.canonical_object (by simp [Json.canonical, Json.Canonical.str]))
  | daemonReload =>
    refine returns_bind fun errs ↦ ?_
    split
    · exact returns_pure .null
    · exact returns_throw
  | listDependencies =>
    exact returns_bind fun _ ↦ returns_bind fun _ ↦ returns_pure (Json.canonical _)
  | kill | setDefault | isolate => exact returns_bind fun _ ↦ hnull
  | logLevel => exact returns_bind fun _ ↦ hstr
  | isActive =>
    refine returns_bind fun s ↦ returns_bind fun states ↦ returns_pure ?_
    refine Json.canonical_object (List.forall_mem_cons.mpr ⟨canonical_arr fun e ↦ ?_,
      List.forall_mem_singleton.mpr (canonical_worst states)⟩)
    exact .arr (List.forall_mem_cons.mpr ⟨.str e.1, List.forall_mem_singleton.mpr (.str e.2)⟩)

theorem canonical_units (op : String) (units : List String) :
    (ControlCall.unitsRequest op units).Canonical :=
  Json.canonical_object (by simp [Json.canonical, Json.Canonical.str])

theorem canonical_name (op name : String) : (ControlCall.nameRequest op name).Canonical :=
  Json.canonical_object (by simp [Json.Canonical.str])

theorem canonical_plain (op : String) : (ControlCall.plainRequest op).Canonical :=
  Json.canonical_object (by simp [Json.Canonical.str])

theorem canonical_entry {β : Type} [Serde β] (key : String) (b : Option β) :
    ∀ e ∈ ControlCall.entry key b, e.2.Canonical := by
  intro e he
  obtain ⟨a, -, rfl⟩ := List.mem_map.mp he
  exact Json.canonical a

theorem request_canonical (call : ControlCall α) : call.request.Canonical := by
  cases call with
  | start units | stop units | restart units | tryRestart units | reload units | resetFailed units
  | clean units | enable units | disable units | mask units | unmask units | reenable units
  | status units | isEnabled units | isActive units => exact canonical_units _ units
  | isolate unit | setDefault unit => exact canonical_name _ unit
  | reloadDaemon | listTimers | listUnitFiles | getDefault | repo => exact canonical_plain _
  | kill unit signal =>
    exact Json.canonical_object (by simp [Json.canonical, Json.Canonical.str])
  | listDependencies unit reverse =>
    exact Json.canonical_object (by simp [Json.Canonical.bool, Json.Canonical.str])
  | listUnits types state =>
    exact Json.canonical_object (by simp [Json.canonical, Json.Canonical.str, Json.Canonical.null])
  | journal unit since tail =>
    refine Json.canonical_object (List.forall_mem_cons.mpr ⟨.str _, ?_⟩)
    intro e he
    rcases List.mem_append.mp he with he | he
    · rcases List.mem_append.mp he with he | he
      · exact canonical_entry _ _ e he
      · exact canonical_entry _ _ e he
    · exact canonical_entry _ _ e he

/-- No call asks for the verdicts of jobs. -/
theorem request_op (call : ControlCall α) : ∃ op name, call.request.get "op" = some (.str op) ∧
    OpName.parse op = some name ∧ name ≠ .jobStatus := by
  cases call with
  | journal unit since tail =>
    exact ⟨"journal", .journal, get_journal "op" unit since tail, rfl, by decide⟩
  | _ => exact ⟨_, _, Json.get_object, rfl, by decide⟩

theorem respond_canonical (call : ControlCall α) (s : σ) :
    (respond ops call.request s).1.Canonical := by
  obtain ⟨op, name, hop, hname, hne⟩ := request_op call
  have hrun : runOp ops ((call.request.get "op").bind Json.asStr) call.request =
      perform ops call.request name := by
    rw [hop, Option.bind_some, Json.asStr, runOp, hname]
  rw [respond, hrun]
  cases h : perform ops call.request name s with
  | mk r s' =>
    cases r with
    | ok d =>
      have hd := perform_canonical hne s d s' h
      exact Json.canonical_object (by simp [Json.Canonical.bool, hd])
    | error e => exact Json.canonical_object (by simp [Json.Canonical.bool, Json.Canonical.str])

end Canonical

section Bytes

variable {text : Json.TextForm} {mismatch : Json → String} {ops : ManagerOps σ}

theorem newline_notMem_textBytes {v : Json} (h : v.Canonical) : newline ∉ textBytes text v := by
  intro hmem
  obtain ⟨c, hc, hnat⟩ := Utf8.mem_of_mem_encode hmem (by decide)
  have hnewline : c = '\n' := by
    rw [← Char.ofNat_toNat c, hnat]
    rfl
  rw [hnewline] at hc
  exact text.oneLine h hc

theorem firstLine_append_newline {bytes : List UInt8} (h : newline ∉ bytes) :
    firstLine (bytes ++ [newline]) = some bytes := by
  induction bytes with
  | nil => rfl
  | cons b bytes ih =>
    rw [List.mem_cons, not_or] at h
    rw [List.cons_append, firstLine_cons, if_neg (Ne.symm h.1), ih h.2, Option.map_some]

theorem dispatchLine_line (call : ControlCall α) (s : σ) :
    dispatchLine text ops s (call.line text) = ((respond ops call.request s).2,
      payloadOf (textBytes text (respond ops call.request s).1)) := by
  have hread : text.fromStr (String.ofList (Utf8.decodeLossy (call.line text))) =
      .ok call.request := by
    rw [ControlCall.line, textBytes, Utf8.decodeLossy_encode, String.ofList_toList]
    exact text.fromStr_toString (request_canonical call)
  rw [dispatchLine, dispatch, hread]

/-- The client reads the response that the daemon wrote. -/
theorem receive_response (call : ControlCall α) {v : Json} (h : v.Canonical) :
    call.receive text mismatch (textBytes text v ++ [newline]) =
      (readResponse v).bind (call.answer mismatch) := by
  have hline : readLine (textBytes text v ++ [newline]) = textBytes text v ++ [newline] := by
    rw [readLine, firstLine_append_newline (newline_notMem_textBytes h)]
  have hdecode : Utf8.decode (textBytes text v ++ [newline]) =
      some ((text.toString v).toList ++ ['\n']) := by
    have hnewline : [newline] = Utf8.encode ['\n'] := by decide
    rw [textBytes, hnewline, ← Utf8.encode_append, Utf8.decode_encode]
  have htext : String.ofList ((text.toString v).toList ++ ['\n']) = text.toString v ++ "\n" := by
    rw [String.ofList_append, String.ofList_toList]
  rw [ControlCall.receive, hline, hdecode]
  dsimp only
  rw [htext, text.fromStr_line h]
  rfl

theorem atomic_dispatch {d : Dispatch σ} (h : d.response =
      pendingResponse ((dispatchLine text ops d.manager d.line).2.bytes ++ [newline])) :
    Atomic text mismatch ops d (dispatchLine text ops d.manager d.line).1 := by
  intro α call hline hcarried hfits
  have hcanonical := @respond_canonical σ α ops call d.manager
  rw [hline, dispatchLine_line] at h ⊢
  have hpayload : (payloadOf (textBytes text (respond ops call.request d.manager).1)).bytes =
      textBytes text (respond ops call.request d.manager).1 := by
    have hsmall : (textBytes text (respond ops call.request d.manager).1).length + 1 < usizeEnd :=
      Nat.lt_of_le_of_lt hfits (by decide)
    rw [payloadOf, dif_pos hsmall]
  have hresponse : d.response =
      textBytes text (respond ops call.request d.manager).1 ++ [newline] := by
    rw [h, hpayload, pendingResponse, if_neg]
    rw [List.length_append, List.length_singleton]
    exact Nat.not_lt.mpr hfits
  have hvia : call.viaSocket ops mismatch d.manager = call.direct ops d.manager :=
    hcarried.viaSocket_eq
  rw [hresponse, receive_response call hcanonical, ← hvia]
  rfl

end Bytes

section Run

open ControlPlane (Event)

variable {text : Json.TextForm} {mismatch : Json → String} {ops : ManagerOps σ}

theorem flush_manager (p : ControlPlane σ) (fd : RawFd) (ws : List WriteResult) :
    (p.flushControlResponse fd ws).manager = p.manager := by
  unfold ControlPlane.flushControlResponse
  split
  · rfl
  · split
    · rfl
    · rfl

/-- Reading from a client changes the manager by a dispatch only. -/
theorem drain_manager (handle : σ → List UInt8 → σ × Payload) (p : ControlPlane σ) (fd : RawFd)
    (r : Reads) (ws : List WriteResult) :
    ((p.drainControlClient handle fd r ws).2 = none ∧
      (p.drainControlClient handle fd r ws).1.manager = p.manager) ∨
    ∃ d, (p.drainControlClient handle fd r ws).2 = some d ∧ d.manager = p.manager ∧
      d.response = pendingResponse ((handle d.manager d.line).2.bytes ++ [newline]) ∧
      (p.drainControlClient handle fd r ws).1.manager = (handle d.manager d.line).1 := by
  unfold ControlPlane.drainControlClient
  split
  · exact .inl ⟨rfl, rfl⟩
  · split
    · exact .inl ⟨rfl, flush_manager p fd ws⟩
    · split
      · exact .inl ⟨rfl, rfl⟩
      · exact .inl ⟨rfl, rfl⟩
      · unfold ControlPlane.afterReads
        split
        · exact .inl ⟨rfl, rfl⟩
        · exact .inr ⟨_, rfl, rfl, rfl, flush_manager ..⟩

/-- Every run of the control plane, whatever its clients send and when, is one of the manager alone
in which the calls are made one after the other. -/
theorem sequential_run (text : Json.TextForm) (mismatch : Json → String) (ops : ManagerOps σ)
    (p : ControlPlane σ) (es : List (Event σ)) :
    Sequential text mismatch ops p.manager es (p.run (dispatchLine text ops) es).2
      (p.run (dispatchLine text ops) es).1.manager := by
  induction es generalizing p with
  | nil => exact .done p.manager
  | cons e es ih =>
    have hrest := ih (p.step (dispatchLine text ops) e).1
    cases e with
    | accept fd => exact .quiet (fun f h ↦ by cases h) hrest
    | writable fd ws =>
      have hsame : (p.step (dispatchLine text ops) (.writable fd ws)).1.manager = p.manager :=
        flush_manager p fd ws
      exact .quiet (fun f h ↦ by cases h) (hsame ▸ hrest)
    | other f => exact .other hrest
    | readable fd r ws =>
      rw [ControlPlane.run, ControlPlane.step]
      rcases drain_manager (dispatchLine text ops) p fd r ws with
        ⟨hnone, hsame⟩ | ⟨d, hd, hmanager, hresponse, hnext⟩
      · rw [hnone]
        exact .quiet (fun f h ↦ by cases h) (hsame ▸ hrest)
      · rw [hd]
        exact .call (fun f h ↦ by cases h) hmanager (atomic_dispatch hresponse) (hnext ▸ hrest)

/-- A request in the compact text. -/
example : String.ofList (Utf8.decodeLossy ((ControlCall.kill "sshd" "HUP").line Json.compact)) =
    "\x7b\"op\":\"kill\",\"signal\":\"HUP\",\"units\":[\"sshd.service\"]\x7d" := by
  decide +kernel

end Run

end Exchange

end Rystemd

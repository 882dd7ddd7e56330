import Rystemd.Outcomes

namespace Rystemd

namespace Manager

section Binds

variable (w : World)

/-- The descriptors that the binds of a start give, up to the first that fails. -/
def boundFds : Nat → List (SocketType × String) → List Nat
  | _, [] => []
  | i, (type, spec) :: rest =>
    match w.bind i type spec with
    | .ok fd => fd :: boundFds (i + 1) rest
    | .error _ => []

/-- A bind gives a descriptor that is not open: not the one of a registered listener and not the one
of another bind of this start. -/
structure FreshFds (m : Manager) : Prop where
  unregistered : ∀ i type spec fd, w.bind i type spec = .ok fd → m.socketTriggers.get fd = none
  distinct : ∀ i j type spec type' spec' fd, i < j → w.bind i type spec = .ok fd →
    w.bind j type' spec' ≠ .ok fd

/-- The addresses of a socket unit. -/
def socketSpecs (u : Unit) : List (SocketType × String) :=
  (u.socketCfg.map SocketConfig.listeners).getD []

/-- Every bind of the start succeeds, or the first one fails; without socket activation there is
nothing to bind. -/
def BindsAllOrNone (m : Manager) (u : Unit) : Prop :=
  if m.socketActivation then
    (∀ i l, (socketSpecs u)[i]? = some l → ∃ fd, w.bind i l.1 l.2 = .ok fd) ∨
      ∀ l, (socketSpecs u).head? = some l → ∃ e, w.bind 0 l.1 l.2 = .error e
  else socketSpecs u = []

end Binds

/-- A start that fails the unit leaves no listener behind, neither when it returns nor once the unit
is failed, and a start that does not has registered one listener for each address. -/
structure AllOrNothing (m : Manager) (name : Name) (u : Unit) (out : Out) : Prop where
  failed : (∃ msg, .failUnit name msg ∈ out.2) →
    ∀ fd, out.1.socketTriggers.get fd = m.socketTriggers.get fd
  settled : ∀ msg, .failUnit name msg ∈ out.2 → ∀ w' out', out.1.failUnit w' name msg = some out' →
    ∀ fd, out'.1.socketTriggers.get fd = m.socketTriggers.get fd
  started : (∀ msg, .failUnit name msg ∉ out.2) → ∃ fds : List Nat, fds.Nodup ∧
    fds.length = (socketSpecs u).length ∧ (∀ fd ∈ fds, m.socketTriggers.get fd = none) ∧
      ∀ fd, out.1.socketTriggers.get fd =
        if fd ∈ fds then some (name, u.activatedService) else m.socketTriggers.get fd

variable {w : World} {m : Manager} {name service : Name} {u : Unit} {out : Out}

theorem boundFds_eq_nil {ls : List (SocketType × String)} {i : Nat} :
    boundFds w i ls = [] ↔ ∀ l, ls.head? = some l → ∃ e, w.bind i l.1 l.2 = .error e := by
  cases ls with
  | nil => simp [boundFds]
  | cons l ls =>
    unfold boundFds
    cases hb : w.bind i l.1 l.2 with
    | ok fd => simp [hb]
    | error e => simp [hb]

theorem boundFds_length {ls : List (SocketType × String)} {i : Nat} :
    (boundFds w i ls).length = ls.length ↔
      ∀ k l, ls[k]? = some l → ∃ fd, w.bind (i + k) l.1 l.2 = .ok fd := by
  induction ls generalizing i with
  | nil => simp [boundFds]
  | cons l ls ih =>
    unfold boundFds
    constructor
    · intro h k l' hk
      cases hb : w.bind i l.1 l.2 with
      | error e => simp [hb] at h
      | ok fd =>
        simp only [hb, List.length_cons, Nat.add_right_cancel_iff] at h
        cases k with
        | zero =>
          obtain rfl := Option.some.inj hk
          exact ⟨fd, hb⟩
        | succ k =>
          rw [Nat.add_comm k 1, ← Nat.add_assoc]
          exact ih.mp h k l' hk
    · intro h
      obtain ⟨fd, hb⟩ := h 0 l rfl
      rw [Nat.add_zero] at hb
      simp only [hb, List.length_cons, Nat.add_right_cancel_iff]
      apply ih.mpr
      intro k l' hk
      have hnext := h (k + 1) l' hk
      rwa [Nat.add_comm k 1, ← Nat.add_assoc] at hnext

theorem mem_boundFds {ls : List (SocketType × String)} {i fd : Nat} (h : fd ∈ boundFds w i ls) :
    ∃ j type spec, i ≤ j ∧ w.bind j type spec = .ok fd := by
  induction ls generalizing i with
  | nil => cases h
  | cons l ls ih =>
    unfold boundFds at h
    cases hb : w.bind i l.1 l.2 with
    | error e => simp [hb] at h
    | ok fd' =>
      simp only [hb] at h
      obtain rfl | h := List.mem_cons.mp h
      · exact ⟨i, l.1, l.2, Nat.le_refl i, hb⟩
      · obtain ⟨j, type, spec, hj, hbind⟩ := ih h
        exact ⟨j, type, spec, by omega, hbind⟩

theorem nodup_boundFds (hf : FreshFds w m) (i : Nat) (ls : List (SocketType × String)) :
    (boundFds w i ls).Nodup := by
  induction ls generalizing i with
  | nil => exact List.nodup_nil
  | cons l ls ih =>
    unfold boundFds
    cases hb : w.bind i l.1 l.2 with
    | error e => exact List.nodup_nil
    | ok fd =>
      apply List.nodup_cons.mpr
      refine ⟨fun hmem ↦ ?_, ih (i + 1)⟩
      obtain ⟨j, type, spec, hj, hbind⟩ := mem_boundFds hmem
      exact hf.distinct i j _ _ _ _ fd (by omega) hb hbind

theorem bindListeners_get (i : Nat) (ls : List (SocketType × String)) (fd : Nat) :
    (m.bindListeners w name service i ls).1.socketTriggers.get fd =
      if fd ∈ boundFds w i ls then some (name, service) else m.socketTriggers.get fd := by
  induction ls generalizing i m with
  | nil => simp [bindListeners, boundFds]
  | cons l ls ih =>
    unfold bindListeners boundFds
    cases hb : w.bind i l.1 l.2 with
    | error e => simp
    | ok fd' =>
      simp only [ih, List.mem_cons, Table.get_insert]
      by_cases hmem : fd ∈ boundFds w (i + 1) ls
      · simp [hmem]
      · simp [hmem]

theorem bindListeners_ok (i : Nat) (ls : List (SocketType × String)) :
    (m.bindListeners w name service i ls).2 = none ↔ (boundFds w i ls).length = ls.length := by
  induction ls generalizing i m with
  | nil => simp [bindListeners, boundFds]
  | cons l ls ih =>
    unfold bindListeners boundFds
    cases hb : w.bind i l.1 l.2 with
    | error e => simp
    | ok fd => simp [ih]

theorem failUnit_socketTriggers {msg : String} (h : m.failUnit w name msg = some out) :
    out.1.socketTriggers = m.socketTriggers := by
  obtain ⟨u, -, h⟩ := Option.bind_eq_some_iff.mp h
  simp only at h
  split at h
  · cases h
    rfl
  · obtain ⟨job, -, h⟩ := Option.bind_eq_some_iff.mp h
    split at h
    · cases h
      unfold Out.andThen finishJobFailed
      split <;> rfl
    · cases h
      rfl

/-- A unit that is active as soon as it is started has no listeners and does not fail. -/
theorem startActive_plain {sub : SubState} (h : m.startActive w name sub = some out) :
    out.1.socketTriggers = m.socketTriggers ∧ ∀ msg, .failUnit name msg ∉ out.2 := by
  unfold startActive at h
  split at h
  · obtain ⟨-, rfl⟩ | ⟨jid, job, -, -, ⟨-, rfl⟩ | ⟨-, rfl⟩⟩ := completeJob_cases h
    · exact ⟨rfl, by simp⟩
    · obtain ⟨htriggers, hplain⟩ :=
        finishJob_plain w (m.setActive w name .active sub .success) name jid
      refine ⟨htriggers, fun msg hmem ↦ ?_⟩
      obtain hmem | hmem := List.mem_append.mp hmem
      · exact hplain msg hmem
      · simp at hmem
    · exact ⟨rfl, by simp⟩
  · cases h
    exact ⟨rfl, by simp⟩

/-- The outcomes of a start: it is refused by a bind, or the unit is active with all its listeners,
or with none where socket activation is disabled. -/
theorem startSocket_cases (hu : m.units.get name = some u) (h : m.startSocket w name = some out) :
    (m.socketActivation ∧ (boundFds w 0 (socketSpecs u)).length ≠ (socketSpecs u).length ∧
        (∃ msg, out.2 = [.failUnit name msg]) ∧ ∀ fd, out.1.socketTriggers.get fd =
          if fd ∈ boundFds w 0 (socketSpecs u) then some (name, u.activatedService)
          else m.socketTriggers.get fd) ∨
      (m.socketActivation ∧ (boundFds w 0 (socketSpecs u)).length = (socketSpecs u).length ∧
        (∀ msg, .failUnit name msg ∉ out.2) ∧ ∀ fd, out.1.socketTriggers.get fd =
          if fd ∈ boundFds w 0 (socketSpecs u) then some (name, u.activatedService)
          else m.socketTriggers.get fd) ∨
      (m.socketActivation = false ∧ (∀ msg, .failUnit name msg ∉ out.2) ∧
        out.1.socketTriggers = m.socketTriggers) := by
  obtain ⟨u', hu', h⟩ := Option.bind_eq_some_iff.mp h
  obtain rfl : u = u' := Option.some.inj (hu.symm.trans hu')
  split at h
  · next hc =>
    have hspecs : socketSpecs u = [] := by simp [socketSpecs, hc]
    obtain ⟨htriggers, hplain⟩ := startActive_plain h
    cases ha : m.socketActivation with
    | true =>
      refine .inr (.inl ⟨rfl, by rw [hspecs]; rfl, hplain, fun fd ↦ ?_⟩)
      rw [htriggers, hspecs]
      simp [boundFds]
    | false => exact .inr (.inr ⟨rfl, hplain, htriggers⟩)
  · next c hc =>
    have hspecs : c.listeners = socketSpecs u := by simp [socketSpecs, hc]
    split at h
    · next ha =>
      obtain ⟨htriggers, hplain⟩ := startActive_plain h
      exact .inr (.inr ⟨by simpa using ha, hplain, htriggers⟩)
    · next ha =>
      rw [hspecs] at h
      have hok : (m.bindListeners w name u.activatedService 0 (socketSpecs u)).2 = none ↔ _ :=
        bindListeners_ok 0 (socketSpecs u)
      have hget (fd : Nat) :
          (m.bindListeners w name u.activatedService 0 (socketSpecs u)).1.socketTriggers.get fd = _ :=
        bindListeners_get 0 (socketSpecs u) fd
      extract_lets r at h
      split at h
      · next hnone =>
        obtain ⟨htriggers, hplain⟩ := startActive_plain h
        refine .inr (.inl ⟨by simpa using ha, hok.mp hnone, hplain, fun fd ↦ ?_⟩)
        rw [htriggers]
        exact hget fd
      · next msg hsome =>
        cases h
        refine .inl ⟨by simpa using ha, fun hlen ↦ ?_, ⟨msg, rfl⟩, hget⟩
        have hnone := hok.mpr hlen
        rw [hsome] at hnone
        cases hnone

/-- A start of a socket unit is all or nothing exactly if its binds are. -/
theorem start_socket_all_or_nothing_iff (hu : m.units.get name = some u) (hf : FreshFds w m)
    (h : m.startSocket w name = some out) :
    AllOrNothing m name u out ↔ BindsAllOrNone w m u := by
  have hnodup := nodup_boundFds hf 0 (socketSpecs u)
  have hfresh : ∀ fd ∈ boundFds w 0 (socketSpecs u), m.socketTriggers.get fd = none := by
    intro fd hmem
    obtain ⟨j, type, spec, -, hbind⟩ := mem_boundFds hmem
    exact hf.unregistered j type spec fd hbind
  have hall : (boundFds w 0 (socketSpecs u)).length = (socketSpecs u).length ↔
      ∀ i l, (socketSpecs u)[i]? = some l → ∃ fd, w.bind i l.1 l.2 = .ok fd := by
    rw [boundFds_length]
    simp only [Nat.zero_add]
  unfold BindsAllOrNone
  obtain ⟨ha, hlen, ⟨msg, hcalls⟩, hget⟩ | ⟨ha, hlen, hplain, hget⟩ | ⟨ha, hplain, htriggers⟩ :=
    startSocket_cases hu h
  · rw [if_pos ha, ← hall, ← boundFds_eq_nil, or_iff_right hlen]
    have hfails : ∃ msg, .failUnit name msg ∈ out.2 := ⟨msg, by rw [hcalls]; exact List.mem_cons_self⟩
    constructor
    · intro hnothing
      apply List.eq_nil_iff_forall_not_mem.mpr
      intro fd hmem
      have hkept := hnothing.failed hfails fd
      rw [hget, if_pos hmem, hfresh fd hmem] at hkept
      cases hkept
    · intro hnil
      have hkept (fd : Nat) : out.1.socketTriggers.get fd = m.socketTriggers.get fd := by
        rw [hget, hnil]
        simp
      refine ⟨fun _ ↦ hkept, fun msg _ w' out' hfail fd ↦ ?_, fun hplain ↦ ?_⟩
      · rw [failUnit_socketTriggers hfail, hkept]
      · exact absurd hfails (by simpa using hplain)
  · rw [if_pos ha, ← hall]
    apply iff_of_true _ (.inl hlen)
    refine ⟨fun hfails ↦ ?_, fun msg hfails ↦ absurd hfails (hplain msg), fun _ ↦ ?_⟩
    · obtain ⟨msg, hfails⟩ := hfails
      exact absurd hfails (hplain msg)
    · exact ⟨boundFds w 0 (socketSpecs u), hnodup, hlen, hfresh, hget⟩
  · rw [if_neg (by simp [ha])]
    constructor
    · intro hnothing
      obtain ⟨fds, -, hlen, hold, hget⟩ := hnothing.started hplain
      cases fds with
      | nil => exact List.length_eq_zero_iff.mp hlen.symm
      | cons fd fds =>
        have hnew := hget fd
        rw [if_pos List.mem_cons_self, htriggers, hold fd List.mem_cons_self] at hnew
        cases hnew
    · intro hspecs
      refine ⟨fun hfails ↦ ?_, fun msg hfails ↦ absurd hfails (hplain msg), fun _ ↦ ?_⟩
      · obtain ⟨msg, hfails⟩ := hfails
        exact absurd hfails (hplain msg)
      · refine ⟨[], List.nodup_nil, by simp [hspecs], by simp, fun fd ↦ ?_⟩
        rw [htriggers]
        simp

/-- A socket unit with two addresses that is being started. -/
def twoAddresses : Unit where
  name := "a.socket"
  kind := .socket
  file := some { socket := some { listenStream := ["/run/a", "/run/b"] } }

/-- A machine on which as many binds succeed, with the descriptors from 5 on. -/
def binding (n : Nat) : World where
  bind i _ _ := if i < n then .ok (5 + i) else .error "Address already in use"

def starting : Manager where
  units := Table.empty.insert "a.socket" twoAddresses

theorem binding_fresh (n : Nat) : FreshFds (binding n) starting where
  unregistered _ _ _ _ _ := rfl
  distinct i j _ _ _ _ fd hij hi hj := by
    have hfd (k : Nat) (h : (if k < n then Except.ok (5 + k) else .error "Address already in use") =
        (.ok fd : Except String Nat)) : fd = 5 + k := by
      split at h
      · exact (Except.ok.inj h).symm
      · cases h
    have hfirst := hfd i hi
    have hsecond := hfd j hj
    omega

/-- The listener of the first address stays when the second address is in use. -/
theorem first_listener_stays : FreshFds (binding 1) starting ∧
    ∃ out, starting.startSocket (binding 1) "a.socket" = some out ∧
      ¬ AllOrNothing starting "a.socket" twoAddresses out := by
  refine ⟨binding_fresh 1, _, rfl, fun h ↦ ?_⟩
  have hkept := h.failed ⟨_, List.mem_cons_self⟩ 5
  revert hkept
  decide +kernel

theorem all_or_nothing_both : ∃ out, starting.startSocket (binding 2) "a.socket" = some out ∧
    (AllOrNothing starting "a.socket" twoAddresses out ↔
      BindsAllOrNone (binding 2) starting twoAddresses) :=
  ⟨_, rfl, start_socket_all_or_nothing_iff rfl (binding_fresh 2) rfl⟩

end Manager

end Rystemd

import Rystemd.ControlClients
import Rystemd.Manager

namespace Rystemd

/-- The flags that `poll` sets for a descriptor. -/
structure PollFlags where
  pollin : Bool := false
  pollout : Bool := false
  pollerr : Bool := false
  pollhup : Bool := false
  pollnval : Bool := false
  deriving DecidableEq

/-- The pipe of captured output: what is in it, and whether a writer has it open. -/
structure Pipe where
  buffer : List UInt8
  writers : Bool
  deriving DecidableEq

namespace Pipe

/-- The loop of `read_stdout`: the chunks that are read, and what ends it. -/
def readAll (p : Pipe) : List (List UInt8) × ReadEnd :=
  if p.buffer = [] then ([], if p.writers then .wouldBlock else .closed)
  else
    let r := readAll { p with buffer := p.buffer.drop 4096 }
    (p.buffer.take 4096 :: r.1, r.2)
termination_by p.buffer.length
decreasing_by
  have hpos := List.length_pos_iff.mpr ‹_›
  simp only [List.length_drop]
  omega

theorem readAll_end (p : Pipe) : p.readAll.2 = if p.writers then .wouldBlock else .closed := by
  induction p using readAll.induct with
  | case1 p h => rw [readAll, if_pos h]
  | case2 p h ih =>
    rw [readAll, if_neg h]
    exact ih

theorem readAll_bytes (p : Pipe) : p.readAll.1.flatten = p.buffer := by
  induction p using readAll.induct with
  | case1 p h => rw [readAll, if_pos h, h, List.flatten_nil]
  | case2 p h ih =>
    rw [readAll, if_neg h, List.flatten_cons, ih, List.take_append_drop]

end Pipe

/-- What `Manager::run` polls. An owned descriptor comes with the pipe behind it. -/
structure EventLoop where
  manager : Manager
  signalfd : Bool := true
  listener : Bool := true
  notify : Bool := true
  udev : Bool := true
  outFds : Table RawFd Name := .empty
  ownedFds : Table RawFd Pipe := .empty
  clients : RawFd → Option PendingClient := fun _ ↦ none

/-- An entry of the poll set. -/
inductive Source
  | signal | listener | notify
  | socket (fd : RawFd)
  | output (fd : RawFd)
  | control (fd : RawFd) (pending : Bool)
  | udev
  deriving DecidableEq

/-- What is collected before `poll`, in the order of the maps. -/
structure PollIds where
  signal : Bool
  listener : Bool
  notify : Bool
  sockets : List RawFd
  outputs : List RawFd
  controls : List (RawFd × Bool)
  udev : Bool

/-- What is extracted after `poll`. -/
structure Ready where
  signal : Bool
  listener : Bool
  notify : Bool
  sockets : List (RawFd × PollFlags)
  outputs : List (RawFd × PollFlags)
  controls : List ((RawFd × Bool) × PollFlags)
  udev : Bool

/-- What the loop does for one descriptor. -/
inductive Act
  | readSignalfd | acceptConnections | readNotify
  | start (fd : RawFd)
  | readStdout (fd : RawFd)
  | drainControlClient (fd : RawFd)
  | flushControlResponse (fd : RawFd)
  | udevProcess
  deriving DecidableEq

namespace PollIds

/-- Whether the next entry has `POLLIN`, if there is such an entry. -/
def nextIf (has : Bool) : List PollFlags → Bool × List PollFlags
  | [] => (false, [])
  | f :: fs => if has then (f.pollin, fs) else (false, f :: fs)

/-- The flags of the next entries. -/
def nextFor {α : Type} : List α → List PollFlags → List (α × PollFlags) × List PollFlags
  | [], fs => ([], fs)
  | x :: xs, fs =>
    let r := nextFor xs fs.tail
    ((x, fs.headD {}) :: r.1, r.2)

/-- The readiness that the loop extracts by position. -/
def decode (p : PollIds) (fs : List PollFlags) : Ready :=
  let signal := nextIf p.signal fs
  let listener := nextIf p.listener signal.2
  let notify := nextIf p.notify listener.2
  let sockets := nextFor p.sockets notify.2
  let outputs := nextFor p.outputs sockets.2
  let controls := nextFor p.controls outputs.2
  let udev := nextIf p.udev controls.2
  { signal := signal.1, listener := listener.1, notify := notify.1, sockets := sockets.1,
    outputs := outputs.1, controls := controls.1, udev := udev.1 }

end PollIds

/-- The dispatch, in order. -/
def Ready.acts (r : Ready) : List Act :=
  (if r.signal then [.readSignalfd] else []) ++ (if r.listener then [.acceptConnections] else []) ++
    (if r.notify then [.readNotify] else []) ++
    r.sockets.flatMap (fun s ↦ if s.2.pollin then [.start s.1] else []) ++
    r.outputs.flatMap (fun o ↦ if o.2.pollin then [.readStdout o.1] else []) ++
    r.controls.flatMap (fun c ↦
      (if c.2.pollin then [.drainControlClient c.1.1] else []) ++
        if c.2.pollout then [.flushControlResponse c.1.1] else []) ++
    if r.udev then [.udevProcess] else []

/-- What the kernel answers a control client in an iteration: the reads, the writes that follow
them, and the writes of the flush. -/
structure ClientIo where
  reads : Reads
  replies : List WriteResult
  writes : List WriteResult

/-- The reads give something: bytes, an end or an error. -/
def Reads.gives (r : Reads) : Bool := !r.chunks.isEmpty || r.last ≠ .wouldBlock

/-- The first write does not block. -/
def writesGo : List WriteResult → Bool
  | [] | .wouldBlock :: _ => false
  | _ => true

namespace EventLoop

variable (s : EventLoop)

/-- A listener is polled while its service is inactive or not there. -/
def watches (fd : RawFd) : Bool :=
  (s.manager.socketTriggers.get fd).any fun t ↦
    ((s.manager.units.get t.2).map fun u ↦ decide (u.active = .inactive)).getD true

def removeOut (fd : RawFd) : EventLoop :=
  { s with outFds := s.outFds.remove fd, ownedFds := s.ownedFds.remove fd }

/-- `read_stdout`, and whether a read gave something. The log and the journal are left out. -/
def readStdout (fd : RawFd) : EventLoop × Bool :=
  match s.outFds.get fd with
  | none => (s, false)
  | some _ =>
    match s.ownedFds.get fd with
    | none => (s.removeOut fd, true)
    | some pipe =>
      let r := pipe.readAll
      if r.2 = .wouldBlock then
        ({ s with ownedFds := s.ownedFds.insert fd { pipe with buffer := [] } }, !r.1.isEmpty)
      else (s.removeOut fd, true)

/-- The part of the loop that control clients use. -/
def plane : ControlPlane Manager := ⟨s.manager, s.clients⟩

def withPlane (p : ControlPlane Manager) : EventLoop :=
  { s with manager := p.manager, clients := p.clients }

/-- What happens beside the dispatch and in the procedures of the manager that it runs: the manager
changes, a service is spawned with a new pipe, the pipes of a stopped unit are closed, a client is
accepted, and processes write to their pipes or exit. -/
inductive Background : EventLoop → EventLoop → Prop
  | manage {s : EventLoop} (m : Manager) : Background s { s with manager := m }
  | spawn {s : EventLoop} (fd : RawFd) (name : Name) (pipe : Pipe) : s.outFds.get fd = none →
      Background s { s with
        outFds := s.outFds.insert fd name, ownedFds := s.ownedFds.insert fd pipe }
  | close {s : EventLoop} (fd : RawFd) : Background s (s.removeOut fd)
  | connect {s : EventLoop} (fd : RawFd) : s.clients fd = none →
      Background s { s with clients := Function.update s.clients fd (some {}) }
  | write {s : EventLoop} {fd : RawFd} {pipe : Pipe} (bytes : List UInt8) :
      s.ownedFds.get fd = some pipe → pipe.writers → Background s { s with
        ownedFds := s.ownedFds.insert fd { pipe with buffer := pipe.buffer ++ bytes } }
  | hangup {s : EventLoop} {fd : RawFd} {pipe : Pipe} : s.ownedFds.get fd = some pipe →
      Background s { s with ownedFds := s.ownedFds.insert fd { pipe with writers := false } }

section Dispatch

variable (dispatch : Manager → List UInt8 → Manager × Payload) (io : RawFd → ClientIo)

/-- One handler: the loop after it, and the entries that it read or wrote. What the manager does on
the way is in `Background`. -/
def perform (s : EventLoop) : Act → EventLoop × List Source
  | .readSignalfd => (s, [.signal])
  | .acceptConnections => (s, [.listener])
  | .readNotify => (s, [.notify])
  | .start _ => (s, [])
  | .readStdout fd =>
    let r := s.readStdout fd
    (r.1, if r.2 then [.output fd] else [])
  | .drainControlClient fd =>
    let pending := (s.clients fd).any fun c ↦ c.out.isSome
    let r := s.plane.drainControlClient dispatch fd (io fd).reads (io fd).replies
    (s.withPlane r.1,
      if if pending then writesGo (io fd).replies else (s.clients fd).isSome && (io fd).reads.gives
      then [.control fd pending] else [])
  | .flushControlResponse fd =>
    let pending := (s.clients fd).any fun c ↦ c.out.isSome
    (s.withPlane (s.plane.flushControlResponse fd (io fd).writes),
      if pending && writesGo (io fd).writes then [.control fd pending] else [])
  | .udevProcess => (s, [.udev])

/-- An iteration after `poll`: the entries that are read or written, and the states on the way. -/
inductive Does : EventLoop → List Act → EventLoop → List Source → List EventLoop → Prop
  | done {s : EventLoop} : Does s [] s [] [s]
  | background {s s' s'' : EventLoop} {acts : List Act} {served : List Source}
      {visited : List EventLoop} : Background s s' → Does s' acts s'' served visited →
      Does s acts s'' served (s :: visited)
  | act {s s'' : EventLoop} {a : Act} {acts : List Act} {served : List Source}
      {visited : List EventLoop} : Does (s.perform dispatch io a).1 acts s'' served visited →
      Does s (a :: acts) s'' ((s.perform dispatch io a).2 ++ served) (s :: visited)

end Dispatch

/-- The loop looks at these flags. -/
def Heeded (io : RawFd → ClientIo) (f : PollFlags) : Source → Prop
  | .signal | .listener | .notify | .udev | .output _ => f.pollin
  | .socket _ => False
  | .control fd pending =>
    if pending then
      (f.pollin ∧ writesGo (io fd).replies) ∨ (f.pollout ∧ writesGo (io fd).writes)
    else f.pollin ∧ (io fd).reads.gives

end EventLoop

namespace PollIds

variable {rest : List Source} {fs : List PollFlags}

end PollIds

namespace EventLoop

variable {dispatch : Manager → List UInt8 → Manager × Payload} {io : RawFd → ClientIo}
  {s s' : EventLoop} {acts : List Act} {served : List Source} {visited : List EventLoop}
  {src : Source} {fd : RawFd} {a : Act}

theorem Does.self_mem (h : Does dispatch io s acts s' served visited) : s ∈ visited := by
  cases h with
  | done => exact List.mem_cons_self
  | background => exact List.mem_cons_self
  | act => exact List.mem_cons_self

/-- A state that lasts until it ends (`Q`) or something has been done (`E`) leads to one of the two,
when its own handler `a` is among the acts. -/
theorem Does.leads {P Q : EventLoop → Prop} {E : EventLoop → Act → Prop}
    (h : Does dispatch io s acts s' served visited) (ha : a ∈ acts) (hs : P s)
    (hbg : ∀ t t', P t → Background t t' → P t' ∨ Q t')
    (hact : ∀ t b, P t → P (perform dispatch io t b).1 ∨ Q (perform dispatch io t b).1 ∨ E t b)
    (hown : ∀ t, P t → Q (perform dispatch io t a).1 ∨ E t a) :
    (∃ t ∈ visited, Q t) ∨ ∃ t b, E t b ∧ ∀ src ∈ (perform dispatch io t b).2, src ∈ served := by
  induction h with
  | done => cases ha
  | @background s t _ _ _ _ hb hd ih =>
    obtain hp | hq := hbg s t hs hb
    · exact (ih ha hp).imp_left fun ⟨t, ht, hq⟩ ↦ ⟨t, List.mem_cons_of_mem s ht, hq⟩
    · exact .inl ⟨t, List.mem_cons_of_mem s hd.self_mem, hq⟩
  | @act s _ b acts served _ hd ih =>
    have hdone : E s b → ∃ t b', E t b' ∧
        ∀ src ∈ (perform dispatch io t b').2, src ∈ (perform dispatch io s b).2 ++ served :=
      fun he ↦ ⟨s, b, he, fun _ hmem ↦ List.mem_append_left _ hmem⟩
    have hnext : Q (perform dispatch io s b).1 → ∃ t ∈ s :: _, Q t :=
      fun hq ↦ ⟨_, List.mem_cons_of_mem s hd.self_mem, hq⟩
    obtain rfl | ha := List.mem_cons.mp ha
    · exact (hown s hs).imp hnext hdone
    · obtain hp | hq | he := hact s b hs
      · refine (ih ha hp).imp (fun ⟨t, ht, hq⟩ ↦ ⟨t, List.mem_cons_of_mem s ht, hq⟩) ?_
        exact fun ⟨t, b', he, hsub⟩ ↦ ⟨t, b', he, fun x hx ↦ List.mem_append_right _ (hsub x hx)⟩
      · exact .inl (hnext hq)
      · exact .inr (hdone he)

/-- The output is captured, there is something to read, and it has hung up if it had before. -/
def Readable (fd : RawFd) (hup : Prop) (t : EventLoop) : Prop :=
  t.outFds.contains fd ∧ ∃ pipe, t.ownedFds.get fd = some pipe ∧ pipe.buffer ≠ [] ∧
    (hup → pipe.writers = false)

theorem Readable.background {hup : Prop} {t t' : EventLoop} (h : t.Readable fd hup)
    (hb : Background t t') : t'.Readable fd hup ∨ t'.outFds.get fd = none := by
  obtain ⟨hout, pipe, hpipe, hne, hhup⟩ := h
  cases hb with
  | manage => exact .inl ⟨hout, pipe, hpipe, hne, hhup⟩
  | connect => exact .inl ⟨hout, pipe, hpipe, hne, hhup⟩
  | spawn fd' name pipe' hnone =>
    have hfd : fd ≠ fd' := by
      rintro rfl
      rw [Table.contains, hnone] at hout
      cases hout
    refine .inl ⟨?_, pipe, ?_, hne, hhup⟩
    · rwa [Table.contains, Table.get_insert, if_neg hfd]
    · rwa [Table.get_insert, if_neg hfd]
  | close fd' =>
    by_cases hfd : fd = fd'
    · exact .inr (by rw [hfd]; exact Table.get_remove_self)
    · refine .inl ⟨?_, pipe, ?_, hne, hhup⟩
      · rwa [removeOut, Table.contains, Table.get_remove, if_neg hfd]
      · rwa [removeOut, Table.get_remove, if_neg hfd]
  | @write fd' pipe' bytes hpipe' hw =>
    refine .inl ⟨hout, ?_⟩
    by_cases hfd : fd = fd'
    · subst hfd
      obtain rfl : pipe = pipe' := Option.some.inj (hpipe.symm.trans hpipe')
      exact ⟨_, Table.get_insert_self, by simp [hne], hhup⟩
    · exact ⟨pipe, by rwa [Table.get_insert, if_neg hfd], hne, hhup⟩
  | @hangup fd' pipe' hpipe' =>
    refine .inl ⟨hout, ?_⟩
    by_cases hfd : fd = fd'
    · subst hfd
      obtain rfl : pipe = pipe' := Option.some.inj (hpipe.symm.trans hpipe')
      exact ⟨_, Table.get_insert_self, hne, fun _ ↦ rfl⟩
    · exact ⟨pipe, by rwa [Table.get_insert, if_neg hfd], hne, hhup⟩

theorem readStdout_of_ne {fd' : RawFd} (h : fd ≠ fd') (t : EventLoop) :
    (t.readStdout fd').1.outFds.get fd = t.outFds.get fd ∧
      (t.readStdout fd').1.ownedFds.get fd = t.ownedFds.get fd := by
  unfold readStdout
  split
  · exact ⟨rfl, rfl⟩
  · split
    · exact ⟨by rw [removeOut, Table.get_remove, if_neg h],
        by rw [removeOut, Table.get_remove, if_neg h]⟩
    · extract_lets r
      split
      · exact ⟨rfl, by rw [Table.get_insert, if_neg h]⟩
      · exact ⟨by rw [removeOut, Table.get_remove, if_neg h],
          by rw [removeOut, Table.get_remove, if_neg h]⟩

/-- A readable output is read, and to its end and removed if it has hung up. -/
theorem Readable.readStdout {hup : Prop} {t : EventLoop} (h : t.Readable fd hup) :
    (t.readStdout fd).2 ∧ (hup → (t.readStdout fd).1.outFds.get fd = none) := by
  obtain ⟨hout, pipe, hpipe, hne, hhup⟩ := h
  obtain ⟨name, hname⟩ := Option.isSome_iff_exists.mp hout
  have hbytes : pipe.readAll.1 ≠ [] := by
    intro hnil
    have hb := pipe.readAll_bytes
    rw [hnil, List.flatten_nil] at hb
    exact hne hb.symm
  unfold EventLoop.readStdout
  simp only [hname, hpipe, pipe.readAll_end]
  cases hw : pipe.writers with
  | true =>
    refine ⟨by simpa using hbytes, fun hh ↦ ?_⟩
    rw [hhup hh] at hw
    cases hw
  | false => exact ⟨rfl, fun _ ↦ Table.get_remove_self⟩

theorem Readable.perform {hup : Prop} {t : EventLoop} (h : t.Readable fd hup) (b : Act)
    (hb : b ≠ .readStdout fd) : (perform dispatch io t b).1.Readable fd hup := by
  obtain ⟨hout, pipe, hpipe, hrest⟩ := h
  cases b with
  | readStdout fd' =>
    have hfd : fd ≠ fd' := by
      rintro rfl
      exact hb rfl
    obtain ⟨hout', howned'⟩ := readStdout_of_ne hfd t
    refine ⟨?_, pipe, howned'.trans hpipe, hrest⟩
    exact (congrArg Option.isSome hout').trans hout
  | readSignalfd => exact ⟨hout, pipe, hpipe, hrest⟩
  | acceptConnections => exact ⟨hout, pipe, hpipe, hrest⟩
  | readNotify => exact ⟨hout, pipe, hpipe, hrest⟩
  | start => exact ⟨hout, pipe, hpipe, hrest⟩
  | drainControlClient => exact ⟨hout, pipe, hpipe, hrest⟩
  | flushControlResponse => exact ⟨hout, pipe, hpipe, hrest⟩
  | udevProcess => exact ⟨hout, pipe, hpipe, hrest⟩

/-- An output with something to read is read, or removed before; it is removed if it has hung up. -/
theorem Does.output (h : Does dispatch io s acts s' served visited) {hup : Prop}
    (ha : .readStdout fd ∈ acts) (hs : s.Readable fd hup) :
    (.output fd ∈ served ∨ ∃ t ∈ visited, t.outFds.get fd = none) ∧
      (hup → ∃ t ∈ visited, t.outFds.get fd = none) := by
  have hstep {E : EventLoop → Act → Prop}
      (hown : ∀ t : EventLoop, t.Readable fd hup →
        (EventLoop.perform dispatch io t (.readStdout fd)).1.outFds.get fd = none ∨
          E t (.readStdout fd)) :
      (∃ t ∈ visited, t.outFds.get fd = none) ∨
        ∃ t b, E t b ∧ ∀ x ∈ (EventLoop.perform dispatch io t b).2, x ∈ served := by
    refine h.leads ha hs (fun t t' ht hb ↦ ht.background hb) (fun t b ht ↦ ?_) hown
    by_cases hb : b = .readStdout fd
    · exact .inr (by rw [hb]; exact hown t ht)
    · exact .inl (ht.perform b hb)
  constructor
  · have hserved (t : EventLoop) (ht : t.Readable fd hup) :
        .output fd ∈ (EventLoop.perform dispatch io t (.readStdout fd)).2 := by
      simp [EventLoop.perform, ht.readStdout.1]
    obtain hgone | ⟨t, b, he, hsub⟩ :=
      hstep (E := fun t b ↦ .output fd ∈ (EventLoop.perform dispatch io t b).2)
        fun t ht ↦ .inr (hserved t ht)
    · exact .inr hgone
    · exact .inl (hsub _ he)
  · intro hh
    obtain hgone | ⟨_, _, he, -⟩ :=
      hstep (E := fun _ _ ↦ False) fun t ht ↦ .inl (ht.readStdout.2 hh)
    · exact hgone
    · exact he.elim

theorem flush_keeps {S : Type} {p : ControlPlane S} {c : PendingClient} (h : p.clients fd = some c)
    (ws : List WriteResult) : (p.flushControlResponse fd ws).clients fd = none ∨
      ∃ c', (p.flushControlResponse fd ws).clients fd = some c' ∧ c'.out.isSome = c.out.isSome := by
  unfold ControlPlane.flushControlResponse
  rw [h]
  cases hout : c.out with
  | none =>
    simp only [hout]
    exact .inr ⟨c, h, by rw [hout]⟩
  | some out =>
    simp only [hout, ControlPlane.put_clients_self]
    cases writeOut out ws with
    | none => exact .inl rfl
    | some rest => exact .inr ⟨_, rfl, rfl⟩

/-- The client is there, with or without a pending response. -/
def Holds (fd : RawFd) (pending : Bool) (t : EventLoop) : Prop :=
  ∃ c, t.clients fd = some c ∧ c.out.isSome = pending

variable {pending : Bool}

theorem Holds.background {t t' : EventLoop} (h : t.Holds fd pending) (hb : Background t t') :
    t'.Holds fd pending := by
  obtain ⟨c, hc, hout⟩ := h
  cases hb with
  | connect fd' hnone =>
    refine ⟨c, ?_, hout⟩
    have hfd : fd ≠ fd' := by
      rintro rfl
      rw [hc] at hnone
      cases hnone
    exact (Function.update_of_ne hfd _ _).trans hc
  | manage => exact ⟨c, hc, hout⟩
  | spawn => exact ⟨c, hc, hout⟩
  | close => exact ⟨c, hc, hout⟩
  | write => exact ⟨c, hc, hout⟩
  | hangup => exact ⟨c, hc, hout⟩

theorem readStdout_clients (t : EventLoop) (fd' : RawFd) :
    (t.readStdout fd').1.clients = t.clients := by
  unfold readStdout
  split
  · rfl
  · split
    · rfl
    · extract_lets r
      split <;> rfl

/-- A handler other than the read of a request leaves a client as it is, or drops it. -/
theorem Holds.perform {t : EventLoop} (h : t.Holds fd pending) (b : Act)
    (hb : pending = false → b ≠ .drainControlClient fd) :
    (perform dispatch io t b).1.Holds fd pending ∨
      (EventLoop.perform dispatch io t b).1.clients fd = none := by
  obtain ⟨c, hc, hout⟩ := h
  have hplane : t.plane.clients fd = some c := hc
  have hflush (ws : List WriteResult) :
      (t.withPlane (t.plane.flushControlResponse fd ws)).Holds fd pending ∨
        (t.withPlane (t.plane.flushControlResponse fd ws)).clients fd = none := by
    obtain hnone | ⟨c', hc', hout'⟩ := flush_keeps hplane ws
    · exact .inr hnone
    · exact .inl ⟨c', hc', hout'.trans hout⟩
  cases b with
  | readSignalfd => exact .inl ⟨c, hc, hout⟩
  | acceptConnections => exact .inl ⟨c, hc, hout⟩
  | readNotify => exact .inl ⟨c, hc, hout⟩
  | start => exact .inl ⟨c, hc, hout⟩
  | udevProcess => exact .inl ⟨c, hc, hout⟩
  | readStdout fd' =>
    have hclients : (t.readStdout fd').1.clients = t.clients := readStdout_clients t fd'
    exact .inl ⟨c, by rw [EventLoop.perform, hclients, hc], hout⟩
  | flushControlResponse fd' =>
    by_cases hfd : fd = fd'
    · subst hfd
      exact hflush _
    · refine .inl ⟨c, ?_, hout⟩
      exact (ControlPlane.flush_clients_of_ne t.plane hfd _).trans hplane
  | drainControlClient fd' =>
    by_cases hfd : fd = fd'
    · subst hfd
      have hp : pending = true := by
        by_contra hp
        exact hb (by simpa using hp) rfl
      have hflushed : t.plane.drainControlClient dispatch fd (io fd).reads (io fd).replies =
          (t.plane.flushControlResponse fd (io fd).replies, none) := by
        unfold ControlPlane.drainControlClient
        rw [hplane]
        simp [hout, hp]
      have hperform : (EventLoop.perform dispatch io t (.drainControlClient fd)).1 =
          t.withPlane (t.plane.flushControlResponse fd (io fd).replies) :=
        congrArg (fun r : ControlPlane Manager × Option (Dispatch Manager) ↦ t.withPlane r.1)
          hflushed
      rw [hperform]
      exact hflush _
    · refine .inl ⟨c, ?_, hout⟩
      exact (ControlPlane.drain_clients_of_ne t.plane hfd _ _).trans hplane

/-- A client that the loop heeds is read or written, or dropped before. -/
theorem Does.control (h : Does dispatch io s acts s' served visited) (hs : s.Holds fd pending)
    (ha : a ∈ acts)
    (hown : ∀ t : EventLoop, t.Holds fd pending →
      .control fd pending ∈ (EventLoop.perform dispatch io t a).2)
    (hdrain : pending = false → a = .drainControlClient fd) :
    .control fd pending ∈ served ∨ ∃ t ∈ visited, t.clients fd = none := by
  have hact (t : EventLoop) (b : Act) (ht : t.Holds fd pending) :
      (EventLoop.perform dispatch io t b).1.Holds fd pending ∨
        (EventLoop.perform dispatch io t b).1.clients fd = none ∨
          .control fd pending ∈ (EventLoop.perform dispatch io t b).2 := by
    by_cases hb : b = a
    · exact .inr (.inr (by rw [hb]; exact hown t ht))
    · refine (ht.perform b fun hp hd ↦ hb ?_).imp_right .inl
      rw [hd, hdrain hp]
  obtain hgone | ⟨t, b, he, hsub⟩ := h.leads (P := Holds fd pending)
    (Q := fun t ↦ t.clients fd = none)
    (E := fun t b ↦ .control fd pending ∈ (EventLoop.perform dispatch io t b).2) ha hs
    (fun t t' ht hb ↦ .inl (ht.background hb)) hact fun t ht ↦ .inr (hown t ht)
  · exact .inr hgone
  · exact .inl (hsub _ he)

section Iteration

variable {p : PollIds} {fs : List PollFlags} {f : PollFlags}

theorem Does.touches (h : Does dispatch io s acts s' served visited) (ha : a ∈ acts)
    (hown : ∀ t, src ∈ (EventLoop.perform dispatch io t a).2) : src ∈ served := by
  obtain ⟨_, -, hfalse⟩ | ⟨t, b, he, hsub⟩ := h.leads (P := fun _ ↦ True) (Q := fun _ ↦ False)
    (E := fun t b ↦ src ∈ (EventLoop.perform dispatch io t b).2) ha trivial
    (fun _ _ _ _ ↦ .inl trivial) (fun _ _ _ ↦ .inl trivial) fun t _ ↦ .inr (hown t)
  · exact hfalse.elim
  · exact hsub _ he

end Iteration

end EventLoop

end Rystemd

import Mathlib.Data.List.Infix
import Mathlib.Data.Nat.Digits.Defs
import Mathlib.Logic.Function.Basic
import Mathlib.Tactic.Ring

namespace Rystemd

open Function

def maxRequest : Nat := 16 * 1024

def maxPendingResponse : Nat := 1024 * 1024

/-- The size of `tmp`, the array that one `read` fills. -/
def readSize : Nat := 1024

/-- One more than the greatest `usize`. -/
def usizeEnd : Nat := 18446744073709551616

def newline : UInt8 := 10

/-- The bytes of a successful `read`. -/
structure Chunk where
  bytes : List UInt8
  nonempty : bytes ≠ []
  fits : bytes.length ≤ readSize

/-- The result of `read` that ends the loop; `closed` is `Ok(0)`. -/
inductive ReadEnd
  | closed
  | wouldBlock
  | failed
  deriving DecidableEq, Repr

/-- What the reads of one call give, in order. -/
structure Reads where
  chunks : List Chunk
  last : ReadEnd

def Reads.bytes (r : Reads) : List UInt8 := r.chunks.flatMap Chunk.bytes

inductive WriteResult
  | wrote (n : Nat)
  | wouldBlock
  | failed
  deriving DecidableEq, Repr

/-- An accepted client: what it sent so far and what it still has to receive. -/
structure PendingClient where
  buffer : List UInt8 := []
  out : Option (List UInt8) := none
  deriving DecidableEq

abbrev RawFd := Nat

/-- A serialized response, of a length that leaves room for its newline. -/
structure Payload where
  bytes : List UInt8
  addressable : bytes.length + 1 < usizeEnd

/-- One call of `dispatch`: for whom, in which state of the manager, and what is sent back. -/
structure Dispatch (S : Type) where
  fd : RawFd
  manager : S
  line : List UInt8
  response : List UInt8

structure ControlPlane (S : Type) where
  manager : S
  clients : RawFd → Option PendingClient

section Client

/-- The read loop up to some read. -/
def PendingClient.readInto (c : PendingClient) : List Chunk → PendingClient
  | [] => c
  | chunk :: chunks => readInto { c with buffer := c.buffer ++ chunk.bytes } chunks

def firstLine (bytes : List UInt8) : Option (List UInt8) :=
  if newline ∈ bytes then some (bytes.takeWhile (· ≠ newline)) else none

def ascii (text : String) : List UInt8 := text.toList.map fun c ↦ c.toNat.toUInt8

/-- The small error payload for a response of `n` bytes; the keys are in the map's order. -/
def truncatedResponse (n : Nat) : List UInt8 :=
  ascii ("\x7b\"error\":\"response truncated: " ++ n.repr ++ " bytes exceeded cap " ++
    maxPendingResponse.repr ++ "\",\"ok\":false\x7d") ++ [newline]

def pendingResponse (out : List UInt8) : List UInt8 :=
  if out.length > maxPendingResponse then truncatedResponse out.length else out

/-- The write loop; `none` when the client is dropped. The list ends where the socket is full. -/
def writeOut (out : List UInt8) : List WriteResult → Option (List UInt8)
  | [] => some out
  | .wrote n :: ws =>
    if n = 0 then none
    else if (out.drop n).isEmpty then none
    else writeOut (out.drop n) ws
  | .wouldBlock :: _ => some out
  | .failed :: _ => none

end Client

namespace ControlPlane

variable {S : Type}

def put (p : ControlPlane S) (fd : RawFd) (c : Option PendingClient) : ControlPlane S :=
  { p with clients := update p.clients fd c }

def flushControlResponse (p : ControlPlane S) (fd : RawFd) (ws : List WriteResult) :
    ControlPlane S :=
  match p.clients fd with
  | none => p
  | some c =>
    match c.out with
    | none => p
    | some out => p.put fd ((writeOut out ws).map fun rest ↦ { c with out := some rest })

/-- What follows the read loop once the socket ran dry. -/
def afterReads (dispatch : S → List UInt8 → S × Payload) (p : ControlPlane S) (fd : RawFd)
    (c : PendingClient) (ws : List WriteResult) : ControlPlane S × Option (Dispatch S) :=
  match firstLine c.buffer with
  | none => (p.put fd (if c.buffer.length ≥ maxRequest then none else some c), none)
  | some line =>
    let resp := dispatch p.manager line
    let out := pendingResponse (resp.2.bytes ++ [newline])
    let registered := { (p.put fd (some { out := some out })) with manager := resp.1 }
    (registered.flushControlResponse fd ws, some ⟨fd, p.manager, line, out⟩)

def drainControlClient (dispatch : S → List UInt8 → S × Payload) (p : ControlPlane S) (fd : RawFd)
    (r : Reads) (ws : List WriteResult) : ControlPlane S × Option (Dispatch S) :=
  match p.clients fd with
  | none => (p, none)
  | some c =>
    if c.out.isSome then (p.flushControlResponse fd ws, none)
    else
      match r.last with
      | .closed | .failed => (p.put fd none, none)
      | .wouldBlock => afterReads dispatch p fd (c.readInto r.chunks) ws

/-- What the event loop does for its clients; `other` is any work on the rest of the manager. -/
inductive Event (S : Type)
  | accept (fd : RawFd)
  | readable (fd : RawFd) (r : Reads) (ws : List WriteResult)
  | writable (fd : RawFd) (ws : List WriteResult)
  | other (f : S → S)

def step (dispatch : S → List UInt8 → S × Payload) (p : ControlPlane S) :
    Event S → ControlPlane S × Option (Dispatch S)
  | .accept fd => (p.put fd (some {}), none)
  | .readable fd r ws => p.drainControlClient dispatch fd r ws
  | .writable fd ws => (p.flushControlResponse fd ws, none)
  | .other f => ({ p with manager := f p.manager }, none)

/-- The plane after some events and what was dispatched on the way. -/
def run (dispatch : S → List UInt8 → S × Payload) (p : ControlPlane S) :
    List (Event S) → ControlPlane S × List (Dispatch S)
  | [] => (p, [])
  | e :: es =>
    let s := p.step dispatch e
    let rest := s.1.run dispatch es
    (rest.1, s.2.toList ++ rest.2)

/-- What the reads of the client of `fd` give, wake-up by wake-up. -/
def readsOf (fd : RawFd) : List (Event S) → List Reads
  | [] => []
  | .readable fd' r _ :: es => if fd' = fd then r :: readsOf fd es else readsOf fd es
  | _ :: es => readsOf fd es

/-- What the writes to the client of `fd` give, wake-up by wake-up. -/
def writesOf (fd : RawFd) : List (Event S) → List (List WriteResult)
  | [] => []
  | .readable fd' _ ws :: es => if fd' = fd then ws :: writesOf fd es else writesOf fd es
  | .writable fd' ws :: es => if fd' = fd then ws :: writesOf fd es else writesOf fd es
  | _ :: es => writesOf fd es

/-- The dispatches for the client of `fd`. -/
def dispatchedTo (fd : RawFd) (ds : List (Dispatch S)) : List (Dispatch S) :=
  ds.filter fun d ↦ d.fd = fd

end ControlPlane

def bytesOf (reads : List Reads) : List UInt8 := reads.flatMap Reads.bytes

/-- A client that sent neither a complete line nor too much of one, and is still there. -/
structure Unfinished (reads : List Reads) : Prop where
  open_end : ∀ r ∈ reads, r.last = .wouldBlock
  no_line : firstLine (bytesOf reads) = none
  short : (bytesOf reads).length < maxRequest

/-- The reads `r` brought the newline of a client's request. -/
def Completes (reads : List Reads) (line : List UInt8) (r : Reads) : Prop :=
  ∃ before after, reads = before ++ r :: after ∧ (∀ b ∈ before, b.last = .wouldBlock) ∧
    firstLine (bytesOf before) = none ∧ firstLine (bytesOf (before ++ [r])) = some line

/-- What is left of a response after some writes. -/
def deliver (out : List UInt8) (writes : List (List WriteResult)) : Option (List UInt8) :=
  writes.foldl (fun rest ws ↦ rest.bind (writeOut · ws)) (some out)

section Client

theorem readInto_buffer (c : PendingClient) (chunks : List Chunk) :
    (c.readInto chunks).buffer = c.buffer ++ chunks.flatMap Chunk.bytes := by
  induction chunks generalizing c with
  | nil => simp [PendingClient.readInto]
  | cons chunk chunks ih => simp [PendingClient.readInto, ih]

@[simp] theorem readInto_out (c : PendingClient) (chunks : List Chunk) :
    (c.readInto chunks).out = c.out := by
  induction chunks generalizing c with
  | nil => rfl
  | cons chunk chunks ih => simp [PendingClient.readInto, ih]

theorem readInto_eq (got : List UInt8) (chunks : List Chunk) :
    (⟨got, none⟩ : PendingClient).readInto chunks = ⟨got ++ chunks.flatMap Chunk.bytes, none⟩ := by
  have hb := readInto_buffer ⟨got, none⟩ chunks
  have ho := readInto_out ⟨got, none⟩ chunks
  cases h : (⟨got, none⟩ : PendingClient).readInto chunks with
  | mk buffer out =>
    rw [h] at hb ho
    simp only at hb ho
    rw [hb, ho]

theorem firstLine_eq_none {bytes : List UInt8} : firstLine bytes = none ↔ newline ∉ bytes := by
  unfold firstLine
  by_cases h : newline ∈ bytes <;> simp [h]

theorem firstLine_cons (b : UInt8) (bytes : List UInt8) :
    firstLine (b :: bytes) =
      if b = newline then some [] else (firstLine bytes).map (b :: ·) := by
  unfold firstLine
  by_cases hb : b = newline
  · simp [hb]
  · have hb' : newline ≠ b := fun h ↦ hb h.symm
    by_cases hm : newline ∈ bytes <;> simp [hb, hb', hm]

theorem firstLine_spec {bytes line : List UInt8} (h : firstLine bytes = some line) :
    line ++ [newline] <+: bytes ∧ newline ∉ line := by
  induction bytes generalizing line with
  | nil => cases h
  | cons b bytes ih =>
    rw [firstLine_cons] at h
    by_cases hb : b = newline
    · rw [if_pos hb] at h
      injection h with h
      simp [← h, hb]
    · rw [if_neg hb] at h
      obtain ⟨l, hl, rfl⟩ := Option.map_eq_some_iff.mp h
      obtain ⟨hp, hn⟩ := ih hl
      refine ⟨by simpa using hp, ?_⟩
      simp only [List.mem_cons, not_or]
      exact ⟨fun h ↦ hb h.symm, hn⟩

/-- The bytes that came before the first newline did fit into the line and its newline. -/
theorem length_of_firstLine {before bytes line : List UInt8} (hb : firstLine before = none)
    (h : firstLine bytes = some line) (hp : before <+: bytes) : before.length ≤ line.length := by
  by_contra hlt
  have hpre : line ++ [newline] <+: before := by
    apply List.prefix_of_prefix_length_le (firstLine_spec h).1 hp
    simp
    omega
  apply firstLine_eq_none.mp hb
  apply hpre.subset
  simp

theorem writeOut_suffix {out rest : List UInt8} {ws : List WriteResult}
    (h : writeOut out ws = some rest) : rest <:+ out := by
  induction ws generalizing out with
  | nil =>
    injection h with h
    rw [h]
  | cons w ws ih =>
    cases w with
    | wrote n =>
      simp only [writeOut] at h
      split at h
      · cases h
      · split at h
        · cases h
        · exact (ih h).trans (List.drop_suffix n out)
    | wouldBlock =>
      injection h with h
      rw [h]
    | failed => cases h

theorem deliver_append_singleton (out : List UInt8) (writes : List (List WriteResult))
    (ws : List WriteResult) :
    deliver out (writes ++ [ws]) = (deliver out writes).bind (writeOut · ws) := by
  simp [deliver]

theorem deliver_suffix {out rest : List UInt8} {writes : List (List WriteResult)}
    (h : deliver out writes = some rest) : rest <:+ out := by
  induction writes using List.reverseRecOn generalizing rest with
  | nil =>
    injection h with h
    rw [h]
  | append_singleton writes ws ih =>
    rw [deliver_append_singleton] at h
    obtain ⟨mid, hm, hw⟩ := Option.bind_eq_some_iff.mp h
    exact (writeOut_suffix hw).trans (ih hm)

theorem length_truncatedResponse {n : Nat} (h : n < usizeEnd) :
    (truncatedResponse n).length ≤ 200 := by
  have hn : n.repr.length ≤ 20 := by
    apply Nat.repr_length n 20 (by omega)
    simp only [usizeEnd] at h
    omega
  have hcap : maxPendingResponse.repr.length ≤ 7 := by
    apply Nat.repr_length _ 7 (by omega)
    decide
  simp only [truncatedResponse, ascii, List.length_append, List.length_map, String.length_toList,
    String.length_append, List.length_singleton]
  have h₁ : ("\x7b\"error\":\"response truncated: ").length = 30 := by decide
  have h₂ : (" bytes exceeded cap ").length = 20 := by decide
  have h₃ : ("\",\"ok\":false\x7d").length = 13 := by decide
  omega

theorem length_pendingResponse {out : List UInt8} (h : out.length < usizeEnd) :
    (pendingResponse out).length ≤ maxPendingResponse := by
  unfold pendingResponse
  split
  · apply (length_truncatedResponse h).trans
    decide
  · omega

end Client

namespace ControlPlane

variable {S : Type} {dispatch : S → List UInt8 → S × Payload}

@[simp] theorem put_clients_self (p : ControlPlane S) (fd : RawFd) (c : Option PendingClient) :
    (p.put fd c).clients fd = c := update_self ..

theorem put_clients_of_ne (p : ControlPlane S) {fd fd' : RawFd} (h : fd' ≠ fd)
    (c : Option PendingClient) : (p.put fd c).clients fd' = p.clients fd' := update_of_ne h ..

theorem flush_clients_of_ne (p : ControlPlane S) {fd fd' : RawFd} (h : fd' ≠ fd)
    (ws : List WriteResult) : (p.flushControlResponse fd ws).clients fd' = p.clients fd' := by
  unfold flushControlResponse
  split
  · rfl
  · split
    · rfl
    · exact put_clients_of_ne p h _

/-- A client that is still sending has nothing to flush. -/
theorem flush_reading {p : ControlPlane S} {fd : RawFd} {got : List UInt8}
    (h : p.clients fd = some ⟨got, none⟩) (ws : List WriteResult) :
    p.flushControlResponse fd ws = p := by
  unfold flushControlResponse
  rw [h]

theorem flush_gone {p : ControlPlane S} {fd : RawFd} (h : p.clients fd = none)
    (ws : List WriteResult) : p.flushControlResponse fd ws = p := by
  unfold flushControlResponse
  rw [h]

/-- The client of `fd` was answered with `response`, of which it took `writes`. -/
def Answering (p : ControlPlane S) (fd : RawFd) (response : List UInt8)
    (writes : List (List WriteResult)) : Prop :=
  p.clients fd = (deliver response writes).map fun rest ↦ { out := some rest }

theorem Answering.flush {p : ControlPlane S} {fd : RawFd} {response : List UInt8}
    {writes : List (List WriteResult)} (h : p.Answering fd response writes)
    (ws : List WriteResult) :
    (p.flushControlResponse fd ws).Answering fd response (writes ++ [ws]) := by
  unfold Answering at h ⊢
  rw [deliver_append_singleton]
  cases hd : deliver response writes with
  | none =>
    rw [hd] at h
    rw [flush_gone h]
    exact h
  | some rest =>
    rw [hd] at h
    simp only [Option.map_some] at h
    simp only [flushControlResponse, h, put_clients_self, Option.bind_some]

theorem drain_clients_of_ne (p : ControlPlane S) {fd fd' : RawFd} (h : fd' ≠ fd) (r : Reads)
    (ws : List WriteResult) :
    (p.drainControlClient dispatch fd r ws).1.clients fd' = p.clients fd' := by
  unfold drainControlClient
  split
  · rfl
  · split
    · exact flush_clients_of_ne p h ws
    · split
      · exact put_clients_of_ne p h _
      · exact put_clients_of_ne p h _
      · unfold afterReads
        split
        · exact put_clients_of_ne p h _
        · rw [flush_clients_of_ne _ h]
          exact put_clients_of_ne p h _

theorem drain_dispatch_fd {p : ControlPlane S} {fd : RawFd} {r : Reads} {ws : List WriteResult}
    {d : Dispatch S} (h : (p.drainControlClient dispatch fd r ws).2 = some d) : d.fd = fd := by
  unfold drainControlClient at h
  split at h
  · cases h
  · split at h
    · cases h
    · split at h
      · cases h
      · cases h
      · unfold afterReads at h
        split at h
        · cases h
        · injection h with h
          rw [← h]

variable (dispatch) in
/-- What an event of another client or of the rest of the manager does to a client. -/
theorem step_of_ne (p : ControlPlane S) {fd : RawFd} {e : Event S} (ha : e ≠ .accept fd)
    (hr : readsOf fd [e] = []) :
    (p.step dispatch e).1.clients fd = p.clients fd ∧ writesOf fd [e] = [] ∨
      ∃ ws, e = .writable fd ws := by
  cases e with
  | accept fd' =>
    left
    refine ⟨put_clients_of_ne p ?_ _, rfl⟩
    rintro rfl
    exact ha rfl
  | readable fd' r ws =>
    left
    have hne : fd ≠ fd' := by
      rintro rfl
      simp [readsOf] at hr
    refine ⟨drain_clients_of_ne p hne r ws, ?_⟩
    simp [writesOf, hne.symm]
  | writable fd' ws =>
    by_cases h : fd' = fd
    · right
      exact ⟨ws, by rw [h]⟩
    · left
      refine ⟨flush_clients_of_ne p (fun h' ↦ h h'.symm) ws, ?_⟩
      simp [writesOf, h]
  | other f => exact .inl ⟨rfl, rfl⟩

theorem step_dispatch_of_ne (p : ControlPlane S) {fd : RawFd} {e : Event S}
    (hr : readsOf fd [e] = []) : dispatchedTo fd (p.step dispatch e).2.toList = [] := by
  cases e with
  | readable fd' r ws =>
    have hne : fd' ≠ fd := by
      rintro rfl
      simp [readsOf] at hr
    simp only [step]
    cases h : (p.drainControlClient dispatch fd' r ws).2 with
    | none => rfl
    | some d =>
      have := drain_dispatch_fd h
      simp [dispatchedTo, this, hne]
  | _ => rfl

theorem readsOf_cons (fd : RawFd) (e : Event S) (es : List (Event S)) :
    readsOf fd (e :: es) = readsOf fd [e] ++ readsOf fd es := by
  cases e with
  | readable fd' r ws =>
    simp only [readsOf]
    split <;> rfl
  | _ => rfl

theorem writesOf_cons (fd : RawFd) (e : Event S) (es : List (Event S)) :
    writesOf fd (e :: es) = writesOf fd [e] ++ writesOf fd es := by
  cases e with
  | readable fd' r ws =>
    simp only [writesOf]
    split <;> rfl
  | writable fd' ws =>
    simp only [writesOf]
    split <;> rfl
  | _ => rfl

theorem readsOf_append (fd : RawFd) (es es' : List (Event S)) :
    readsOf fd (es ++ es') = readsOf fd es ++ readsOf fd es' := by
  induction es with
  | nil => rfl
  | cons e es ih => rw [List.cons_append, readsOf_cons, ih, readsOf_cons fd e es, List.append_assoc]

theorem dispatchedTo_append (fd : RawFd) (ds ds' : List (Dispatch S)) :
    dispatchedTo fd (ds ++ ds') = dispatchedTo fd ds ++ dispatchedTo fd ds' :=
  List.filter_append ..

/-- An event of the client of `fd` itself, or one that leaves it alone. -/
theorem event_cases (fd : RawFd) (e : Event S) :
    (∃ r ws, e = .readable fd r ws) ∨ readsOf fd [e] = [] := by
  cases e with
  | readable fd' r ws =>
    by_cases h : fd' = fd
    · exact .inl ⟨r, ws, by rw [h]⟩
    · right
      simp [readsOf, h]
  | _ => exact .inr rfl

theorem run_append (p : ControlPlane S) (es es' : List (Event S)) :
    p.run dispatch (es ++ es') =
      (((p.run dispatch es).1.run dispatch es').1,
        (p.run dispatch es).2 ++ ((p.run dispatch es).1.run dispatch es').2) := by
  induction es generalizing p with
  | nil => rfl
  | cons e es ih => simp [run, ih]

variable (dispatch) in
theorem run_gone {p : ControlPlane S} {fd : RawFd} {es : List (Event S)}
    (h : p.clients fd = none) (ha : ∀ e ∈ es, e ≠ .accept fd) :
    (p.run dispatch es).1.clients fd = none ∧ dispatchedTo fd (p.run dispatch es).2 = [] := by
  induction es generalizing p with
  | nil => exact ⟨h, rfl⟩
  | cons e es ih =>
    have hae : e ≠ .accept fd := ha e List.mem_cons_self
    have hstep : (p.step dispatch e).1.clients fd = none ∧
        dispatchedTo fd (p.step dispatch e).2.toList = [] := by
      obtain ⟨r, ws, rfl⟩ | hr := event_cases fd e
      · simp [step, drainControlClient, h, dispatchedTo]
      · refine ⟨?_, step_dispatch_of_ne p hr⟩
        obtain ⟨hc, -⟩ | ⟨ws, rfl⟩ := step_of_ne dispatch p hae hr
        · rw [hc, h]
        · simp only [step]
          rw [flush_gone h, h]
    obtain ⟨hn, hd⟩ := ih hstep.1 fun e he ↦ ha e (List.mem_cons_of_mem _ he)
    refine ⟨hn, ?_⟩
    simp only [run, dispatchedTo_append, hstep.2, hd, List.append_nil]

/-- A wake-up of a client that has its answer only writes. -/
theorem Answering.drain {p : ControlPlane S} {fd : RawFd} {response : List UInt8}
    {writes : List (List WriteResult)} (h : p.Answering fd response writes) (r : Reads)
    (ws : List WriteResult) :
    p.drainControlClient dispatch fd r ws = (p.flushControlResponse fd ws, none) := by
  unfold Answering at h
  cases hd : deliver response writes with
  | none =>
    rw [hd] at h
    rw [flush_gone h]
    simp only [Option.map_none] at h
    simp [drainControlClient, h]
  | some rest =>
    rw [hd] at h
    simp only [Option.map_some] at h
    simp [drainControlClient, h]

variable (dispatch) in
theorem Answering.run {p : ControlPlane S} {fd : RawFd} {response : List UInt8}
    {writes : List (List WriteResult)} {es : List (Event S)} (h : p.Answering fd response writes)
    (ha : ∀ e ∈ es, e ≠ .accept fd) :
    (p.run dispatch es).1.Answering fd response (writes ++ writesOf fd es) ∧
      dispatchedTo fd (p.run dispatch es).2 = [] := by
  induction es generalizing p writes with
  | nil =>
    refine ⟨?_, rfl⟩
    rwa [writesOf, List.append_nil]
  | cons e es ih =>
    have hae : e ≠ .accept fd := ha e List.mem_cons_self
    have hstep : (p.step dispatch e).1.Answering fd response (writes ++ writesOf fd [e]) ∧
        dispatchedTo fd (p.step dispatch e).2.toList = [] := by
      obtain ⟨r, ws, rfl⟩ | hr := event_cases fd e
      · simp only [step, h.drain, writesOf, if_pos]
        exact ⟨h.flush ws, rfl⟩
      · refine ⟨?_, step_dispatch_of_ne p hr⟩
        obtain ⟨hc, hw⟩ | ⟨ws, rfl⟩ := step_of_ne dispatch p hae hr
        · rw [hw, List.append_nil]
          unfold Answering
          rw [hc, h]
        · simp only [step, writesOf, if_pos]
          exact h.flush ws
    obtain ⟨hn, hd⟩ := ih hstep.1 fun e he ↦ ha e (List.mem_cons_of_mem _ he)
    constructor
    · rw [writesOf_cons, ← List.append_assoc]
      exact hn
    · simp only [ControlPlane.run, dispatchedTo_append, hstep.2, hd, List.append_nil]

/-- `d` is the answer to a line of the client, of which it took `writes`. -/
structure Served (dispatch : S → List UInt8 → S × Payload) (fd : RawFd) (line : List UInt8)
    (writes : List (List WriteResult)) (result : ControlPlane S × List (Dispatch S))
    (d : Dispatch S) : Prop where
  once : dispatchedTo fd result.2 = [d]
  asked : d.line = line
  response : d.response = pendingResponse ((dispatch d.manager line).2.bytes ++ [newline])
  queued : ∃ earlier later, writes = earlier ++ later ∧ result.1.Answering fd d.response later

/-- What becomes of a client that sent `reads`. -/
inductive Fate (dispatch : S → List UInt8 → S × Payload) (fd : RawFd) (reads : List Reads)
    (writes : List (List WriteResult)) (result : ControlPlane S × List (Dispatch S)) : Prop
  | reading : Unfinished reads → result.1.clients fd = some ⟨bytesOf reads, none⟩ →
      dispatchedTo fd result.2 = [] → Fate dispatch fd reads writes result
  | served {before after : List Reads} {r : Reads} {line : List UInt8} {d : Dispatch S} :
      reads = before ++ r :: after → Unfinished before → r.last = .wouldBlock →
      firstLine (bytesOf (before ++ [r])) = some line →
      Served dispatch fd line writes result d → Fate dispatch fd reads writes result
  | dropped {before after : List Reads} {r : Reads} :
      reads = before ++ r :: after → Unfinished before →
      (r.last = .wouldBlock → firstLine (bytesOf (before ++ [r])) = none ∧
        maxRequest ≤ (bytesOf (before ++ [r])).length) →
      result.1.clients fd = none → dispatchedTo fd result.2 = [] →
      Fate dispatch fd reads writes result

theorem bytesOf_append_singleton (before : List Reads) (r : Reads) :
    bytesOf (before ++ [r]) = bytesOf before ++ r.chunks.flatMap Chunk.bytes := by
  simp [bytesOf, Reads.bytes]

variable (dispatch) in
/-- A wake-up of a client that is still sending. -/
theorem drain_reading {p : ControlPlane S} {fd : RawFd} {before : List Reads}
    (hu : Unfinished before) (hc : p.clients fd = some ⟨bytesOf before, none⟩) (r : Reads)
    (ws : List WriteResult) :
    Fate dispatch fd (before ++ [r]) [ws] ((p.drainControlClient dispatch fd r ws).1,
      (p.drainControlClient dispatch fd r ws).2.toList) := by
  have hread : (⟨bytesOf before, none⟩ : PendingClient).readInto r.chunks =
      ⟨bytesOf (before ++ [r]), none⟩ := by
    rw [readInto_eq, bytesOf_append_singleton]
  by_cases hl : r.last = .wouldBlock
  · have hdrain : p.drainControlClient dispatch fd r ws =
        afterReads dispatch p fd ⟨bytesOf (before ++ [r]), none⟩ ws := by
      simp [drainControlClient, hc, hl, hread]
    rw [hdrain]
    unfold afterReads
    cases hf : firstLine (bytesOf (before ++ [r])) with
    | none =>
      by_cases hlen : (bytesOf (before ++ [r])).length ≥ maxRequest
      · simp only [hlen, if_true]
        exact .dropped rfl hu (fun _ ↦ ⟨hf, hlen⟩) (put_clients_self ..) rfl
      · simp only [hlen, if_false]
        have hopen : ∀ b ∈ before ++ [r], b.last = .wouldBlock := by
          intro b hb
          obtain hb | hb := List.mem_append.mp hb
          · exact hu.open_end b hb
          · rwa [List.mem_singleton.mp hb]
        exact .reading ⟨hopen, hf, by omega⟩ (put_clients_self ..) rfl
    | some line =>
      refine .served rfl hu hl hf
        (d := ⟨fd, p.manager, line,
          pendingResponse ((dispatch p.manager line).2.bytes ++ [newline])⟩) ⟨?_, rfl, rfl, ?_⟩
      · simp [dispatchedTo]
      · refine ⟨[], [ws], rfl, ?_⟩
        have hqueued : Answering (S := S) { (p.put fd (some
            { out := some (pendingResponse ((dispatch p.manager line).2.bytes ++ [newline])) }))
              with manager := (dispatch p.manager line).1 } fd
            (pendingResponse ((dispatch p.manager line).2.bytes ++ [newline])) [] := by
          simp [Answering, deliver]
        exact hqueued.flush ws
  · have hdrain : p.drainControlClient dispatch fd r ws = (p.put fd none, none) := by
      cases h : r.last with
      | wouldBlock => exact absurd h hl
      | closed => simp [drainControlClient, hc, h]
      | failed => simp [drainControlClient, hc, h]
    rw [hdrain]
    exact .dropped rfl hu (fun h ↦ absurd h hl) (put_clients_self ..) rfl

variable (dispatch) in
theorem run_fate {p : ControlPlane S} {fd : RawFd} {before : List Reads} {es : List (Event S)}
    (hu : Unfinished before) (hc : p.clients fd = some ⟨bytesOf before, none⟩)
    (ha : ∀ e ∈ es, e ≠ .accept fd) :
    Fate dispatch fd (before ++ readsOf fd es) (writesOf fd es) (p.run dispatch es) := by
  induction es generalizing p before with
  | nil =>
    rw [readsOf, List.append_nil]
    exact .reading hu hc rfl
  | cons e es ih =>
    have hae : e ≠ .accept fd := ha e List.mem_cons_self
    have ha' : ∀ e ∈ es, e ≠ .accept fd := fun e he ↦ ha e (List.mem_cons_of_mem _ he)
    obtain ⟨r, ws, rfl⟩ | hr := event_cases fd e
    · have hreads : before ++ readsOf fd (.readable fd r ws :: es) =
          (before ++ [r]) ++ readsOf fd es := by
        simp [readsOf]
      rw [hreads]
      have hwrites : writesOf fd (.readable fd r ws :: es) = ws :: writesOf fd es := by
        simp [writesOf]
      have hrun : (p.run dispatch (.readable fd r ws :: es)).1 =
          ((p.drainControlClient dispatch fd r ws).1.run dispatch es).1 := rfl
      have hlog : dispatchedTo fd (p.run dispatch (.readable fd r ws :: es)).2 =
          dispatchedTo fd (p.drainControlClient dispatch fd r ws).2.toList ++
            dispatchedTo fd ((p.drainControlClient dispatch fd r ws).1.run dispatch es).2 :=
        dispatchedTo_append ..
      have hstep := drain_reading dispatch hu hc r ws
      generalize p.drainControlClient dispatch fd r ws = s at hrun hlog hstep
      cases hstep with
      | reading hu' hc' hd' =>
        simp only at hc' hd'
        have hfate := ih hu' hc' ha'
        rw [hd', List.nil_append] at hlog
        rw [hwrites]
        cases hfate with
        | reading hu'' hc'' hd'' => exact .reading hu'' (hrun ▸ hc'') (hlog ▸ hd'')
        | served hs hu'' hl hf hsv =>
          obtain ⟨earlier, later, hw, hq⟩ := hsv.queued
          exact .served hs hu'' hl hf ⟨hlog ▸ hsv.once, hsv.asked, hsv.response,
            ws :: earlier, later, by rw [hw]; rfl, hrun ▸ hq⟩
        | dropped hs hu'' hl hn hd'' => exact .dropped hs hu'' hl (hrun ▸ hn) (hlog ▸ hd'')
      | @served before' after' r' line d hs hu' hl hf hsv =>
        obtain ⟨earlier, later, hw, hq⟩ := hsv.queued
        obtain ⟨hq', hd'⟩ := hq.run dispatch ha'
        rw [hwrites]
        have hs' : (before ++ [r]) ++ readsOf fd es =
            before' ++ r' :: (after' ++ readsOf fd es) := by simp [hs]
        refine .served hs' hu' hl hf
          ⟨?_, hsv.asked, hsv.response, earlier, later ++ writesOf fd es, ?_,
          hrun ▸ hq'⟩
        · rw [hlog, hd', List.append_nil]
          exact hsv.once
        · rw [← List.append_assoc, ← hw]
          rfl
      | @dropped before' after' r' hs hu' hl hn hd' =>
        obtain ⟨hn', hd''⟩ := run_gone dispatch hn ha'
        have hs' : (before ++ [r]) ++ readsOf fd es =
            before' ++ r' :: (after' ++ readsOf fd es) := by simp [hs]
        refine .dropped hs' hu' hl (hrun ▸ hn') ?_
        rw [hlog, hd'', List.append_nil]
        exact hd'
    · have hreads : readsOf fd (e :: es) = readsOf fd es := by
        rw [readsOf_cons, hr, List.nil_append]
      have hlog : dispatchedTo fd (p.run dispatch (e :: es)).2 =
          dispatchedTo fd ((p.step dispatch e).1.run dispatch es).2 := by
        simp only [run, dispatchedTo_append, step_dispatch_of_ne p hr, List.nil_append]
      have hc' : (p.step dispatch e).1.clients fd = some ⟨bytesOf before, none⟩ := by
        obtain ⟨hs, -⟩ | ⟨ws, rfl⟩ := step_of_ne dispatch p hae hr
        · rw [hs, hc]
        · simp only [step]
          rw [flush_reading hc, hc]
      rw [hreads, writesOf_cons]
      cases ih hu hc' ha' with
      | reading hu'' hc'' hd'' => exact .reading hu'' hc'' (hlog ▸ hd'')
      | served hs hu'' hl hf hsv =>
        obtain ⟨earlier, later, hw, hq⟩ := hsv.queued
        exact .served hs hu'' hl hf ⟨hlog ▸ hsv.once, hsv.asked, hsv.response,
          writesOf fd [e] ++ earlier, later, by rw [hw, List.append_assoc], hq⟩
      | dropped hs hu'' hl hn hd'' => exact .dropped hs hu'' hl hn (hlog ▸ hd'')

end ControlPlane

theorem split_cases {α : Type} {before after before' after' : List α} {r r' : α}
    (h : before ++ r :: after = before' ++ r' :: after') :
    (before = before' ∧ r = r') ∨ (∃ mid, before' = before ++ r :: mid) ∨
      ∃ mid, before = before' ++ r' :: mid := by
  obtain ⟨mid, hb, hr⟩ | ⟨mid, hb, hr⟩ := List.append_eq_append_iff.mp h
  · cases mid with
    | nil =>
      simp only [List.nil_append, List.cons.injEq] at hr
      exact .inl ⟨by simpa using hb.symm, hr.1⟩
    | cons x mid =>
      simp only [List.cons_append, List.cons.injEq] at hr
      exact .inr (.inl ⟨mid, by rw [hb, ← hr.1]⟩)
  · cases mid with
    | nil =>
      simp only [List.nil_append, List.cons.injEq] at hr
      exact .inl ⟨by simpa using hb, hr.1.symm⟩
    | cons x mid =>
      simp only [List.cons_append, List.cons.injEq] at hr
      exact .inr (.inr ⟨mid, by rw [hb, ← hr.1]⟩)

theorem bytesOf_append (reads reads' : List Reads) :
    bytesOf (reads ++ reads') = bytesOf reads ++ bytesOf reads' :=
  List.flatMap_append ..

theorem firstLine_append {bytes line : List UInt8} (h : firstLine bytes = some line)
    (more : List UInt8) : firstLine (bytes ++ more) = some line := by
  induction bytes generalizing line with
  | nil => cases h
  | cons b bytes ih =>
    rw [List.cons_append, firstLine_cons]
    rw [firstLine_cons] at h
    split at h
    · rename_i hb
      rw [if_pos hb, h]
    · rename_i hb
      obtain ⟨l, hl, rfl⟩ := Option.map_eq_some_iff.mp h
      rw [if_neg hb, ih hl, Option.map_some]

/-- A line that was completed is not missing later. -/
theorem not_completed {before : List Reads} {r : Reads} {line : List UInt8}
    (hl : firstLine (bytesOf (before ++ [r])) = some line) (mid : List Reads) :
    firstLine (bytesOf (before ++ r :: mid)) ≠ none := by
  have hs : before ++ r :: mid = (before ++ [r]) ++ mid := by simp
  rw [hs, bytesOf_append, firstLine_append hl]
  exact Option.some_ne_none line

namespace ControlPlane

variable {S : Type} {dispatch : S → List UInt8 → S × Payload}

/-- The request of a client is dispatched once and answered, and nothing else of it is. -/
structure DispatchedOnce (dispatch : S → List UInt8 → S × Payload) (fd : RawFd)
    (reads : List Reads) (writes : List (List WriteResult))
    (result : ControlPlane S × List (Dispatch S)) : Prop where
  request : ∀ line r, Completes reads line r → line.length < maxRequest →
    ∃ d, Served dispatch fd line writes result d
  complete : ∀ d ∈ dispatchedTo fd result.2,
    d.line ++ [newline] <+: bytesOf reads ∧ newline ∉ d.line

theorem Fate.complete {fd : RawFd} {reads : List Reads} {writes : List (List WriteResult)}
    {result : ControlPlane S × List (Dispatch S)}
    (h : Fate dispatch fd reads writes result) {d : Dispatch S}
    (hd : d ∈ dispatchedTo fd result.2) :
    d.line ++ [newline] <+: bytesOf reads ∧ newline ∉ d.line := by
  cases h with
  | reading hu hc hn =>
    rw [hn] at hd
    cases hd
  | dropped hs hu hl hc hn =>
    rw [hn] at hd
    cases hd
  | @served before after r line d' hs hu hl hf hsv =>
    rw [hsv.once, List.mem_singleton] at hd
    subst hd
    obtain ⟨hp, hn⟩ := firstLine_spec hf
    rw [hsv.asked]
    refine ⟨?_, hn⟩
    have hreads : reads = (before ++ [r]) ++ after := by simp [hs]
    rw [hreads, bytesOf_append]
    exact hp.trans (List.prefix_append _ _)

/-- A request whose wake-up left the socket dry is served. -/
theorem Fate.served_of_completes {fd : RawFd} {reads : List Reads}
    {writes : List (List WriteResult)} {result : ControlPlane S × List (Dispatch S)}
    (h : Fate dispatch fd reads writes result) {line : List UInt8} {r : Reads}
    (hc : Completes reads line r) (hl : line.length < maxRequest) (hr : r.last = .wouldBlock) :
    ∃ d, Served dispatch fd line writes result d := by
  obtain ⟨before, after, hs, hopen, hn, hf⟩ := hc
  cases h with
  | reading hu _ _ =>
    have hline := not_completed hf after
    rw [← hs, hu.no_line] at hline
    exact absurd rfl hline
  | @served before' after' r' line' d hs' hu hl' hf' hsv =>
    refine ⟨d, ?_⟩
    obtain ⟨rfl, rfl⟩ | ⟨mid, rfl⟩ | ⟨mid, rfl⟩ := split_cases (hs.symm.trans hs')
    · rw [hf] at hf'
      injection hf' with hf'
      rwa [hf']
    · exact absurd hu.no_line (not_completed hf _)
    · exact absurd hn (not_completed hf' _)
  | @dropped before' after' r' hs' hu hd _ _ =>
    exfalso
    obtain ⟨rfl, rfl⟩ | ⟨mid, rfl⟩ | ⟨mid, rfl⟩ := split_cases (hs.symm.trans hs')
    · rw [(hd hr).1] at hf
      cases hf
    · exact not_completed hf _ hu.no_line
    · have hblock : r'.last = .wouldBlock := hopen r' (by simp)
      obtain ⟨hnone, hlen⟩ := hd hblock
      have hp : bytesOf (before' ++ [r']) <+: bytesOf (before' ++ r' :: mid ++ [r]) := by
        have hsplit : before' ++ r' :: mid ++ [r] = (before' ++ [r']) ++ (mid ++ [r]) := by simp
        rw [hsplit, bytesOf_append (before' ++ [r'])]
        exact List.prefix_append _ _
      have := length_of_firstLine hnone hf hp
      omega

/-- A request that a closed or failed read came upon is not dispatched. -/
theorem Fate.nothing_of_completes {fd : RawFd} {reads : List Reads}
    {writes : List (List WriteResult)} {result : ControlPlane S × List (Dispatch S)}
    (h : Fate dispatch fd reads writes result) {line : List UInt8} {r : Reads}
    (hc : Completes reads line r) (hr : r.last ≠ .wouldBlock) :
    dispatchedTo fd result.2 = [] := by
  obtain ⟨before, after, hs, hopen, hn, hf⟩ := hc
  cases h with
  | reading _ _ hd => exact hd
  | dropped _ _ _ _ hd => exact hd
  | @served before' after' r' line' d hs' hu hl' hf' hsv =>
    exfalso
    obtain ⟨rfl, rfl⟩ | ⟨mid, rfl⟩ | ⟨mid, rfl⟩ := split_cases (hs.symm.trans hs')
    · exact hr hl'
    · exact not_completed hf _ hu.no_line
    · exact not_completed hf' _ hn

theorem unfinished_nil : Unfinished [] := by
  refine ⟨?_, rfl, by decide⟩
  intro r hr
  cases hr

/-- Every accepted client, with any events of its own and of the others after its accept. -/
theorem dispatched_once_iff (dispatch : S → List UInt8 → S × Payload) (p : ControlPlane S)
    (fd : RawFd) (es : List (Event S)) (ha : ∀ e ∈ es, e ≠ .accept fd) :
    DispatchedOnce dispatch fd (readsOf fd es) (writesOf fd es)
        ((p.put fd (some {})).run dispatch es) ↔
      ∀ line r, Completes (readsOf fd es) line r → line.length < maxRequest →
        r.last = .wouldBlock := by
  have hfate := run_fate dispatch (p := p.put fd (some {})) unfinished_nil
    (put_clients_self ..) ha
  rw [List.nil_append] at hfate
  constructor
  · intro h line r hc hl
    by_contra hr
    obtain ⟨d, hsv⟩ := h.request line r hc hl
    have hone := hsv.once
    rw [hfate.nothing_of_completes hc hr] at hone
    cases hone
  · intro h
    refine ⟨?_, fun d hd ↦ hfate.complete hd⟩
    intro line r hc hl
    exact hfate.served_of_completes hc hl (h line r hc hl)

/-- A request in one read, after which the client closed its write side. -/
def halfClosed : Reads := ⟨[⟨[123, 125, newline], by decide, by decide⟩], .closed⟩

theorem half_closed_not_dispatched :
    ¬ DispatchedOnce (fun (s : PUnit) _ ↦ (s, ⟨[], by decide⟩)) 3
      (readsOf 3 [Event.readable (S := PUnit) 3 halfClosed []])
      (writesOf 3 [Event.readable (S := PUnit) 3 halfClosed []])
      (((⟨PUnit.unit, fun _ ↦ none⟩ : ControlPlane PUnit).put 3 (some {})).run
        (fun s _ ↦ (s, ⟨[], by decide⟩)) [.readable 3 halfClosed []]) := by
  intro h
  have hc : Completes [halfClosed] [123, 125] halfClosed :=
    ⟨[], [], rfl, fun b hb ↦ (List.not_mem_nil hb).elim, rfl, by decide⟩
  obtain ⟨d, hsv⟩ := h.request [123, 125] halfClosed hc (by decide)
  cases hsv.once

theorem dispatched_once_in_two_reads :
    DispatchedOnce (fun (s : Nat) _ ↦ (s + 1, ⟨[52], by decide⟩)) 3
      (readsOf 3 [Event.readable (S := Nat) 3 ⟨[⟨[123], by decide, by decide⟩], .wouldBlock⟩ [],
        .readable 3 ⟨[⟨[125, newline], by decide, by decide⟩], .wouldBlock⟩ [.wrote 1]])
      (writesOf 3 [Event.readable (S := Nat) 3 ⟨[⟨[123], by decide, by decide⟩], .wouldBlock⟩ [],
        .readable 3 ⟨[⟨[125, newline], by decide, by decide⟩], .wouldBlock⟩ [.wrote 1]])
      (((⟨0, fun _ ↦ none⟩ : ControlPlane Nat).put 3 (some {})).run
        (fun s _ ↦ (s + 1, ⟨[52], by decide⟩))
        [.readable 3 ⟨[⟨[123], by decide, by decide⟩], .wouldBlock⟩ [],
          .readable 3 ⟨[⟨[125, newline], by decide, by decide⟩], .wouldBlock⟩ [.wrote 1]]) := by
  apply (dispatched_once_iff _ _ _ _ _).mpr
  · intro line r hc _
    obtain ⟨before, after, hs, -, -, -⟩ := hc
    have hr : r ∈ readsOf 3 [Event.readable (S := Nat) 3
        ⟨[⟨[123], by decide, by decide⟩], .wouldBlock⟩ [],
        .readable 3 ⟨[⟨[125, newline], by decide, by decide⟩], .wouldBlock⟩ [.wrote 1]] := by
      rw [hs]
      simp
    simp only [readsOf, if_pos, List.mem_cons, List.not_mem_nil, or_false] at hr
    obtain rfl | rfl := hr
    · rfl
    · rfl
  · intro e he
    simp only [List.mem_cons, List.not_mem_nil, or_false] at he
    obtain rfl | rfl := he
    · exact fun h ↦ by cases h
    · exact fun h ↦ by cases h

/-- At every moment of a run, also inside the read loop. -/
def MemoryBounded (dispatch : S → List UInt8 → S × Payload) (p : ControlPlane S) (fd : RawFd)
    (es : List (Event S)) : Prop :=
  ∀ before after c, es = before ++ after → (p.run dispatch before).1.clients fd = some c →
    c.buffer.length ≤ maxRequest + readSize ∧
      (∀ out, c.out = some out → out.length ≤ maxPendingResponse) ∧
      ∀ r ws rest reading, after = .readable fd r ws :: rest → c.out = none →
        reading <+: r.chunks → (c.readInto reading).buffer.length ≤ maxRequest + readSize

theorem readsOf_split {fd : RawFd} {es : List (Event S)} {before after : List Reads} {r : Reads}
    (h : readsOf fd es = before ++ r :: after) :
    ∃ done ws rest, es = done ++ .readable fd r ws :: rest ∧ readsOf fd done = before := by
  induction es generalizing before with
  | nil =>
    simp [readsOf] at h
  | cons e es ih =>
    obtain ⟨r', ws, rfl⟩ | hr := event_cases fd e
    · simp only [readsOf, if_true] at h
      cases before with
      | nil =>
        simp only [List.nil_append, List.cons.injEq] at h
        exact ⟨[], ws, es, by rw [h.1]; rfl, rfl⟩
      | cons b before =>
        simp only [List.cons_append, List.cons.injEq] at h
        obtain ⟨done, ws', rest, rfl, hd⟩ := ih h.2
        refine ⟨.readable fd r' ws :: done, ws', rest, rfl, ?_⟩
        simp [readsOf, hd, h.1]
    · rw [readsOf_cons, hr, List.nil_append] at h
      obtain ⟨done, ws', rest, rfl, hd⟩ := ih h
      refine ⟨e :: done, ws', rest, rfl, ?_⟩
      rw [readsOf_cons, hr, List.nil_append, hd]

/-- A client that is still there is reading all it sent, or it has its answer. -/
theorem Fate.client {fd : RawFd} {reads : List Reads} {writes : List (List WriteResult)}
    {result : ControlPlane S × List (Dispatch S)} (h : Fate dispatch fd reads writes result)
    {c : PendingClient} (hc : result.1.clients fd = some c) :
    (Unfinished reads ∧ c = ⟨bytesOf reads, none⟩) ∨
      (c.buffer = [] ∧ ∃ out, c.out = some out ∧ out.length ≤ maxPendingResponse) := by
  cases h with
  | reading hu hc' _ =>
    rw [hc] at hc'
    injection hc' with hc'
    exact .inl ⟨hu, hc'⟩
  | dropped _ _ _ hn _ =>
    rw [hc] at hn
    cases hn
  | @served before after r line d hs hu hl hf hsv =>
    right
    obtain ⟨earlier, later, -, hq⟩ := hsv.queued
    unfold Answering at hq
    rw [hc] at hq
    obtain ⟨rest, hr, rfl⟩ := Option.map_eq_some_iff.mp hq.symm
    refine ⟨rfl, rest, rfl, ?_⟩
    apply (deliver_suffix hr).length_le.trans
    rw [hsv.response]
    apply length_pendingResponse
    simpa using (dispatch d.manager line).2.addressable

theorem Fate.reading_of_unfinished {fd : RawFd} {reads : List Reads}
    {writes : List (List WriteResult)} {result : ControlPlane S × List (Dispatch S)}
    (h : Fate dispatch fd reads writes result) (hu : Unfinished reads) :
    result.1.clients fd = some ⟨bytesOf reads, none⟩ := by
  cases h with
  | reading _ hc _ => exact hc
  | @served before after r line d hs _ _ hf _ =>
    have hline := not_completed hf after
    rw [← hs, hu.no_line] at hline
    exact absurd rfl hline
  | @dropped before after r hs _ hd _ _ =>
    exfalso
    have hr : r.last = .wouldBlock := hu.open_end r (by rw [hs]; simp)
    have hlen := (hd hr).2
    have hshort := hu.short
    have hsplit : reads = (before ++ [r]) ++ after := by simp [hs]
    rw [hsplit, bytesOf_append, List.length_append] at hshort
    omega

/-- The bound is kept as long as no wake-up finds more than what is left of it. -/
theorem memory_bounded_iff (dispatch : S → List UInt8 → S × Payload) (p : ControlPlane S)
    (fd : RawFd) (es : List (Event S)) (ha : ∀ e ∈ es, e ≠ .accept fd) :
    MemoryBounded dispatch (p.put fd (some {})) fd es ↔
      ∀ before r after, readsOf fd es = before ++ r :: after → Unfinished before →
        (bytesOf (before ++ [r])).length ≤ maxRequest + readSize := by
  have hfate : ∀ done rest, es = done ++ rest →
      Fate dispatch fd (readsOf fd done) (writesOf fd done)
        ((p.put fd (some {})).run dispatch done) := by
    intro done rest hes
    have ha' : ∀ e ∈ done, e ≠ .accept fd := fun e he ↦ ha e (by rw [hes]; simp [he])
    have h := run_fate dispatch (p := p.put fd (some {})) unfinished_nil (put_clients_self ..) ha'
    rwa [List.nil_append] at h
  constructor
  · intro h before r after hs hu
    obtain ⟨done, ws, rest, hes, rfl⟩ := readsOf_split hs
    have hc := (hfate done _ hes).reading_of_unfinished hu
    have hloop := (h done _ _ hes hc).2.2 r ws rest r.chunks rfl rfl (List.prefix_refl _)
    rwa [readInto_eq, ← bytesOf_append_singleton] at hloop
  · intro h done rest c hes hc
    obtain ⟨hu, rfl⟩ | ⟨hb, out, ho, hlen⟩ := (hfate done rest hes).client hc
    · have hshort := hu.short
      refine ⟨?_, ?_, ?_⟩
      · simp only [readSize]
        omega
      · intro out ho
        cases ho
      · intro r ws more reading hrest _ hp
        have hsplit : readsOf fd es = readsOf fd done ++ r :: readsOf fd more := by
          rw [hes, hrest, readsOf_append]
          simp [readsOf]
        have hall := h _ r _ hsplit hu
        rw [bytesOf_append_singleton, List.length_append] at hall
        obtain ⟨unread, hchunks⟩ := hp
        rw [← hchunks, List.flatMap_append, List.length_append] at hall
        rw [readInto_eq, List.length_append]
        omega
    · refine ⟨?_, ?_, ?_⟩
      · rw [hb]
        exact Nat.zero_le _
      · intro out' ho'
        rw [ho] at ho'
        injection ho' with ho'
        rwa [← ho']
      · intro r ws more reading _ hn
        rw [ho] at hn
        cases hn

/-- A full read of a client that never ends its line. -/
def fullRead : Chunk where
  bytes := List.replicate readSize 97
  nonempty := by
    intro h
    have := congrArg List.length h
    rw [List.length_replicate] at this
    cases this
  fits := by rw [List.length_replicate]

def flood (n : Nat) : Reads := ⟨List.replicate n fullRead, .wouldBlock⟩

theorem flood_bytes (n : Nat) :
    ((flood n).chunks.flatMap Chunk.bytes).length = n * readSize := by
  induction n with
  | zero => simp [flood]
  | succ n ih =>
    have hone : fullRead.bytes.length = readSize := List.length_replicate
    simp only [flood] at ih
    simp only [flood, List.replicate_succ, List.flatMap_cons, List.length_append, ih, hone]
    ring

theorem flood_not_bounded :
    ¬ MemoryBounded (fun (s : PUnit) _ ↦ (s, ⟨[], by decide⟩))
      ((⟨PUnit.unit, fun _ ↦ none⟩ : ControlPlane PUnit).put 3 (some {})) 3
      [.readable 3 (flood 18) []] := by
  intro h
  have hloop := (h [] [.readable 3 (flood 18) []] {} rfl rfl).2.2 (flood 18) [] []
    (flood 18).chunks rfl rfl (List.prefix_refl _)
  rw [readInto_buffer, List.length_append, flood_bytes] at hloop
  simp only [maxRequest, readSize, List.length_nil] at hloop
  omega

theorem memory_bounded_in_one_read :
    MemoryBounded (fun (s : Nat) _ ↦ (s + 1, ⟨[52], by decide⟩))
      ((⟨0, fun _ ↦ none⟩ : ControlPlane Nat).put 3 (some {})) 3
      [.readable 3 ⟨[⟨[123], by decide, by decide⟩], .wouldBlock⟩ []] := by
  apply (memory_bounded_iff _ _ _ _ _).mpr
  · intro before r after hs _
    cases before with
    | nil =>
      simp only [readsOf, if_pos, List.nil_append, List.cons.injEq] at hs
      rw [← hs.1]
      decide
    | cons b before => simp [readsOf] at hs
  · intro e he
    simp only [List.mem_cons, List.not_mem_nil, or_false] at he
    rw [he]
    exact fun h ↦ by cases h

end ControlPlane

end Rystemd

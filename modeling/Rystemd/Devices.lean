import Rystemd.Requests
import Rystemd.Library.Registry
import Rystemd.Library.Text

namespace Rystemd

open Function

/-- A kernel device with the keys that udev publishes for it. -/
structure KernelDevice where
  devpath : String
  subsystem : String
  devname : String
  devtype : String
  deriving DecidableEq, Repr

namespace KernelDevice

/-- The last component of the path. -/
def sysname (d : KernelDevice) : String := String.ofList (d.devpath.toList.rtakeWhile (· ≠ '/'))

def sysfsUnitName (d : KernelDevice) : Name :=
  "sys-" ++ String.ofList (d.devpath.toList.map fun c ↦ if c = '/' then '-' else c) ++ ".device"

def subsystemUnitName (d : KernelDevice) : Name :=
  let name := if d.devname.isEmpty then d.sysname else d.devname
  "sys-" ++ d.subsystem ++ "-" ++ name ++ ".device"

/-- The name after the path and the alias after the subsystem. -/
def unitNames (d : KernelDevice) : List Name := [d.sysfsUnitName, d.subsystemUnitName]

/-- What the manager reads of a device. -/
def toDevice (d : KernelDevice) : Device := ⟨d.devpath, d.unitNames⟩

end KernelDevice

inductive UEventAction
  | add
  | remove
  | change
  | move
  | other
  deriving DecidableEq, Repr

def UEventAction.parse : String → UEventAction
  | "add" => .add
  | "remove" => .remove
  | "change" => .change
  | "move" => .move
  | _ => .other

/-- The parts of a payload between its NUL bytes. -/
def ueventParts (text : String) : List String := (text.toList.splitOn '\x00').map String.ofList

/-- The keys of a payload after its header; the last value of a key wins. -/
def ueventKey (parts : List String) (key : String) : Option String :=
  (parts.filterMap (Text.splitOnce '=')).reverse.lookup key

/-- Parse a netlink payload, `add@/devices/...` and its keys, all separated by NUL. -/
def parseUevent (text : String) : Option (UEventAction × KernelDevice) := do
  let parts := ueventParts text
  let header ← parts.head?
  let (action, devpath) ← Text.splitOnce '@' header
  let kv := ueventKey parts.tail
  let subsystem := (kv "SUBSYSTEM").getD ""
  if subsystem.isEmpty then none
  else
    some (.parse action,
      { devpath := Text.trimStartMatches '/' devpath
        subsystem
        devname := (kv "DEVNAME").getD ""
        devtype := (kv "DEVTYPE").getD "" })

/-- The path that the kernel says a moved device had, in the spelling of `devpath`. -/
def devpathOld (text : String) : Option String :=
  (ueventKey (ueventParts text).tail "DEVPATH_OLD").map (Text.trimStartMatches '/')

namespace Manager

/-- Apply one uevent to the unit table. -/
def udevEvent (w : World) (m : Manager) (text : String) : Manager :=
  match parseUevent text with
  | none => m
  | some (.add, dev) | some (.change, dev) | some (.move, dev) => m.udevRegister w dev.toDevice
  | some (.remove, dev) => m.udevRemove dev.toDevice
  | some (.other, _) => m

/-- Drain the pending uevents. -/
def udevProcess (w : World) (m : Manager) (texts : List String) : Manager :=
  texts.foldl (udevEvent w) m

/-- The uevents of a run, each in the world in which it is read. -/
def udevRun (m : Manager) (events : List (World × String)) : Manager :=
  events.foldl (fun m e ↦ m.udevEvent e.1 e.2) m

theorem udevProcess_eq_run (w : World) (m : Manager) (texts : List String) :
    m.udevProcess w texts = m.udevRun (texts.map fun text ↦ (w, text)) := by
  unfold udevProcess udevRun
  rw [List.foldl_map]

/-- The `.device` units. -/
def deviceUnits (m : Manager) : Set Name :=
  {n | unitKindOf n = .device ∧ (m.units.get n).isSome}

end Manager

/-- The devices that exist, by path. -/
abbrev DeviceTree := String → Option KernelDevice

namespace DeviceTree

/-- What a uevent says of the devices. A moved device leaves its old path. -/
def apply (tree : DeviceTree) (text : String) : DeviceTree :=
  match parseUevent text with
  | none => tree
  | some (.add, dev) | some (.change, dev) => update tree dev.devpath (some dev)
  | some (.move, dev) =>
    update ((devpathOld text).elim tree fun old ↦ update tree old none) dev.devpath (some dev)
  | some (.remove, dev) => update tree dev.devpath none
  | some (.other, _) => tree

def after (tree : DeviceTree) (events : List (World × String)) : DeviceTree :=
  events.foldl (fun tree e ↦ tree.apply e.2) tree

def names (d : KernelDevice) : Set Name := {n | n ∈ d.unitNames}

/-- The names that a refreshed device no longer has belong to another device. -/
def Refreshes (tree : DeviceTree) (dev : KernelDevice) : Prop :=
  Registry.coveredAt names tree dev.devpath ⊆
    names dev ∪ Registry.coveredBut names tree dev.devpath

/-- A uevent after which the manager still has the devices that exist. -/
def Follows (tree : DeviceTree) (text : String) : Prop :=
  match parseUevent text with
  | none | some (.other, _) => True
  | some (.add, dev) | some (.change, dev) => tree.Refreshes dev
  | some (.move, dev) =>
    (∀ old ∈ devpathOld text, old ≠ dev.devpath → tree old = none) ∧ tree.Refreshes dev
  | some (.remove, dev) =>
    (∀ n ∈ names dev, n ∉ Registry.coveredBut names tree dev.devpath) ∧ tree.Refreshes dev

end DeviceTree

namespace Manager

/-- The registry has the devices that exist, and the `.device` units are their names. -/
structure Mirrors (m : Manager) (tree : DeviceTree) : Prop where
  registry : ∀ path, m.udevDevices.get path = (tree path).map KernelDevice.toDevice
  units : m.deviceUnits = Registry.covered DeviceTree.names tree

end Manager

theorem unitKindOf_device (s : String) : unitKindOf (s ++ ".device") = .device := by
  have hsuffix : '.' :: ("device").toList <:+ (s ++ ".device").toList := by
    rw [String.toList_append]
    exact List.suffix_append ..
  have htail := Text.rtakeWhile_of_suffix (by decide) hsuffix
  have hmem : (s ++ ".device").toList.contains '.' = true := by
    rw [List.contains_iff_mem]
    exact hsuffix.subset List.mem_cons_self
  unfold unitKindOf
  rw [htail, hmem, String.ofList_toList]
  rfl

theorem KernelDevice.kind_of_unitNames {d : KernelDevice} {n : Name} (h : n ∈ d.unitNames) :
    unitKindOf n = .device := by
  simp only [unitNames, List.mem_cons, List.not_mem_nil, or_false] at h
  obtain rfl | rfl := h
  · exact unitKindOf_device _
  · exact unitKindOf_device _

theorem DeviceTree.refreshes_of_new {tree : DeviceTree} {d : KernelDevice}
    (h : tree d.devpath = none) : tree.Refreshes d := by
  unfold Refreshes Registry.coveredAt
  rw [h]
  simp

namespace Manager

variable {w : World} {m : Manager} {d : KernelDevice}

theorem registerDevice_isSome (w : World) (t : Table Name Unit) (a n : Name) :
    ((registerDevice w t a).get n).isSome ↔ n = a ∨ (t.get n).isSome := by
  unfold registerDevice
  split
  · rename_i hc
    constructor
    · exact .inr
    · rintro (rfl | h)
      · exact hc
      · exact h
  · rw [Table.get_insert]
    split
    · rename_i hn
      simp [hn]
    · rename_i hn
      simp [hn]

theorem registerDevices_isSome (w : World) (names : List Name) (t : Table Name Unit) (n : Name) :
    ((names.foldl (registerDevice w) t).get n).isSome ↔ n ∈ names ∨ (t.get n).isSome := by
  induction names generalizing t with
  | nil => simp
  | cons a names ih =>
    rw [List.foldl_cons, ih, registerDevice_isSome, List.mem_cons]
    tauto

theorem removeUnits_isSome (names : List Name) (t : Table Name Unit) (n : Name) :
    ((names.foldl Table.remove t).get n).isSome ↔ n ∉ names ∧ (t.get n).isSome := by
  induction names generalizing t with
  | nil => simp
  | cons a names ih =>
    rw [List.foldl_cons, ih, Table.get_remove, List.mem_cons]
    split
    · rename_i h
      simp [h]
    · rename_i h
      simp [h]

theorem udevRegister_deviceUnits :
    (m.udevRegister w d.toDevice).deviceUnits = m.deviceUnits ∪ DeviceTree.names d := by
  ext n
  simp only [deviceUnits, udevRegister, registerDevices_isSome, Set.mem_ofPred_eq, Set.mem_union,
    DeviceTree.names, KernelDevice.toDevice]
  constructor
  · rintro ⟨hk, hn | hn⟩
    · exact .inr hn
    · exact .inl ⟨hk, hn⟩
  · rintro (⟨hk, hn⟩ | hn)
    · exact ⟨hk, .inr hn⟩
    · exact ⟨KernelDevice.kind_of_unitNames hn, .inl hn⟩

theorem udevRemove_deviceUnits :
    (m.udevRemove d.toDevice).deviceUnits = m.deviceUnits \ DeviceTree.names d := by
  ext n
  simp only [deviceUnits, udevRemove, removeUnits_isSome, Set.mem_ofPred_eq, Set.mem_sdiff,
    DeviceTree.names, KernelDevice.toDevice]
  tauto

variable {tree : DeviceTree}

theorem Mirrors.udevRegister_iff (h : m.Mirrors tree) :
    (m.udevRegister w d.toDevice).Mirrors (update tree d.devpath (some d)) ↔
      tree.Refreshes d := by
  have hreg : ∀ path, (m.udevRegister w d.toDevice).udevDevices.get path =
      (update tree d.devpath (some d) path).map KernelDevice.toDevice := by
    intro path
    simp only [udevRegister, Table.get_insert, h.registry, KernelDevice.toDevice, update_apply]
    split
    · rfl
    · rfl
  unfold DeviceTree.Refreshes
  rw [← Registry.union_eq_covered_register_iff, ← h.units, ← udevRegister_deviceUnits (w := w)]
  exact ⟨fun h' ↦ h'.units, fun h' ↦ ⟨hreg, h'⟩⟩

theorem Mirrors.udevRemove_iff (h : m.Mirrors tree) :
    (m.udevRemove d.toDevice).Mirrors (update tree d.devpath none) ↔
      (∀ n ∈ DeviceTree.names d, n ∉ Registry.coveredBut DeviceTree.names tree d.devpath) ∧
        tree.Refreshes d := by
  have hreg : ∀ path, (m.udevRemove d.toDevice).udevDevices.get path =
      (update tree d.devpath none path).map KernelDevice.toDevice := by
    intro path
    simp only [udevRemove, Table.get_remove, h.registry, KernelDevice.toDevice, update_apply]
    split
    · rfl
    · rfl
  unfold DeviceTree.Refreshes
  rw [← Registry.diff_eq_covered_unregister_iff, ← h.units, ← udevRemove_deviceUnits]
  exact ⟨fun h' ↦ h'.units, fun h' ↦ ⟨hreg, h'⟩⟩

/-- A moved device is still registered under its old path. -/
theorem Mirrors.udevMove_iff (h : m.Mirrors tree) (old : Option String) :
    (m.udevRegister w d.toDevice).Mirrors
        (update (old.elim tree fun o ↦ update tree o none) d.devpath (some d)) ↔
      (∀ o ∈ old, o ≠ d.devpath → tree o = none) ∧ tree.Refreshes d := by
  have hsame : (∀ o ∈ old, o ≠ d.devpath → tree o = none) →
      update (old.elim tree fun o ↦ update tree o none) d.devpath (some d) =
        update tree d.devpath (some d) := by
    intro hold
    cases old with
    | none => rfl
    | some o =>
      funext path
      by_cases hp : path = d.devpath
      · simp [hp]
      · by_cases ho : path = o
        · subst ho
          simp [hp, hold path rfl hp]
        · simp [hp, ho]
  constructor
  · intro h'
    have hold : ∀ o ∈ old, o ≠ d.devpath → tree o = none := by
      rintro o rfl hne
      have hget := h'.registry o
      simp only [udevRegister, KernelDevice.toDevice, Table.get_insert, hne, if_false, h.registry,
        update_of_ne hne, Option.elim_some, update_self, Option.map_none,
        Option.map_eq_none_iff] at hget
      exact hget
    refine ⟨hold, ?_⟩
    rw [hsame hold] at h'
    exact h.udevRegister_iff.mp h'
  · rintro ⟨hold, hr⟩
    rw [hsame hold]
    exact h.udevRegister_iff.mpr hr

theorem Mirrors.udevEvent_iff (h : m.Mirrors tree) (w : World) (text : String) :
    (m.udevEvent w text).Mirrors (tree.apply text) ↔ tree.Follows text := by
  unfold udevEvent DeviceTree.apply DeviceTree.Follows
  cases parseUevent text with
  | none => simpa using h
  | some ev =>
    obtain ⟨action, dev⟩ := ev
    cases action with
    | add => exact h.udevRegister_iff
    | change => exact h.udevRegister_iff
    | move => exact h.udevMove_iff (devpathOld text)
    | remove => exact h.udevRemove_iff
    | other => simpa using h

/-- At every point of a run of uevents the units are those of the devices that exist. -/
def StaysInStep (m : Manager) (tree : DeviceTree) (events : List (World × String)) : Prop :=
  ∀ before after, events = before ++ after → (m.udevRun before).Mirrors (tree.after before)

theorem devices_mirrored_iff (m : Manager) (tree : DeviceTree) (h : m.Mirrors tree)
    (events : List (World × String)) :
    m.StaysInStep tree events ↔
      ∀ before e after, events = before ++ e :: after → (tree.after before).Follows e.2 := by
  have hsnoc : ∀ before e, m.udevRun (before ++ [e]) = (m.udevRun before).udevEvent e.1 e.2 ∧
      tree.after (before ++ [e]) = (tree.after before).apply e.2 := by
    intro before e
    simp [udevRun, DeviceTree.after]
  constructor
  · intro hall before e after hs
    have hbefore := hall before (e :: after) hs
    have hnext := hall (before ++ [e]) after (by simp [hs])
    rw [(hsnoc before e).1, (hsnoc before e).2] at hnext
    exact (hbefore.udevEvent_iff e.1 e.2).mp hnext
  · intro hall before
    induction before using List.reverseRecOn with
    | nil =>
      intro _ _
      exact h
    | append_singleton before e ih =>
      intro after hs
      have hsplit : events = before ++ e :: after := by simp [hs]
      rw [(hsnoc before e).1, (hsnoc before e).2]
      exact ((ih (e :: after) hsplit).udevEvent_iff e.1 e.2).mpr (hall before e after hsplit)

theorem mirrors_empty : ({} : Manager).Mirrors fun _ ↦ none where
  registry _ := rfl
  units := by
    rw [Registry.covered_empty]
    ext n
    simp [deviceUnits]

/-- Two network devices with the same name, of which the first one goes. -/
def twins : List (World × String) :=
  [({}, "add@/devices/a\x00SUBSYSTEM=net\x00DEVNAME=x"),
    ({}, "add@/devices/b\x00SUBSYSTEM=net\x00DEVNAME=x"),
    ({}, "remove@/devices/a\x00SUBSYSTEM=net\x00DEVNAME=x")]

theorem twin_removed_with_the_other :
    ¬ ({} : Manager).StaysInStep (fun _ ↦ none) twins := by
  intro h
  have hunits := (h twins [] (List.append_nil _).symm).units
  have htree : DeviceTree.after (fun _ ↦ none) twins "devices/b" =
      some ⟨"devices/b", "net", "x", ""⟩ := by decide +kernel
  have hcovered : "sys-net-x.device" ∈
      Registry.covered DeviceTree.names (DeviceTree.after (fun _ ↦ none) twins) := by
    simp only [Registry.covered, Registry.coveredAt, Set.mem_iUnion]
    exact ⟨"devices/b", _, htree, by simp only [DeviceTree.names]; decide +kernel⟩
  rw [← hunits] at hcovered
  have hgone : ((({} : Manager).udevRun twins).units.get "sys-net-x.device").isSome = false := by
    decide +kernel
  rw [hcovered.2] at hgone
  cases hgone

theorem devices_mirrored_of_one :
    ({} : Manager).StaysInStep (fun _ ↦ none) [({}, "add@/devices/a\x00SUBSYSTEM=net")] := by
  apply (devices_mirrored_iff {} (fun _ ↦ none) mirrors_empty _).mpr
  intro before e after hs
  cases before with
  | nil =>
    simp only [List.nil_append, List.cons.injEq] at hs
    rw [← hs.1]
    have hparse : parseUevent "add@/devices/a\x00SUBSYSTEM=net" =
        some (.add, ⟨"devices/a", "net", "", ""⟩) := by decide +kernel
    simp only [DeviceTree.Follows, hparse]
    exact DeviceTree.refreshes_of_new rfl
  | cons b before => simp at hs

end Manager

end Rystemd

import Rystemd.Library.Hex
import Rystemd.Library.Text
import Rystemd.Library.Utf8

namespace Rystemd.Dbus

/-- A letter or a digit stands for itself, any other byte is written with its two digits. -/
def labelByte (b : UInt8) : List Char :=
  if Utf8.isAlphanumeric b then [Utf8.char b] else '_' :: Hex.digits b

def unitPathPrefix : String := "/org/freedesktop/systemd1/unit/"

/-- The object path of a unit. -/
def unitDbusPath (name : String) : String :=
  unitPathPrefix ++ String.ofList ((Utf8.encode name.toList).flatMap labelByte)

example : unitDbusPath "systemd-udevd.service" =
    "/org/freedesktop/systemd1/unit/systemd_2dudevd_2eservice" := by decide +kernel

/-- The bytes that a label is written for. -/
def labelBytes : List Char → List UInt8
  | '_' :: high :: low :: cs =>
    UInt8.ofNat (16 * (Hex.value high).getD 0 + (Hex.value low).getD 0) :: labelBytes cs
  | c :: cs => UInt8.ofNat c.toNat :: labelBytes cs
  | [] => []

/-- The name of the unit that a path belongs to. -/
def nameOfPath (path : String) : Option String :=
  (Text.stripPrefix unitPathPrefix path).bind fun label ↦
    (Utf8.decode (labelBytes label.toList)).map String.ofList

/-- The characters of a label. -/
def isLabelChar (c : Char) : Bool := c.isAlphanum || c = '_'

variable {b : UInt8} {bs : List UInt8} {cs : List Char}

theorem labelBytes_plain {c : Char} (h : c ≠ '_') :
    labelBytes (c :: cs) = UInt8.ofNat c.toNat :: labelBytes cs := by
  conv_lhs => unfold labelBytes
  split
  · next heq => exact absurd (List.cons.inj heq).1 h
  · next heq =>
    obtain ⟨rfl, rfl⟩ := List.cons.inj heq
    rfl
  · next heq => cases heq

theorem labelBytes_labelByte : labelBytes (labelByte b ++ cs) = b :: labelBytes cs := by
  unfold labelByte
  split
  · next hplain =>
    have hrange := Utf8.isAlphanumeric_iff.mp hplain
    have hchar := Utf8.toNat_char (b := b) (by omega)
    have hne : Utf8.char b ≠ '_' := by
      intro heq
      rw [heq] at hchar
      have : b.toNat = 95 := hchar.symm
      omega
    rw [List.singleton_append, labelBytes_plain hne, hchar, UInt8.ofNat_toNat]
  · rw [Hex.digits, List.cons_append, List.cons_append, List.cons_append, List.nil_append,
      labelBytes, Hex.value_digit (Hex.high_lt b), Hex.value_digit (Hex.low_lt b), Option.getD_some,
      Option.getD_some, Hex.high_low]

theorem labelBytes_label : labelBytes (bs.flatMap labelByte) = bs := by
  induction bs with
  | nil => rfl
  | cons b bs ih => rw [List.flatMap_cons, labelBytes_labelByte, ih]

theorem isLabelChar_of_range {c : Char} (h : 48 ≤ c.toNat ∧ c.toNat ≤ 57 ∨
    65 ≤ c.toNat ∧ c.toNat ≤ 90 ∨ 97 ≤ c.toNat ∧ c.toNat ≤ 122) : isLabelChar c := by
  rw [isLabelChar, Text.isAlphanum_iff.mpr h, Bool.true_or]

theorem isLabelChar_of_mem {c : Char} (h : c ∈ labelByte b) : isLabelChar c := by
  unfold labelByte at h
  split at h
  · next hplain =>
    have hrange := Utf8.isAlphanumeric_iff.mp hplain
    rw [List.mem_singleton.mp h]
    apply isLabelChar_of_range
    rw [Utf8.toNat_char (by omega)]
    exact hrange
  · rw [Hex.digits, List.mem_cons, List.mem_cons, List.mem_singleton] at h
    rcases h with rfl | rfl | rfl
    · decide
    · have hrange := Hex.digit_range (Hex.high_lt b)
      exact isLabelChar_of_range (by omega)
    · have hrange := Hex.digit_range (Hex.low_lt b)
      exact isLabelChar_of_range (by omega)

theorem nameOfPath_unitDbusPath (name : String) : nameOfPath (unitDbusPath name) = some name := by
  have hlabel : Text.stripPrefix unitPathPrefix (unitDbusPath name) =
      some (String.ofList ((Utf8.encode name.toList).flatMap labelByte)) := by
    unfold Text.stripPrefix unitDbusPath
    rw [String.toList_append, if_pos (List.prefix_append _ _), List.drop_left, String.ofList_toList]
  rw [nameOfPath, hlabel, Option.bind_some, String.toList_ofList, labelBytes_label,
    Utf8.decode_encode, Option.map_some, String.ofList_toList]

/-- Different units have different paths, the name can be recovered from the path, and the label
has letters, digits and underscores only. -/
theorem unit_paths_unique_and_valid :
    (∀ a b, unitDbusPath a = unitDbusPath b → a = b) ∧
      (∀ a, nameOfPath (unitDbusPath a) = some a) ∧
      ∀ a, ∃ label, unitDbusPath a = unitPathPrefix ++ label ∧
        ∀ c ∈ label.toList, isLabelChar c := by
  refine ⟨fun a b h ↦ ?_, nameOfPath_unitDbusPath, fun a ↦ ⟨_, rfl, fun c hc ↦ ?_⟩⟩
  · have ha := nameOfPath_unitDbusPath a
    rw [h, nameOfPath_unitDbusPath] at ha
    exact (Option.some.inj ha).symm
  · rw [String.toList_ofList] at hc
    obtain ⟨b, -, hb⟩ := List.mem_flatMap.mp hc
    exact isLabelChar_of_mem hb

end Rystemd.Dbus

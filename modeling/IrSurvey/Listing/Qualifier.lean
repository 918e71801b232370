import IrSurvey.Text.Blank
import IrSurvey.Text.Digit
import IrSurvey.Text.Leading

/-!
Words that say how a symbol is linked or passed. They stand in front of a return type or of the
keyword of a global, each followed by a gap, in any order and number.
-/
namespace IrSurvey.Listing
open Text

def headerQualifiers : List String := [
  "dso_local", "dso_preemptable", "internal", "private", "external", "linkonce_odr", "linkonce",
  "weak_odr", "weak", "available_externally", "hidden", "protected", "default", "fastcc", "coldcc",
  "ccc", "noundef", "signext", "zeroext", "inreg", "noalias", "nonnull", "local_unnamed_addr",
  "unnamed_addr"]

def globalQualifiers : List String := [
  "internal", "private", "external", "common", "dso_local", "dso_preemptable", "linkonce_odr",
  "linkonce", "weak_odr", "weak", "hidden", "protected", "default", "thread_local",
  "local_unnamed_addr", "unnamed_addr"]

def isHeaderQualifier (w : List Char) : Bool :=
  headerQualifiers.contains (String.ofList w)

/-- An address space is numbered: `addrspace(3)`. -/
def isAddressSpace (w : List Char) : Bool :=
  match "addrspace(".toList.isPrefixOf? w with
  | some r => r.getLast? = some ')' && r.dropLast ≠ [] && r.dropLast.all isDigit
  | none => false

def isGlobalQualifier (w : List Char) : Bool :=
  globalQualifiers.contains (String.ofList w) || isAddressSpace w

/-- The text after the leading qualifiers and the gaps after them. A qualifier that no gap follows
is left where it stands. -/
def dropQualifiers (gap : Char → Bool) (known : List Char → Bool) (s : List Char) : List Char :=
  match _h : s.dropWhile (!gap ·) with
  | [] => s
  | _ :: rest =>
    if known (s.takeWhile (!gap ·)) then dropQualifiers gap known (rest.dropWhile gap) else s
termination_by s.length
decreasing_by
  have hs := length_dropWhile_le (!gap ·) s
  have hr := length_dropWhile_le gap rest
  rw [_h, List.length_cons] at hs
  exact Nat.lt_of_le_of_lt hr hs

theorem length_dropQualifiers_le (gap : Char → Bool) (known : List Char → Bool) (s : List Char) :
    (dropQualifiers gap known s).length ≤ s.length := by
  fun_induction dropQualifiers gap known s with
  | case1 s hd => exact Nat.le_refl _
  | case2 s c rest hd hk ih =>
    have hs := length_dropWhile_le (!gap ·) s
    have hr := length_dropWhile_le gap rest
    rw [hd, List.length_cons] at hs
    omega
  | case3 s c rest hd hk => exact Nat.le_refl _

end IrSurvey.Listing

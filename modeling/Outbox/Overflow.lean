import Outbox.Error
import Outbox.Text.Decimal

/-! Sums of integers that have only so many bits. Where a sum is too large for them, the program
panics or goes on with what is left of it, as it was built. -/
namespace Outbox

open Text (IntegerKind)

inductive Overflow
  | panics
  | wraps
  deriving DecidableEq, Repr

/-- Why a call has not been done to its end. -/
inductive Halt
  | error (x : Error)
  | panic
  deriving DecidableEq

namespace Text.IntegerKind
variable {k : IntegerKind} {i : Int}

def least (k : IntegerKind) : Int := -(k.below.getD 0 : Nat)

/-- The integer of the kind that another one comes to if it is counted on from the greatest to the
least, and back. -/
def wrap (k : IntegerKind) (i : Int) : Int := (i - k.least) % (k.above - k.least + 1) + k.least

theorem holds_iff : k.holds i = true ↔ k.least ≤ i ∧ i ≤ k.above := by
  obtain ⟨below, above⟩ := k
  unfold holds least
  by_cases hi : i < 0
  · cases below with
    | none =>
      simp only [if_pos hi, Option.getD_none, Bool.false_eq_true, false_iff]
      omega
    | some below =>
      simp only [if_pos hi, Option.getD_some, decide_eq_true_eq]
      omega
  · simp only [hi, if_false, decide_eq_true_eq]
    omega

theorem wrap_of_holds (h : k.holds i = true) : k.wrap i = i := by
  obtain ⟨hl, ha⟩ := holds_iff.mp h
  rw [wrap, Int.emod_eq_of_lt (by omega) (by omega)]
  omega

theorem wrap_add_wrap (k : IntegerKind) (i j : Int) : k.wrap (k.wrap i + j) = k.wrap (i + j) := by
  have h : k.wrap i + j - k.least = (i - k.least) % (k.above - k.least + 1) + j := by
    rw [wrap]
    omega
  rw [wrap, h, Int.emod_add_emod, wrap, show i - k.least + j = i + j - k.least by omega]

theorem holds_wrap (k : IntegerKind) (i : Int) : k.holds (k.wrap i) = true := by
  have hl : k.least ≤ 0 := by
    rw [least]
    omega
  have hpos : 0 < (k.above : Int) - k.least + 1 := by omega
  have hlt := Int.emod_lt_of_pos (i - k.least) hpos
  have hnn := Int.emod_nonneg (i - k.least) (Int.ne_of_gt hpos)
  exact holds_iff.mpr ⟨by rw [wrap]; omega, by rw [wrap]; omega⟩

end Text.IntegerKind

namespace Overflow
variable {o : Overflow} {k : IntegerKind} {i j : Int}

/-- A sum of integers of a kind; none where the program panics. -/
def add (o : Overflow) (k : IntegerKind) (i j : Int) : Option Int :=
  match o with
  | panics => if k.holds (i + j) then some (i + j) else none
  | wraps => some (k.wrap (i + j))

theorem add_of_holds (o : Overflow) (h : k.holds (i + j) = true) : o.add k i j = some (i + j) := by
  cases o with
  | panics => exact if_pos h
  | wraps => exact congrArg some (IntegerKind.wrap_of_holds h)

/-- A sum is of the kind, whatever has become of it. -/
theorem holds_add {s : Int} (h : o.add k i j = some s) : k.holds s = true := by
  cases o with
  | panics =>
    obtain ⟨holds, rfl⟩ : k.holds (i + j) = true ∧ i + j = s := by simpa [add] using h
    exact holds
  | wraps =>
    obtain rfl : k.wrap (i + j) = s := Option.some.inj h
    exact k.holds_wrap (i + j)

theorem add_eq_none_iff : o.add k i j = none ↔ o = panics ∧ k.holds (i + j) = false := by
  cases o <;> simp [add]

/-- It makes no difference if a number is added in two parts. -/
theorem add_add {s : Int} (h : o.add k i j = some s) (l : Int) :
    o.add k s l = o.add k i (j + l) := by
  cases o with
  | panics =>
    obtain ⟨-, rfl⟩ : k.holds (i + j) = true ∧ i + j = s := by simpa [add] using h
    simp only [add, Int.add_assoc]
  | wraps =>
    obtain rfl : k.wrap (i + j) = s := Option.some.inj h
    simp only [add, IntegerKind.wrap_add_wrap, Int.add_assoc]

end Overflow
end Outbox

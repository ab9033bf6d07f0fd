import Mathlib.Algebra.Group.Nat.Defs
import Outbox.Text.Decimal
import Outbox.Text.Numeral

/-! Decimal numerals. What is read as an integer of a kind is an optional sign and at least one
digit, and exactly the integer that these write, as long as it is of the kind: nothing is wrapped or
cut off. Every integer of a kind is written so that it is read again. -/
namespace Outbox.Text

def IsNumeral (cs : List Char) : Prop := cs ≠ [] ∧ ∀ c ∈ cs, c.isDigit = true

/-- A text writes an integer: an optional sign, then digits. -/
inductive Writes : List Char → Int → Prop
  | plain {cs : List Char} (digits : IsNumeral cs) : Writes cs (Nat.ofDigitChars 10 cs 0)
  | plus {cs : List Char} (digits : IsNumeral cs) : Writes ('+' :: cs) (Nat.ofDigitChars 10 cs 0)
  | minus {cs : List Char} (digits : IsNumeral cs) :
    Writes ('-' :: cs) (-(Nat.ofDigitChars 10 cs 0 : Int))

theorem isNumeral_toDigits (n : Nat) : IsNumeral (Nat.toDigits 10 n) :=
  ⟨Nat.toDigits_ne_nil, fun _ hc => Nat.isDigit_of_mem_toDigits (by decide) (by decide) hc⟩

theorem isNumeral_padded (width n : Nat) : IsNumeral (padded width n) := by
  obtain ⟨hn, hd⟩ := isNumeral_toDigits n
  refine ⟨by simp [padded, hn], fun c hc => ?_⟩
  rcases List.mem_append.mp hc with hc | hc
  · rw [(List.mem_replicate.mp hc).2]
    rfl
  · exact hd c hc

theorem length_padded {width n : Nat} (hw : 0 < width) (hn : n < 10 ^ width) :
    (padded width n).length = width := by
  have hl := (Nat.length_toDigits_le_iff (by decide) hw).mpr hn
  rw [padded, List.length_append, List.length_replicate]
  omega

theorem digits_append {ds r : List Char} (hd : ∀ c ∈ ds, c.isDigit = true)
    (hr : ∀ c, r.head? = some c → c.isDigit = false) : digits (ds ++ r) = (ds, r) := by
  have ht : r.takeWhile Char.isDigit = [] ∧ r.dropWhile Char.isDigit = r := by
    cases r with
    | nil => exact ⟨rfl, rfl⟩
    | cons c r => simp [hr c rfl]
  rw [digits, List.takeWhile_append_of_pos hd, List.dropWhile_append_of_pos hd, ht.1, ht.2,
    List.append_nil]

theorem digits_spec (cs : List Char) :
    cs = (digits cs).1 ++ (digits cs).2 ∧ ∀ c ∈ (digits cs).1, c.isDigit = true :=
  ⟨(List.takeWhile_append_dropWhile ..).symm, fun _ hc => List.all_eq_true.mp
    List.all_takeWhile _ hc⟩

theorem writes_decimal (i : Int) : Writes (decimal i) i := by
  have hn : Nat.ofDigitChars 10 (Nat.toDigits 10 i.natAbs) 0 = i.natAbs :=
    Nat.ofDigitChars_ten_toDigits
  unfold decimal
  split
  · have hw := Writes.minus (isNumeral_toDigits i.natAbs)
    have he : -(i.natAbs : Int) = i := by omega
    rwa [hn, he] at hw
  · have hw := Writes.plain (isNumeral_toDigits i.natAbs)
    have he : (i.natAbs : Int) = i := by omega
    rwa [hn, he] at hw

theorem le_ofDigitChars (cs : List Char) (n : Nat) : n ≤ Nat.ofDigitChars 10 cs n := by
  induction cs generalizing n with
  | nil => exact Nat.le_refl n
  | cons c cs ih =>
    rw [Nat.ofDigitChars_cons]
    have hle := ih (10 * n + (c.toNat - '0'.toNat))
    omega

/-- Digits are read onto a number as long as what they write stays within the limit. -/
theorem readDigits_eq_ok_iff {limit : Nat} {beyond : NumeralFault} {n m : Nat} {cs : List Char}
    (hn : n ≤ limit) :
    readDigits limit beyond n cs = .ok m ↔
      (∀ c ∈ cs, c.isDigit = true) ∧ m = Nat.ofDigitChars 10 cs n ∧ m ≤ limit := by
  induction cs generalizing n with
  | nil =>
    simp only [readDigits, Except.ok.injEq, Nat.ofDigitChars_nil]
    constructor
    · rintro rfl
      exact ⟨nofun, rfl, hn⟩
    · rintro ⟨-, rfl, -⟩
      rfl
  | cons c cs ih =>
    rw [Nat.ofDigitChars_cons]
    cases hc : c.isDigit with
    | false => simp [readDigits, hc]
    | true =>
      by_cases hm : 10 * n + (c.toNat - '0'.toNat) ≤ limit
      · simp only [readDigits, hc, if_true, if_pos hm, ih hm, List.forall_mem_cons, true_and]
      · -- the number never comes down again
        have hle := le_ofDigitChars cs (10 * n + (c.toNat - '0'.toNat))
        simp only [readDigits, hc, if_true, if_neg hm, reduceCtorEq, false_iff, not_and]
        intro _ he
        omega

theorem readNatural_eq_ok_iff {limit : Nat} {beyond : NumeralFault} {m : Nat} {cs : List Char} :
    readNatural limit beyond cs = .ok m ↔
      IsNumeral cs ∧ m = Nat.ofDigitChars 10 cs 0 ∧ m ≤ limit := by
  cases cs with
  | nil => simp [readNatural, IsNumeral]
  | cons c cs =>
    have hn : c :: cs ≠ [] := nofun
    simp only [readNatural, readDigits_eq_ok_iff (Nat.zero_le limit), IsNumeral, ne_eq, hn,
      not_false_iff, true_and]

namespace IntegerKind
variable {k : IntegerKind}

theorem holds_natCast (n : Nat) : k.holds n = true ↔ n ≤ k.above := by
  have hn : ¬(n : Int) < 0 := by omega
  simp [holds, hn]

theorem holds_neg_natCast (n : Nat) :
    k.holds (-(n : Int)) = true ↔ n = 0 ∨ ∃ b, k.below = some b ∧ n ≤ b := by
  by_cases hn : n = 0
  · simp [holds, hn]
  · cases hb : k.below with
    | none => simp [holds, hb, hn]
    | some b => simp [holds, hb, hn]

theorem holds_signed64_iff {i : Int} :
    signed64.holds i = true ↔ -9223372036854775808 ≤ i ∧ i ≤ 9223372036854775807 := by
  have hp : Nat.pow 2 63 = 9223372036854775808 := by decide
  by_cases hi : i < 0
  · simp only [holds, signed64, if_pos hi, decide_eq_true_eq, hp]
    omega
  · simp only [holds, signed64, if_neg hi, decide_eq_true_eq, hp]
    omega

end IntegerKind

namespace Writes
variable {cs : List Char} {i : Int}

theorem plus_iff : Writes ('+' :: cs) i ↔ IsNumeral cs ∧ i = Nat.ofDigitChars 10 cs 0 := by
  refine ⟨fun h => ?_, ?_⟩
  · cases h with
    | plain digits => exact absurd (digits.2 '+' List.mem_cons_self) (by decide)
    | plus digits => exact ⟨digits, rfl⟩
  · rintro ⟨digits, rfl⟩
    exact .plus digits

theorem minus_iff :
    Writes ('-' :: cs) i ↔ IsNumeral cs ∧ i = -(Nat.ofDigitChars 10 cs 0 : Int) := by
  refine ⟨fun h => ?_, ?_⟩
  · cases h with
    | plain digits => exact absurd (digits.2 '-' List.mem_cons_self) (by decide)
    | minus digits => exact ⟨digits, rfl⟩
  · rintro ⟨digits, rfl⟩
    exact .minus digits

theorem plain_iff (plus : ∀ rest, cs ≠ '+' :: rest) (minus : ∀ rest, cs ≠ '-' :: rest) :
    Writes cs i ↔ IsNumeral cs ∧ i = Nat.ofDigitChars 10 cs 0 := by
  refine ⟨fun h => ?_, ?_⟩
  · cases h with
    | plain digits => exact ⟨digits, rfl⟩
    | plus => exact absurd rfl (plus _)
    | minus => exact absurd rfl (minus _)
  · rintro ⟨digits, rfl⟩
    exact .plain digits

end Writes

theorem map_eq_ok_iff {ε α β : Type} {f : α → β} {r : Except ε α} {b : β} :
    r.map f = .ok b ↔ ∃ a, r = .ok a ∧ f a = b := by
  cases r <;> simp [Except.map]

theorem map_cast_eq_ok_iff {ε : Type} {f : Int → Int} {r : Except ε Nat} {i : Int} :
    Except.map f (do let n ← r; pure (n : Int)) = .ok i ↔ ∃ n : Nat, r = .ok n ∧ f n = i := by
  cases r <;> simp [Except.map, bind, Except.bind, pure, Except.pure]

/-- What is read as an integer of a kind writes that integer, which is of the kind; and whatever
writes an integer of the kind is read as that. A minus sign is read for kinds with negative numbers
only. -/
theorem readInteger_eq_ok_iff {k : IntegerKind} {cs : List Char} {i : Int} :
    readInteger k cs = .ok i ↔
      Writes cs i ∧ k.holds i = true ∧ (k.below = none → cs.head? ≠ some '-') := by
  unfold readInteger
  split
  · refine iff_of_false nofun fun h => ?_
    cases h.1 with
    | plain digits => exact digits.1 rfl
  · next cs =>
    simp only [map_eq_ok_iff, readNatural_eq_ok_iff, Writes.plus_iff]
    constructor
    · rintro ⟨m, ⟨digits, rfl, hm⟩, rfl⟩
      exact ⟨⟨digits, rfl⟩, k.holds_natCast _ |>.mpr hm, fun _ => by simp⟩
    · rintro ⟨⟨digits, rfl⟩, hm, -⟩
      exact ⟨_, ⟨digits, rfl, k.holds_natCast _ |>.mp hm⟩, rfl⟩
  · next cs =>
    cases hb : k.below with
    | none => simp
    | some b =>
      simp only [map_cast_eq_ok_iff, readNatural_eq_ok_iff, Writes.minus_iff]
      constructor
      · rintro ⟨m, ⟨digits, rfl, hm⟩, rfl⟩
        exact ⟨⟨digits, rfl⟩, k.holds_neg_natCast _ |>.mpr (.inr ⟨b, hb, hm⟩), nofun⟩
      · rintro ⟨⟨digits, rfl⟩, hm, -⟩
        refine ⟨_, ⟨digits, rfl, ?_⟩, rfl⟩
        rcases k.holds_neg_natCast _ |>.mp hm with hz | ⟨c, hc, hm⟩
        · omega
        · cases hb.symm.trans hc
          exact hm
  · next plus minus =>
    simp only [map_eq_ok_iff, readNatural_eq_ok_iff, Writes.plain_iff plus minus]
    have hh : cs.head? ≠ some '-' := by
      intro hh
      obtain ⟨rest, rfl⟩ := List.head?_eq_some_iff.mp hh
      exact minus rest rfl
    constructor
    · rintro ⟨m, ⟨digits, rfl, hm⟩, rfl⟩
      exact ⟨⟨digits, rfl⟩, k.holds_natCast _ |>.mpr hm, fun _ => hh⟩
    · rintro ⟨⟨digits, rfl⟩, hm, -⟩
      exact ⟨_, ⟨digits, rfl, k.holds_natCast _ |>.mp hm⟩, rfl⟩

end Outbox.Text

import Mathlib.Tactic.SplitIfs
import Outbox.Json.Document
import Outbox.Proofs.Identifier
import Outbox.Proofs.Reading

/-! The text of JSON documents. It is written by the grammar, whatever the characters of its texts
and names and the size of its numbers; so every document is read as it was rendered. -/
namespace Outbox.Json

open Reader

theorem head?_toDigits (n : Nat) (h : (Nat.toDigits 10 n).head? = some '0') :
    Nat.toDigits 10 n = ['0'] := by
  induction n using Nat.strongRecOn with
  | ind n ih =>
    by_cases hn : n < 10
    · rw [Nat.toDigits_of_lt_base hn] at h ⊢
      rw [Option.some.inj h]
    · -- the digits before the last would write zero
      have hd : n / 10 < n := by omega
      obtain ⟨c, rest, hc⟩ := List.exists_cons_of_ne_nil
        (Nat.toDigits_ne_nil : Nat.toDigits 10 (n / 10) ≠ [])
      rw [Nat.toDigits_of_base_le (by decide) (by omega), hc] at h
      have hz := Nat.ofDigitChars_ten_toDigits (n := n / 10)
      rw [ih _ hd (hc ▸ h)] at hz
      have hz : 0 = n / 10 := hz
      omega

theorem isWhole_toDigits (n : Nat) : IsWhole (Nat.toDigits 10 n) :=
  ⟨Text.isNumeral_toDigits n, head?_toDigits n⟩

end Outbox.Json

namespace Outbox.Number

open Json

theorem decimal_eq (i : Int) :
    Text.decimal i = (if decide (i < 0) then ['-'] else []) ++ Nat.toDigits 10 i.natAbs := by
  by_cases hi : i < 0 <;> simp [Text.decimal, hi]

theorem writes_chars (n : Number) : WritesNumeral n.chars n.numeral := by
  cases n with
  | integer i =>
    have h : WritesNumeral ((if decide (i < 0) then ['-'] else []) ++ _) _ :=
      .parts (isWhole_toDigits i.natAbs) .none .none
    rwa [List.append_nil, List.append_nil, ← decimal_eq] at h
  | real m e =>
    have h : WritesNumeral ((if decide (m < 0) then ['-'] else []) ++ _) _ :=
      .parts (isWhole_toDigits m.natAbs) .none (.power (.inl rfl) (Text.writes_decimal e))
    rwa [List.nil_append, ← List.append_assoc, ← decimal_eq] at h

theorem mantissa_numeral (i : Int) :
    (if decide (i < 0) then -(i.natAbs : Int) else (i.natAbs : Int)) = i := by
  by_cases hi : i < 0
  · rw [decide_eq_true hi, if_pos rfl]
    omega
  · rw [decide_eq_false hi, if_neg Bool.false_ne_true]
    omega

theorem number_numeral (n : Number) : Reader.number n.numeral = n := by
  cases n with
  | integer i =>
    have hz : (decide (i < 0) && i.natAbs == 0) = false := by
      by_cases hi : i < 0
      · have hn : i.natAbs ≠ 0 := by omega
        rw [beq_eq_false_iff_ne.mpr hn, Bool.and_false]
      · rw [decide_eq_false hi, Bool.false_and]
    simp only [Reader.number, numeral, List.append_nil, Nat.ofDigitChars_ten_toDigits, hz,
      mantissa_numeral]
    rfl
  | real m e =>
    simp only [Reader.number, numeral, List.append_nil, Nat.ofDigitChars_ten_toDigits,
      mantissa_numeral, Option.isNone_some, Bool.and_false, Bool.false_and, Option.getD_some,
      List.length_nil]
    simp

end Outbox.Number

namespace Outbox.Json

open Reader

section Texts

/-- What stands for a character is one piece, whatever comes after it. -/
theorem exists_piece (c : Char) : ∃ p,
    (∀ {cs ps}, WritesPieces cs ps → WritesPieces (escaped c ++ cs) (p :: ps)) ∧
      ∀ {ps ds}, Means ps ds → Means (p :: ps) (c :: ds) := by
  unfold escaped
  split_ifs with quote backslash backspace feed newline back tab control
  · exact ⟨.char c, fun h => .short (by rw [quote]; rfl) h, .char c⟩
  · exact ⟨.char c, fun h => .short (by rw [backslash]; rfl) h, .char c⟩
  · exact ⟨.char c, fun h => .short (by rw [backspace]; rfl) h, .char c⟩
  · exact ⟨.char c, fun h => .short (by rw [feed]; rfl) h, .char c⟩
  · exact ⟨.char c, fun h => .short (by rw [newline]; rfl) h, .char c⟩
  · exact ⟨.char c, fun h => .short (by rw [back]; rfl) h, .char c⟩
  · exact ⟨.char c, fun h => .short (by rw [tab]; rfl) h, .char c⟩
  · have digits : ∀ n < 0x20, Text.ofHexDigits?
        ['0', '0', Nat.digitChar (n / 16), Nat.digitChar (n % 16)] = some n := by decide
    have halves : ∀ n < 0x20, isHighSurrogate n = false ∧ isLowSurrogate n = false := by decide
    obtain ⟨high, low⟩ := halves c.toNat control
    refine ⟨.unit c.toNat, fun h => .unit (digits c.toNat control) h, fun h => ?_⟩
    have hm := h.unit high low
    rwa [Char.ofNat_toNat] at hm
  · exact ⟨.char c, fun h => .plain quote backslash (Nat.le_of_not_lt control) h, .char c⟩

theorem exists_pieces (cs : List Char) :
    ∃ ps, WritesPieces (cs.flatMap escaped) ps ∧ Means ps cs := by
  induction cs with
  | nil => exact ⟨[], .nil, .nil⟩
  | cons c cs ih =>
    obtain ⟨p, hw, hm⟩ := exists_piece c
    obtain ⟨ps, pieces, means⟩ := ih
    exact ⟨p :: ps, hw pieces, hm means⟩

theorem writes_quote (s : Option String) : WritesText (quote s) s := by
  cases s with
  | some s =>
    obtain ⟨ps, pieces, means⟩ := exists_pieces s.toList
    exact .some pieces means
  | none =>
    have pieces : WritesPieces "\\ud800".toList [.unit 0xd800] := .unit (by decide) .nil
    refine .none pieces fun ds h => ?_
    cases h with
    | unit high => exact absurd high (by decide)

end Texts

theorem Writes.unpadded {cs : List Char} {j : Json} (h : Writes cs (.value j)) :
    Writes cs (.padded j) := by
  have hp := Writes.padded isBlanks_nil h isBlanks_nil
  rwa [List.nil_append, List.append_nil] at hp

theorem Writes.compact {cs : List Char} {j : Json} (k : Option String)
    (h : Writes cs (.value j)) : Writes (quote k ++ ':' :: cs) (.member k j) :=
  .field isBlanks_nil (writes_quote k) isBlanks_nil h.unpadded

mutual
theorem writes_chars (j : Json) : Writes j.chars (.value j) := by
  match j with
  | .null => exact .null
  | .bool true => exact .isTrue
  | .bool false => exact .isFalse
  | .number n =>
    have h := Writes.number n.writes_chars
    rwa [n.number_numeral] at h
  | .text s => exact .text (writes_quote s)
  | .array [] => exact .emptyArray isBlanks_nil
  | .array (j :: js) =>
    obtain ⟨ds, hd, hw⟩ := exists_items js (writes_chars j)
    rw [chars, List.cons_append, hd]
    exact .array hw
  | .object [] => exact .emptyObject isBlanks_nil
  | .object ((k, j) :: ms) =>
    obtain ⟨ds, hd, hw⟩ := exists_members ms ((writes_chars j).compact k)
    rw [chars, List.cons_append, List.cons_append, hd]
    exact .object hw

theorem exists_items (js : List Json) {j : Json} {cs : List Char} (h : Writes cs (.value j)) :
    ∃ ds, cs ++ itemChars js = ds ++ [']'] ∧ Writes ds (.items (j :: js)) := by
  match js with
  | [] => exact ⟨cs, rfl, .lastItem h.unpadded⟩
  | j :: js =>
    obtain ⟨ds, hd, hw⟩ := exists_items js (writes_chars j)
    refine ⟨cs ++ ',' :: ds, ?_, .item h.unpadded hw⟩
    rw [itemChars, List.cons_append, hd, List.append_assoc, List.cons_append]

theorem exists_members (ms : List (Option String × Json)) {k : Option String} {j : Json}
    {cs : List Char} (h : Writes cs (.member k j)) :
    ∃ ds, cs ++ memberChars ms = ds ++ ['\x7d'] ∧ Writes ds (.members ((k, j) :: ms)) := by
  match ms with
  | [] => exact ⟨cs, rfl, .lastMember h⟩
  | (k, j) :: ms =>
    obtain ⟨ds, hd, hw⟩ := exists_members ms ((writes_chars j).compact k)
    refine ⟨cs ++ ',' :: ds, ?_, .member h hw⟩
    rw [memberChars, List.cons_append, List.cons_append, hd, List.append_assoc, List.cons_append]
end

/-- Every document is read as it was rendered. -/
theorem ofText?_render (j : Json) : ofText? j.render = some j := by
  rw [ofText?, render, String.toList_ofList]
  exact read?_eq_some_iff.mpr j.writes_chars.unpadded

end Outbox.Json

import Outbox.Proofs.Decimal
import Outbox.Timestamp.Reader

/-! The text of instants: every instant is written so that it is read again, down to the nanosecond,
at the second 60 too. Each part is read off the front of what it is written in, as long as what
follows does not go on with it. -/
namespace Outbox

theorem Date.Valid.day_le {d : Date} (h : d.Valid) : d.day ≤ 31 := by
  have hd : daysIn d.year d.month ≤ 31 := by
    unfold daysIn
    split <;> split <;> decide
  exact Nat.le_trans h.2.2.2.2.2 hd

namespace Timestamp

open Text (padded IsNumeral)

variable {ds r : List Char}

/-- Nothing that could go on with a number. -/
def Parts (r : List Char) : Prop := ∀ c, r.head? = some c → c.isDigit = false

theorem parts_cons {c : Char} (h : c.isDigit = false) (r : List Char) : Parts (c :: r) := by
  rintro d hd
  cases hd
  exact h

theorem takeWhile_digits (hd : ∀ c ∈ ds, c.isDigit = true) (hr : Parts r) :
    (ds ++ r).takeWhile Char.isDigit = ds := congrArg Prod.fst (Text.digits_append hd hr)

theorem dropWhile_digits (hd : ∀ c ∈ ds, c.isDigit = true) (hr : Parts r) :
    (ds ++ r).dropWhile Char.isDigit = r := congrArg Prod.snd (Text.digits_append hd hr)

theorem skipBlanks_digits (hd : IsNumeral ds) (r : List Char) : skipBlanks (ds ++ r) = ds ++ r := by
  obtain ⟨hn, hd⟩ := hd
  cases ds with
  | nil => exact absurd rfl hn
  | cons c ds =>
    have hc := Text.isBlank_of_isDigit (hd c List.mem_cons_self)
    simp [skipBlanks, hc]

theorem skipBlanks_cons {c : Char} (h : Text.isBlank c = false) (r : List Char) :
    skipBlanks (c :: r) = c :: r := by
  simp [skipBlanks, h]

theorem number?_append {most : Nat} (hd : IsNumeral ds) (hl : ds.length ≤ most)
    (hr : ds.length = most ∨ Parts r) :
    number? most (ds ++ r) = some (Nat.ofDigitChars 10 ds 0, r) := by
  have ht : ((ds ++ r).take most).takeWhile Char.isDigit = ds := by
    rw [List.take_append, List.take_of_length_le hl]
    refine takeWhile_digits hd.2 ?_
    rcases hr with rfl | hr
    · simp [Parts]
    · intro c hc
      rw [List.head?_take] at hc
      split at hc
      · cases hc
      · exact hr c hc
  have he : ds.isEmpty = false := by simp [hd.1]
  simp [number?, ht, he]

theorem number?_padded {width n : Nat} (hw : 0 < width) (hn : n < 10 ^ width) (r : List Char) :
    number? width (padded width n ++ r) = some (n, r) := by
  have hl := Text.length_padded hw hn
  rw [number?_append (Text.isNumeral_padded width n) (Nat.le_of_eq hl) (.inl hl),
    Text.ofDigitChars_padded]

theorem year?_yearText (year : Int) (hr : Parts r) :
    year? (Date.yearText year ++ r) = some (year, r) := by
  have hd := Text.isNumeral_padded 4 year.natAbs
  have signed : number? (padded 4 year.natAbs ++ r).length (padded 4 year.natAbs ++ r) =
      some (year.natAbs, r) := by
    rw [number?_append hd (by simp) (.inr hr), Text.ofDigitChars_padded]
  unfold Date.yearText
  split
  · have he : -(year.natAbs : Int) = year := by omega
    simp only [List.cons_append, year?, signed, Option.map_some, he]
  · have he : (year.natAbs : Int) = year := by omega
    split
    · simp only [List.cons_append, year?, signed, Option.map_some, he]
    · have hn : year.natAbs < 10 ^ 4 := by omega
      have hu := number?_padded (by decide) hn r
      obtain ⟨c, rest, hc⟩ := List.exists_cons_of_ne_nil hd.1
      have hdigit : c.isDigit = true := hd.2 c (hc ▸ List.mem_cons_self)
      rw [hc] at hu ⊢
      unfold year?
      split
      · next he => cases he; cases hdigit
      · next he => cases he; cases hdigit
      · simp only [hu, Option.map_some, he]

theorem skipBlanks_yearText (year : Int) (r : List Char) :
    skipBlanks (Date.yearText year ++ r) = Date.yearText year ++ r := by
  unfold Date.yearText
  split
  · exact skipBlanks_cons (by decide) _
  · split
    · exact skipBlanks_cons (by decide) _
    · exact skipBlanks_digits (Text.isNumeral_padded ..) r

theorem skipBlanks_padded (width n : Nat) (r : List Char) :
    skipBlanks (padded width n ++ r) = padded width n ++ r :=
  skipBlanks_digits (Text.isNumeral_padded ..) r

theorem mark?_cons (m : Char) (r : List Char) : mark? m (m :: r) = some r := if_pos rfl

theorem date?_append {d : Date} (h : d.Valid) (r : List Char) :
    date? (d.chars ++ r) = some (d, r) := by
  have hday := h.day_le
  obtain ⟨-, -, -, hmonth, -, -⟩ := h
  have hm : d.month < 10 ^ 2 := by omega
  have hd : d.day < 10 ^ 2 := by omega
  have hy := year?_yearText d.year (parts_cons (c := '-') (by decide)
    (padded 2 d.month ++ '-' :: (padded 2 d.day ++ r)))
  simp only [Date.chars, List.append_assoc, List.cons_append]
  simp only [date?, skipBlanks_yearText, hy, skipBlanks_cons (c := '-') (by decide), mark?_cons,
    skipBlanks_padded, number?_padded (by decide : 0 < 2) hm, number?_padded (by decide : 0 < 2) hd,
    Option.bind_eq_bind, Option.bind_some, Option.pure_def]

theorem fraction?_padded {width n : Nat} (hw : 0 < width) (hw' : width ≤ 9) (hn : n < 10 ^ 9)
    (exact : n % 10 ^ (9 - width) = 0) (hr : Parts r) :
    fraction? ('.' :: (padded width (n / 10 ^ (9 - width)) ++ r)) = some (n, r) := by
  have hlt : n / 10 ^ (9 - width) < 10 ^ width := by
    refine Nat.div_lt_of_lt_mul ?_
    rwa [← Nat.pow_add, Nat.sub_add_cancel hw']
  have hmul : n / 10 ^ (9 - width) * 10 ^ (9 - width) = n :=
    Nat.div_mul_cancel (Nat.dvd_of_mod_eq_zero exact)
  obtain ⟨hne, hd⟩ := Text.isNumeral_padded width (n / 10 ^ (9 - width))
  have hl := Text.length_padded hw hlt
  have he : (padded width (n / 10 ^ (9 - width))).isEmpty = false := by simp [hne]
  have ht := List.take_of_length_le (Nat.le_trans (Nat.le_of_eq hl) hw')
  have hv : Nat.ofDigitChars 10 (padded width (n / 10 ^ (9 - width))) 0 * Nat.pow 10 (9 - width) =
      n := by
    rw [Text.ofDigitChars_padded]
    exact hmul
  simp only [fraction?, takeWhile_digits hd hr, dropWhile_digits hd hr, he, ht, hl, hv,
    Bool.false_eq_true, if_false]

theorem fraction?_fractionText {n : Nat} (hn : n < 10 ^ 9) (hr : Parts r)
    (point : r.head? ≠ some '.') :
    fraction? (TimeOfDay.fractionText n ++ r) = some (n, r) := by
  have milli : Nat.pow 10 6 = 10 ^ (9 - 3) := rfl
  have micro : Nat.pow 10 3 = 10 ^ (9 - 6) := rfl
  unfold TimeOfDay.fractionText
  rw [milli, micro]
  split
  · next hz =>
    subst hz
    cases r with
    | nil => rfl
    | cons c r =>
      unfold fraction?
      split
      · next he => exact absurd (congrArg List.head? he) point
      · rfl
  · split
    · next exact => exact fraction?_padded (by decide) (by decide) hn exact hr
    · split
      · next exact => exact fraction?_padded (by decide) (by decide) hn exact hr
      · have hf : fraction? ('.' :: (padded 9 (n / 10 ^ (9 - 9)) ++ r)) = some (n, r) :=
          fraction?_padded (by decide) (by decide) hn (Nat.mod_one n) hr
        rwa [Nat.sub_self, Nat.pow_zero, Nat.div_one] at hf

theorem time?_append {t : TimeOfDay} (h : t.Valid) (hr : Parts r) (point : r.head? ≠ some '.') :
    time? (t.chars ++ r) = some (t, r) := by
  obtain ⟨hhour, hminute, hsecond, hnano⟩ := h
  have hh : t.hour < 10 ^ 2 := by omega
  have hm : t.minute < 10 ^ 2 := by omega
  have hs : t.second < 10 ^ 2 := by omega
  simp only [TimeOfDay.chars, List.append_assoc, List.cons_append]
  simp only [time?, skipBlanks_padded, number?_padded (by decide : 0 < 2) hh,
    number?_padded (by decide : 0 < 2) hm, number?_padded (by decide : 0 < 2) hs,
    skipBlanks_cons (c := ':') (by decide), mark?_cons, fraction?_fractionText hnano hr point,
    Option.bind_eq_bind, Option.bind_some, Option.pure_def]

theorem ofLocal?_zero (t : Timestamp) : ofLocal? t.date t.time 0 = some t := by
  obtain ⟨hhour, hminute, -, -⟩ := t.time_valid
  have hlow : ¬(t.time.hour * 60 + t.time.minute - 0 : Int) < 0 := by omega
  have hhigh : (t.time.hour * 60 + t.time.minute - 0 : Int) < 1440 := by omega
  have hh : ((t.time.hour * 60 + t.time.minute - 0 : Int) / 60).toNat = t.time.hour := by omega
  have hm : ((t.time.hour * 60 + t.time.minute - 0 : Int) % 60).toNat = t.time.minute := by omega
  simp only [ofLocal?, if_pos (And.intro t.date_valid t.time_valid), if_neg hlow, if_pos hhigh, hh,
    hm]
  exact of?_self t

/-- Every instant is read as it was written. -/
theorem ofText?_text (t : Timestamp) : ofText? t.text = some t := by
  have hz : zone? (skipBlanks ['Z']) = some (0, []) := by decide
  have hd := date?_append t.date_valid ('T' :: (t.time.chars ++ ['Z']))
  have ht := time?_append t.time_valid (parts_cons (c := 'Z') (by decide) []) (by decide)
  have hp : parting? ('T' :: (t.time.chars ++ ['Z'])) = some (t.time.chars ++ ['Z']) := rfl
  simp only [ofText?, text, String.toList_ofList, read?, chars, List.append_assoc,
    List.cons_append, hd, hp, ht, hz, Option.bind_eq_bind, Option.bind_some]
  exact ofLocal?_zero t

end Timestamp
end Outbox

import Outbox.Json.Reader
import Outbox.Proofs.Decimal

/-! The grammar of JSON texts, and how its numbers and texts in quotes are read: what is read is
written by the grammar, and what the grammar writes is read, as long as what follows does not go on
with it, as a digit after a number would. -/
namespace Outbox.Json

open Text (Numeral IsNumeral digits digits_append digits_spec exponentDigits? exponentPart?)
open Reader

/-- Digits without a needless zero in front. -/
structure IsWhole (ds : List Char) : Prop where
  digits : IsNumeral ds
  zero : ds.head? = some '0' → ds = ['0']

inductive WritesFraction : List Char → List Char → Prop
  | none : WritesFraction [] []
  | point {ds : List Char} (digits : IsNumeral ds) : WritesFraction ('.' :: ds) ds

inductive WritesExponent : List Char → Option Int → Prop
  | none : WritesExponent [] none
  | power {c : Char} {cs : List Char} {i : Int} (letter : c = 'e' ∨ c = 'E')
    (integer : Text.Writes cs i) : WritesExponent (c :: cs) (some i)

inductive WritesNumeral : List Char → Numeral → Prop
  | parts {whole point fraction power : List Char} {exponent : Option Int} {negative : Bool}
    (isWhole : IsWhole whole) (isFraction : WritesFraction point fraction)
    (isExponent : WritesExponent power exponent) :
    WritesNumeral ((if negative then ['-'] else []) ++ (whole ++ (point ++ power)))
      ⟨negative, whole, fraction, exponent⟩

inductive WritesPieces : List Char → List Piece → Prop
  | nil : WritesPieces [] []
  | plain {c : Char} {cs : List Char} {ps : List Piece} (quote : c ≠ '"') (backslash : c ≠ '\\')
    (visible : 0x20 ≤ c.toNat) (rest : WritesPieces cs ps) : WritesPieces (c :: cs) (.char c :: ps)
  | short {c e : Char} {cs : List Char} {ps : List Piece} (escape : shortEscape? c = some e)
    (rest : WritesPieces cs ps) : WritesPieces ('\\' :: c :: cs) (.char e :: ps)
  | unit {a b c d : Char} {n : Nat} {cs : List Char} {ps : List Piece}
    (digits : Text.ofHexDigits? [a, b, c, d] = some n) (rest : WritesPieces cs ps) :
    WritesPieces ('\\' :: 'u' :: a :: b :: c :: d :: cs) (.unit n :: ps)

/-- The characters that pieces stand for: a surrogate pair is one character. -/
inductive Means : List Piece → List Char → Prop
  | nil : Means [] []
  | char {ps : List Piece} {cs : List Char} (c : Char) (rest : Means ps cs) :
    Means (.char c :: ps) (c :: cs)
  | unit {n : Nat} {ps : List Piece} {cs : List Char} (high : isHighSurrogate n = false)
    (low : isLowSurrogate n = false) (rest : Means ps cs) :
    Means (.unit n :: ps) (Char.ofNat n :: cs)
  | pair {h l : Nat} {ps : List Piece} {cs : List Char} (high : isHighSurrogate h = true)
    (low : isLowSurrogate l = true) (rest : Means ps cs) :
    Means (.unit h :: .unit l :: ps)
      (Char.ofNat (0x10000 + (h - 0xd800) * 0x400 + (l - 0xdc00)) :: cs)

/-- A text in quotes. Where half of a surrogate pair stands alone, it has no characters. -/
inductive WritesText : List Char → Option String → Prop
  | some {cs : List Char} {ps : List Piece} {s : String} (pieces : WritesPieces cs ps)
    (means : Means ps s.toList) : WritesText ('"' :: (cs ++ ['"'])) (some s)
  | none {cs : List Char} {ps : List Piece} (pieces : WritesPieces cs ps)
    (alone : ∀ ds, ¬Means ps ds) : WritesText ('"' :: (cs ++ ['"'])) none

def IsBlanks (bs : List Char) : Prop := ∀ c ∈ bs, isBlank c = true

/-- What a part of a text writes: a document, without blanks around it or with such, all there is
between the brackets of an array or object that is not empty, or a member. -/
inductive Phrase
  | value (j : Json)
  | padded (j : Json)
  | items (js : List Json)
  | member (k : Option String) (j : Json)
  | members (ms : List (Option String × Json))

inductive Writes : List Char → Phrase → Prop
  | null : Writes "null".toList (.value .null)
  | isTrue : Writes "true".toList (.value (.bool true))
  | isFalse : Writes "false".toList (.value (.bool false))
  | number {cs : List Char} {n : Numeral} (numeral : WritesNumeral cs n) :
    Writes cs (.value (.number (Reader.number n)))
  | text {cs : List Char} {s : Option String} (quoted : WritesText cs s) :
    Writes cs (.value (.text s))
  | emptyArray {bs : List Char} (blanks : IsBlanks bs) :
    Writes ('[' :: (bs ++ [']'])) (.value (.array []))
  | array {cs : List Char} {js : List Json} (items : Writes cs (.items js)) :
    Writes ('[' :: (cs ++ [']'])) (.value (.array js))
  | emptyObject {bs : List Char} (blanks : IsBlanks bs) :
    Writes ('\x7b' :: (bs ++ ['\x7d'])) (.value (.object []))
  | object {cs : List Char} {ms : List (Option String × Json)} (members : Writes cs (.members ms)) :
    Writes ('\x7b' :: (cs ++ ['\x7d'])) (.value (.object ms))
  | padded {before cs after : List Char} {j : Json} (blanks : IsBlanks before)
    (value : Writes cs (.value j)) (blanks' : IsBlanks after) :
    Writes (before ++ (cs ++ after)) (.padded j)
  | lastItem {cs : List Char} {j : Json} (item : Writes cs (.padded j)) : Writes cs (.items [j])
  | item {cs ds : List Char} {j : Json} {js : List Json} (item : Writes cs (.padded j))
    (rest : Writes ds (.items js)) : Writes (cs ++ ',' :: ds) (.items (j :: js))
  | field {before key after cs : List Char} {k : Option String} {j : Json}
    (blanks : IsBlanks before) (name : WritesText key k) (blanks' : IsBlanks after)
    (item : Writes cs (.padded j)) :
    Writes (before ++ (key ++ (after ++ ':' :: cs))) (.member k j)
  | lastMember {cs : List Char} {k : Option String} {j : Json} (member : Writes cs (.member k j)) :
    Writes cs (.members [(k, j)])
  | member {cs ds : List Char} {k : Option String} {j : Json} {ms : List (Option String × Json)}
    (member : Writes cs (.member k j)) (rest : Writes ds (.members ms)) :
    Writes (cs ++ ',' :: ds) (.members ((k, j) :: ms))

/-- Nothing that could go on with a number. -/
def Ends (r : List Char) : Prop :=
  ∀ c, r.head? = some c → c.isDigit = false ∧ c ≠ '.' ∧ c ≠ 'e' ∧ c ≠ 'E'

section Numerals
variable {cs ds r : List Char}

theorem exponentDigits?_append (hd : IsNumeral ds) (hr : Ends r) :
    exponentDigits? (ds ++ r) = some (Nat.ofDigitChars 10 ds 0, r) := by
  have hne : ds.isEmpty = false := List.isEmpty_eq_false_iff.mpr hd.1
  simp only [exponentDigits?, digits_append hd.2 fun c hc => (hr c hc).1, hne,
    Bool.false_eq_true, if_false]

theorem exponentDigits?_spec {n : Nat} (h : exponentDigits? cs = some (n, r)) :
    ∃ ds, cs = ds ++ r ∧ IsNumeral ds ∧ n = Nat.ofDigitChars 10 ds 0 := by
  obtain ⟨he, hd⟩ := digits_spec cs
  simp only [exponentDigits?] at h
  split at h
  · cases h
  · next hne =>
    cases h
    exact ⟨_, he, ⟨fun h0 => hne (List.isEmpty_iff.mpr h0), hd⟩, rfl⟩

theorem Ends.exponent (hr : Ends r) {power : List Char} {e : Option Int}
    (h : WritesExponent power e) {c : Char} (hc : (power ++ r).head? = some c) :
    c.isDigit = false ∧ c ≠ '.' := by
  cases h with
  | none => exact ⟨(hr c hc).1, (hr c hc).2.1⟩
  | power letter =>
    cases hc
    rcases letter with rfl | rfl <;> decide

theorem exponentPart?_append {e : Option Int} (h : WritesExponent ds e) (hr : Ends r) :
    exponentPart? (ds ++ r) = some (e, r) := by
  cases h with
  | none =>
    cases r with
    | nil => rfl
    | cons c r =>
      have hc : ¬(c = 'e' ∨ c = 'E') := fun hc => hc.elim (hr c rfl).2.2.1 (hr c rfl).2.2.2
      simp only [List.nil_append, exponentPart?, if_neg hc]
  | @power c cs i letter integer =>
    simp only [List.cons_append, exponentPart?, if_pos letter]
    cases integer with
    | plus digits => simp only [List.cons_append, exponentDigits?_append digits hr, Option.map_some]
    | minus digits => simp only [List.cons_append, exponentDigits?_append digits hr, Option.map_some]
    | plain digits =>
      obtain ⟨d, ds, rfl⟩ := List.exists_cons_of_ne_nil digits.1
      have hd := digits.2 d List.mem_cons_self
      split
      · next he =>
        obtain rfl := (List.cons.inj he).1
        exact absurd hd (by decide)
      · next he =>
        obtain rfl := (List.cons.inj he).1
        exact absurd hd (by decide)
      · rw [exponentDigits?_append digits hr, Option.map_some]

theorem exponentPart?_spec {e : Option Int} (h : exponentPart? cs = some (e, r)) :
    ∃ ds, cs = ds ++ r ∧ WritesExponent ds e := by
  unfold exponentPart? at h
  split at h
  · cases h
    exact ⟨[], rfl, .none⟩
  · split at h
    · next letter =>
      split at h <;>
        obtain ⟨⟨n, r'⟩, hn, he⟩ := Option.map_eq_some_iff.mp h <;>
        obtain ⟨ds, rfl, digits, rfl⟩ := exponentDigits?_spec hn <;>
        cases he
      · exact ⟨_, rfl, .power letter (.plus digits)⟩
      · exact ⟨_, rfl, .power letter (.minus digits)⟩
      · exact ⟨_, rfl, .power letter (.plain digits)⟩
    · cases h
      exact ⟨[], rfl, .none⟩

theorem fractionPart?_append {fraction : List Char} (h : WritesFraction ds fraction)
    (hr : ∀ c, r.head? = some c → c.isDigit = false ∧ c ≠ '.') :
    fractionPart? (ds ++ r) = some (fraction, r) := by
  cases h with
  | none =>
    unfold fractionPart?
    split
    · next he =>
      rw [List.nil_append] at he
      exact absurd rfl (hr '.' (he ▸ rfl)).2
    · rfl
  | point hd =>
    have hne : fraction.isEmpty = false := List.isEmpty_eq_false_iff.mpr hd.1
    simp only [List.cons_append, fractionPart?, digits_append hd.2 fun c hc => (hr c hc).1, hne,
      Bool.false_eq_true, if_false]

theorem fractionPart?_spec {fraction : List Char} (h : fractionPart? cs = some (fraction, r)) :
    ∃ ds, cs = ds ++ r ∧ WritesFraction ds fraction := by
  unfold fractionPart? at h
  split at h
  · next rest =>
    obtain ⟨he, hd⟩ := digits_spec rest
    simp only at h
    split at h
    · cases h
    · next hne =>
      cases h
      exact ⟨'.' :: _, congrArg _ he, .point ⟨fun h0 => hne (List.isEmpty_iff.mpr h0), hd⟩⟩
  · cases h
    exact ⟨[], rfl, .none⟩

theorem wholePart?_append (h : IsWhole ds) (hr : ∀ c, r.head? = some c → c.isDigit = false) :
    wholePart? (ds ++ r) = some (ds, r) := by
  have hne : ds.isEmpty = false := List.isEmpty_eq_false_iff.mpr h.digits.1
  unfold wholePart?
  split
  · next c rest he =>
    obtain rfl := h.zero (by cases ds <;> simp_all)
    obtain rfl := (List.cons.inj he).2
    rw [hr c rfl]
    rfl
  · next he =>
    obtain rfl := h.zero (by cases ds <;> simp_all)
    obtain rfl := (List.cons.inj he).2
    rfl
  · simp only [digits_append h.digits.2 hr, hne, Bool.false_eq_true, if_false]

theorem isWhole_zero : IsWhole ['0'] where
  digits := ⟨nofun, fun c hc => by rw [List.mem_singleton.mp hc]; rfl⟩
  zero := fun _ => rfl

theorem wholePart?_spec (h : wholePart? cs = some (ds, r)) : cs = ds ++ r ∧ IsWhole ds := by
  unfold wholePart? at h
  split at h
  · split at h
    · cases h
    · cases h
      exact ⟨rfl, isWhole_zero⟩
  · cases h
    exact ⟨rfl, isWhole_zero⟩
  · next h₁ h₂ =>
    obtain ⟨he, hd⟩ := digits_spec cs
    simp only at h
    split at h
    · cases h
    · next hne =>
      cases h
      refine ⟨he, ⟨fun h0 => hne (List.isEmpty_iff.mpr h0), hd⟩, fun hh => ?_⟩
      -- a zero in front would have been read before
      obtain ⟨t, ht⟩ := List.head?_eq_some_iff.mp hh
      rw [ht, List.cons_append] at he
      cases hr : t ++ (digits cs).2 with
      | nil => exact absurd (he.trans (congrArg _ hr)) h₂
      | cons c rest => exact absurd (he.trans (congrArg _ hr)) (h₁ c rest)

theorem WritesFraction.head {point fraction : List Char} (h : WritesFraction point fraction)
    (hr : ∀ c, r.head? = some c → c.isDigit = false) {c : Char}
    (hc : (point ++ r).head? = some c) : c.isDigit = false := by
  cases h with
  | none => exact hr c hc
  | point =>
    cases hc
    decide

theorem numeral?_append {whole point fraction power : List Char} {exponent : Option Int}
    (negative : Bool) (isWhole : IsWhole whole) (isFraction : WritesFraction point fraction)
    (isExponent : WritesExponent power exponent) (hr : Ends r) :
    numeral? negative (whole ++ (point ++ (power ++ r))) =
      some (⟨negative, whole, fraction, exponent⟩, r) := by
  have hp : ∀ c, (power ++ r).head? = some c → c.isDigit = false ∧ c ≠ '.' :=
    fun _ hc => hr.exponent isExponent hc
  have hw : ∀ c, (point ++ (power ++ r)).head? = some c → c.isDigit = false :=
    fun _ hc => isFraction.head (fun c hc => (hp c hc).1) hc
  simp only [numeral?, wholePart?_append isWhole hw, fractionPart?_append isFraction hp,
    exponentPart?_append isExponent hr, Option.bind_eq_bind, Option.bind_some, Option.pure_def]

theorem numeral?_spec {negative : Bool} {n : Numeral} (h : numeral? negative cs = some (n, r)) :
    ∃ ds, cs = ds ++ r ∧ WritesNumeral ((if negative then ['-'] else []) ++ ds) n := by
  simp only [numeral?, Option.bind_eq_bind, Option.bind_eq_some_iff, Option.pure_def, Prod.exists,
    Option.some.injEq, Prod.mk.injEq] at h
  obtain ⟨whole, cs₁, hw, fraction, cs₂, hf, exponent, cs₃, he, rfl, rfl⟩ := h
  obtain ⟨rfl, isWhole⟩ := wholePart?_spec hw
  obtain ⟨point, rfl, isFraction⟩ := fractionPart?_spec hf
  obtain ⟨power, rfl, isExponent⟩ := exponentPart?_spec he
  exact ⟨whole ++ (point ++ power), by simp only [List.append_assoc],
    .parts isWhole isFraction isExponent⟩

theorem IsWhole.head (h : IsWhole ds) : ∃ c rest, ds = c :: rest ∧ c.isDigit = true := by
  obtain ⟨c, rest, rfl⟩ := List.exists_cons_of_ne_nil h.digits.1
  exact ⟨c, rest, rfl, h.digits.2 c List.mem_cons_self⟩

theorem WritesNumeral.head {n : Numeral} (h : WritesNumeral ds n) :
    ∃ c rest, ds = c :: rest ∧ (c.isDigit = true ∨ c = '-') := by
  cases h with
  | @parts whole _ _ _ _ negative isWhole =>
    cases negative with
    | true => exact ⟨'-', _, rfl, .inr rfl⟩
    | false =>
      obtain ⟨c, rest, rfl, hc⟩ := isWhole.head
      exact ⟨c, _, rfl, .inl hc⟩

theorem number?_append {n : Numeral} (h : WritesNumeral ds n) (hr : Ends r) :
    number? (ds ++ r) = some (Reader.number n, r) := by
  cases h with
  | @parts whole point fraction power exponent negative isWhole isFraction isExponent =>
    have hn := numeral?_append negative isWhole isFraction isExponent hr
    cases negative with
    | true =>
      simp only [if_true, List.cons_append, List.nil_append, List.append_assoc, number?, unsigned?,
        hn, Option.map_some]
    | false =>
      obtain ⟨c, rest, rfl, hc⟩ := isWhole.head
      simp only [Bool.false_eq_true, if_false, List.nil_append, List.append_assoc]
      unfold number?
      split
      · next he =>
        obtain rfl := (List.cons.inj he).1
        exact absurd hc (by decide)
      · rw [unsigned?, hn, Option.map_some]

theorem number?_spec {m : Number} (h : number? cs = some (m, r)) :
    ∃ ds n, cs = ds ++ r ∧ WritesNumeral ds n ∧ m = Reader.number n := by
  unfold number? at h
  split at h <;>
    obtain ⟨⟨n, r'⟩, hn, he⟩ := Option.map_eq_some_iff.mp h <;>
    obtain ⟨ds, rfl, hw⟩ := numeral?_spec hn <;>
    cases he
  · exact ⟨_, n, rfl, hw, rfl⟩
  · exact ⟨_, n, rfl, hw, rfl⟩

end Numerals

section Texts
variable {cs ds r : List Char} {ps : List Piece}

theorem pieces?_append (h : WritesPieces ds ps) : pieces? (ds ++ '"' :: r) = some (ps, r) := by
  induction h with
  | nil => rfl
  | @plain c cs ps quote backslash visible _ ih =>
    have hc : ¬(c = '\\' ∨ c.toNat < 0x20) := by
      rintro (hb | hl)
      · exact backslash hb
      · omega
    rw [List.cons_append, pieces?.eq_5 c _ quote (fun _ _ _ _ _ hb _ => backslash hb)
      (fun _ _ hb _ => backslash hb), if_neg hc, ih]
  | @short c e cs ps escape _ ih =>
    have hu : c ≠ 'u' := by
      rintro rfl
      cases escape
    rw [List.cons_append, List.cons_append, pieces?.eq_4 c _ fun _ _ _ _ _ h _ => hu h, escape, ih]
  | unit digits _ ih => simp only [List.cons_append, pieces?, digits, ih]

theorem pieces?_spec (h : pieces? cs = some (ps, r)) :
    ∃ ds, cs = ds ++ '"' :: r ∧ WritesPieces ds ps := by
  fun_induction pieces? cs generalizing ps r with
  | case1 => cases h
  | case2 rest =>
    cases h
    exact ⟨[], rfl, .nil⟩
  | case3 a b c d rest n qs q hp digits ih =>
    cases h
    obtain ⟨ds, rfl, hw⟩ := ih hp
    exact ⟨_, rfl, .unit digits hw⟩
  | case4 => cases h
  | case5 c rest _ e qs q hp escape ih =>
    cases h
    obtain ⟨ds, rfl, hw⟩ := ih hp
    exact ⟨_, rfl, .short escape hw⟩
  | case6 => cases h
  | case7 => cases h
  | case8 c rest quote _ _ visible qs q hp ih =>
    cases h
    obtain ⟨backslash, visible⟩ := not_or.mp visible
    obtain ⟨ds, rfl, hw⟩ := ih hp
    exact ⟨_, rfl, .plain quote backslash (by omega) hw⟩
  | case9 => cases h

theorem assemble?_unit {n : Nat} (high : isHighSurrogate n = false)
    (low : isLowSurrogate n = false) (ps : List Piece) :
    assemble? (.unit n :: ps) = (assemble? ps).map (Char.ofNat n :: ·) := by
  rcases ps with _ | ⟨c | l, ps⟩ <;>
    simp only [assemble?, high, low, Bool.or_self, Bool.false_eq_true, if_false]

/-- The characters that a text is read as are what its pieces stand for. -/
theorem assemble?_eq_some_iff : assemble? ps = some cs ↔ Means ps cs := by
  constructor
  · intro h
    fun_induction assemble? ps generalizing cs with
    | case1 =>
      cases h
      exact .nil
    | case2 c ps ih =>
      obtain ⟨ds, hd, rfl⟩ := Option.map_eq_some_iff.mp h
      exact .char c (ih hd)
    | case3 u l ps high low ih =>
      obtain ⟨ds, hd, rfl⟩ := Option.map_eq_some_iff.mp h
      exact .pair high low (ih hd)
    | case4 => cases h
    | case5 => cases h
    | case6 u l ps high low ih =>
      obtain ⟨ds, hd, rfl⟩ := Option.map_eq_some_iff.mp h
      exact .unit (Bool.eq_false_iff.mpr high) (Bool.eq_false_iff.mpr low) (ih hd)
    | case7 => cases h
    | case8 n ps _ hn ih =>
      obtain ⟨high, low⟩ := Bool.or_eq_false_iff.mp (Bool.eq_false_iff.mpr hn)
      obtain ⟨ds, hd, rfl⟩ := Option.map_eq_some_iff.mp h
      exact .unit high low (ih hd)
  · intro h
    induction h with
    | nil => rfl
    | char c _ ih => rw [assemble?, ih, Option.map_some]
    | unit high low _ ih => rw [assemble?_unit high low, ih, Option.map_some]
    | pair high low _ ih => rw [assemble?, if_pos high, if_pos low, ih, Option.map_some]

theorem text?_append {s : Option String} (h : WritesText ('"' :: ds) s) :
    text? (ds ++ r) = some (s, r) := by
  generalize he : '"' :: ds = ts at h
  cases h with
  | some pieces means =>
    obtain rfl := (List.cons.inj he).2
    rw [text?, List.append_assoc, List.singleton_append, pieces?_append pieces]
    simp only [Option.map_some, assemble?_eq_some_iff.mpr means, String.ofList_toList]
  | @none _ ps pieces alone =>
    obtain rfl := (List.cons.inj he).2
    have ha : assemble? ps = none := by
      rw [Option.eq_none_iff_forall_ne_some]
      exact fun ds hd => alone ds (assemble?_eq_some_iff.mp hd)
    rw [text?, List.append_assoc, List.singleton_append, pieces?_append pieces]
    simp only [Option.map_some, ha, Option.map_none]

theorem text?_spec {s : Option String} (h : text? cs = some (s, r)) :
    ∃ ds, cs = ds ++ r ∧ WritesText ('"' :: ds) s := by
  obtain ⟨⟨ps, r'⟩, hp, he⟩ := Option.map_eq_some_iff.mp h
  obtain ⟨ds, rfl, pieces⟩ := pieces?_spec hp
  cases he
  refine ⟨ds ++ ['"'], by rw [List.append_assoc, List.singleton_append], ?_⟩
  cases ha : assemble? ps with
  | some cs =>
    refine .some pieces ?_
    rw [String.toList_ofList]
    exact assemble?_eq_some_iff.mp ha
  | none =>
    refine .none pieces fun ds hd => ?_
    rw [assemble?_eq_some_iff.mpr hd] at ha
    cases ha

end Texts

end Outbox.Json

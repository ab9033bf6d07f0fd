import Mathlib.Data.List.Induction
import Outbox.Uuid

/-! The text of identifiers. What is read as an identifier is one of the four forms that it can be
written in, with exactly its digits; and every identifier is written so that it is read again. -/
namespace Outbox

namespace Text

theorem hexValue?_digitChar {n : Nat} (h : n < 16) : hexValue? (Nat.digitChar n) = some n := by
  have all : ∀ n < 16, hexValue? (Nat.digitChar n) = some n := by decide
  exact all n h

theorem hexValue_lt {c : Char} {n : Nat} (h : hexValue? c = some n) : n < 16 := by
  unfold hexValue? at h
  simp only [Char.le_def, UInt32.le_iff_toNat_le] at h
  have hc : c.toNat = c.val.toNat := rfl
  split at h
  · next hd =>
    obtain rfl := Option.some.inj h
    have h9 : c.val.toNat ≤ 57 := hd.2
    have h0 : '0'.toNat = 48 := rfl
    omega
  · split at h
    · next hd =>
      obtain rfl := Option.some.inj h
      have hf : c.val.toNat ≤ 102 := hd.2
      have ha : 'a'.toNat = 97 := rfl
      omega
    · split at h
      · next hd =>
        obtain rfl := Option.some.inj h
        have hf : c.val.toNat ≤ 70 := hd.2
        have ha : 'A'.toNat = 65 := rfl
        omega
      · cases h

theorem ofHexDigits?_concat (cs : List Char) (c : Char) :
    ofHexDigits? (cs ++ [c]) =
      (ofHexDigits? cs).bind fun n => (hexValue? c).map fun d => 16 * n + d := by
  simp only [ofHexDigits?, List.mapM_append, List.mapM_cons, List.mapM_nil, Option.pure_def,
    Option.bind_eq_bind]
  cases cs.mapM hexValue? with
  | none => rfl
  | some ds => cases hexValue? c <;> simp

theorem ofHexDigits?_concat_eq_some {cs : List Char} {c : Char} {n : Nat} :
    ofHexDigits? (cs ++ [c]) = some n ↔
      ∃ m d, ofHexDigits? cs = some m ∧ hexValue? c = some d ∧ 16 * m + d = n := by
  rw [ofHexDigits?_concat]
  simp only [Option.bind_eq_some_iff, Option.map_eq_some_iff]
  constructor
  · rintro ⟨m, hm, d, hd, he⟩
    exact ⟨m, d, hm, hd, he⟩
  · rintro ⟨m, d, hm, hd, he⟩
    exact ⟨m, hm, d, hd, he⟩

theorem ofHexDigits?_hexDigits {k n : Nat} (h : n < Nat.pow 16 k) :
    ofHexDigits? (hexDigits k n) = some n := by
  induction k generalizing n with
  | zero =>
    have hn : n < 1 := h
    obtain rfl : n = 0 := by omega
    rfl
  | succ k ih =>
    have hn : n < Nat.pow 16 k * 16 := h
    refine ofHexDigits?_concat_eq_some.mpr ⟨_, _, ih (Nat.div_lt_of_lt_mul ?_),
      hexValue?_digitChar (Nat.mod_lt n (by decide)), Nat.div_add_mod n 16⟩
    rwa [Nat.mul_comm] at hn

theorem ofHexDigits_lt {cs : List Char} {n : Nat} (h : ofHexDigits? cs = some n) :
    n < Nat.pow 16 cs.length := by
  induction cs using List.reverseRecOn generalizing n with
  | nil =>
    obtain rfl : 0 = n := by simpa [ofHexDigits?] using h
    exact Nat.one_pos
  | append_singleton cs c ih =>
    obtain ⟨m, d, hm, hd, rfl⟩ := ofHexDigits?_concat_eq_some.mp h
    have hl := ih hm
    have hs := hexValue_lt hd
    rw [List.length_append, List.length_singleton]
    have hp : 16 * m + d < Nat.pow 16 cs.length * 16 := by omega
    exact hp

theorem hexValue?_isSome_of_mem {cs : List Char} {n : Nat} (h : ofHexDigits? cs = some n)
    {c : Char} (hc : c ∈ cs) : (hexValue? c).isSome = true := by
  induction cs using List.reverseRecOn generalizing n with
  | nil => cases hc
  | append_singleton cs e ih =>
    obtain ⟨m, d, hm, hd, -⟩ := ofHexDigits?_concat_eq_some.mp h
    rcases List.mem_append.mp hc with hc | hc
    · exact ih hm hc
    · rw [List.mem_singleton.mp hc, hd, Option.isSome_some]

theorem eq_of_toLower_eq_u {c : Char} (h : c.toLower = 'u') : c = 'u' ∨ c = 'U' := by
  unfold Char.toLower at h
  split at h
  · next hu =>
    have hv : c.val + 32 = 117 := congrArg Char.val h
    right
    apply Char.ext
    have hc : c.val = (c.val + 32) - 32 := by grind
    rw [hc, hv]
    rfl
  · exact .inl h

end Text

namespace Uuid

variable {ns : List Nat} {cs ds : List Char} {u : Uuid}

theorem length_joinGroups (h : ns.foldr (· + ·) 0 ≤ ds.length) :
    (joinGroups ns ds).length = ds.length + ns.length := by
  induction ns generalizing ds with
  | nil => rfl
  | cons n ns ih =>
    rw [List.foldr_cons] at h
    simp only [joinGroups, List.length_append, List.length_cons, List.length_take]
    rw [ih (by rw [List.length_drop]; omega), List.length_drop]
    omega

theorem splitGroups_eq_some_iff :
    splitGroups ns cs = some ds ↔ cs = joinGroups ns ds ∧ ns.foldr (· + ·) 0 ≤ ds.length := by
  induction ns generalizing cs ds with
  | nil => simp [splitGroups, joinGroups]
  | cons n ns ih =>
    simp only [splitGroups, joinGroups, List.foldr_cons]
    constructor
    · intro h
      split at h
      · next rest hr =>
        obtain ⟨es, he, rfl⟩ := Option.map_eq_some_iff.mp h
        obtain ⟨rfl, hs⟩ := ih.mp he
        have hn : (cs.take n).length = n := by
          have hl := congrArg List.length hr
          rw [List.length_drop, List.length_cons] at hl
          rw [List.length_take]
          omega
        rw [List.take_left' hn, List.drop_left' hn, List.length_append, hn, ← hr,
          List.take_append_drop]
        exact ⟨rfl, by omega⟩
      · cases h
    · rintro ⟨rfl, hs⟩
      have hn : (ds.take n).length = n := by
        rw [List.length_take]
        omega
      have hr : splitGroups ns (joinGroups ns (ds.drop n)) = some (ds.drop n) :=
        ih.mpr ⟨rfl, by rw [List.length_drop]; omega⟩
      rw [List.drop_left' hn, List.take_left' hn]
      simp only [hr, Option.map_some, List.take_append_drop]

structure Digits (ds : List Char) (u : Uuid) : Prop where
  length : ds.length = 32
  value : Text.ofHexDigits? ds = some u.bits.toNat

/-- A text writes an identifier: plain digits, digits in groups, those in braces, or those after the
word `urn:uuid:`, in any case. -/
inductive Writes : List Char → Uuid → Prop
  | plain {ds : List Char} {u : Uuid} (digits : Digits ds u) : Writes ds u
  | grouped {ds : List Char} {u : Uuid} (digits : Digits ds u) : Writes (joinGroups groups ds) u
  | braced {ds : List Char} {u : Uuid} (digits : Digits ds u) :
    Writes ('\x7b' :: (joinGroups groups ds ++ ['\x7d'])) u
  | named {ds word : List Char} {u : Uuid} (digits : Digits ds u)
    (isUrn : word.map Char.toLower = urn) : Writes (word ++ joinGroups groups ds) u

theorem ofDigits?_eq_some_iff : ofDigits? ds = some u ↔ Digits ds u := by
  unfold ofDigits?
  constructor
  · intro h
    split at h
    · next hl =>
      obtain ⟨n, hn, rfl⟩ := Option.map_eq_some_iff.mp h
      have hb := Text.ofHexDigits_lt hn
      rw [hl] at hb
      refine ⟨hl, ?_⟩
      rw [hn, ofNat, BitVec.toNat_ofNat]
      exact congrArg some (Nat.mod_eq_of_lt hb).symm
    · cases h
  · intro h
    rw [if_pos h.length, h.value, Option.map_some, ofNat, BitVec.ofNat_toNat, BitVec.setWidth_eq]

theorem ofGroups?_eq_some_iff :
    ofGroups? cs = some u ↔ ∃ ds, cs = joinGroups groups ds ∧ Digits ds u := by
  simp only [ofGroups?, Option.bind_eq_some_iff, splitGroups_eq_some_iff, ofDigits?_eq_some_iff]
  constructor
  · rintro ⟨ds, ⟨he, -⟩, hd⟩
    exact ⟨ds, he, hd⟩
  · rintro ⟨ds, he, hd⟩
    refine ⟨ds, ⟨he, ?_⟩, hd⟩
    rw [hd.length]
    decide

namespace Digits

theorem length_joinGroups (h : Digits ds u) : (joinGroups groups ds).length = 36 := by
  rw [Uuid.length_joinGroups (by rw [h.length]; decide), h.length]
  rfl

theorem head_eq_cons (h : Digits ds u) :
    ∃ c rest, ds = c :: rest ∧ (Text.hexValue? c).isSome = true := by
  have hl := h.length
  cases ds with
  | nil => cases hl
  | cons c rest => exact ⟨c, rest, rfl, Text.hexValue?_isSome_of_mem h.value List.mem_cons_self⟩

end Digits

/-- What begins with a digit is none of the longer forms. -/
theorem read?_of_digit {c : Char} {rest : List Char} (h : (Text.hexValue? c).isSome = true) :
    read? (c :: rest) =
      if (c :: rest).length = 32 then ofDigits? (c :: rest) else ofGroups? (c :: rest) := by
  have hb : c ≠ '\x7b' := by
    rintro rfl
    exact absurd h (by decide)
  have hu : ¬((c :: rest).take urn.length).map Char.toLower = urn := by
    intro hm
    have hc : c.toLower = 'u' := (List.cons.inj hm).1
    rcases Text.eq_of_toLower_eq_u hc with rfl | rfl <;> exact absurd h (by decide)
  unfold read?
  split
  · next he => exact absurd (List.cons.inj he).1 hb
  · rw [if_neg hu]

theorem Writes.read? (h : Writes cs u) : read? cs = some u := by
  cases h with
  | plain digits =>
    obtain ⟨c, rest, rfl, hc⟩ := digits.head_eq_cons
    rw [read?_of_digit hc, if_pos digits.length, ofDigits?_eq_some_iff]
    exact digits
  | @grouped ds _ digits =>
    obtain ⟨c, rest, rfl, hc⟩ := digits.head_eq_cons
    have hl := digits.length_joinGroups
    have hg := ofGroups?_eq_some_iff.mpr ⟨_, rfl, digits⟩
    simp only [groups, joinGroups, List.take_succ_cons, List.cons_append] at hl hg ⊢
    rw [read?_of_digit hc, if_neg (by omega), hg]
  | @braced ds _ digits =>
    have hg := ofGroups?_eq_some_iff.mpr ⟨_, rfl, digits⟩
    simp only [Uuid.read?]
    rw [List.getLast?_concat, if_pos rfl, List.dropLast_concat, hg]
  | @named ds word _ digits isUrn =>
    have hw : word.length = urn.length := by rw [← isUrn, List.length_map]
    have hg := ofGroups?_eq_some_iff.mpr ⟨_, rfl, digits⟩
    unfold Uuid.read?
    split
    · next rest he =>
      -- the word does not begin with a brace
      cases word with
      | nil => cases hw
      | cons c word =>
        obtain rfl := (List.cons.inj he).1
        exact absurd (List.cons.inj isUrn).1 (by decide)
    · rw [List.take_left' hw, if_pos isUrn, List.drop_left' hw, hg]

theorem writes_of_read? (h : Uuid.read? cs = some u) : Writes cs u := by
  unfold Uuid.read? at h
  split at h
  · next rest =>
    split at h
    · next hl =>
      obtain ⟨front, rfl⟩ := List.getLast?_eq_some_iff.mp hl
      rw [List.dropLast_concat] at h
      obtain ⟨ds, rfl, digits⟩ := ofGroups?_eq_some_iff.mp h
      exact .braced digits
    · cases h
  · split at h
    · next hu =>
      obtain ⟨ds, he, digits⟩ := ofGroups?_eq_some_iff.mp h
      rw [← cs.take_append_drop urn.length, he]
      exact .named digits hu
    · split at h
      · exact .plain (ofDigits?_eq_some_iff.mp h)
      · obtain ⟨ds, rfl, digits⟩ := ofGroups?_eq_some_iff.mp h
        exact .grouped digits

theorem read?_eq_some_iff : Uuid.read? cs = some u ↔ Writes cs u := ⟨writes_of_read?, Writes.read?⟩

theorem digits_hexDigits (u : Uuid) : Digits (Text.hexDigits 32 u.bits.toNat) u where
  length := Text.length_hexDigits ..
  value := Text.ofHexDigits?_hexDigits u.bits.isLt

theorem writes_chars (u : Uuid) : Writes u.chars u := .grouped u.digits_hexDigits

/-- Every identifier is read as it was written. -/
theorem ofText?_text (u : Uuid) : ofText? u.text = some u := by
  rw [ofText?, text, String.toList_ofList]
  exact u.writes_chars.read?

end Uuid
end Outbox

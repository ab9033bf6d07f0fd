import Outbox.Proofs.Grammar

/-! What is read as a JSON document is written by the grammar, and everything that the grammar
writes is read: as deep as a document is nested, there are enough calls for it. -/
namespace Outbox.Json

open Text (Numeral digits)
open Reader

section Documents
variable {cs ds bs r : List Char} {j : Json} {js : List Json} {ms : List (Option String × Json)}

theorem skipBlanks_append (h : IsBlanks bs) (cs : List Char) :
    skipBlanks (bs ++ cs) = skipBlanks cs := List.dropWhile_append_of_pos h

theorem skipBlanks_cons {c : Char} (h : isBlank c = false) (cs : List Char) :
    skipBlanks (c :: cs) = c :: cs :=
  List.dropWhile_cons_of_neg (by rw [h]; exact Bool.false_ne_true)

theorem skipBlanks_spec (cs : List Char) : ∃ bs, cs = bs ++ skipBlanks cs ∧ IsBlanks bs :=
  ⟨cs.takeWhile isBlank, (List.takeWhile_append_dropWhile ..).symm,
    List.all_eq_true.mp List.all_takeWhile⟩

theorem isBlanks_nil : IsBlanks [] := nofun

theorem Ends.blanks (hr : Ends r) (h : IsBlanks bs) : Ends (bs ++ r) := by
  cases bs with
  | nil => exact hr
  | cons b bs =>
    intro c hc
    obtain rfl := Option.some.inj hc
    have hb := h b List.mem_cons_self
    simp only [isBlank, Bool.or_eq_true, beq_iff_eq, or_assoc] at hb
    rcases hb with rfl | rfl | rfl | rfl <;> decide

theorem ends_nil : Ends [] := nofun

theorem ends_cons {c : Char} (h : c = ',' ∨ c = ']' ∨ c = '\x7d') (r : List Char) :
    Ends (c :: r) := by
  intro d hd
  obtain rfl := Option.some.inj hd
  rcases h with rfl | rfl | rfl <;> decide

/-- What a phrase is read as, by the part of the reader that is for it, where enough calls are
allowed. -/
def Reads (cs : List Char) : Phrase → Prop
  | .value j => ∀ n r, cs.length ≤ n → Ends r → value? n (cs ++ r) = some (j, r)
  | .padded j => ∀ n r, cs.length ≤ n → Ends r →
    ∃ bs, IsBlanks bs ∧ value? n (cs ++ r) = some (j, bs ++ r)
  | .items js => ∀ n r, cs.length < n → items? n (cs ++ ']' :: r) = some (js, r)
  | .member k j => ∀ n r, cs.length ≤ n →
    members? (n + 1) (cs ++ '\x7d' :: r) = some ([(k, j)], r) ∧
      members? (n + 1) (cs ++ ',' :: r) = (members? n r).map fun p => ((k, j) :: p.1, p.2)
  | .members ms => ∀ n r, cs.length < n → members? n (cs ++ '\x7d' :: r) = some (ms, r)

theorem value?_blanks (h : IsBlanks bs) (n : Nat) (cs : List Char) :
    value? n (bs ++ cs) = value? n cs := by
  cases n with
  | zero => rfl
  | succ n => rw [value?, value?, skipBlanks_append h]

theorem members?_blanks (h : IsBlanks bs) (n : Nat) (cs : List Char) :
    members? n (bs ++ cs) = members? n cs := by
  cases n with
  | zero => rfl
  | succ n => rw [members?, members?, skipBlanks_append h]

theorem value?_of_number {c : Char} (h : c.isDigit = true ∨ c = '-') (n : Nat) (cs : List Char) :
    value? (n + 1) (c :: cs) = (number? (c :: cs)).map fun (m, r) => (.number m, r) := by
  have hb : isBlank c = false := by
    rw [← Bool.not_eq_true]
    intro hb
    simp only [isBlank, Bool.or_eq_true, beq_iff_eq, or_assoc] at hb
    rcases h with h | rfl
    · rcases hb with rfl | rfl | rfl | rfl <;> exact absurd h (by decide)
    · revert hb
      decide
  have hn : ∀ {d : Char} {t : List Char}, c :: cs = d :: t → d.isDigit = true ∨ d = '-' :=
    fun he => (List.cons.inj he).1 ▸ h
  rw [value?, skipBlanks_cons hb]
  -- no other document begins like this
  split
  case h_7 => rfl
  all_goals
    next he => exact absurd (hn he) (by decide)

theorem reads_number {n : Numeral} (h : WritesNumeral cs n) :
    Reads cs (.value (.number (Reader.number n))) := by
  intro m r hm hr
  obtain ⟨c, rest, rfl, hc⟩ := h.head
  obtain ⟨m, rfl⟩ := Nat.exists_eq_succ_of_ne_zero (Nat.ne_zero_of_lt hm)
  rw [List.cons_append, value?_of_number hc, ← List.cons_append, number?_append h hr,
    Option.map_some]

theorem reads_text {s : Option String} (h : WritesText cs s) : Reads cs (.value (.text s)) := by
  intro m r hm _
  obtain ⟨ds, rfl⟩ : ∃ ds, cs = '"' :: ds := by cases h <;> exact ⟨_, rfl⟩
  obtain ⟨m, rfl⟩ := Nat.exists_eq_succ_of_ne_zero (Nat.ne_zero_of_lt hm)
  rw [value?, List.cons_append, skipBlanks_cons (by decide)]
  simp only [text?_append h, Option.map_some]

theorem items?_blanks (h : IsBlanks bs) (n : Nat) (cs : List Char) :
    items? n (bs ++ cs) = items? n cs := by
  cases n with
  | zero => rfl
  | succ n => rw [items?, items?, value?_blanks h]

theorem items?_skipBlanks (n : Nat) (cs : List Char) : items? n (skipBlanks cs) = items? n cs := by
  obtain ⟨bs, he, hb⟩ := skipBlanks_spec cs
  conv => rhs; rw [he, items?_blanks hb]

theorem members?_skipBlanks (n : Nat) (cs : List Char) :
    members? n (skipBlanks cs) = members? n cs := by
  obtain ⟨bs, he, hb⟩ := skipBlanks_spec cs
  conv => rhs; rw [he, members?_blanks hb]

theorem items?_bracket (n : Nat) (r : List Char) : items? n (']' :: r) = none := by
  rcases n with _ | _ | n
  · rfl
  · rfl
  · have hb : isBlank ']' = false := by decide
    have hd : ']'.isDigit = false := by decide
    simp [items?, value?, skipBlanks, hb, number?, unsigned?, numeral?, wholePart?, digits, hd]

theorem members?_brace (n : Nat) (r : List Char) : members? n ('\x7d' :: r) = none := by
  cases n with
  | zero => rfl
  | succ n =>
    have hb : isBlank '\x7d' = false := by decide
    rw [members?, skipBlanks_cons hb]
    rfl

theorem Reads.array (h : Reads cs (.items js)) :
    Reads ('[' :: (cs ++ [']'])) (.value (.array js)) := by
  intro m r hm _
  obtain ⟨m, rfl⟩ := Nat.exists_eq_succ_of_ne_zero (Nat.ne_zero_of_lt hm)
  simp only [List.length_cons, List.length_append, List.length_nil] at hm
  have hi := h m r (by omega)
  rw [← items?_skipBlanks] at hi
  rw [value?, List.cons_append, skipBlanks_cons (by decide), List.append_assoc,
    List.singleton_append]
  simp only
  split
  · next he =>
    rw [he, items?_bracket] at hi
    cases hi
  · rw [hi, Option.map_some]

theorem Reads.object (h : Reads cs (.members ms)) :
    Reads ('\x7b' :: (cs ++ ['\x7d'])) (.value (.object ms)) := by
  intro m r hm _
  obtain ⟨m, rfl⟩ := Nat.exists_eq_succ_of_ne_zero (Nat.ne_zero_of_lt hm)
  simp only [List.length_cons, List.length_append, List.length_nil] at hm
  have hi := h m r (by omega)
  rw [← members?_skipBlanks] at hi
  rw [value?, List.cons_append, skipBlanks_cons (by decide), List.append_assoc,
    List.singleton_append]
  simp only
  split
  · next he =>
    rw [he, members?_brace] at hi
    cases hi
  · rw [hi, Option.map_some]

theorem Reads.lastItem (h : Reads cs (.padded j)) : Reads cs (.items [j]) := by
  intro n r hn
  obtain ⟨n, rfl⟩ := Nat.exists_eq_succ_of_ne_zero (Nat.ne_zero_of_lt hn)
  obtain ⟨bs, hb, hv⟩ := h n (']' :: r) (by omega) (ends_cons (by decide) r)
  rw [items?, hv]
  simp only [skipBlanks_append hb, skipBlanks_cons (show isBlank ']' = false by decide)]

theorem Reads.item (h : Reads cs (.padded j)) (hs : Reads ds (.items js)) :
    Reads (cs ++ ',' :: ds) (.items (j :: js)) := by
  intro n r hn
  obtain ⟨n, rfl⟩ := Nat.exists_eq_succ_of_ne_zero (Nat.ne_zero_of_lt hn)
  rw [List.length_append, List.length_cons] at hn
  obtain ⟨bs, hb, hv⟩ := h n (',' :: (ds ++ ']' :: r)) (by omega) (ends_cons (by decide) _)
  rw [List.append_assoc, List.cons_append, items?, hv]
  simp only [skipBlanks_append hb, skipBlanks_cons (show isBlank ',' = false by decide),
    hs n r (by omega), Option.map_some]

theorem Reads.field {before key after : List Char} {k : Option String} (blanks : IsBlanks before)
    (name : WritesText key k) (blanks' : IsBlanks after) (h : Reads cs (.padded j)) :
    Reads (before ++ (key ++ (after ++ ':' :: cs))) (.member k j) := by
  intro n r hn
  obtain ⟨ds, rfl⟩ : ∃ ds, key = '"' :: ds := by cases name <;> exact ⟨_, rfl⟩
  simp only [List.length_append, List.length_cons] at hn
  have hq : isBlank '"' = false := by decide
  have hc : isBlank ':' = false := by decide
  constructor
  · obtain ⟨bs, hb, hv⟩ := h n ('\x7d' :: r) (by omega) (ends_cons (by decide) r)
    simp only [List.append_assoc, List.cons_append, members?, skipBlanks_append blanks,
      skipBlanks_cons hq, text?_append name, skipBlanks_append blanks', skipBlanks_cons hc, hv,
      skipBlanks_append hb, skipBlanks_cons (show isBlank '\x7d' = false by decide)]
  · obtain ⟨bs, hb, hv⟩ := h n (',' :: r) (by omega) (ends_cons (by decide) r)
    simp only [List.append_assoc, List.cons_append, members?, skipBlanks_append blanks,
      skipBlanks_cons hq, text?_append name, skipBlanks_append blanks', skipBlanks_cons hc, hv,
      skipBlanks_append hb, skipBlanks_cons (show isBlank ',' = false by decide)]

theorem Reads.lastMember {k : Option String} (h : Reads cs (.member k j)) :
    Reads cs (.members [(k, j)]) := by
  intro n r hn
  obtain ⟨n, rfl⟩ := Nat.exists_eq_succ_of_ne_zero (Nat.ne_zero_of_lt hn)
  exact (h n r (by omega)).1

theorem Reads.member {k : Option String} (h : Reads cs (.member k j)) (hs : Reads ds (.members ms)) :
    Reads (cs ++ ',' :: ds) (.members ((k, j) :: ms)) := by
  intro n r hn
  obtain ⟨n, rfl⟩ := Nat.exists_eq_succ_of_ne_zero (Nat.ne_zero_of_lt hn)
  rw [List.length_append, List.length_cons] at hn
  rw [List.append_assoc, List.cons_append, (h n _ (by omega)).2, hs n r (by omega), Option.map_some]

theorem Reads.padded {before after : List Char} (blanks : IsBlanks before)
    (h : Reads cs (.value j)) (blanks' : IsBlanks after) :
    Reads (before ++ (cs ++ after)) (.padded j) := by
  intro n r hn hr
  simp only [List.length_append] at hn
  refine ⟨after, blanks', ?_⟩
  rw [List.append_assoc, List.append_assoc, value?_blanks blanks,
    h n (after ++ r) (by omega) (hr.blanks blanks')]

/-- Everything that the grammar writes is read. -/
theorem Writes.reads {p : Phrase} (h : Writes cs p) : Reads cs p := by
  induction h with
  | null =>
    intro m r hm _
    obtain ⟨m, rfl⟩ := Nat.exists_eq_succ_of_ne_zero (Nat.ne_zero_of_lt hm)
    rfl
  | isTrue =>
    intro m r hm _
    obtain ⟨m, rfl⟩ := Nat.exists_eq_succ_of_ne_zero (Nat.ne_zero_of_lt hm)
    rfl
  | isFalse =>
    intro m r hm _
    obtain ⟨m, rfl⟩ := Nat.exists_eq_succ_of_ne_zero (Nat.ne_zero_of_lt hm)
    rfl
  | number numeral => exact reads_number numeral
  | text quoted => exact reads_text quoted
  | emptyArray blanks =>
    intro m r hm _
    obtain ⟨m, rfl⟩ := Nat.exists_eq_succ_of_ne_zero (Nat.ne_zero_of_lt hm)
    rw [value?, List.cons_append, skipBlanks_cons (by decide), List.append_assoc]
    simp only [skipBlanks_append blanks, List.singleton_append,
      skipBlanks_cons (show isBlank ']' = false by decide)]
  | array _ ih => exact ih.array
  | emptyObject blanks =>
    intro m r hm _
    obtain ⟨m, rfl⟩ := Nat.exists_eq_succ_of_ne_zero (Nat.ne_zero_of_lt hm)
    rw [value?, List.cons_append, skipBlanks_cons (by decide), List.append_assoc]
    simp only [skipBlanks_append blanks, List.singleton_append,
      skipBlanks_cons (show isBlank '\x7d' = false by decide)]
  | object _ ih => exact ih.object
  | padded blanks _ blanks' ih => exact ih.padded blanks blanks'
  | lastItem _ ih => exact ih.lastItem
  | item _ _ ih ihs => exact ih.item ihs
  | field blanks name blanks' _ ih => exact ih.field blanks name blanks'
  | lastMember _ ih => exact ih.lastMember
  | member _ _ ih ihs => exact ih.member ihs

/-- What is read within so many calls is written by the grammar. -/
structure Sound (n : Nat) : Prop where
  value : ∀ {cs j r}, value? n cs = some (j, r) →
    ∃ bs ds, cs = bs ++ (ds ++ r) ∧ IsBlanks bs ∧ Writes ds (.value j)
  items : ∀ {cs js r}, items? n cs = some (js, r) →
    ∃ ds, cs = ds ++ ']' :: r ∧ Writes ds (.items js)
  members : ∀ {cs ms r}, members? n cs = some (ms, r) →
    ∃ ds, cs = ds ++ '\x7d' :: r ∧ Writes ds (.members ms)

theorem Sound.zero : Sound 0 := ⟨nofun, nofun, nofun⟩

theorem Sound.value_succ {n : Nat} (h : Sound n) (hv : value? (n + 1) cs = some (j, r)) :
    ∃ bs ds, cs = bs ++ (ds ++ r) ∧ IsBlanks bs ∧ Writes ds (.value j) := by
  obtain ⟨bs, he, blanks⟩ := skipBlanks_spec cs
  suffices ∃ ds, skipBlanks cs = ds ++ r ∧ Writes ds (.value j) by
    obtain ⟨ds, hd, hw⟩ := this
    exact ⟨bs, ds, hd ▸ he, blanks, hw⟩
  clear he blanks
  rw [value?] at hv
  generalize skipBlanks cs = ts at hv ⊢
  split at hv
  · cases hv
    exact ⟨"null".toList, rfl, .null⟩
  · cases hv
    exact ⟨"true".toList, rfl, .isTrue⟩
  · cases hv
    exact ⟨"false".toList, rfl, .isFalse⟩
  · obtain ⟨⟨s, r'⟩, hs, ht⟩ := Option.map_eq_some_iff.mp hv
    obtain ⟨ds, hd, hw⟩ := text?_spec hs
    cases ht
    exact ⟨'"' :: ds, by rw [hd, List.cons_append], .text hw⟩
  · next t =>
    obtain ⟨as, ha, blanks⟩ := skipBlanks_spec t
    split at hv
    · next u hu =>
      cases hv
      exact ⟨'[' :: (as ++ [']']), by simp [hu ▸ ha], .emptyArray blanks⟩
    · obtain ⟨⟨js, r'⟩, hi, ht⟩ := Option.map_eq_some_iff.mp hv
      rw [items?_skipBlanks] at hi
      obtain ⟨ds, rfl, hw⟩ := h.items hi
      cases ht
      exact ⟨'[' :: (ds ++ [']']), by simp, .array hw⟩
  · next t =>
    obtain ⟨as, ha, blanks⟩ := skipBlanks_spec t
    split at hv
    · next u hu =>
      cases hv
      exact ⟨'\x7b' :: (as ++ ['\x7d']), by simp [hu ▸ ha], .emptyObject blanks⟩
    · obtain ⟨⟨ms, r'⟩, hi, ht⟩ := Option.map_eq_some_iff.mp hv
      rw [members?_skipBlanks] at hi
      obtain ⟨ds, rfl, hw⟩ := h.members hi
      cases ht
      exact ⟨'\x7b' :: (ds ++ ['\x7d']), by simp, .object hw⟩
  · obtain ⟨⟨m, r'⟩, hm, ht⟩ := Option.map_eq_some_iff.mp hv
    obtain ⟨ds, n, hd, hw, rfl⟩ := number?_spec hm
    cases ht
    exact ⟨ds, hd, .number hw⟩

theorem Sound.padded {n : Nat} (h : Sound n) (hv : value? n cs = some (j, r)) :
    ∃ ds, cs = ds ++ skipBlanks r ∧ Writes ds (.padded j) := by
  obtain ⟨bs, ds, rfl, blanks, hw⟩ := h.value hv
  obtain ⟨as, ha, blanks'⟩ := skipBlanks_spec r
  refine ⟨bs ++ (ds ++ as), ?_, .padded blanks hw blanks'⟩
  conv => lhs; rw [ha]
  simp only [List.append_assoc]

theorem Sound.items_succ {n : Nat} (h : Sound n) (hi : items? (n + 1) cs = some (js, r)) :
    ∃ ds, cs = ds ++ ']' :: r ∧ Writes ds (.items js) := by
  rw [items?] at hi
  split at hi
  · cases hi
  · next j t hv =>
    obtain ⟨ds, rfl, hw⟩ := h.padded hv
    split at hi
    · next u hu =>
      cases hi
      exact ⟨ds, by rw [hu], .lastItem hw⟩
    · next u hu =>
      obtain ⟨⟨js, r'⟩, hr, ht⟩ := Option.map_eq_some_iff.mp hi
      obtain ⟨es, rfl, hs⟩ := h.items hr
      cases ht
      exact ⟨ds ++ ',' :: es, by rw [hu, List.append_assoc, List.cons_append], .item hw hs⟩
    · cases hi

theorem Sound.members_succ {n : Nat} (h : Sound n) (hm : members? (n + 1) cs = some (ms, r)) :
    ∃ ds, cs = ds ++ '\x7d' :: r ∧ Writes ds (.members ms) := by
  obtain ⟨before, hb, blanks⟩ := skipBlanks_spec cs
  rw [members?] at hm
  split at hm
  · next t ht =>
    split at hm
    · cases hm
    · next k u hk =>
      obtain ⟨key, rfl, name⟩ := text?_spec hk
      obtain ⟨after, ha, blanks'⟩ := skipBlanks_spec u
      split at hm
      · next v hv =>
        split at hm
        · cases hm
        · next j w hj =>
          obtain ⟨ds, rfl, hw⟩ := h.padded hj
          have field := Writes.field blanks name blanks' hw
          rw [ht, ← List.cons_append, ha, hv] at hb
          split at hm
          · next x hx =>
            cases hm
            exact ⟨_, by rw [hb, hx]; simp only [List.append_assoc, List.cons_append],
              .lastMember field⟩
          · next x hx =>
            obtain ⟨⟨ms, r'⟩, hr, he⟩ := Option.map_eq_some_iff.mp hm
            obtain ⟨es, rfl, hs⟩ := h.members hr
            cases he
            exact ⟨_, by rw [hb, hx]; simp only [List.append_assoc, List.cons_append],
              .member field hs⟩
          · cases hm
      · cases hm
  · cases hm

theorem sound (n : Nat) : Sound n := by
  induction n with
  | zero => exact .zero
  | succ n ih => exact ⟨ih.value_succ, ih.items_succ, ih.members_succ⟩

/-- A text is read as a document if and only if it writes the document, with nothing but blanks
around it. -/
theorem read?_eq_some_iff : read? cs = some j ↔ Writes cs (.padded j) := by
  constructor
  · intro h
    unfold read? at h
    split at h
    · next k r hv =>
      split at h
      · next hr =>
        cases h
        obtain ⟨bs, ds, rfl, blanks, hw⟩ := (sound _).value hv
        exact .padded blanks hw (List.all_eq_true.mp hr)
      · cases h
    · cases h
  · intro h
    obtain ⟨bs, blanks, hv⟩ := h.reads (2 * cs.length + 2) [] (by omega) ends_nil
    rw [List.append_nil, List.append_nil] at hv
    rw [read?, hv]
    exact if_pos (List.all_eq_true.mpr blanks)

end Documents
end Outbox.Json

import Mathlib.Data.List.Forall2
import Mathlib.Data.List.Nodup
import Outbox.Json.Document
import Outbox.Proofs.Identifier

/-! Records in JSON documents: which fields a document has, and what in it is read as a text or an
identifier. -/
namespace Outbox.Json

variable {names : List String} {j : Json} {js : List Json} {ms : List (Option String × Json)}

/-- Exactly one member has the name, and it holds the document. -/
def HasMember (ms : List (Option String × Json)) (name : String) (j : Json) : Prop :=
  (ms.filter fun m => m.1 == some name) = [(some name, j)]

/-- A document is a record with these fields: an array of them in order, or an object with a member
for each. Such an object may have more members, but all must have names. -/
inductive Fields (names : List String) : Json → List Json → Prop
  | items {js : List Json} (length : js.length = names.length) : Fields names (.array js) js
  | members {ms : List (Option String × Json)} {js : List Json} (named : ∀ m ∈ ms, m.1.isSome = true)
    (each : List.Forall₂ (HasMember ms) names js) : Fields names (.object ms) js

theorem hasMember_iff {name : String} :
    HasMember ms name j ↔
      (ms.filter fun m => m.1 == some name).length ≤ 1 ∧ member? ms name = some j := by
  rw [HasMember, member?, ← List.head?_filter]
  cases h : ms.filter fun m => m.1 == some name with
  | nil => simp
  | cons m rest =>
    have hm : m ∈ ms.filter fun m => m.1 == some name := h ▸ List.mem_cons_self
    have hn : m.1 = some name := beq_iff_eq.mp (List.mem_filter.mp hm).2
    cases rest with
    | nil =>
      obtain ⟨k, i⟩ := m
      obtain rfl : k = some name := hn
      simp
    | cons => simp

theorem forall₂_hasMember_iff :
    List.Forall₂ (HasMember ms) names js ↔
      (∀ n ∈ names, (ms.filter fun m => m.1 == some n).length ≤ 1) ∧
        names.map (member? ms) = js.map some := by
  induction names generalizing js with
  | nil => cases js <;> simp
  | cons n names ih =>
    cases js with
    | nil => simp
    | cons j js =>
      simp only [List.forall₂_cons, hasMember_iff, ih, List.forall_mem_cons, List.map_cons,
        List.cons.injEq]
      constructor
      · rintro ⟨⟨h, hj⟩, hs, hjs⟩
        exact ⟨⟨h, hs⟩, hj, hjs⟩
      · rintro ⟨⟨h, hs⟩, hj, hjs⟩
        exact ⟨⟨h, hj⟩, hs, hjs⟩

theorem fields?_eq_some_iff : j.fields? names = some (js.map some) ↔ Fields names j js := by
  have hs : Function.Injective (some : Json → Option Json) := fun _ _ h => Option.some.inj h
  constructor
  · intro h
    cases j with
    | array items =>
      simp only [fields?] at h
      split at h
      · next hl =>
        obtain rfl := List.map_injective_iff.mpr hs (Option.some.inj h)
        exact .items hl
      · cases h
    | object ms =>
      simp only [fields?, Json.members?] at h
      split at h
      · next hd =>
        rw [distinct, Bool.and_eq_true, List.all_eq_true, List.all_eq_true] at hd
        refine .members hd.1 (forall₂_hasMember_iff.mpr ⟨fun n hn => ?_, Option.some.inj h⟩)
        exact of_decide_eq_true (hd.2 n hn)
      · cases h
    | _ => cases h
  · intro h
    cases h with
    | items hl => simp only [fields?, if_pos hl]
    | @members ms _ named each =>
      obtain ⟨hl, hm⟩ := forall₂_hasMember_iff.mp each
      have hd : distinct names ms = true := by
        rw [distinct, Bool.and_eq_true, List.all_eq_true, List.all_eq_true]
        exact ⟨named, fun n hn => decide_eq_true (hl n hn)⟩
      simp only [fields?, Json.members?, if_pos hd, hm]

theorem filter_of_nodup {fs : List (String × Json)} (h : (fs.map Prod.fst).Nodup)
    {f : String × Json} (hf : f ∈ fs) : (fs.filter fun m => m.1 == f.1) = [f] := by
  induction fs with
  | nil => cases hf
  | cons g fs ih =>
    obtain ⟨hg, hn⟩ := List.nodup_cons.mp h
    rcases List.mem_cons.mp hf with rfl | hf
    · rw [List.filter_cons_of_pos (by simp), List.filter_eq_nil_iff.mpr]
      intro m hm he
      exact hg (List.mem_map.mpr ⟨m, hm, beq_iff_eq.mp he⟩)
    · have hne : ¬(g.1 == f.1) = true := fun he =>
        hg (List.mem_map.mpr ⟨f, hf, (beq_iff_eq.mp he).symm⟩)
      rw [List.filter_cons_of_neg (p := fun m : String × Json => m.1 == f.1) hne, ih hn hf]

theorem fields_record {fs : List (String × Json)} (h : (fs.map Prod.fst).Nodup) :
    Fields (fs.map Prod.fst) (record fs) (fs.map Prod.snd) := by
  refine .members (fun m hm => ?_) ?_
  · obtain ⟨f, -, rfl⟩ := List.mem_map.mp hm
    rfl
  · rw [List.forall₂_map_left_iff, List.forall₂_map_right_iff, List.forall₂_same]
    intro f hf
    have he : ((fun m => m.1 == some f.1) ∘ fun m : String × Json => (some m.1, m.2)) =
        fun m => m.1 == f.1 := rfl
    rw [HasMember, List.filter_map, he, filter_of_nodup h hf, List.map_singleton]

theorem string?_eq_some_iff {s : String} : j.string? = some s ↔ j = ofString s := by
  cases j <;> simp [string?, ofString]

theorem uuid?_eq_some_iff {u : Uuid} :
    j.uuid? = some u ↔ ∃ s, j = ofString s ∧ Uuid.Writes s.toList u := by
  simp only [uuid?, Option.bind_eq_some_iff, string?_eq_some_iff, Uuid.ofText?,
    Uuid.read?_eq_some_iff]

end Outbox.Json

/-! Sorting a list by an integer key, and its latest entry. -/
namespace Outbox.Order
variable {α : Type}

/-- Puts an entry before the first one whose key is not smaller. -/
def insertBy (key : α → Int) (x : α) : List α → List α
  | [] => [x]
  | y :: ys => if key x ≤ key y then x :: y :: ys else y :: insertBy key x ys

/-- The list by increasing key; entries of equal keys keep their order. -/
def sortBy (key : α → Int) : List α → List α
  | [] => []
  | x :: xs => insertBy key x (sortBy key xs)

@[simp] theorem mem_insertBy {key : α → Int} {x y : α} {xs : List α} :
    y ∈ insertBy key x xs ↔ y = x ∨ y ∈ xs := by
  induction xs with
  | nil => simp [insertBy]
  | cons z zs ih =>
    simp only [insertBy]
    split
    · simp
    · simp [ih, or_left_comm]

@[simp] theorem mem_sortBy {key : α → Int} {y : α} {xs : List α} :
    y ∈ sortBy key xs ↔ y ∈ xs := by
  induction xs with
  | nil => simp [sortBy]
  | cons x xs ih => simp [sortBy, ih]

theorem sortBy_of_pairwise {key : α → Int} {xs : List α}
    (h : xs.Pairwise fun a b => key a ≤ key b) : sortBy key xs = xs := by
  induction h with
  | nil => rfl
  | @cons x xs hx _ ih =>
    rw [sortBy, ih]
    cases xs with
    | nil => rfl
    | cons y ys => simp [insertBy, hx y]

/-- The entry of the greatest key, the last of those that have it. -/
def latestBy (key : α → Int) : List α → Option α
  | [] => none
  | x :: xs =>
    match latestBy key xs with
    | none => some x
    | some y => if key x ≤ key y then some y else some x

theorem mem_of_latestBy {key : α → Int} {xs : List α} {y : α} (h : latestBy key xs = some y) :
    y ∈ xs := by
  induction xs generalizing y with
  | nil => simp [latestBy] at h
  | cons x xs ih =>
    simp only [latestBy] at h
    split at h
    · simp_all
    · next z hz =>
      split at h
      · simp_all
      · simp_all

end Outbox.Order

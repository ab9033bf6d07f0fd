import Outbox.Proofs.Holdings

/-! Claims are held by open units of work only: where nobody has one open, every aggregate is free
to be written. -/
namespace Outbox
variable {σ : Type} [Model σ]

/-- Whoever goes on from one unit of work to another has a claim in the one or leaves none behind
from the other. -/
def Store.Passes (s : Store σ) (u : Option (UnitOfWork σ)) (s' : Store σ)
    (u' : Option (UnitOfWork σ)) : Prop :=
  ∀ id ∈ s'.claimed, (∃ v ∈ u', id ∈ v.claims) ∨ id ∈ s.claimed ∧ ∀ v ∈ u, id ∉ v.claims

theorem Store.Trades.passes {s s' : Store σ} {u u' : Option (UnitOfWork σ)}
    (h : s.Trades u s' u') : s.Passes u s' u' := by
  intro id hid
  cases h with
  | opens claimed => exact .inr ⟨claimed ▸ hid, by simp⟩
  | @keeps _ u v claimed _ claims =>
    rw [claimed] at hid
    by_cases hu : id ∈ u.claims
    · exact .inl ⟨v, rfl, claims ▸ hu⟩
    · exact .inr ⟨hid, by simpa using hu⟩
  | @claims _ u v new _ claimed _ claims =>
    rw [claimed] at hid
    by_cases hv : id ∈ v.claims
    · exact .inl ⟨v, rfl, hv⟩
    · rw [claims, List.mem_append, List.mem_singleton, not_or] at hv
      exact .inr ⟨(List.mem_cons.mp hid).resolve_left hv.2, by simpa using hv.1⟩
  | @locks _ u v _ claimed _ claims =>
    rw [claimed] at hid
    by_cases hu : id ∈ u.claims
    · exact .inl ⟨v, rfl, claims ▸ hu⟩
    · exact .inr ⟨hid, by simpa using hu⟩
  | @releases _ u claimed =>
    rw [claimed] at hid
    simp only [release, List.mem_filter, decide_not, Bool.not_eq_true', decide_eq_false_iff_not]
      at hid
    exact .inr ⟨hid.1, by simpa using hid.2⟩

namespace Pool
variable {ι : Type} [DecidableEq ι]

/-- Every claim is held by an agent that has a unit of work open. -/
def Claimed (p : Pool ι σ) : Prop :=
  ∀ id ∈ p.world.store.claimed, ∃ i, ∃ u ∈ (p.agents i).unit?, id ∈ u.claims

theorem Claimed.update {p : Pool ι σ} (h : p.Claimed) {w : World σ} {i : ι} {a : Agent σ}
    (hp : p.world.store.Passes (p.agents i).unit? w.store a.unit?) :
    (⟨w, Function.update p.agents i a⟩ : Pool ι σ).Claimed := by
  intro id hid
  rcases hp id hid with ⟨u, hu, hm⟩ | ⟨hs, hn⟩
  · exact ⟨i, u, by simpa using hu, hm⟩
  · obtain ⟨j, u, hu, hm⟩ := h id hs
    have hj : j ≠ i := by
      rintro rfl
      exact hn u hu hm
    exact ⟨j, u, by simpa [hj] using hu, hm⟩

theorem Claimed.act {p : Pool ι σ} (h : p.Claimed) (x : Action ι σ) : (p.act x).Claimed := by
  cases x with
  | step i peers told => exact h.update ((p.agents i).trades_step peers told p.world).passes
  | cancel i => exact h.update ((p.agents i).trades_cancel p.world).passes
  | notify i place =>
    cases ht : p.ledger.log[place]? with
    | none => simpa only [Pool.act, ht] using h
    | some t =>
      have hu := h.update (w := p.world) (i := i) (a := (p.agents i).notify t) (by
        rw [Agent.unit?_notify]
        exact (Store.trades_refl _ _).passes)
      simpa only [Pool.act, ht] using hu
  | fail operations => exact h

theorem Claimed.run {p : Pool ι σ} (h : p.Claimed) (acts : List (Action ι σ)) :
    (p.run acts).Claimed := by
  induction acts generalizing p with
  | nil => exact h
  | cons x acts ih => exact ih (h.act x)

theorem claimed_run (calls : ι → Call σ) (acts : List (Action ι σ)) :
    ((start {} calls).run acts).Claimed := by
  refine Claimed.run (fun id hid => ?_) acts
  cases hid

omit [DecidableEq ι] in
theorem Claimed.eq_nil {p : Pool ι σ} (h : p.Claimed) (rest : ∀ i, (p.agents i).unit? = none) :
    p.world.store.claimed = [] := by
  refine List.eq_nil_iff_forall_not_mem.mpr fun id hid => ?_
  obtain ⟨i, u, hu, -⟩ := h id hid
  rw [rest i] at hu
  cases hu

end Pool
end Outbox

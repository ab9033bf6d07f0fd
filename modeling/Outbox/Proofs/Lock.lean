import Outbox.Proofs.Holdings
import Outbox.Proofs.Reach

/-! The lock on the checkpoint: it is taken as long as an open unit of work holds it, and no two of
them do. Handlings of commands never hold it. -/
namespace Outbox
variable {σ : Type} [Model σ]

def UnitOfWork.holds : Option (UnitOfWork σ) → Bool
  | none => false
  | some u => u.holdsCheckpoint

def Agent.holdsCheckpoint (a : Agent σ) : Bool := UnitOfWork.holds a.unit?

@[simp] theorem Agent.holdsCheckpoint_notify (t : Transaction) (a : Agent σ) :
    (a.notify t).holdsCheckpoint = a.holdsCheckpoint := by
  simp [holdsCheckpoint]

/-- The lock stays with whom it is, is taken while it is free, or is given back. -/
inductive Store.Hands (s : Store σ) (before : Bool) (s' : Store σ) (after : Bool) : Prop
  | stays (lock : s'.checkpointHeld = s.checkpointHeld) (same : after = before)
  | taken (free : s.checkpointHeld = false) (lock : s'.checkpointHeld = true) (now : after = true)
  | given (had : before = true) (lock : s'.checkpointHeld = false) (gone : after = false)

theorem Store.Trades.hands {s s' : Store σ} {u u' : Option (UnitOfWork σ)}
    (h : s.Trades u s' u') : s.Hands (UnitOfWork.holds u) s' (UnitOfWork.holds u') := by
  cases h with
  | opens claimed held bare =>
    refine .stays held ?_
    cases u' with
    | none => rfl
    | some v => exact (bare v rfl).2
  | keeps claimed held claims holds => exact .stays held holds
  | claims id free claimed held claims holds => exact .stays held holds
  | locks free claimed held claims holds => exact .taken free held holds
  | @releases _ u claimed held =>
    cases hu : u.holdsCheckpoint with
    | true => exact .given hu (by simp [held, release, hu]) rfl
    | false => exact .stays (by simp [held, release, hu]) hu.symm

/-- A unit of work that is let go of leaves the lock free, if it held it, and alone, if it did
not. -/
theorem Store.Trades.lock_of_ended {s s' : Store σ} {u u' : Option (UnitOfWork σ)}
    (h : s.Trades u s' u') (ended : u' = none) :
    s'.checkpointHeld = (s.checkpointHeld && !UnitOfWork.holds u) := by
  subst ended
  cases h with
  | opens claimed held => simp [held, UnitOfWork.holds]
  | releases claimed held => rw [held]; rfl

/-- Of those who hold the checkpoint or do not, one holds it exactly while it is locked. -/
structure Store.Guarded {ι : Type} (s : Store σ) (holds : ι → Bool) : Prop where
  someone : s.checkpointHeld = true → ∃ i, holds i = true
  locked : ∀ i, holds i = true → s.checkpointHeld = true
  alone : ∀ i j, holds i = true → holds j = true → i = j

theorem Store.Guarded.update {ι : Type} [DecidableEq ι] {s s' : Store σ} {holds : ι → Bool}
    (h : s.Guarded holds) {i : ι} {after : Bool} (hh : s.Hands (holds i) s' after) :
    s'.Guarded (Function.update holds i after) := by
  have hi : Function.update holds i after i = after := Function.update_self ..
  have ho {j : ι} (hj : j ≠ i) : Function.update holds i after j = holds j :=
    Function.update_of_ne hj ..
  cases hh with
  | stays lock same =>
    have hs : Function.update holds i after = holds := by
      rw [same, Function.update_eq_self]
    rw [hs]
    exact ⟨fun hl => h.someone (lock ▸ hl), fun j hj => lock ▸ h.locked j hj, h.alone⟩
  | taken free lock now =>
    have hn {j : ι} (hj : Function.update holds i after j = true) : j = i := by
      by_contra hne
      rw [ho hne] at hj
      simp [h.locked j hj] at free
    exact ⟨fun _ => ⟨i, hi.trans now⟩, fun _ _ => lock, fun j k hj hk => (hn hj).trans (hn hk).symm⟩
  | given had lock gone =>
    have hn (j : ι) : Function.update holds i after j = false := by
      by_cases hj : j = i
      · rw [hj, hi, gone]
      · rw [ho hj]
        by_contra hne
        exact hj (h.alone j i (by simpa using hne) had)
    exact ⟨fun hl => by simp [lock] at hl, fun j hj => by simp [hn] at hj,
      fun j k hj => by simp [hn] at hj⟩

namespace Handling

/-- The unit of work of a handling does not hold the checkpoint. -/
def Modest (h : Handling σ) : Prop := UnitOfWork.holds h.stage.unit? = false

theorem Modest.move {peers : Peers σ} {w w' : World σ} {h h' : Handling σ} (hh : h.Modest)
    (hm : Move peers w h w' h') : h'.Modest := by
  unfold Modest at hh ⊢
  cases hm with
  | idle => exact hh
  | refused | opens | commits | fails => rfl
  | looks u here | resumes u found a here | saves u here =>
    rw [here] at hh
    exact hh
  | stages u es a b n here =>
    rw [here] at hh
    have hs : (w.store.stage u h.transactionId b b.snapshot).2.1.holdsCheckpoint =
        u.holdsCheckpoint := by
      unfold Store.stage
      split
      · rfl
      · split <;> rfl
    exact hs.trans hh

theorem Modest.cancel {h : Handling σ} (hh : h.Modest) (w : World σ) : (h.cancel w).2.Modest := by
  rcases h.cancel_cases w with ⟨-, he⟩ | ⟨-, he⟩ | ⟨u, -, he⟩
  · rw [he]
    exact hh
  · rw [he]
    rfl
  · rw [he]
    rfl

end Handling

namespace Pool
variable {ι : Type} [DecidableEq ι]

/-- The checkpoint is locked exactly while an agent holds it, and no two agents do. -/
structure Guarded (p : Pool ι σ) : Prop where
  someone : p.world.store.checkpointHeld = true → ∃ i, (p.agents i).holdsCheckpoint = true
  locked : ∀ i, (p.agents i).holdsCheckpoint = true → p.world.store.checkpointHeld = true
  alone : ∀ i j, (p.agents i).holdsCheckpoint = true → (p.agents j).holdsCheckpoint = true → i = j

omit [DecidableEq ι] in
theorem guarded_start (calls : ι → Call σ) : (start {} calls).Guarded := by
  have hn (i : ι) : ((start {} calls).agents i).holdsCheckpoint = false := by
    simp only [start]
    cases calls i <;> rfl
  exact ⟨nofun, fun i hi => by simp [hn] at hi, fun i j hi => by simp [hn] at hi⟩

theorem Guarded.update {p : Pool ι σ} (h : p.Guarded) {w : World σ} {i : ι} {a : Agent σ}
    (hh : p.world.store.Hands (p.agents i).holdsCheckpoint w.store a.holdsCheckpoint) :
    (⟨w, Function.update p.agents i a⟩ : Pool ι σ).Guarded := by
  have hg : p.world.store.Guarded fun j => (p.agents j).holdsCheckpoint :=
    ⟨h.someone, h.locked, h.alone⟩
  have he : (fun j => (Function.update p.agents i a j).holdsCheckpoint) =
      Function.update (fun j => (p.agents j).holdsCheckpoint) i a.holdsCheckpoint :=
    funext fun j => Function.apply_update (fun _ => Agent.holdsCheckpoint) p.agents i a j
  obtain ⟨hs, hl, ha⟩ := he ▸ hg.update hh
  exact ⟨hs, hl, ha⟩

theorem Guarded.act {p : Pool ι σ} (h : p.Guarded) (x : Action ι σ) : (p.act x).Guarded := by
  cases x with
  | step i peers told => exact h.update ((p.agents i).trades_step peers told p.world).hands
  | cancel i => exact h.update ((p.agents i).trades_cancel p.world).hands
  | notify i place =>
    cases ht : p.ledger.log[place]? with
    | none => simpa only [Pool.act, ht] using h
    | some t =>
      have hu := h.update (w := p.world) (i := i) (a := (p.agents i).notify t)
        (.stays rfl (Agent.holdsCheckpoint_notify ..))
      simpa only [Pool.act, ht] using hu
  | fail operations => exact ⟨h.someone, h.locked, h.alone⟩

theorem Guarded.run {p : Pool ι σ} (h : p.Guarded) (acts : List (Action ι σ)) :
    (p.run acts).Guarded := by
  induction acts generalizing p with
  | nil => exact h
  | cons x acts ih => exact ih (h.act x)

def Modest (p : Pool ι σ) : Prop := ∀ i h, p.agents i = .task (.handling h) → h.Modest

omit [DecidableEq ι] in
theorem modest_start (w : World σ) (calls : ι → Call σ) : (start w calls).Modest := by
  intro i h hi
  simp only [start] at hi
  cases hc : calls i with
  | request r =>
    rw [hc] at hi
    cases hi
    rfl
  | relay t provider =>
    rw [hc] at hi
    cases hi
  | consume provider source =>
    rw [hc] at hi
    cases hi

theorem Modest.update {p : Pool ι σ} (hp : p.Modest) {w : World σ} {i : ι} {a : Agent σ}
    (ha : ∀ h, a = .task (.handling h) → h.Modest) :
    (⟨w, Function.update p.agents i a⟩ : Pool ι σ).Modest := by
  intro j h hj
  by_cases hji : j = i
  · subst hji
    exact ha h (by simpa using hj)
  · exact hp j h (by simpa [hji] using hj)

theorem Modest.act {p : Pool ι σ} (hp : p.Modest) (x : Action ι σ) : (p.act x).Modest := by
  cases x with
  | step i peers told =>
    refine hp.update fun h hh => ?_
    rcases ha : p.agents i with (g | r) | k
    · rw [ha] at hh
      cases hh
      exact (hp i g ha).move (g.step_move peers p.world)
    · simp [ha, Agent.step, Task.step] at hh
    · simp [ha, Agent.step] at hh
  | cancel i =>
    refine hp.update fun h hh => ?_
    rcases ha : p.agents i with (g | r) | k
    · rw [ha] at hh
      cases hh
      exact (hp i g ha).cancel p.world
    · simp [ha, Agent.cancel, Task.cancel] at hh
    · simp [ha, Agent.cancel] at hh
  | notify i place =>
    cases ht : p.ledger.log[place]? with
    | none => simpa only [Pool.act, ht] using hp
    | some t =>
      simp only [Pool.act, ht]
      refine hp.update (w := p.world) fun h hh => ?_
      rcases ha : p.agents i with (g | r) | k
      · rw [ha] at hh
        cases hh
        exact hp i h ha
      · simp [ha, Agent.notify] at hh
      · simp [ha, Agent.notify] at hh
  | fail operations => exact hp

theorem Modest.run {p : Pool ι σ} (hp : p.Modest) (acts : List (Action ι σ)) :
    (p.run acts).Modest := by
  induction acts generalizing p with
  | nil => exact hp
  | cons x acts ih => exact ih (hp.act x)

end Pool
end Outbox

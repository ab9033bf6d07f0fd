import Outbox.Proofs.Knowledge

/-! What every run keeps true, whatever fails or is given up on the way: the ledger is sound, and
whoever is at work knows enough of it to keep it so. -/
namespace Outbox
variable {σ : Type} [Model σ]

/-- What one step makes durable, if anything. -/
inductive Ledger.Step (l : Ledger σ) : Ledger σ → Prop
  | still : Step l l
  | handled (r : Request σ) (n : Nat) (s : σ) (writes : r.Writes l n s)
      (current : l.outdated (r.unit n s) = none) : Step l (l.absorb (r.unit n s))
  | relayed (u : UnitOfWork σ) (reads : u.ReadOnly) : Step l (l.absorb u)

theorem Ledger.Step.grows {l m : Ledger σ} (h : l.Step m) : l.Grows m := by
  cases h with
  | still => exact .refl l
  | handled r n s => exact grows_absorb_writing l _ _
  | relayed u reads => exact grows_absorb_readOnly l reads

theorem Ledger.Step.sound {l m : Ledger σ} (h : l.Step m) (hl : l.Sound) : m.Sound := by
  cases h with
  | still => exact hl
  | handled r n s writes current => exact hl.absorb_unit writes current
  | relayed u reads => exact hl.absorb_readOnly reads

namespace Round

def Reads (r : Round σ) : Prop := ∀ u, r.stage.unit? = some u → u.ReadOnly

theorem reads_of_rank_eq_zero {r : Round σ} (h : r.stage.rank = 0) : r.Reads := by
  intro u hu
  cases hs : r.stage <;> simp_all [Stage.rank, Stage.unit?]

theorem reads_of_waiting {r : Round σ} (h : r.stage = .waiting) : r.Reads := by
  simp [Reads, h, Stage.unit?]

theorem reads_of_stage {r : Round σ} {u : UnitOfWork σ} (hu : u.ReadOnly)
    (there : r.stage.unit? = some u) : r.Reads := by
  intro v hv
  rw [there] at hv
  cases hv
  exact hu

theorem Reads.move {peers : Peers σ} {w w' : World σ} {r r' : Round σ} (h : r.Reads)
    (hm : Move peers w r w' r') :
    w.store.ledger.Step w'.store.ledger ∧ r'.Reads := by
  cases hm with
  | idle => exact ⟨.still, h⟩
  | refused => exact ⟨.still, reads_of_rank_eq_zero rfl⟩
  | opens => exact ⟨.still, reads_of_stage ⟨rfl, rfl, rfl, rfl⟩ rfl⟩
  | locks u here =>
    have hu := h u (by rw [here]; rfl)
    rcases w.store.readCheckpoint_cases u with ⟨found, -, he⟩ | ⟨held, he⟩
    · rw [he]
      exact ⟨.still, reads_of_stage hu rfl⟩
    · rw [he]
      exact ⟨.still, reads_of_stage (hu.withCheckpoint true u.checkpoint) rfl⟩
  | collects u c here ahead => exact ⟨.still, reads_of_stage (h u (by rw [here]; rfl)) rfl⟩
  | seeks u e es here => exact ⟨.still, reads_of_stage (h u (by rw [here]; rfl)) rfl⟩
  | recalls u es first a b found here =>
    exact ⟨.still, reads_of_stage (h u (by rw [here]; rfl)) rfl⟩
  | announces u es first a b c found batch n here =>
    exact ⟨.still, reads_of_stage (h u (by rw [here]; rfl)) rfl⟩
  | replays u es hs a b c batch n here =>
    exact ⟨.still, reads_of_stage (h u (by rw [here]; rfl)) rfl⟩
  | publishes u a batch here =>
    rw [World.publish_store]
    exact ⟨.still, reads_of_stage (h u (by rw [here]; rfl)) rfl⟩
  | moves u published ns here =>
    have hu : u.ReadOnly := by
      rcases here with ⟨here, _⟩ | ⟨a, here⟩
      · exact h u (by rw [here]; rfl)
      · exact h u (by rw [here]; rfl)
    rcases w.store.moveCheckpoint_cases u ⟨r.transaction.sequence⟩ with ⟨x, -, he⟩ | ⟨held, he⟩
    · rw [he]
      exact ⟨.still, reads_of_stage hu rfl⟩
    · rw [he]
      exact ⟨.still, reads_of_stage (hu.withCheckpoint true _) rfl⟩
  | commits u published n here =>
    exact ⟨.relayed u (h u (by rw [here]; rfl)), reads_of_rank_eq_zero rfl⟩
  | leaves u result ns here still => exact ⟨.still, reads_of_rank_eq_zero rfl⟩

/-- Of all that is durable, a round changes the checkpoint at most. -/
theorem Reads.relay {peers : Peers σ} {w w' : World σ} {r r' : Round σ} (h : r.Reads)
    (hm : Move peers w r w' r') :
    ∃ c, w'.store.ledger = { w.store.ledger with checkpoint := c } := by
  cases hm with
  | locks u here =>
    rcases w.store.readCheckpoint_cases u with ⟨found, -, he⟩ | ⟨held, he⟩ <;>
      exact ⟨w.store.ledger.checkpoint, by rw [he]⟩
  | publishes u a batch here => exact ⟨w.store.ledger.checkpoint, by rw [World.publish_store]⟩
  | moves u published ns here =>
    rcases w.store.moveCheckpoint_cases u ⟨r.transaction.sequence⟩ with ⟨x, -, he⟩ | ⟨held, he⟩ <;>
      exact ⟨w.store.ledger.checkpoint, by rw [he]⟩
  | commits u published n here =>
    exact ⟨_, Ledger.absorb_readOnly _ (h u (by rw [here]; rfl))⟩
  | _ => exact ⟨w.store.ledger.checkpoint, rfl⟩

theorem Reads.cancel {w : World σ} {r : Round σ} (h : r.Reads) :
    (r.cancel w).1.store.ledger = w.store.ledger ∧ (r.cancel w).2.Reads := by
  rcases cancel_cases w r with ⟨-, he⟩ | ⟨-, he⟩ | ⟨u, -, he⟩
  · rw [he]
    exact ⟨rfl, h⟩
  · rw [he]
    exact ⟨rfl, reads_of_rank_eq_zero rfl⟩
  · rw [he]
    exact ⟨rfl, reads_of_rank_eq_zero rfl⟩

end Round

theorem Consumer.Move.reads {peers : Peers σ} {w w' : World σ} {k k' : Consumer σ}
    (hm : Move peers w k w' k') (h : ∀ r, k.stage = .relaying r → r.Reads) :
    w.store.ledger.Step w'.store.ledger ∧ ∀ r, k'.stage = .relaying r → r.Reads := by
  cases hm with
  | rests ns k' here there => exact ⟨.still, fun r hr => absurd hr (there r)⟩
  | takes x xs t here =>
    refine ⟨.still, fun r hr => ?_⟩
    cases hr
    exact Round.reads_of_waiting rfl
  | relays r here =>
    obtain ⟨hs, hr⟩ := (h r here).move (r.step_move peers w)
    refine ⟨hs, fun r' he => ?_⟩
    cases he
    exact hr
  | accounts r result ns report here =>
    obtain ⟨hs, -⟩ := (h r here).move (r.step_move peers w)
    exact ⟨hs, by simp⟩

theorem Consumer.Move.relay {peers : Peers σ} {w w' : World σ} {k k' : Consumer σ}
    (hm : Move peers w k w' k') (h : ∀ r, k.stage = .relaying r → r.Reads) :
    ∃ c, w'.store.ledger = { w.store.ledger with checkpoint := c } := by
  cases hm with
  | rests | takes => exact ⟨w.store.ledger.checkpoint, rfl⟩
  | relays r here => exact (h r here).relay (r.step_move peers w)
  | accounts r result ns report here =>
    have hr := (h r here).relay (r.step_move peers w)
    exact hr

theorem Consumer.reads_abort {w : World σ} {k : Consumer σ}
    (h : ∀ r, k.stage = .relaying r → r.Reads) :
    (k.abort w).1.store.ledger = w.store.ledger ∧
      ∀ r, (k.abort w).2.stage = .relaying r → r.Reads := by
  cases hs : k.stage with
  | relaying r =>
    obtain ⟨he, -⟩ := (h r hs).cancel (w := w)
    simp [abort, hs, he]
  | polling => simp [abort, hs]
  | stopped => simp [abort, hs]
  | crashed => simp [abort, hs]

/-- What an agent knows of what is durable, by what it was called for. -/
inductive Call.Knows (l : Ledger σ) : Call σ → Agent σ → Prop
  | request {r : Request σ} {h : Handling σ} (knows : r.Knows l h) :
    Knows l (.request r) (.task (.handling h))
  | relay {t : Transaction} {provider : Uuid → Aggregate σ} {r : Round σ} (reads : r.Reads) :
    Knows l (.relay t provider) (.task (.round r))
  | consume {provider : Uuid → Aggregate σ} {source : Source} {k : Consumer σ}
    (reads : ∀ r, k.stage = .relaying r → r.Reads) :
    Knows l (.consume provider source) (.consumer k)

namespace Call

theorem knows_agent (c : Call σ) (l : Ledger σ) : c.Knows l c.agent := by
  cases c with
  | request r => exact .request (r.knows_handling l)
  | relay t provider => exact .relay (Round.reads_of_waiting rfl)
  | consume provider source => exact .consume (by simp)

theorem Knows.mono {c : Call σ} {l m : Ledger σ} (h : l.Grows m) {a : Agent σ}
    (hk : c.Knows l a) : c.Knows m a := by
  cases hk with
  | request knows => exact .request (knows.mono h)
  | relay reads => exact .relay reads
  | consume reads => exact .consume reads

theorem Knows.step {c : Call σ} {w : World σ} {a : Agent σ} (hl : w.store.ledger.Sound)
    (hk : c.Knows w.store.ledger a) (peers : Peers σ) (told : Bool) :
    w.store.ledger.Step (a.step peers told w).1.store.ledger ∧
      c.Knows (a.step peers told w).1.store.ledger (a.step peers told w).2 := by
  cases hk with
  | @request r h knows =>
    change w.store.ledger.Step (h.step peers w).1.store.ledger ∧
      Knows (h.step peers w).1.store.ledger _ (.task (.handling (h.step peers w).2))
    rcases knows.move hl (h.step_move peers w) with ⟨he, hk, -⟩ | ⟨n, s, hw, hf, he, -, hs⟩
    · rw [he]
      exact ⟨.still, .request hk⟩
    · rw [he, hs]
      exact ⟨.handled r n s hw hf,
        .request ⟨knows.command, knows.transactionId, knows.createdAt, trivial⟩⟩
  | @relay t provider r reads =>
    obtain ⟨hs, hr⟩ := reads.move (r.step_move peers w)
    exact ⟨hs, .relay hr⟩
  | @consume provider source k reads =>
    change w.store.ledger.Step (k.step peers told w).1.store.ledger ∧
      Knows (k.step peers told w).1.store.ledger _ (.consumer (k.step peers told w).2)
    obtain ⟨hs, hr⟩ := Consumer.Move.reads (k.step_move peers told w) reads
    exact ⟨hs, .consume hr⟩

theorem Knows.checkpoint_step {c : Call σ} {w : World σ} {a : Agent σ}
    (hk : c.Knows w.store.ledger a) (other : ∀ r, c ≠ .request r) (peers : Peers σ) (told : Bool) :
    ∃ k, (a.step peers told w).1.store.ledger = { w.store.ledger with checkpoint := k } := by
  cases hk with
  | @request r => exact absurd rfl (other r)
  | @relay t provider r reads => exact reads.relay (r.step_move peers w)
  | @consume provider source k reads => exact (k.step_move peers told w).relay reads

theorem Knows.cancel {c : Call σ} {w : World σ} {a : Agent σ} (hk : c.Knows w.store.ledger a) :
    (a.cancel w).1.store.ledger = w.store.ledger ∧ c.Knows w.store.ledger (a.cancel w).2 := by
  cases hk with
  | @request r h knows =>
    change (h.cancel w).1.store.ledger = w.store.ledger ∧
      Knows w.store.ledger _ (.task (.handling (h.cancel w).2))
    rcases h.cancel_cases w with ⟨-, he⟩ | ⟨-, he⟩ | ⟨u, -, he⟩
    · rw [he]
      exact ⟨rfl, .request knows⟩
    · rw [he]
      exact ⟨rfl, .request ⟨knows.command, knows.transactionId, knows.createdAt, trivial⟩⟩
    · rw [he]
      exact ⟨rfl, .request ⟨knows.command, knows.transactionId, knows.createdAt, trivial⟩⟩
  | @relay t provider r reads => exact ⟨reads.cancel.1, .relay reads.cancel.2⟩
  | @consume provider source k reads =>
    obtain ⟨he, hr⟩ := Consumer.reads_abort (w := w) reads
    exact ⟨he, .consume hr⟩

theorem Knows.notify {c : Call σ} {l : Ledger σ} {a : Agent σ} (hk : c.Knows l a)
    (t : Transaction) : c.Knows l (a.notify t) := by
  cases hk with
  | request knows => exact .request knows
  | relay reads => exact .relay reads
  | consume reads => exact .consume reads

end Call

namespace Pool
variable {ι : Type} [DecidableEq ι]

/-- The ledger is sound, and every agent knows what its call needs it to. -/
structure Sound (calls : ι → Call σ) (p : Pool ι σ) : Prop where
  ledger : p.ledger.Sound
  knows : ∀ i, (calls i).Knows p.ledger (p.agents i)

omit [DecidableEq ι] in
theorem sound_start (calls : ι → Call σ) {w : World σ} (h : w.store.ledger.Sound) :
    (start w calls).Sound calls := ⟨h, fun i => (calls i).knows_agent _⟩

theorem Sound.update {calls : ι → Call σ} {p : Pool ι σ} (h : p.Sound calls) {w : World σ}
    (hs : p.ledger.Step w.store.ledger) {i : ι} {a : Agent σ}
    (ha : (calls i).Knows w.store.ledger a) :
    (⟨w, Function.update p.agents i a⟩ : Pool ι σ).Sound calls := by
  refine ⟨hs.sound h.ledger, fun j => ?_⟩
  by_cases hj : j = i
  · subst hj
    simpa [Pool.ledger] using ha
  · simpa [Pool.ledger, hj] using (h.knows j).mono hs.grows

theorem Sound.act {calls : ι → Call σ} {p : Pool ι σ} (h : p.Sound calls) (x : Action ι σ) :
    p.ledger.Step (p.act x).ledger ∧ (p.act x).Sound calls := by
  cases x with
  | step i peers told =>
    obtain ⟨hs, hk⟩ := (h.knows i).step h.ledger peers told
    exact ⟨hs, h.update hs hk⟩
  | cancel i =>
    obtain ⟨he, hk⟩ := (h.knows i).cancel
    have hs : p.ledger.Step ((p.agents i).cancel p.world).1.store.ledger := he ▸ .still
    exact ⟨hs, h.update hs (he.symm ▸ hk)⟩
  | notify i place =>
    cases ht : p.ledger.log[place]? with
    | none => simpa only [Pool.act, ht] using ⟨.still, h⟩
    | some t =>
      have hu := h.update (w := p.world) .still ((h.knows i).notify t)
      simpa only [Pool.act, ht] using ⟨.still, hu⟩
  | fail operations => exact ⟨.still, h.ledger, h.knows⟩

theorem Sound.run {calls : ι → Call σ} {p : Pool ι σ} (h : p.Sound calls)
    (acts : List (Action ι σ)) : p.ledger.Grows (p.run acts).ledger ∧ (p.run acts).Sound calls := by
  induction acts generalizing p with
  | nil => exact ⟨.refl _, h⟩
  | cons x acts ih =>
    obtain ⟨hs, hx⟩ := h.act x
    obtain ⟨hg, hr⟩ := ih hx
    exact ⟨hs.grows.trans hg, hr⟩

theorem receipt?_update (agents : ι → Agent σ) (i j : ι) (a : Agent σ) :
    (Function.update agents i a j).receipt? =
      if j = i then a.receipt? else (agents j).receipt? := by
  by_cases hj : j = i
  · subst hj
    simp
  · simp [hj]

theorem ledger_notify (p : Pool ι σ) (i : ι) (place : Nat) :
    (p.act (.notify i place)).ledger = p.ledger := by
  cases ht : p.ledger.log[place]? with
  | none => simp only [Pool.act, ht]
  | some t =>
    simp only [Pool.act, ht]
    rfl

theorem receipt?_notify (p : Pool ι σ) (i : ι) (place : Nat) (j : ι) :
    ((p.act (.notify i place)).agents j).receipt? = (p.agents j).receipt? := by
  cases ht : p.ledger.log[place]? with
  | none => simp only [Pool.act, ht]
  | some t =>
    simp only [Pool.act, ht, receipt?_update]
    split
    · next hj => rw [hj, Agent.receipt?_notify]
    · rfl

section
variable {calls : ι → Call σ} {p : Pool ι σ} (h : p.Sound calls) {i : ι} {r : Request σ}
  (hr : calls i = .request r)
include h hr

omit [DecidableEq ι] in
theorem Sound.agent_request : ∃ x, p.agents i = .task (.handling x) ∧ r.Knows p.ledger x := by
  have hk := h.knows i
  rw [hr] at hk
  generalize p.agents i = a at hk
  cases hk with
  | request knows => exact ⟨_, rfl, knows⟩

theorem Sound.step_request (peers : Peers σ) (told : Bool) :
    ((p.act (.step i peers told)).ledger = p.ledger ∧
      ∀ j, ((p.act (.step i peers told)).agents j).receipt? = (p.agents j).receipt?) ∨
    ∃ n s, r.Writes p.ledger n s ∧ p.ledger.outdated (r.unit n s) = none ∧
      (p.act (.step i peers told)).ledger = p.ledger.absorb (r.unit n s) ∧
      (p.agents i).receipt? = none ∧
      ∀ j, ((p.act (.step i peers told)).agents j).receipt? =
        if j = i then some (r.receipt n) else (p.agents j).receipt? := by
  obtain ⟨y, ha, hk⟩ := h.agent_request hr
  have he := act_step_handling ha peers told
  rcases hk.move h.ledger (y.step_move peers p.world) with
    ⟨hl, -, hy⟩ | ⟨n, s, hw, hc, hl, hn, hy⟩
  · refine .inl ⟨by rw [he]; exact hl, fun j => ?_⟩
    rw [he, receipt?_update]
    split
    · next hj =>
      rw [hj, ha]
      exact hy
    · rfl
  · have hi : (p.agents i).receipt? = none := by
      rw [ha]
      exact hn
    refine .inr ⟨n, s, hw, hc, by rw [he]; exact hl, hi, fun j => ?_⟩
    rw [he, receipt?_update, hy]
    rfl

theorem Sound.cancel_request :
    (p.act (.cancel i)).ledger = p.ledger ∧
      ∀ j, ((p.act (.cancel i)).agents j).receipt? = (p.agents j).receipt? := by
  obtain ⟨y, ha, -⟩ := h.agent_request hr
  obtain ⟨hl, -⟩ := (h.knows i).cancel
  refine ⟨hl, fun j => ?_⟩
  simp only [Pool.act, receipt?_update]
  split
  · next hj =>
    rw [hj, ha]
    exact y.receipt?_cancel p.world
  · rfl

end

theorem start_run_sound (calls : ι → Call σ) (acts : List (Action ι σ)) :
    ((start {} calls).run acts).Sound calls :=
  ((sound_start calls Ledger.Sound.empty).run acts).2

theorem sound_run (calls : ι → Call σ) (acts : List (Action ι σ)) :
    ((start {} calls).run acts).ledger.Sound :=
  (start_run_sound calls acts).ledger

/-- Whatever happens, nothing durable is taken back. -/
theorem grows_run (calls : ι → Call σ) (acts : List (Action ι σ)) (x : Action ι σ) :
    ((start {} calls).run acts).ledger.Grows (((start {} calls).run acts).act x).ledger :=
  ((start_run_sound calls acts).act x).1.grows

theorem knows_run {calls : ι → Call σ} {i : ι} {r : Request σ} (called : calls i = .request r)
    {acts : List (Action ι σ)} {h : Handling σ}
    (here : ((start {} calls).run acts).agents i = .task (.handling h)) :
    r.Knows ((start {} calls).run acts).ledger h := by
  obtain ⟨g, hg, hk⟩ := (start_run_sound calls acts).agent_request called
  cases here.symm.trans hg
  exact hk

/-- Whatever happens, the committed events of an aggregate carry the versions from 1 on, in the
order of their commits, and the last of them is the stored version. -/
theorem versions_run (calls : ι → Call σ) (acts : List (Action ι σ)) (id : Uuid) :
    ∃ n : Nat,
      (((start {} calls).run acts).ledger.stream id).map Event.version =
        (List.range n).map (fun k : Nat => (k : Int) + 1) ∧
      ((start {} calls).run acts).ledger.version id = n := by
  have hs := sound_run calls acts
  refine ⟨_, ?_, hs.version id⟩
  rw [(hs.numbered id).map_version]
  simp only [Int.zero_add]

end Pool
end Outbox

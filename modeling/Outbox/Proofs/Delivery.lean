import Outbox.Proofs.Range

/-! What others see of a consumer while commands commit: batches of the aggregate that its round was
notified of, each followed by a move of the checkpoint, which is that of the whole log. -/
namespace Outbox
variable {σ : Type} [Model σ]

/-- A move of the checkpoint: the places it went past, and the aggregate that the round was notified
of. -/
structure Leg where
  aggregateId : Uuid
  range : LogRange
  deriving DecidableEq

namespace Leg

/-- Each leg starts where the one before it ended. -/
def Chain : Int → List Leg → Int → Prop
  | a, [], b => a = b
  | a, g :: gs, b => g.range.after = a ∧ a < g.range.upTo ∧ Chain g.range.upTo gs b

theorem Chain.le {a b : Int} {gs : List Leg} (h : Chain a gs b) : a ≤ b := by
  induction gs generalizing a with
  | nil => exact Int.le_of_eq h
  | cons g gs ih =>
    obtain ⟨-, hg, hs⟩ := h
    have hb := ih hs
    omega

theorem Chain.concat {a b c : Int} {gs : List Leg} (h : Chain a gs b) (id : Uuid) (hc : b < c) :
    Chain a (gs ++ [⟨id, ⟨b, c⟩⟩]) c := by
  induction gs generalizing a with
  | nil => exact ⟨h.symm, h ▸ hc, rfl⟩
  | cons g gs ih =>
    obtain ⟨ha, hg, hs⟩ := h
    exact ⟨ha, hg, ih hs⟩

theorem Chain.bounds {a b s : Int} {gs : List Leg} (h : Chain a gs b) {g : Leg} (hg : g ∈ gs)
    (hs : g.range.contains s = true) : a < s ∧ s ≤ b := by
  induction gs generalizing a with
  | nil => cases hg
  | cons f gs ih =>
    obtain ⟨ha, hf, hc⟩ := h
    rcases List.mem_cons.mp hg with rfl | hg
    · have hr := LogRange.contains_iff.mp hs
      have hb := hc.le
      omega
    · have hb := ih hc hg
      omega

theorem Chain.upTo_le {a b : Int} {gs : List Leg} (h : Chain a gs b) {g : Leg} (hg : g ∈ gs) :
    g.range.upTo ≤ b := by
  induction gs generalizing a with
  | nil => cases hg
  | cons f gs ih =>
    rcases List.mem_cons.mp hg with rfl | hg
    · exact h.2.2.le
    · exact ih h.2.2 hg

theorem Chain.pairwise {a b : Int} {gs : List Leg} (h : Chain a gs b) :
    gs.Pairwise fun f g => f.range.upTo ≤ g.range.after := by
  induction gs generalizing a with
  | nil => exact .nil
  | cons g gs ih =>
    obtain ⟨-, -, hc⟩ := h
    refine .cons (fun f hf => ?_) (ih hc)
    clear ih
    generalize g.range.upTo = c at hc
    induction gs generalizing c with
    | nil => cases hf
    | cons k gs ih =>
      obtain ⟨hk, hlt, hc⟩ := hc
      rcases List.mem_cons.mp hf with rfl | hf
      · exact Int.le_of_eq hk.symm
      · have hle := ih hf _ hc
        omega

theorem Chain.exists_contains {a b s : Int} {gs : List Leg} (h : Chain a gs b) (ha : a < s)
    (hb : s ≤ b) : ∃ g ∈ gs, g.range.contains s = true := by
  induction gs generalizing a with
  | nil =>
    have he : a = b := h
    omega
  | cons g gs ih =>
    obtain ⟨hg, _, hc⟩ := h
    by_cases hs : s ≤ g.range.upTo
    · exact ⟨g, List.mem_cons_self, LogRange.contains_iff.mpr ⟨by omega, hs⟩⟩
    · obtain ⟨f, hf, hfs⟩ := ih hc (by omega)
      exact ⟨f, List.mem_cons_of_mem g hf, hfs⟩

theorem Chain.eq_of_contains {a b s : Int} {gs : List Leg} (h : Chain a gs b) {f g : Leg}
    (hf : f ∈ gs) (hg : g ∈ gs) (hfs : f.range.contains s = true)
    (hgs : g.range.contains s = true) : f = g := by
  induction gs generalizing a with
  | nil => cases hf
  | cons k gs ih =>
    obtain ⟨-, -, hc⟩ := h
    rcases List.mem_cons.mp hf with rfl | hf' <;> rcases List.mem_cons.mp hg with rfl | hg'
    · rfl
    · have hb := hc.bounds hg' hgs
      have hr := LogRange.contains_iff.mp hfs
      omega
    · have hb := hc.bounds hf' hfs
      have hr := LogRange.contains_iff.mp hgs
      omega
    · exact ih hc hf' hg'

end Leg

def Consumer.round? (k : Consumer σ) : Option (Round σ) :=
  match k.stage with
  | .relaying r => some r
  | _ => none

def Agent.round? : Agent σ → Option (Round σ)
  | task (.handling _) => none
  | task (.round r) => some r
  | consumer k => k.round?

def Round.outgoing (r : Round σ) : List (EventOf σ) :=
  match r.stage with
  | .publishing _ a _ => a.changes
  | _ => []

namespace Pool
variable {ι : Type} [DecidableEq ι]

def roundOf (p : Pool ι σ) : Action ι σ → Option (Round σ)
  | .step i _ _ => (p.agents i).round?
  | _ => none

def published (p : Pool ι σ) (x : Action ι σ) : List (List (EventOf σ)) :=
  if p.world.batches.length < (p.act x).world.batches.length then
    ((p.roundOf x).map Round.outgoing).toList
  else []

/-- How an action has moved the checkpoint, if it has. -/
def legs (p : Pool ι σ) (x : Action ι σ) : List Leg :=
  if (p.act x).ledger.checkpoint = p.ledger.checkpoint then []
  else
    let range : LogRange := ⟨p.ledger.checkpoint.last, (p.act x).ledger.checkpoint.last⟩
    ((p.roundOf x).map fun r => ⟨r.transaction.aggregateId, range⟩).toList

end Pool

/-- What others see of a step in which a round takes part: nothing, its batch published, or the
checkpoint moved past all that it has had published. -/
inductive Shows (w : World σ) (r? : Option (Round σ)) (before : List (List (EventOf σ)))
    (w' : World σ) (now : List (List (EventOf σ))) : Prop
  | nothing (ledger : w'.store.ledger = w.store.ledger) (batches : w'.batches = w.batches)
    (same : now = before)
  | batch (r : Round σ) (batch : List (IntegrationOf σ)) (here : r? = some r)
    (ledger : w'.store.ledger = w.store.ledger) (batches : w'.batches = w.batches ++ [batch])
    (told : batch.map .ok = r.outgoing.map w.store.ledger.tell) (none : before = [])
    (all : now = [r.outgoing])
  | checkpoint (r : Round σ) (here : r? = some r)
    (ahead : w.store.ledger.checkpoint.last < r.transaction.sequence)
    (logged : r.transaction.sequence ≤ w.store.ledger.log.length)
    (ledger : w'.store.ledger = { w.store.ledger with checkpoint := ⟨r.transaction.sequence⟩ })
    (batches : w'.batches = w.batches) (all : before = w.store.ledger.parcels r.transaction)
    (none : now = [])

namespace Shows
variable {w w' : World σ} {r? : Option (Round σ)} {before now : List (List (EventOf σ))}

theorem log (h : Shows w r? before w' now) : w'.store.ledger.log = w.store.ledger.log := by
  cases h with
  | nothing ledger => rw [ledger]
  | batch r batch here ledger => rw [ledger]
  | checkpoint r here ahead logged ledger => rw [ledger]

theorem say (h : Shows w r? before w' now) (ns : List Notice) :
    Shows w r? before { w' with notices := ns } now := by
  cases h with
  | nothing ledger batches same => exact .nothing ledger batches same
  | batch r batch here ledger batches told none all =>
    exact .batch r batch here ledger batches told none all
  | checkpoint r here ahead logged ledger batches all none =>
    exact .checkpoint r here ahead logged ledger batches all none

end Shows

theorem Store.commit_readOnly {s : Store σ} (calm : s.failing = []) {u : UnitOfWork σ}
    (h : u.ReadOnly) : ∃ s', s.commit u = (.ok (), s') := by
  have ho : s.ledger.outdated u = none := by simp [Ledger.outdated, h.versions]
  exact ⟨_, by simp only [commit, Store.check_of_calm calm, ho]; rfl⟩

namespace Round

/-- A round for a transaction in the log, on a store that does not fail. -/
structure Sane (l : Ledger σ) (r : Round σ) : Prop where
  fresh : r.Fresh
  logged : r.transaction.sequence ≤ l.log.length
  holds : Holds l r.transaction r.stage
  unhurt : ∀ u n x, r.stage ≠ .moved u n (.error x)

theorem holds_of_rank_eq_zero {stage : Stage σ} (h : stage.rank = 0) (l : Ledger σ)
    (t : Transaction) : Holds l t stage := by
  cases stage <;> trivial

theorem Sane.mono {l m : Ledger σ} (h : l.Later m) (hl : l.Dense) (hm : m.Dense) {r : Round σ}
    (hr : Sane l r) : Sane m r := by
  have hn : (l.log.length : Int) ≤ m.log.length := Int.ofNat_le.mpr h.log.length_le
  exact ⟨hr.fresh, Int.le_trans hr.logged hn, hr.holds.mono h hl hm hr.logged, hr.unhurt⟩

/-- Once all is published, nothing keeps the round from moving the checkpoint. -/
theorem Sane.commit_ok {w : World σ} {r : Round σ} (h : Sane w.store.ledger r)
    (calm : w.store.failing = []) {u : UnitOfWork σ} (hu : r.stage.unit? = some u)
    (ha : r.stage.accepted = true) : ∃ s, w.store.commit u = (.ok (), s) := by
  have hh := h.holds
  have hn := h.unhurt
  refine Store.commit_readOnly calm ?_
  cases hs : r.stage with
  | published v a n result =>
    rw [hs] at hh hu
    cases hu
    rw [hh.1.unit]
    exact ⟨rfl, rfl, rfl, rfl⟩
  | moved v n result =>
    rw [hs] at hh hu
    cases hu
    cases result with
    | error x => exact absurd hs (hn u n x)
    | ok _ =>
      rw [hh.2.2 rfl]
      exact UnitOfWork.readOnly_moving _
  | _ => simp [hs, Stage.accepted] at ha

theorem Sane.step [LawfulModel σ] {peers : Peers σ} {w w' : World σ} {r r' : Round σ}
    (hl : w.store.ledger.Sound) (hf : w.store.ledger.Faithful) (calm : w.store.failing = [])
    (h : Sane w.store.ledger r) (hm : Move peers w r w' r') :
    Sane w'.store.ledger r' ∧ Shows w (some r) (sent w.store.ledger r.transaction r.stage) w'
      (sent w'.store.ledger r'.transaction r'.stage) := by
  have ht := hm.transaction
  have hfr := hm.fresh h.fresh
  have hh := h.holds
  cases h.holds.effect hl hf h.fresh hm with
  | idles ended world round =>
    subst world round
    exact ⟨h, .nothing rfl rfl rfl⟩
  | ends ended still ledger batches excuse =>
    have ha : r.stage.accepted = false := by
      by_contra ha
      rw [Bool.not_eq_false] at ha
      rcases excuse ha with ⟨u, n, x, hx⟩ | ⟨u, x, s, hu, hx⟩
      · exact h.unhurt u n x hx
      · obtain ⟨s', hs'⟩ := h.commit_ok calm hu ha
        rw [hs'] at hx
        cases hx
    have ha' : r'.stage.accepted = false := by
      cases hs : r'.stage <;> simp_all [Stage.rank, Stage.accepted]
    rw [ledger, ht]
    refine ⟨⟨hfr, ht ▸ h.logged, holds_of_rank_eq_zero ended _ _, fun u n x hx => ?_⟩,
      .nothing ledger batches (by rw [sent, sent, ha, ha'])⟩
    rw [hx] at ended
    cases ended
  | goes further holds ledger batches same unhurt =>
    rw [ledger, ht]
    exact ⟨⟨hfr, ht ▸ h.logged, ht ▸ holds, unhurt calm⟩, .nothing ledger batches same⟩
  | publishes u a batch here ledger batches there =>
    rw [here] at hh
    obtain ⟨hk, hb⟩ := hh
    have hn : batch.length = a.changes.length := by simpa using congrArg List.length hb
    have ho : r.outgoing = a.changes := by rw [outgoing, here]
    have hs : Sane w.store.ledger r' := by
      refine ⟨hfr, ht ▸ h.logged, ?_, by simp [there]⟩
      rw [there, ht]
      exact ⟨hk, hn⟩
    rw [ledger, ht]
    refine ⟨hs, .batch r batch rfl ledger batches (by rw [ho, hb]) (by rw [here]; rfl) ?_⟩
    rw [there, ho]
    exact hk.parcels
  | moves n here ledger batches there =>
    rw [here] at hh
    have hs : Sane w'.store.ledger r' := by
      refine ⟨hfr, ?_, by rw [there]; trivial, by simp [there]⟩
      rw [ht, ledger]
      exact h.logged
    exact ⟨hs, .checkpoint r rfl hh.1 h.logged ledger batches (by rw [here]; rfl)
      (by rw [there]; rfl)⟩

end Round

namespace Consumer

def sent (l : Ledger σ) (k : Consumer σ) : List (List (EventOf σ)) :=
  match k.round? with
  | some r => Round.sent l r.transaction r.stage
  | none => []

/-- A consumer that is notified of transactions in the log only. -/
structure Relays (l : Ledger σ) (k : Consumer σ) : Prop where
  fresh : ∀ id, ∃ cap, k.provider id = .new id cap
  notified : ∀ x ∈ k.source.arrivals, ∀ t, x.result = .ok (some t) → t.sequence ≤ l.log.length
  sane : ∀ r ∈ k.round?, r.Sane l

theorem Relays.mono {l m : Ledger σ} (h : l.Later m) (hl : l.Dense) (hm : m.Dense)
    {k : Consumer σ} (hk : k.Relays l) : k.Relays m := by
  have hn : (l.log.length : Int) ≤ m.log.length := Int.ofNat_le.mpr h.log.length_le
  exact ⟨hk.fresh, fun x hx t ht => Int.le_trans (hk.notified x hx t ht) hn,
    fun r hr => (hk.sane r hr).mono h hl hm⟩

theorem Relays.sent_eq {l m : Ledger σ} (h : l.Later m) {k : Consumer σ} (hk : k.Relays l) :
    k.sent m = k.sent l := by
  cases hs : k.round? with
  | none => simp only [sent, hs]
  | some r => simp only [sent, hs, Round.sent, h.parcels (hk.sane r hs).logged]

theorem sent_of_round {l : Ledger σ} {k : Consumer σ} {r : Round σ} (h : k.round? = some r) :
    k.sent l = Round.sent l r.transaction r.stage := by
  rw [sent, h]

theorem round?_eq_none {k : Consumer σ} (h : ∀ r, k.stage ≠ .relaying r) : k.round? = none := by
  cases hs : k.stage <;> simp_all [round?]

theorem round?_eq_some {k : Consumer σ} {r : Round σ} (h : k.stage = .relaying r) :
    k.round? = some r := by
  rw [round?, h]

theorem Relays.step [LawfulModel σ] {peers : Peers σ} {w w' : World σ} {k k' : Consumer σ}
    (hl : w.store.ledger.Sound) (hf : w.store.ledger.Faithful) (calm : w.store.failing = [])
    (hk : k.Relays w.store.ledger) (hm : Move peers w k w' k') :
    k'.Relays w'.store.ledger ∧
      Shows w k.round? (k.sent w.store.ledger) w' (k'.sent w'.store.ledger) := by
  cases hm with
  | rests ns k' here there provider arrivals kept =>
    have h₀ := round?_eq_none here
    have h₁ := round?_eq_none there
    refine ⟨⟨provider ▸ hk.fresh, fun x hx => hk.notified x (arrivals hx), by simp [h₁]⟩,
      .nothing rfl rfl ?_⟩
    simp only [sent, h₀, h₁]
  | takes x xs t here next answer =>
    have hx : x ∈ k.source.arrivals := next ▸ List.mem_cons_self
    have hs : xs ⊆ k.source.arrivals := next ▸ List.subset_cons_self x xs
    refine ⟨⟨hk.fresh, fun y hy => hk.notified y (hs hy), fun r hr => ?_⟩, .nothing rfl rfl ?_⟩
    · cases hr
      exact ⟨hk.fresh, hk.notified x hx t answer, trivial, by simp⟩
    · have h₀ : k.round? = none := round?_eq_none (by simp [here])
      simp only [sent, h₀]
      rfl
  | relays r here going =>
    have h₀ := round?_eq_some here
    obtain ⟨hr, hs⟩ := (hk.sane r h₀).step hl hf calm (r.step_move peers w)
    refine ⟨⟨hk.fresh, ?_, fun r' he => ?_⟩, ?_⟩
    · rw [hs.log]
      exact hk.notified
    · cases he
      exact hr
    · rw [h₀, sent_of_round h₀]
      exact hs
  | accounts r result ns report here ended =>
    have h₀ := round?_eq_some here
    obtain ⟨-, hs⟩ := (hk.sane r h₀).step hl hf calm (r.step_move peers w)
    refine ⟨⟨hk.fresh, ?_, by simp [round?]⟩, ?_⟩
    · rw [hs.log]
      exact hk.notified
    · rw [ended] at hs
      rw [h₀, sent_of_round h₀]
      exact hs.say _

end Consumer
end Outbox

import Outbox.Proofs.Projections
import Outbox.Proofs.Races
import Outbox.Proofs.Replay

/-! The read model as a mirror of what is durable. A projection is saved under the claim that its
commit needs, so nobody else saves one of the same aggregate in between; as long as every projection
that is saved is committed as well, those of an aggregate never go back, and the last of them shows
what is durable whenever nobody has a claim on it. -/
namespace Outbox
variable {σ : Type} [Model σ]

/-! ### What a step does to the read model -/

theorem World.publish_saved (peers : Peers σ) (w : World σ) (batch : List (IntegrationOf σ)) :
    (w.publish peers batch).2.saved = w.saved := by
  unfold World.publish
  split <;> rfl

namespace Round

theorem Move.saved {peers : Peers σ} {w w' : World σ} {r r' : Round σ} (hm : Move peers w r w' r') :
    w'.saved = w.saved := by
  cases hm with
  | publishes u a batch => exact w.publish_saved peers batch
  | _ => rfl

theorem saved_cancel (w : World σ) (r : Round σ) : (r.cancel w).1.saved = w.saved := by
  rcases r.cancel_cases w with ⟨-, he⟩ | ⟨-, he⟩ | ⟨u, -, he⟩ <;> rw [he]

end Round

namespace Consumer

theorem Move.saved {peers : Peers σ} {w w' : World σ} {k k' : Consumer σ}
    (hm : Move peers w k w' k') : w'.saved = w.saved := by
  cases hm with
  | rests | takes => rfl
  | relays r | accounts r => exact (r.step_move peers w).saved

theorem saved_abort (w : World σ) (k : Consumer σ) : (k.abort w).1.saved = w.saved := by
  cases hs : k.stage with
  | relaying r => simpa only [abort, hs] using r.saved_cancel w
  | polling | stopped | crashed => simp only [abort, hs]

end Consumer

namespace Handling

def shown? (h : Handling σ) : Option (Aggregate σ) :=
  match h.stage with
  | .saved _ (.ok _) => some h.aggregate
  | _ => none

theorem shown?_eq_none {h : Handling σ} (hn : ∀ u, h.stage ≠ .saved u (.ok ())) :
    h.shown? = none := by
  unfold shown?
  split
  · next u _ hs => exact absurd hs (hn u)
  · rfl

theorem Move.shown?_eq_none {peers : Peers σ} {w w' : World σ} {h h' : Handling σ}
    (hm : Move peers w h w' h') (staged : ∀ u, h.stage ≠ .staged u (.ok ()))
    (saved : ∀ u, h.stage ≠ .saved u (.ok ())) : h'.shown? = none := by
  cases hm with
  | idle => exact Handling.shown?_eq_none saved
  | saves u here => exact absurd here (staged u)
  | _ => rfl

/-- What a step of a handling of a request does to what is saved and to what is durable, if it does
not keep from its commit what has been saved. -/
inductive Shows (r : Request σ) (w : World σ) (h : Handling σ) (w' : World σ) (h' : Handling σ) :
    Prop
  | still (saved : w'.saved = w.saved) (ledger : w'.store.ledger = w.store.ledger)
    (shown : h'.shown? = h.shown?) (receipt : h'.receipt? = h.receipt?)
  | saves (n : Nat) (s : σ) (unit : h.stage.unit? = some (r.unit n s)) (before : h.shown? = none)
    (saved : w'.saved = w.saved ++ [(r.outcome n s).projection])
    (ledger : w'.store.ledger = w.store.ledger) (shown : h'.shown? = some (r.outcome n s))
    (receipt : h'.receipt? = h.receipt?)
  | commits (n : Nat) (s : σ) (writes : r.Writes w.store.ledger n s)
    (fresh : w.store.ledger.outdated (r.unit n s) = none)
    (before : h.shown? = some (r.outcome n s)) (saved : w'.saved = w.saved)
    (ledger : w'.store.ledger = w.store.ledger.absorb (r.unit n s)) (shown : h'.shown? = none)
    (receipt : h'.receipt? = some (r.receipt n))

section
variable {r : Request σ} {w : World σ} {h : Handling σ} (peers : Peers σ)

theorem shows_step_staged {u : UnitOfWork σ} (here : h.stage = .staged u (.ok ()))
    (hk : r.Knows w.store.ledger h) : Shows r w h (h.step peers w).1 (h.step peers w).2 := by
  have hh := hk.holds
  rw [here] at hh
  obtain ⟨n, s, -, ha, rfl⟩ := hh rfl
  simp only [step, here, World.save]
  cases peers.save h.aggregate.projection with
  | error x =>
    exact .still rfl rfl (by simp [shown?, here]) (by simp [receipt?, here])
  | ok _ =>
    refine .saves n s (by rw [here]; rfl) (by simp [shown?, here]) (by rw [ha]) rfl ?_
      (by simp [receipt?, here])
    rw [← ha]
    rfl

theorem shows_step_saved {u : UnitOfWork σ} (here : h.stage = .saved u (.ok ()))
    (hk : r.Knows w.store.ledger h) (kept : h.lapse w = []) :
    Shows r w h (h.step peers w).1 (h.step peers w).2 := by
  obtain ⟨-, ht, -, hh⟩ := hk
  rw [here] at hh
  obtain ⟨n, s, hw, ha, rfl⟩ := hh
  rcases w.store.commit_cases (r.unit n s) with ⟨x, hc⟩ | ⟨fresh, hc⟩
  · simp [lapse, here, hc, Error.of?] at kept
  · have he : h.step peers w = h.conclude w (r.unit n s) (.ok (r.receipt n)) := by
      simp only [step, here, ha, ht]
      rfl
    have hs : h.shown? = some (r.outcome n s) := by simp [shown?, here, ha]
    rw [he]
    simp only [conclude, Store.conclude, hc]
    exact .commits n s hw fresh hs rfl rfl rfl rfl

/-- A step that does not keep from its commit what has been saved saves, commits, or does
neither. -/
theorem shows_step (hk : r.Knows w.store.ledger h) (kept : h.lapse w = []) :
    Shows r w h (h.step peers w).1 (h.step peers w).2 := by
  by_cases staged : ∃ u, h.stage = .staged u (.ok ())
  · obtain ⟨u, here⟩ := staged
    exact shows_step_staged peers here hk
  by_cases saved : ∃ u, h.stage = .saved u (.ok ())
  · obtain ⟨u, here⟩ := saved
    exact shows_step_saved peers here hk kept
  have hn (u : UnitOfWork σ) : h.stage ≠ .staged u (.ok ()) := fun he => staged ⟨u, he⟩
  have hc (u : UnitOfWork σ) : h.stage ≠ .saved u (.ok ()) := fun he => saved ⟨u, he⟩
  have hm := h.step_move peers w
  rcases hm.durable with ⟨ledger, receipt⟩ | ⟨u, here, -⟩
  · exact .still (hm.saved hn) ledger ((hm.shown?_eq_none hn hc).trans (shown?_eq_none hc).symm)
      receipt
  · exact absurd here (hc u)

/-- A handling that is given up shows nothing from then on, so it must not have shown anything. -/
theorem shown?_cancel (kept : h.waiver = []) : (h.cancel w).2.shown? = h.shown? := by
  have hc (u : UnitOfWork σ) : h.stage ≠ .saved u (.ok ()) := by
    intro here
    simp [waiver, here] at kept
  rw [shown?_eq_none hc]
  rcases h.cancel_cases w with ⟨-, he⟩ | ⟨-, he⟩ | ⟨u, -, he⟩ <;> rw [he]
  · exact shown?_eq_none hc
  · rfl
  · rfl

end
end Handling

def Agent.shown? : Agent σ → Option (Aggregate σ)
  | .task (.handling h) => h.shown?
  | _ => none

theorem Call.Knows.quiet_step {c : Call σ} {l : Ledger σ} {a : Agent σ} (hk : c.Knows l a)
    (other : ∀ r, c ≠ .request r) (w : World σ) (peers : Peers σ) (told : Bool) :
    (a.step peers told w).1.saved = w.saved ∧ (a.step peers told w).2.shown? = a.shown? ∧
      (a.step peers told w).2.receipt? = a.receipt? := by
  cases hk with
  | @request r => exact absurd rfl (other r)
  | @relay t provider r => exact ⟨(r.step_move peers w).saved, rfl, rfl⟩
  | @consume provider source k => exact ⟨(k.step_move peers told w).saved, rfl, rfl⟩

namespace Pool
variable {ι : Type} [DecidableEq ι]

/-- What happens to what is saved and to what is durable in a run in which nothing that is saved is
kept from its commit. -/
inductive Shows (calls : ι → Call σ) (p p' : Pool ι σ) : Prop
  | still (saved : p'.world.saved = p.world.saved)
    (ledger : ∃ c, p'.ledger = { p.ledger with checkpoint := c })
    (shown : ∀ j, (p'.agents j).shown? = (p.agents j).shown?)
    (receipts : ∀ j, (p'.agents j).receipt? = (p.agents j).receipt?)
  | saves (i : ι) (r : Request σ) (n : Nat) (s : σ) (called : calls i = .request r)
    (unit : (p.agents i).unit? = some (r.unit n s)) (before : (p.agents i).shown? = none)
    (saved : p'.world.saved = p.world.saved ++ [(r.outcome n s).projection])
    (ledger : p'.ledger = p.ledger)
    (shown : ∀ j, (p'.agents j).shown? =
      if j = i then some (r.outcome n s) else (p.agents j).shown?)
    (receipts : ∀ j, (p'.agents j).receipt? = (p.agents j).receipt?)
  | commits (i : ι) (r : Request σ) (n : Nat) (s : σ) (called : calls i = .request r)
    (writes : r.Writes p.ledger n s) (fresh : p.ledger.outdated (r.unit n s) = none)
    (before : (p.agents i).shown? = some (r.outcome n s)) (saved : p'.world.saved = p.world.saved)
    (ledger : p'.ledger = p.ledger.absorb (r.unit n s))
    (shown : ∀ j, (p'.agents j).shown? = if j = i then none else (p.agents j).shown?)
    (receipts : ∀ j, (p'.agents j).receipt? =
      if j = i then some (r.receipt n) else (p.agents j).receipt?)

theorem shown?_update (agents : ι → Agent σ) (i j : ι) (a : Agent σ) :
    (Function.update agents i a j).shown? = if j = i then a.shown? else (agents j).shown? := by
  by_cases hj : j = i
  · subst hj
    simp
  · simp [hj]

section
variable {calls : ι → Call σ} {p : Pool ι σ}

theorem Shows.stay {w : World σ} {i : ι} {a : Agent σ} (saved : w.saved = p.world.saved)
    (ledger : ∃ c, w.store.ledger = { p.ledger with checkpoint := c })
    (shown : a.shown? = (p.agents i).shown?) (receipt : a.receipt? = (p.agents i).receipt?) :
    Shows calls p ⟨w, Function.update p.agents i a⟩ := by
  refine .still saved ledger (fun j => ?_) fun j => ?_
  · rw [shown?_update]
    split
    · next hj => rw [hj, shown]
    · rfl
  · rw [receipt?_update]
    split
    · next hj => rw [hj, receipt]
    · rfl

theorem shows_step (h : p.Sound calls) (i : ι) (peers : Peers σ) (told : Bool)
    (kept : p.lapses i (.step i peers told) = []) :
    Shows calls p (p.act (.step i peers told)) := by
  cases hc : calls i with
  | request r =>
    obtain ⟨g, here, hk⟩ := h.agent_request hc
    rw [lapses_step here] at kept
    rw [act_step_handling here]
    cases Handling.shows_step peers hk kept with
    | still saved ledger shown receipt =>
      exact .stay saved ⟨p.ledger.checkpoint, ledger⟩ (by rw [here]; exact shown)
        (by rw [here]; exact receipt)
    | saves n s unit before saved ledger shown receipt =>
      refine .saves i r n s hc (by rw [here]; exact unit) (by rw [here]; exact before) saved ledger
        (fun j => ?_) fun j => ?_
      · rw [shown?_update]
        exact if_congr Iff.rfl shown rfl
      · rw [receipt?_update]
        split
        · next hj =>
          rw [hj, here]
          exact receipt
        · rfl
    | commits n s writes fresh before saved ledger shown receipt =>
      refine .commits i r n s hc writes fresh (by rw [here]; exact before) saved ledger
        (fun j => ?_) fun j => ?_
      · rw [shown?_update]
        exact if_congr Iff.rfl shown rfl
      · rw [receipt?_update]
        exact if_congr Iff.rfl receipt rfl
  | relay | consume =>
    have other : ∀ r, calls i ≠ .request r := by simp [hc]
    obtain ⟨saved, shown, receipt⟩ := (h.knows i).quiet_step other p.world peers told
    exact .stay saved ((h.knows i).checkpoint_step other peers told) shown receipt

theorem shows_cancel (h : p.Sound calls) (i : ι) (kept : p.lapses i (.cancel i) = []) :
    Shows calls p (p.act (.cancel i)) := by
  obtain ⟨hl, -⟩ := (h.knows i).cancel
  have saved : ((p.agents i).cancel p.world).1.saved = p.world.saved := by
    rcases p.agents i with (g | q) | k
    · exact g.saved_cancel p.world
    · exact q.saved_cancel p.world
    · exact k.saved_abort p.world
  have shown : ((p.agents i).cancel p.world).2.shown? = (p.agents i).shown? := by
    rcases ha : p.agents i with (g | q) | k
    · rw [lapses_cancel ha] at kept
      exact Handling.shown?_cancel kept
    · rfl
    · rfl
  have receipt : ((p.agents i).cancel p.world).2.receipt? = (p.agents i).receipt? := by
    rcases p.agents i with (g | q) | k
    · exact g.receipt?_cancel p.world
    · rfl
    · rfl
  exact .stay saved ⟨p.ledger.checkpoint, hl⟩ shown receipt

theorem shows_act (h : p.Sound calls) {x : Action ι σ} (kept : ∀ i, p.lapses i x = []) :
    Shows calls p (p.act x) := by
  cases x with
  | step i peers told => exact shows_step h i peers told (kept i)
  | cancel i => exact shows_cancel h i (kept i)
  | notify i place =>
    cases ht : p.ledger.log[place]? with
    | none =>
      simp only [Pool.act, ht]
      exact .still rfl ⟨p.ledger.checkpoint, rfl⟩ (fun _ => rfl) fun _ => rfl
    | some t =>
      simp only [Pool.act, ht]
      refine .stay rfl ⟨p.ledger.checkpoint, rfl⟩ ?_ (by simp)
      cases p.agents i <;> rfl
  | fail operations => exact .still rfl ⟨p.ledger.checkpoint, rfl⟩ (fun _ => rfl) fun _ => rfl

omit [DecidableEq ι] in
/-- Whoever shows an aggregate has a claim on it. -/
theorem Sound.claimed_of_shown (h : p.Sound calls) {i : ι} {a : Aggregate σ}
    (shown : (p.agents i).shown? = some a) : a.id ∈ UnitOfWork.claimed (p.agents i).unit? := by
  have hk := h.knows i
  generalize p.agents i = b at hk shown
  generalize calls i = c at hk
  cases hk with
  | relay | consume => cases shown
  | @request r g knows =>
    have shown : g.shown? = some a := shown
    have hh := knows.holds
    cases hs : g.stage with
    | saved u result =>
      rw [hs] at hh
      obtain ⟨n, s, -, ha, rfl⟩ := hh
      cases result with
      | error x => simp [Handling.shown?, hs] at shown
      | ok _ =>
        obtain rfl : g.aggregate = a := by simpa [Handling.shown?, hs] using shown
        simp [Agent.unit?, hs, Handling.Stage.unit?, UnitOfWork.claimed, ha,
          Request.unit, UnitOfWork.writing]
    | _ => simp [Handling.shown?, hs] at shown

omit [DecidableEq ι] in
/-- No two agents show the same aggregate, nor does one show what another has a claim on. -/
theorem eq_of_shown (h : p.Sound calls) (hc : p.clients.Sound) {i j : ι} {a : Aggregate σ}
    (shown : (p.agents j).shown? = some a)
    (claimed : a.id ∈ UnitOfWork.claimed (p.agents i).unit?) : j = i :=
  hc.claimed.alone j i a.id (h.claimed_of_shown shown) claimed

end

end Pool

/-! ### The read model of users -/

def World.savedOf (w : World User) (id : Uuid) : List UserProjection :=
  w.saved.filter (UserProjection.id · == id)

theorem World.savedOf_append {w w' : World User} {x : UserProjection}
    (h : w'.saved = w.saved ++ [x]) (id : Uuid) :
    w'.savedOf id = w.savedOf id ++ if x.id = id then [x] else [] := by
  rw [savedOf, h, List.filter_append]
  by_cases hx : x.id = id <;> simp [savedOf, hx]

namespace Pool
variable {ι : Type}

/-- How the read model shows a user: not at all, as the next commit leaves the user, or as the user
is. -/
inductive Mirrors (calls : ι → Call User) (p : Pool ι User) (id : Uuid) : Prop
  | blank (unsaved : p.world.savedOf id = [])
    (rest : ∀ j a, (p.agents j).shown? = some a → a.id ≠ id)
    (unserved : ∀ j r, calls j = .request r → r.aggregateId = id → (p.agents j).receipt? = none)
  | ahead (i : ι) (a : Aggregate User) (shown : (p.agents i).shown? = some a) (own : a.id = id)
    (last : (p.world.savedOf id).getLast? = some a.projection)
  | level (u : User) (rest : ∀ j a, (p.agents j).shown? = some a → a.id ≠ id)
    (state : p.ledger.stateAt id (p.ledger.stream id).length = .ok u)
    (last : (p.world.savedOf id).getLast? = some (u.projection id (p.ledger.version id)))

/-- The projections of a user never go back, and the last of them is what it should be. -/
structure Mirrored (calls : ι → Call User) (p : Pool ι User) : Prop where
  rising : ∀ id, (p.world.savedOf id).Pairwise fun x y => x.version ≤ y.version
  mirrors : ∀ id, Mirrors calls p id

variable {calls : ι → Call User} {p p' : Pool ι User}

theorem mirrored_start : (start {} calls).Mirrored calls where
  rising _ := .nil
  mirrors id := by
    refine .blank rfl (fun j a shown => ?_) fun j r called _ => ?_
    · have hs : (calls j).agent.shown? = some a := shown
      cases hc : calls j <;> simp [hc, Call.agent, Agent.shown?, Handling.shown?,
        Request.handling] at hs
    · change (calls j).agent.receipt? = none
      rw [called]
      rfl

theorem Mirrors.congr {id : Uuid} (h : Mirrors calls p id)
    (saved : p'.world.savedOf id = p.world.savedOf id)
    (stream : p'.ledger.stream id = p.ledger.stream id)
    (version : p'.ledger.version id = p.ledger.version id)
    (shown : ∀ j a, a.id = id → ((p'.agents j).shown? = some a ↔ (p.agents j).shown? = some a))
    (receipts : ∀ j r, calls j = .request r → r.aggregateId = id →
      (p'.agents j).receipt? = (p.agents j).receipt?) : Mirrors calls p' id := by
  have still (rest : ∀ j a, (p.agents j).shown? = some a → a.id ≠ id) (j : ι) (a : Aggregate User)
      (hs : (p'.agents j).shown? = some a) : a.id ≠ id :=
    fun own => rest j a ((shown j a own).mp hs) own
  cases h with
  | blank unsaved rest unserved =>
    exact .blank (saved.trans unsaved) (still rest) fun j r called own =>
      (receipts j r called own).trans (unserved j r called own)
  | ahead i a hs own last =>
    exact .ahead i a ((shown i a own).mpr hs) own (saved ▸ last)
  | level u rest state last =>
    refine .level u (still rest) ?_ (by rw [saved, version]; exact last)
    rw [Ledger.stateAt, stream]
    exact state

theorem Mirrored.version_le (h : p.Mirrored calls) {id : Uuid} {x y : UserProjection}
    (last : (p.world.savedOf id).getLast? = some y) (hx : x ∈ p.world.savedOf id) :
    x.version ≤ y.version := by
  obtain ⟨front, hf⟩ := List.getLast?_eq_some_iff.mp last
  have hr := h.rising id
  rw [hf] at hr hx
  rcases List.mem_append.mp hx with hx | hx
  · exact (List.pairwise_append.mp hr).2.2 x hx y (List.mem_singleton_self y)
  · exact Int.le_of_eq (congrArg UserProjection.version (List.mem_singleton.mp hx))

variable [DecidableEq ι]

/-- Whoever saves a projection has the claim, so what has been saved before is at most as new as
what is durable, on which the projection is based. -/
theorem Mirrored.saves (h : p.Mirrored calls) (hs : p.Sound calls) (hc : p.clients.Sound) {i : ι}
    {r : Request User} {n : Nat} {u : User} (unit : (p.agents i).unit? = some (r.unit n u))
    (before : (p.agents i).shown? = none)
    (saved : p'.world.saved = p.world.saved ++ [(r.outcome n u).projection])
    (ledger : p'.ledger = p.ledger)
    (shown : ∀ j, (p'.agents j).shown? =
      if j = i then some (r.outcome n u) else (p.agents j).shown?)
    (receipts : ∀ j, (p'.agents j).receipt? = (p.agents j).receipt?) : p'.Mirrored calls := by
  have hid : UserProjection.id (r.outcome n u).projection = r.aggregateId := rfl
  have hv : UserProjection.version (r.outcome n u).projection =
      n + r.command.events.length := rfl
  have happend (id : Uuid) := World.savedOf_append saved id
  simp only [hid] at happend
  have claimed : r.aggregateId ∈ UnitOfWork.claimed (p.agents i).unit? := by
    simp [unit, UnitOfWork.claimed, Request.unit, UnitOfWork.writing, Request.outcome]
  have alone {j : ι} {a : Aggregate User} (hj : (p.agents j).shown? = some a) :
      a.id ≠ r.aggregateId := by
    intro own
    obtain rfl := eq_of_shown hs hc hj (own.symm ▸ claimed)
    cases before.symm.trans hj
  have current : p.ledger.version r.aggregateId = n :=
    (hc.fits i _ unit).current ⟨r.aggregateId, n, n + r.command.events.length⟩
      (List.mem_singleton_self _)
  have older : ∀ x ∈ p.world.savedOf r.aggregateId, x.version ≤ n := by
    intro x hx
    cases h.mirrors r.aggregateId with
    | blank unsaved =>
      rw [unsaved] at hx
      cases hx
    | ahead j a hj own => exact absurd own (alone hj)
    | level v rest state last => exact current ▸ h.version_le last hx
  refine ⟨fun id => ?_, fun id => ?_⟩
  · rw [happend]
    split
    · next own =>
      subst own
      refine List.pairwise_append.mpr ⟨h.rising _, List.pairwise_singleton _ _, ?_⟩
      intro x hx y hy
      have hn := older x hx
      rw [List.mem_singleton.mp hy, hv]
      omega
    · rw [List.append_nil]
      exact h.rising id
  · by_cases own : r.aggregateId = id
    · refine .ahead i (r.outcome n u) (by simp [shown]) own ?_
      rw [happend, if_pos own, List.getLast?_concat]
    · refine (h.mirrors id).congr (by rw [happend, if_neg own, List.append_nil])
        (by rw [ledger]) (by rw [ledger]) (fun j a ha => ?_) fun j _ _ _ => receipts j
      rw [shown]
      split
      · next hj =>
        subst hj
        rw [before]
        constructor
        · rintro ⟨⟩
          exact absurd ha own
        · rintro ⟨⟩
      · rfl

/-- What is committed is what was saved last. -/
theorem Mirrored.commits (h : p.Mirrored calls) (hs : p.Sound calls) (hc : p.clients.Sound)
    (hf : p.ledger.Faithful) {i : ι} {r : Request User} {n : Nat} {u : User}
    (called : calls i = .request r) (writes : r.Writes p.ledger n u)
    (fresh : p.ledger.outdated (r.unit n u) = none)
    (before : (p.agents i).shown? = some (r.outcome n u))
    (saved : p'.world.saved = p.world.saved)
    (ledger : p'.ledger = p.ledger.absorb (r.unit n u))
    (shown : ∀ j, (p'.agents j).shown? = if j = i then none else (p.agents j).shown?)
    (receipts : ∀ j, (p'.agents j).receipt? =
      if j = i then some (r.receipt n) else (p.agents j).receipt?) : p'.Mirrored calls := by
  have hsame (id : Uuid) : p'.world.savedOf id = p.world.savedOf id := by
    rw [World.savedOf, saved, World.savedOf]
  have alone {j : ι} {a : Aggregate User} (hj : (p.agents j).shown? = some a)
      (own : a.id = r.aggregateId) : j = i :=
    eq_of_shown hs hc hj (own ▸ hs.claimed_of_shown before)
  refine ⟨fun id => (hsame id).symm ▸ h.rising id, fun id => ?_⟩
  have hstream := p.ledger.stream_absorb_unit r n u id
  by_cases own : id = r.aggregateId
  · subst own
    have hsound := hs.ledger.absorb_unit writes fresh
    have hlen := hs.ledger.length_stream fresh
    rw [if_pos rfl] at hstream
    have hlength : (p'.ledger.stream r.aggregateId).length = n + r.command.events.length := by
      rw [ledger, hstream, List.length_append, hlen, Request.length_events]
    have last : (p.world.savedOf r.aggregateId).getLast? = some (r.outcome n u).projection := by
      cases h.mirrors r.aggregateId with
      | blank unsaved rest => exact absurd rfl (rest i _ before)
      | ahead j a hj own last =>
        obtain rfl := alone hj own
        cases before.symm.trans hj
        exact last
      | level v rest => exact absurd rfl (rest i _ before)
    refine .level u (fun j a hj own => ?_) ?_ ?_
    · rw [shown] at hj
      split at hj
      · cases hj
      · next hji => exact hji (alone hj own)
    · rw [hlength, ledger]
      exact (hs.ledger.canLoad_absorb writes fresh).stateAt (hf.absorb_unit hs.ledger writes fresh)
    · rw [hsame, last]
      have hversion : p'.ledger.version r.aggregateId = (n + r.command.events.length : Nat) := by
        rw [← hlength, ledger]
        exact hsound.version r.aggregateId
      rw [hversion]
      rfl
  · have hversion : p'.ledger.version id = p.ledger.version id := by
      rw [ledger]
      refine Ledger.version_absorb fun v hv => ?_
      rw [List.mem_singleton.mp hv]
      exact Ne.symm own
    refine (h.mirrors id).congr (hsame id) (by rw [ledger, hstream, if_neg own, List.append_nil])
      hversion (fun j a ha => ?_) fun j q hq hid => ?_
    · rw [shown]
      split
      · next hj =>
        subst hj
        rw [before]
        constructor
        · rintro ⟨⟩
        · rintro ⟨⟩
          exact absurd ha.symm own
      · rfl
    · rw [receipts]
      split
      · next hj =>
        subst hj
        cases called.symm.trans hq
        exact absurd hid.symm own
      · rfl

theorem Mirrored.act (h : p.Mirrored calls) (hs : p.Sound calls) (hc : p.clients.Sound)
    (hf : p.ledger.Faithful) (hm : Shows calls p p') : p'.Mirrored calls := by
  cases hm with
  | still saved ledger shown receipts =>
    have hsame (id : Uuid) : p'.world.savedOf id = p.world.savedOf id := by
      rw [World.savedOf, saved, World.savedOf]
    obtain ⟨c, hl⟩ := ledger
    refine ⟨fun id => (hsame id).symm ▸ h.rising id, fun id => ?_⟩
    exact (h.mirrors id).congr (hsame id) (by rw [hl]; rfl) (by rw [hl]; rfl)
      (fun j a _ => by rw [shown]) fun j _ _ _ => receipts j
  | saves i r n u called unit before saved ledger shown receipts =>
    exact h.saves hs hc unit before saved ledger shown receipts
  | commits i r n u called writes fresh before saved ledger shown receipts =>
    exact h.commits hs hc hf called writes fresh before saved ledger shown receipts

theorem mirrored_run (calls : ι → Call User) {acts : List (Action ι User)}
    (kept : ∀ i, record (lapses i) (start {} calls) acts = []) :
    ((start {} calls).run acts).Mirrored calls := by
  induction acts using List.reverseRecOn with
  | nil => exact mirrored_start
  | append_singleton acts x ih =>
    simp only [record_concat, List.append_eq_nil_iff] at kept
    rw [run_append]
    have hs := start_run_sound calls acts
    exact (ih fun i => (kept i).1).act hs (clients_run calls acts) (faithful_run calls acts)
      (shows_act hs fun i => (kept i).2)

/-- However requests go on beside each other, as long as none fails or is given up between the save
of its projection and its commit: the projections of a user that have been saved never go back; and
whenever nobody has a claim on a user on whom a request has gone well, the last of them is the one
of all events committed for the user, at the stored version. -/
theorem mirrored_of_run {calls : ι → Call User} {acts : List (Action ι User)}
    (kept : ∀ i, record (lapses i) (start {} calls) acts = []) (id : Uuid) :
    let p := (start {} calls).run acts
    (p.world.savedOf id).Pairwise (fun x y => x.version ≤ y.version) ∧
      ((∀ i, ∀ u ∈ (p.agents i).unit?, id ∉ u.claims) →
        (∃ i r, calls i = .request r ∧ r.aggregateId = id ∧ (p.agents i).receipt?.isSome = true) →
        ∃ s : User, Model.replay Model.initial (p.ledger.eventsOf id) = .ok s ∧
          (p.world.savedOf id).getLast? = some (s.projection id (p.ledger.version id))) := by
  intro p
  have h : p.Mirrored calls := mirrored_run calls kept
  refine ⟨h.rising id, fun free ⟨j, r, called, own, served⟩ => ?_⟩
  cases h.mirrors id with
  | blank unsaved rest unserved =>
    rw [unserved j r called own] at served
    cases served
  | ahead i a shown own last =>
    have claimed := (start_run_sound calls acts).claimed_of_shown shown
    obtain ⟨u, hu, hid⟩ := UnitOfWork.mem_claimed.mp claimed
    exact absurd (own ▸ hid) (free i u hu)
  | level u rest state last =>
    refine ⟨u, ?_, last⟩
    rw [(sound_run calls acts).eventsOf]
    rwa [Ledger.stateAt, List.take_length] at state

/-- A user signs up, in from two devices, and does nothing for once. -/
def atOnce : Fin 4 → Request User
  | 0 => .ofUser 1 1 (User.signUp "a@example.com")
  | 1 => .ofUser 1 2 (User.signIn "phone")
  | 2 => .ofUser 1 3 (Command.ofPayloads User "user.idle" [])
  | 3 => .ofUser 1 4 (User.signIn "tablet")

/-- The first is kept waiting between its save and its commit, while the second is refused; then
nothing is done, while the fourth has read already what is to be. -/
def interleaved : List (Action (Fin 4) User) :=
  List.replicate 5 (.go 0) ++ List.replicate 6 (.go 1) ++ .go 0 :: List.replicate 5 (.go 2) ++
    List.replicate 3 (.go 3) ++ .go 2 :: List.replicate 3 (.go 3)

/-- Three of the four show the user, the last one as the user is. -/
theorem mirrored_of_run_interleaved :
    let p : Pool (Fin 4) User := (start {} fun i => .request (atOnce i)).run interleaved
    (∀ i, record (lapses i) (start {} fun i => .request (atOnce i)) interleaved = []) ∧
      (p.world.savedOf (.ofNat 1)).map UserProjection.version = [2, 2, 3] ∧
      (p.world.savedOf (.ofNat 1)).Pairwise (fun x y => x.version ≤ y.version) ∧
      (p.agents 1).receipt? = none ∧ (∀ i, ∀ u ∈ (p.agents i).unit?, Uuid.ofNat 1 ∉ u.claims) ∧
      (p.agents 0).receipt?.isSome = true ∧
      ∃ s : User, Model.replay Model.initial (p.ledger.eventsOf (.ofNat 1)) = .ok s ∧
        (p.world.savedOf (.ofNat 1)).getLast? =
          some (s.projection (.ofNat 1) (p.ledger.version (.ofNat 1))) := by
  intro p
  have kept : ∀ i, record (lapses i) (start {} fun i => .request (atOnce i)) interleaved = [] := by
    decide +kernel
  have rest : ∀ i, (p.agents i).unit?.isNone = true := by decide +kernel
  have free : ∀ i, ∀ u ∈ (p.agents i).unit?, Uuid.ofNat 1 ∉ u.claims := by
    intro i u hu
    rw [Option.isNone_iff_eq_none.mp (rest i)] at hu
    cases hu
  have served : (p.agents 0).receipt?.isSome = true := by decide +kernel
  obtain ⟨rising, last⟩ := mirrored_of_run kept (.ofNat 1)
  exact ⟨kept, by decide +kernel, rising, by decide +kernel, free, served,
    last free ⟨0, atOnce 0, rfl, rfl, served⟩⟩

end Pool
end Outbox

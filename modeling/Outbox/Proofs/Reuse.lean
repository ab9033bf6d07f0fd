import Outbox.Proofs.Atomic

/-! One aggregate for one command after another. Loading takes it on to what is durable, but the
changes of earlier handlings stay with it, whether these were committed or not; and a handling that
goes well makes them durable together with its own events. -/
namespace Outbox
variable {σ : Type} [Model σ]

namespace Aggregate

/-- An aggregate in any condition in which handlings of commands can have left it. -/
inductive Used : Aggregate σ → Prop
  | new (id : Uuid) (cap : Int) : Used (new id cap)
  | handled {ι : Type} [DecidableEq ι] {p : Pool ι σ} {i : ι} {h g : Handling σ}
      (before : Used h.aggregate) (here : p.agents i = .task (.handling h))
      (begins : h.stage = .waiting) (acts : List (Action ι σ))
      (there : (p.run acts).agents i = .task (.handling g)) : Used g.aggregate

def Level (a : Aggregate σ) : Prop := a.changes = [] → a.version = a.baseVersion

variable {a b : Aggregate σ}

theorem level_new (id : Uuid) (cap : Int) : (new id cap : Aggregate σ).Level := fun _ => rfl

theorem Level.reloads (h : a.Level) (hb : a.Reloads b) : b.Level := by
  intro hc
  rcases hb.version with hv | ⟨hv, hw⟩
  · exact hv.symm
  · rw [hv, hw]
    exact h (hb.changes ▸ hc)

theorem level_of_advance {e : EventOf σ} (hb : a.advance e = .ok b) : b.Level := by
  simp only [Aggregate.advance] at hb
  split at hb
  · split at hb
    · cases hb
    · cases hb
      intro hc
      simp at hc
  · cases hb

theorem Level.advanceAll (h : a.Level) {es : List (EventOf σ)} {r : Except Error Unit}
    (hb : a.advanceAll es = (b, r)) : b.Level := by
  induction es generalizing a with
  | nil =>
    cases hb
    exact h
  | cons e es ih =>
    cases hr : a.advance e with
    | error x =>
      simp only [Aggregate.advanceAll, feed, hr] at hb
      cases hb
      exact h
    | ok c =>
      simp only [Aggregate.advanceAll, feed, hr] at hb
      exact ih (level_of_advance hr) hb

end Aggregate

namespace Handling

theorem conclude_aggregate (w : World σ) (h : Handling σ) (u : UnitOfWork σ)
    (r : Except Error Receipt) : (h.conclude w u r).2.aggregate = h.aggregate := rfl

theorem level_step (peers : Peers σ) (w : World σ) {h : Handling σ} (level : h.aggregate.Level) :
    (h.step peers w).2.aggregate.Level := by
  cases hs : h.stage with
  | waiting => cases hb : w.store.begin <;> simpa [step, hs, hb] using level
  | opened u => simpa [step, hs] using level
  | sawSnapshot u found =>
    cases found with
    | error x => simpa only [step, hs, conclude_aggregate] using level
    | ok found =>
      cases ha : h.aggregate.resume found with
      | error x => simpa only [step, hs, ha, conclude_aggregate] using level
      | ok a =>
        have hl : a.Level := level.reloads ((Aggregate.Reloads.refl _).resume ha)
        simpa only [step, hs, ha] using hl
  | sawEvents u found =>
    cases found with
    | error x => simpa only [step, hs, conclude_aggregate] using level
    | ok es =>
      rcases ha : h.aggregate.build es with ⟨a, x | _⟩
      all_goals have hl : a.Level := level.reloads ((Aggregate.Reloads.refl _).build ha)
      · simpa only [step, hs, ha, conclude_aggregate] using hl
      · rcases hb : a.advanceAll (h.newEvents a.version) with ⟨b, x | _⟩
        · simpa only [step, hs, ha, hb, conclude_aggregate] using hl.advanceAll hb
        · simpa only [step, hs, ha, hb] using hl.advanceAll hb
  | staged u result =>
    cases result with
    | error x => simpa only [step, hs, conclude_aggregate] using level
    | ok _ => simpa only [step, hs] using level
  | saved u result =>
    cases result <;> simpa only [step, hs, conclude_aggregate] using level
  | ended result => simpa only [step, hs] using level
  | cancelled => simpa only [step, hs] using level

theorem aggregate_cancel (w : World σ) (h : Handling σ) :
    (h.cancel w).2.aggregate = h.aggregate := by
  rcases h.cancel_cases w with ⟨-, he⟩ | ⟨-, he⟩ | ⟨u, -, he⟩ <;> rw [he]

end Handling

theorem Aggregate.Used.level {a : Aggregate σ} (h : a.Used) : a.Level := by
  induction h with
  | new id cap => exact level_new id cap
  | handled before here begins acts there ih =>
    obtain ⟨g, hg, hl⟩ := Pool.handling_run (P := fun _ g => g.aggregate.Level) here ih
      (fun _ _ _ _ hl _ => hl) (fun acts _ peers _ _ hl => Handling.level_step peers _ hl)
      (fun _ g _ hl => (g.aggregate_cancel _).symm ▸ hl) acts
    cases there.symm.trans hg
    exact hl

namespace Handling

def receiptAfter (h : Handling σ) (v : Int) : Receipt :=
  ⟨h.aggregate.id, h.transactionId, v + h.command.events.length⟩

/-- A handling that began like this has loaded its aggregate, let the events of its command happen
and staged all there is to it. -/
structure Stages (h : Handling σ) (b : Aggregate σ) (u : UnitOfWork σ) (v : Int) : Prop where
  id : b.id = h.aggregate.id
  version : b.version = v + h.command.events.length
  changes : b.changes = h.aggregate.changes ++ h.newEvents v
  loaded : b.baseVersion = v ∨ b.baseVersion = h.aggregate.baseVersion ∧ v = h.aggregate.version
  unit : u = .writing h.transactionId b

/-- What a handling that began like this works with, by its stage. -/
def WorksWith (h : Handling σ) (b : Aggregate σ) : Stage σ → Prop
  | .waiting => b = h.aggregate
  | .opened u => u = {} ∧ b = h.aggregate
  | .sawSnapshot u _ => u = {} ∧ b = h.aggregate
  | .sawEvents u _ => u = {} ∧ h.aggregate.Reloads b
  | .staged u result => result = .ok () → ∃ v, h.Stages b u v
  | .saved u _ => ∃ v, h.Stages b u v
  | .ended _ => True
  | .cancelled => True

structure Continues (h g : Handling σ) : Prop where
  command : g.command = h.command
  transactionId : g.transactionId = h.transactionId
  createdAt : g.createdAt = h.createdAt
  worksWith : h.WorksWith g.aggregate g.stage

/-- What a ledger and its next one have to do with each other if the handling of a command on an
aggregate in any condition is committed in between, whose events go on top of a version: all changes
of the aggregate become durable, and then these events. -/
structure Appends (h : Handling σ) (l m : Ledger σ) (v : Int) : Prop where
  events : m.events = l.events ++ h.aggregate.changes ++ h.newEvents v
  version : ∀ id, m.versions.get? id =
    if id = h.aggregate.id then some (v + h.command.events.length) else l.versions.get? id
  log : m.log = l.log ++ [⟨h.transactionId, h.aggregate.id, l.nextSequence⟩]
  snapshots : m.snapshots = l.snapshots ∨
    ∃ s, m.snapshots = l.snapshots ++ [⟨h.aggregate.id, v + h.command.events.length, s⟩]
  checkpoint : m.checkpoint = l.checkpoint
  /-- The version is the stored one, or nothing was loaded, and the aggregate is still based on the
  stored one. -/
  loaded : v = l.version h.aggregate.id ∨
    v = h.aggregate.version ∧ l.version h.aggregate.id = h.aggregate.baseVersion

theorem continues_self {h : Handling σ} (begins : h.stage = .waiting) : h.Continues h :=
  ⟨rfl, rfl, rfl, by rw [begins]; rfl⟩

section
variable {h g : Handling σ}

theorem Continues.newEvents (hc : h.Continues g) (id : g.aggregate.id = h.aggregate.id) (v : Int) :
    g.newEvents v = h.newEvents v := by
  simp only [Handling.newEvents, id, hc.command, hc.transactionId, hc.createdAt]

theorem Stages.appends {b : Aggregate σ} {u : UnitOfWork σ} {v : Int} (hs : h.Stages b u v)
    {l : Ledger σ} (fresh : l.outdated u = none) : h.Appends l (l.absorb u) v := by
  obtain ⟨id, version, changes, loaded, rfl⟩ := hs
  have hv : l.version h.aggregate.id = b.baseVersion := id ▸ Ledger.outdated_writing.mp fresh
  refine ⟨?_, fun id' => ?_, ?_, ?_, rfl, ?_⟩
  · rw [Ledger.absorb_writing, changes, List.append_assoc]
  · rw [Ledger.absorb_writing, ← id, ← version]
    exact Versions.get?_set ..
  · rw [Ledger.absorb_writing, id]
  · rw [Ledger.absorb_writing, ← id, ← version]
    by_cases hd : b.snapshotDue = true
    · exact .inr ⟨b.snapshot, by simp [UnitOfWork.writing, hd]⟩
    · exact .inl (by simp [UnitOfWork.writing, hd])
  · rw [hv]
    exact loaded.imp Eq.symm And.symm

theorem Stages.receipt {b : Aggregate σ} {u : UnitOfWork σ} {v : Int} (hs : h.Stages b u v) :
    (⟨b.id, h.transactionId, b.version⟩ : Receipt) = h.receiptAfter v := by
  rw [receiptAfter, hs.id, hs.version]

theorem Continues.step {peers : Peers σ} {w w' : World σ} {g' : Handling σ} (hc : h.Continues g)
    (hm : Move peers w g w' g') : h.Continues g' := by
  have hw := hc.worksWith
  cases hm with
  | idle ended => exact hc
  | refused | commits | fails => exact ⟨hc.command, hc.transactionId, hc.createdAt, trivial⟩
  | opens here =>
    rw [here] at hw
    exact ⟨hc.command, hc.transactionId, hc.createdAt, rfl, hw⟩
  | looks u here =>
    rw [here] at hw
    exact ⟨hc.command, hc.transactionId, hc.createdAt, hw⟩
  | resumes u found a here loaded =>
    rw [here] at hw
    obtain ⟨hu, ha⟩ := hw
    rw [ha] at loaded
    exact ⟨hc.command, hc.transactionId, hc.createdAt, hu, (Aggregate.Reloads.refl _).resume loaded⟩
  | stages u es a b n here loaded changed =>
    rw [here] at hw
    obtain ⟨rfl, ha⟩ := hw
    have hb := ha.build loaded
    rw [hc.newEvents ha.id] at changed
    obtain ⟨s, -, he⟩ := Aggregate.advanceAll_eq_ok (Event.numbered_eventsAfter ..) changed
    have hs : h.Stages b (.writing g.transactionId b) a.version := by
      refine ⟨by rw [he, hb.id], ?_, by rw [he, hb.changes]; rfl, by rw [he]; exact hb.version,
        by rw [hc.transactionId]⟩
      rw [he, Command.length_eventsAfter]
    refine ⟨hc.command, hc.transactionId, hc.createdAt, ?_⟩
    rcases w.store.stage_cases g.transactionId b with ⟨x, -, hst⟩ | ⟨-, hst⟩ | ⟨-, hst⟩
    · rw [hst]
      exact fun hn => by cases hn
    · rw [hst]
      exact fun hn => by cases hn
    · rw [hst]
      exact fun _ => ⟨_, hs⟩
  | saves u here =>
    rw [here] at hw
    exact ⟨hc.command, hc.transactionId, hc.createdAt, hw rfl⟩

/-- Whatever a handling does, it leaves the ledger alone, or it commits all changes of its
aggregate. -/
theorem Continues.durable {peers : Peers σ} {w w' : World σ} {g' : Handling σ} (hc : h.Continues g)
    (hm : Move peers w g w' g') :
    (w'.store.ledger = w.store.ledger ∧ g'.receipt? = g.receipt?) ∨
      ∃ v, h.Appends w.store.ledger w'.store.ledger v ∧ g.receipt? = none ∧
        g'.receipt? = some (h.receiptAfter v) := by
  refine hm.durable.imp_right ?_
  rintro ⟨u, here, fresh, hl, hn, hr⟩
  have hw := hc.worksWith
  rw [here] at hw
  obtain ⟨v, hs⟩ := hw
  refine ⟨v, hl ▸ hs.appends fresh, hn, ?_⟩
  rw [hr, ← hs.receipt, ← hc.transactionId]
  rfl

theorem Continues.cancel (hc : h.Continues g) (w : World σ) : h.Continues (g.cancel w).2 := by
  rcases g.cancel_cases w with ⟨-, he⟩ | ⟨-, he⟩ | ⟨u, -, he⟩
  · rwa [he]
  · rw [he]
    exact ⟨hc.command, hc.transactionId, hc.createdAt, trivial⟩
  · rw [he]
    exact ⟨hc.command, hc.transactionId, hc.createdAt, trivial⟩

/-- Where there are no changes, exactly the events of the command are appended, on top of the stored
version; where there are, these are appended with them. -/
theorem Appends.events_iff {l m : Ledger σ} {v : Int} (ha : h.Appends l m v)
    (level : h.aggregate.Level) :
    m.events = l.events ++ h.newEvents (l.version h.aggregate.id) ↔ h.aggregate.changes = [] := by
  constructor
  · intro he
    have hl := congrArg List.length (ha.events.symm.trans he)
    simp only [List.length_append, Handling.newEvents, Command.length_eventsAfter] at hl
    exact List.eq_nil_of_length_eq_zero (by omega)
  · intro hn
    have hv : v = l.version h.aggregate.id := by
      rcases ha.loaded with hv | ⟨hv, hb⟩
      · exact hv
      · rw [hv, hb, level hn]
    rw [ha.events, hn, List.append_nil, hv]

end
end Handling

namespace Pool
variable {ι : Type} [DecidableEq ι]

/-- A handling after a run that began like this: as long as it has not gone well, none of its actions
has changed what is durable; once it has, exactly one of them has. -/
structure Lands (p : Pool ι σ) (i : ι) (h : Handling σ) (acts : List (Action ι σ))
    (g : Handling σ) : Prop where
  continues : h.Continues g
  untouched : g.receipt? = none → ∀ d ∈ record (deeds i) p acts, d.2.ledger = d.1.ledger
  done : ∀ o, g.receipt? = some o →
    ∃ earlier d later, record (deeds i) p acts = earlier ++ d :: later ∧
      (∃ v, h.Appends d.1.ledger d.2.ledger v ∧ o = h.receiptAfter v) ∧
      ∀ d ∈ earlier ++ later, d.2.ledger = d.1.ledger

section
variable {p : Pool ι σ} {i : ι} {h g : Handling σ} {acts : List (Action ι σ)}

theorem Lands.other (hl : p.Lands i h acts g) {x : Action ι σ} (hx : x.isBy i = false) :
    p.Lands i h (acts ++ [x]) g := by
  have ht : record (deeds i) p (acts ++ [x]) = record (deeds i) p acts := by
    rw [record_concat, deeds_eq_nil hx, List.append_nil]
  exact ⟨hl.continues, ht ▸ hl.untouched, ht ▸ hl.done⟩

theorem Lands.quiet (hl : p.Lands i h acts g) {x : Action ι σ} (hx : x.isBy i = true)
    {g' : Handling σ} (continues : h.Continues g')
    (ledger : ((p.run acts).act x).ledger = (p.run acts).ledger)
    (receipt : g'.receipt? = g.receipt?) : p.Lands i h (acts ++ [x]) g' := by
  have ht := record_concat (deeds i) p acts x
  rw [deeds_eq_singleton hx] at ht
  refine ⟨continues, fun hn => ?_, fun o ho => ?_⟩
  · rw [ht]
    exact List.forall_mem_append.mpr
      ⟨hl.untouched (receipt ▸ hn), List.forall_mem_singleton.mpr ledger⟩
  · rw [ht]
    exact exists_deed_concat ledger (hl.done o (receipt ▸ ho))

theorem Lands.step (hl : p.Lands i h acts g) (here : (p.run acts).agents i = .task (.handling g))
    (peers : Peers σ) (told : Bool) :
    p.Lands i h (acts ++ [.step i peers told]) (g.step peers (p.run acts).world).2 := by
  have hx : (Action.step i peers told : Action ι σ).isBy i = true := by simp [Action.isBy]
  have hw : ((p.run acts).act (.step i peers told)).ledger =
      (g.step peers (p.run acts).world).1.store.ledger :=
    congrArg (fun w => w.store.ledger) (world_step_task here peers told)
  have hm := g.step_move peers (p.run acts).world
  have hc := hl.continues.step hm
  rcases hl.continues.durable hm with ⟨hd, hr⟩ | ⟨v, ha, hn, hr⟩
  · exact hl.quiet hx hc (hw.trans hd) hr
  · refine ⟨hc, fun h0 => ?_, fun o ho => ?_⟩
    · rw [hr] at h0
      cases h0
    · obtain rfl := Option.some.inj (hr.symm.trans ho)
      refine ⟨record (deeds i) p acts, (p.run acts, (p.run acts).act (.step i peers told)), [],
        ?_, ⟨v, ?_, rfl⟩, ?_⟩
      · rw [record_concat, deeds_eq_singleton hx]
      · rw [hw]
        exact ha
      · rw [List.append_nil]
        exact hl.untouched hn

theorem Lands.cancel (hl : p.Lands i h acts g) (here : (p.run acts).agents i = .task (.handling g)) :
    p.Lands i h (acts ++ [.cancel i]) (g.cancel (p.run acts).world).2 := by
  have hx : (Action.cancel i : Action ι σ).isBy i = true := by simp [Action.isBy]
  have hw : ((p.run acts).act (.cancel i)).ledger = (g.cancel (p.run acts).world).1.store.ledger :=
    congrArg (fun w => w.store.ledger) (world_cancel_task here)
  refine hl.quiet hx (hl.continues.cancel _) (hw.trans ?_) (g.receipt?_cancel _)
  rcases g.cancel_cases (p.run acts).world with ⟨-, he⟩ | ⟨-, he⟩ | ⟨u, -, he⟩ <;>
    · rw [he]
      rfl

theorem lands_run (here : p.agents i = .task (.handling h)) (begins : h.stage = .waiting)
    (acts : List (Action ι σ)) :
    ∃ g, (p.run acts).agents i = .task (.handling g) ∧ p.Lands i h acts g := by
  have hn : h.receipt? = none := by rw [Handling.receipt?, begins]
  have hd : ∀ d ∈ record (deeds i) p [], d.2.ledger = d.1.ledger := fun _ hd =>
    absurd hd List.not_mem_nil
  refine handling_run here ⟨Handling.continues_self begins, fun _ => hd, fun o ho => ?_⟩
    (fun _ _ _ _ hl hx => hl.other hx) (fun _ _ peers told here hl => hl.step here peers told)
    (fun _ _ here hl => hl.cancel here) acts
  rw [hn] at ho
  cases ho

end

/-- A command is handled on an aggregate that earlier handlings may have left in any condition. If
that goes well, exactly one of the things it does changes what is durable: it appends the changes
that the aggregate had before, then the events of the command on top of the version that it was
loaded at, records the transaction and moves the version on, and nothing else. So exactly the events
of the command are appended, at the versions after the stored one, if and only if the aggregate had
no changes before. -/
theorem appends_of_run {p : Pool ι σ} {i : ι} {h g : Handling σ}
    (here : p.agents i = .task (.handling h)) (begins : h.stage = .waiting)
    (used : h.aggregate.Used) (acts : List (Action ι σ))
    (there : (p.run acts).agents i = .task (.handling g)) {o : Receipt}
    (well : g.receipt? = some o) :
    ∃ earlier d later v, record (deeds i) p acts = earlier ++ d :: later ∧
      (∀ d ∈ earlier ++ later, d.2.ledger = d.1.ledger) ∧
      h.Appends d.1.ledger d.2.ledger v ∧ o = h.receiptAfter v ∧
      (d.2.ledger.events =
          d.1.ledger.events ++ h.newEvents (d.1.ledger.version h.aggregate.id) ↔
        h.aggregate.changes = []) := by
  obtain ⟨g', hg, hl⟩ := lands_run here begins acts
  cases there.symm.trans hg
  obtain ⟨earlier, d, later, hd, ⟨v, ha, ho⟩, hq⟩ := hl.done o well
  exact ⟨earlier, d, later, v, hd, hq, ha, ho, ha.events_iff used.level⟩

/-- A user has been about to sign up, but the projection could not be saved. -/
def signedUpInVain : Pool Unit User :=
  signingUp.run (List.replicate 6 (.step () Peers.accepting.withoutReadModel false))

/-- What is left of that is handled once more, under a transaction of its own. -/
def signingUpAgain : Pool Unit User where
  world := signedUpInVain.world
  agents _ :=
    match signedUpInVain.agents () with
    | .task (.handling h) =>
      .task (.handling { h with transactionId := .ofNat 2, stage := .waiting })
    | a => a

theorem used_signingUpAgain :
    ∃ h, signingUpAgain.agents () = .task (.handling h) ∧ h.stage = .waiting ∧
      h.aggregate.Used ∧ h.command = User.signUp "a@example.com" := by
  have hg : ∃ g, signedUpInVain.agents () = .task (.handling g) ∧
      g.command = User.signUp "a@example.com" := ⟨_, rfl, rfl⟩
  obtain ⟨g, hg, hc⟩ := hg
  have hu : g.aggregate.Used :=
    .handled (.new (.ofNat 1) User.snapshotCap) (p := signingUp) (i := ()) rfl rfl _ hg
  refine ⟨{ g with transactionId := .ofNat 2, stage := .waiting }, ?_, rfl, hu, hc⟩
  simp only [signingUpAgain, hg]

theorem appends_of_run_signingUpAgain :
    ∃ h g, signingUpAgain.agents () = .task (.handling h) ∧ h.stage = .waiting ∧
      h.aggregate.Used ∧
      (signingUpAgain.run (List.replicate 6 (.go ()))).agents () = .task (.handling g) ∧
      ∃ o, g.receipt? = some o ∧
        ∃ d ∈ record (deeds ()) signingUpAgain (List.replicate 6 (.go ())), ∃ v,
          h.Appends d.1.ledger d.2.ledger v ∧ o = h.receiptAfter v := by
  obtain ⟨h, here, begins, used, -⟩ := used_signingUpAgain
  have hg : ∃ g o, (signingUpAgain.run (List.replicate 6 (.go ()))).agents () =
      .task (.handling g) ∧ g.receipt? = some o := ⟨_, _, rfl, rfl⟩
  obtain ⟨g, o, there, well⟩ := hg
  obtain ⟨earlier, d, later, v, hd, -, ha, ho, -⟩ :=
    appends_of_run here begins used (List.replicate 6 (.go ())) there well
  refine ⟨h, g, here, begins, used, there, o, well, d, ?_, v, ha, ho⟩
  rw [hd]
  exact List.mem_append_right _ List.mem_cons_self

/-- Nothing is durable before, the handling goes well, and four events are durable after it: two of
them are from the handling that was in vain. -/
theorem pending_appended_signingUpAgain :
    ∃ h, signingUpAgain.agents () = .task (.handling h) ∧ h.aggregate.Used ∧
      h.command = User.signUp "a@example.com" ∧ signingUpAgain.ledger.events = [] ∧
      ((signingUpAgain.run (List.replicate 6 (.go ()))).agents ()).receipt? =
        some ⟨.ofNat 1, .ofNat 2, 4⟩ ∧
      (signingUpAgain.run (List.replicate 6 (.go ()))).ledger.events.map
          (fun e => (e.transactionId, e.version)) =
        [(.ofNat 1, 1), (.ofNat 1, 2), (.ofNat 2, 3), (.ofNat 2, 4)] ∧
      (signingUpAgain.run (List.replicate 6 (.go ()))).ledger.events ≠ h.newEvents 0 := by
  obtain ⟨h, here, -, used, command⟩ := used_signingUpAgain
  have he : (signingUpAgain.run (List.replicate 6 (.go ()))).ledger.events.map
      (fun e => (e.transactionId, e.version)) =
        [(.ofNat 1, 1), (.ofNat 1, 2), (.ofNat 2, 3), (.ofNat 2, 4)] := by decide +kernel
  refine ⟨h, here, used, command, rfl, by decide +kernel, he, fun hn => ?_⟩
  -- the command wants two events only
  have hl := congrArg List.length he
  rw [hn, List.length_map, Handling.newEvents, Command.length_eventsAfter, command] at hl
  exact absurd hl (by decide)

end Pool
end Outbox

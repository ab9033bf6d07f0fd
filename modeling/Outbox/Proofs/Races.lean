import Outbox.Proofs.Atomic
import Outbox.Proofs.Clients

/-! Handlings that compete for one aggregate. A conflict is reported exactly where another one got
ahead between the read of the events and the update: it has committed events by then, or it has a
claim that it can still commit under. Nothing else is ever reported as a conflict, the commit in
particular. -/
namespace Outbox
variable {σ : Type} [Model σ]

/-! ### Agents as clients of the store -/

theorem Handling.Move.settles {peers : Peers σ} {w w' : World σ} {h h' : Handling σ}
    (hm : Move peers w h w' h') : w.store.Settles h.stage.unit? w'.store h'.stage.unit? := by
  cases hm with
  | idle => exact .stays rfl id
  | refused x here => exact .stays rfl fun _ => by simp [Stage.unit?]
  | opens here =>
    refine .stays rfl fun _ v hv => ?_
    cases hv
    exact ⟨by simp, by simp⟩
  | looks u here | resumes u found a here =>
    rw [here]
    exact .stays rfl id
  | stages u es a b n here =>
    rw [here]
    exact w.store.settles_stage u h.transactionId b b.snapshot
  | saves u here =>
    rw [here, World.save_store]
    exact .stays rfl id
  | commits u n here =>
    rw [here]
    exact .commits u rfl rfl rfl
  | fails u a x ns here => exact .stays rfl fun _ => by simp [Stage.unit?]

theorem Handling.settles_cancel (w : World σ) (h : Handling σ) :
    w.store.Settles h.stage.unit? (h.cancel w).1.store (h.cancel w).2.stage.unit? := by
  rcases h.cancel_cases w with ⟨-, he⟩ | ⟨-, he⟩ | ⟨u, -, he⟩ <;> rw [he]
  · exact .stays rfl id
  · exact .stays rfl fun _ => by simp [Stage.unit?]
  · exact .stays rfl fun _ => by simp [Stage.unit?]

theorem Round.Move.settles {peers : Peers σ} {w w' : World σ} {r r' : Round σ}
    (hm : Move peers w r w' r') : w.store.Settles r.stage.unit? w'.store r'.stage.unit? := by
  cases hm with
  | idle => exact .stays rfl id
  | refused x n here => exact .stays rfl fun _ => by simp [Stage.unit?]
  | opens here =>
    refine .stays rfl fun _ v hv => ?_
    cases hv
    exact ⟨by simp, by simp⟩
  | locks u here =>
    rw [here]
    exact w.store.settles_readCheckpoint u
  | collects u c here | seeks u e es here | recalls u es first a b found here
  | announces u es first a b c found batch n here | replays u es hs a b c batch n here =>
    rw [here]
    exact .stays rfl id
  | publishes u a batch here =>
    rw [here, World.publish_store]
    exact .stays rfl id
  | moves u published ns here =>
    have hu : r.stage.unit? = some u := by
      rcases here with ⟨here, _⟩ | ⟨a, here⟩ <;> rw [here] <;> rfl
    rw [hu]
    exact w.store.settles_moveCheckpoint u ⟨r.transaction.sequence⟩
  | commits u published n here =>
    rw [here]
    exact .commits u rfl rfl rfl
  | leaves u result ns here => exact .stays rfl fun _ => by simp [Stage.unit?]

theorem Round.settles_cancel (w : World σ) (r : Round σ) :
    w.store.Settles r.stage.unit? (r.cancel w).1.store (r.cancel w).2.stage.unit? := by
  rcases r.cancel_cases w with ⟨-, he⟩ | ⟨-, he⟩ | ⟨u, -, he⟩ <;> rw [he]
  · exact .stays rfl id
  · exact .stays rfl fun _ => by simp [Stage.unit?]
  · exact .stays rfl fun _ => by simp [Stage.unit?]

theorem Consumer.Move.settles {peers : Peers σ} {w w' : World σ} {k k' : Consumer σ}
    (hm : Move peers w k w' k') : w.store.Settles k.unit? w'.store k'.unit? := by
  cases hm with
  | rests ns k' here there => exact .stays rfl fun _ => by simp [unit?_eq_none there]
  | takes x xs t here => exact .stays rfl fun _ => by simp [unit?, Round.Stage.unit?]
  | relays r here =>
    rw [unit?_relaying here]
    exact (r.step_move peers w).settles
  | accounts r result ns report here ended =>
    have hs := (r.step_move peers w).settles
    rw [ended] at hs
    rw [unit?_relaying here]
    exact hs

theorem Consumer.settles_abort (w : World σ) (k : Consumer σ) :
    w.store.Settles k.unit? (k.abort w).1.store (k.abort w).2.unit? := by
  cases hs : k.stage with
  | relaying r =>
    have he : k.abort w = ((r.cancel w).1, { k with stage := .crashed }) := by simp [abort, hs]
    have ht := r.settles_cancel w
    rw [Round.unit?_cancel] at ht
    rw [he, unit?_relaying hs]
    exact ht
  | polling | stopped | crashed =>
    simpa [abort, hs, unit?] using (.stays rfl id : w.store.Settles none w.store none)

namespace Agent

theorem settles_step (peers : Peers σ) (told : Bool) (w : World σ) (a : Agent σ) :
    w.store.Settles a.unit? (a.step peers told w).1.store (a.step peers told w).2.unit? := by
  cases a with
  | task t =>
    cases t with
    | handling h => exact (h.step_move peers w).settles
    | round r => exact (r.step_move peers w).settles
  | consumer k => exact (k.step_move peers told w).settles

theorem settles_cancel (w : World σ) (a : Agent σ) :
    w.store.Settles a.unit? (a.cancel w).1.store (a.cancel w).2.unit? := by
  cases a with
  | task t =>
    cases t with
    | handling h => exact h.settles_cancel w
    | round r => exact r.settles_cancel w
  | consumer k => exact k.settles_abort w

end Agent

namespace Pool
variable {ι : Type} [DecidableEq ι]

def clients (p : Pool ι σ) : Clients ι σ := ⟨p.world.store, fun i => (p.agents i).unit?⟩

theorem clients_update (w : World σ) (agents : ι → Agent σ) (i : ι) (a : Agent σ) :
    (⟨w, Function.update agents i a⟩ : Pool ι σ).clients =
      ⟨w.store, Function.update (fun j => (agents j).unit?) i a.unit?⟩ := by
  have he : (fun j => (Function.update agents i a j).unit?) =
      Function.update (fun j => (agents j).unit?) i a.unit? :=
    funext fun j => Function.apply_update (fun _ => Agent.unit?) agents i a j
  simp only [clients, he]

theorem clients_act {p : Pool ι σ} (h : p.clients.Sound) (x : Action ι σ) :
    (p.act x).clients.Sound := by
  cases x with
  | step i peers told =>
    simp only [Pool.act, clients_update]
    exact h.update ((p.agents i).trades_step peers told p.world)
      ((p.agents i).settles_step peers told p.world)
  | cancel i =>
    simp only [Pool.act, clients_update]
    exact h.update ((p.agents i).trades_cancel p.world) ((p.agents i).settles_cancel p.world)
  | notify i place =>
    cases ht : p.ledger.log[place]? with
    | none => simpa only [Pool.act, ht] using h
    | some t =>
      simp only [Pool.act, ht, clients_update, Agent.unit?_notify, Function.update_eq_self]
      exact h
  | fail operations =>
    exact ⟨⟨h.claimed.someone, h.claimed.claimed, h.claimed.alone⟩,
      ⟨h.guarded.someone, h.guarded.locked, h.guarded.alone⟩, h.fits⟩

/-- Whatever happens, claims and the lock are with those who have a unit of work open, and these can
all be committed. -/
theorem clients_run (calls : ι → Call σ) (acts : List (Action ι σ)) :
    ((start {} calls).run acts).clients.Sound := by
  induction acts using List.reverseRecOn with
  | nil =>
    have hn : (start {} calls : Pool ι σ).clients = Clients.start {} [] := by
      have hu (i : ι) : (calls i).agent.unit? = none := by cases calls i <;> rfl
      simp only [clients, start, Clients.start, hu]
    rw [run_nil, hn]
    exact Clients.sound_start {} []
  | append_singleton acts x ih =>
    rw [run_append]
    exact clients_act ih x

end Pool

/-! ### What is no conflict -/

/-- Events and snapshots that do not go with a state are refused as what cannot be converted. -/
class ConvertingModel (σ : Type) [Model σ] : Prop where
  apply {s : σ} {e : EventOf σ} {x : Error} (refused : Model.apply s e = .error x) :
    ∃ detail, x = .conversion detail
  restore {s : σ} {p : Model.Snapshot σ} {x : Error} (refused : Model.restore s p = .error x) :
    ∃ detail, x = .conversion detail

instance : ConvertingModel User where
  apply {s e x} refused := by
    have he : User.apply s e = .error x := refused
    unfold User.apply at he
    split at he
    · cases he
    · split at he
      · cases he
        exact ⟨_, rfl⟩
      · cases he
    · cases he
  restore refused := nomatch refused

/-- The read model reports that it could not save anything as a matter of persistence. -/
def Peers.Persists (peers : Peers σ) : Prop :=
  ∀ p x, peers.save p = .error x → ∃ detail, x = .persistence detail

theorem Error.of?_eq_some {α : Type} {r : Except Error α} {x : Error} :
    Error.of? r = some x ↔ r = .error x := by
  cases r <;> simp [Error.of?]

namespace Store
variable {s : Store σ} {x : Error}

theorem isConflict_of_check {op : Operation} (h : s.check op = .error x) :
    x.isConflict = false := by
  unfold check at h
  split at h
  · cases h
    rfl
  · cases h

theorem isConflict_of_begin (h : s.begin = .error x) : x.isConflict = false := by
  unfold begin at h
  split at h
  · next hc =>
    cases h
    exact isConflict_of_check hc
  · cases h

theorem isConflict_of_readSnapshot {id : Uuid} {before : Option Int}
    (h : s.readSnapshot id before = .error x) : x.isConflict = false := by
  unfold readSnapshot at h
  split at h
  · next hc =>
    cases h
    exact isConflict_of_check hc
  · cases h

theorem isConflict_of_readEvents {id : Uuid} {first : Int} {last : Option Int}
    (h : s.readEvents id first last = .error x) : x.isConflict = false := by
  unfold readEvents at h
  split at h
  · next hc =>
    cases h
    exact isConflict_of_check hc
  · cases h

theorem isConflict_undoing (s : Store σ) (x : Error) :
    (s.undoing x).isConflict = x.isConflict := by
  unfold undoing
  split <;> rfl

end Store

namespace Aggregate
variable [ConvertingModel σ] {a b : Aggregate σ} {x : Error}

theorem isConflict_of_resume {found : Option (SnapshotOf σ)} (h : a.resume found = .error x) :
    x.isConflict = false := by
  cases found with
  | none => cases h
  | some s =>
    simp only [resume, restore] at h
    split at h
    · cases h
      rfl
    · split at h
      · next hr =>
        cases h
        obtain ⟨detail, rfl⟩ := ConvertingModel.restore hr
        rfl
      · cases h

theorem isConflict_of_replay {e : EventOf σ} (h : a.replay e = .error x) :
    x.isConflict = false := by
  simp only [replay] at h
  split at h
  · cases h
    rfl
  · split at h
    · next hr =>
      cases h
      obtain ⟨detail, rfl⟩ := ConvertingModel.apply hr
      rfl
    · cases h

theorem isConflict_of_advance {e : EventOf σ} (h : a.advance e = .error x) :
    x.isConflict = false := by
  simp only [advance] at h
  split at h
  · split at h
    · next hr =>
      cases h
      obtain ⟨detail, rfl⟩ := ConvertingModel.apply hr
      rfl
    · cases h
  · cases h
    rfl

omit [ConvertingModel σ] in
theorem isConflict_of_feed {act : Aggregate σ → EventOf σ → Except Error (Aggregate σ)}
    (hact : ∀ a e x, act a e = .error x → x.isConflict = false) {es : List (EventOf σ)}
    (h : feed act a es = (b, .error x)) : x.isConflict = false := by
  induction es generalizing a with
  | nil => cases h
  | cons e es ih =>
    cases hr : act a e with
    | error y =>
      simp only [feed, hr] at h
      cases h
      exact hact _ _ _ hr
    | ok c =>
      simp only [feed, hr] at h
      exact ih h

end Aggregate

namespace Handling

/-- What the store answered to the last call, if this was to read events. -/
def Stage.history? : Stage σ → Option (Except Error (List (EventOf σ)))
  | sawEvents _ found => some found
  | _ => none

def Stage.update? : Stage σ → Option (Except Error Unit)
  | staged _ result => some result
  | _ => none

theorem update?_conclude (w : World σ) (h : Handling σ) (u : UnitOfWork σ)
    (r : Except Error Receipt) : (h.conclude w u r).2.stage.update? = none := rfl

theorem isConflict_of_save {peers : Peers σ} (persists : peers.Persists) {w : World σ}
    {p : Model.Projection σ} {x : Error} (h : (w.save peers p).1 = .error x) :
    x.isConflict = false := by
  unfold World.save at h
  split at h
  · next hs =>
    cases h
    obtain ⟨detail, rfl⟩ := persists p x hs
    rfl
  · cases h

theorem Stage.answers_of_rank_eq_zero {s : Stage σ} (ended : s.rank = 0) :
    s.history? = none ∧ s.update? = none := by
  cases s <;> first | exact ⟨rfl, rfl⟩ | cases ended

theorem isConflict_verdict (s : Store σ) (h : Handling σ) (x : Error) :
    (h.verdict s x).isConflict = x.isConflict := by
  unfold verdict
  split
  · rfl
  · rfl
  · exact s.isConflict_undoing x

/-- What goes wrong in a step is a conflict only if the step is an update that is refused. -/
theorem fault_eq_some_iff [ConvertingModel σ] {peers : Peers σ} {w : World σ} {h : Handling σ}
    (persists : peers.Persists) (fits : ∀ u ∈ h.stage.unit?, u.Fits w.store.ledger) {x : Error}
    (hx : x.isConflict = true) :
    h.fault peers w = some x ↔ (h.step peers w).2.stage.update? = some (.error x) := by
  -- whatever else goes wrong in a step that is no update is no conflict
  have hn (hf : ∀ y, h.fault peers w = some y → y.isConflict = false)
      (hu : (h.step peers w).2.stage.update? = none) :
      h.fault peers w = some x ↔ (h.step peers w).2.stage.update? = some (.error x) := by
    rw [hu]
    refine ⟨fun he => ?_, nofun⟩
    rw [hf x he] at hx
    cases hx
  cases hs : h.stage with
  | waiting =>
    refine hn (fun y hy => ?_) ?_
    · rw [fault, hs] at hy
      exact Store.isConflict_of_begin (Error.of?_eq_some.mp hy)
    · cases hb : w.store.begin <;> simp [step, hs, hb, Stage.update?]
  | opened u =>
    refine hn (fun y hy => ?_) (by simp [step, hs, Stage.update?])
    rw [fault, hs] at hy
    exact Store.isConflict_of_readSnapshot (Error.of?_eq_some.mp hy)
  | sawSnapshot u found =>
    cases found with
    | error y => exact hn (by simp [fault, hs]) (by simp only [step, hs, update?_conclude])
    | ok found =>
      cases ha : h.aggregate.resume found with
      | error y =>
        refine hn (fun z hz => ?_) (by simp only [step, hs, ha, update?_conclude])
        simp only [fault, hs, ha] at hz
        cases hz
        exact Aggregate.isConflict_of_resume ha
      | ok a =>
        refine hn (fun z hz => ?_) (by simp only [step, hs, ha, Stage.update?])
        simp only [fault, hs, ha] at hz
        exact Store.isConflict_of_readEvents (Error.of?_eq_some.mp hz)
  | sawEvents u found =>
    cases found with
    | error y => exact hn (by simp [fault, hs]) (by simp only [step, hs, update?_conclude])
    | ok es =>
      rcases ha : h.aggregate.build es with ⟨a, y | _⟩
      · refine hn (fun z hz => ?_) (by simp only [step, hs, ha, update?_conclude])
        simp only [fault, hs, ha] at hz
        cases hz
        exact Aggregate.isConflict_of_feed (fun _ _ _ => Aggregate.isConflict_of_replay) ha
      · rcases hb : a.advanceAll (h.newEvents a.version) with ⟨b, y | _⟩
        · refine hn (fun z hz => ?_) (by simp only [step, hs, ha, hb, update?_conclude])
          simp only [fault, hs, ha, hb] at hz
          cases hz
          exact Aggregate.isConflict_of_feed (fun _ _ _ => Aggregate.isConflict_of_advance) hb
        · simp only [fault, step, hs, ha, hb, Stage.update?, Error.of?_eq_some, Option.some_inj,
            World.say_store]
  | staged u result =>
    cases result with
    | error y => exact hn (by simp [fault, hs]) (by simp only [step, hs, update?_conclude])
    | ok _ =>
      refine hn (fun z hz => ?_) (by simp only [step, hs, Stage.update?])
      rw [fault, hs] at hz
      exact isConflict_of_save persists (Error.of?_eq_some.mp hz)
  | saved u result =>
    cases result with
    | error y => exact hn (by simp [fault, hs]) (by simp only [step, hs, update?_conclude])
    | ok _ =>
      refine hn (fun z hz => ?_) (by simp only [step, hs, update?_conclude])
      rw [fault, hs] at hz
      -- what is staged fits what is durable, so that the commit finds no other version there
      have hc := (fits u (by rw [hs]; rfl)).commit
      rw [Error.of?_eq_some.mp hz] at hc
      exact Store.isConflict_of_check hc.symm
  | ended result => exact hn (by simp [fault, hs]) (by simp [step, hs, Stage.update?])
  | cancelled => exact hn (by simp [fault, hs]) (by simp [step, hs, Stage.update?])

end Handling

/-! ### Reads and updates of a run -/

namespace Pool
variable {ι : Type} [DecidableEq ι]

def reached (i : ι) (p : Pool ι σ) : Action ι σ → Option (Handling.Stage σ)
  | .step j peers _ =>
    match p.agents i with
    | .task (.handling h) => if j = i then some (h.step peers p.world).2.stage else none
    | _ => none
  | _ => none

def reads (i : ι) (p : Pool ι σ) (x : Action ι σ) :
    List (Pool ι σ × Except Error (List (EventOf σ))) :=
  ((p.reached i x).bind Handling.Stage.history?).toList.map (p, ·)

def updates (i : ι) (p : Pool ι σ) (x : Action ι σ) : List (Pool ι σ × Except Error Unit) :=
  ((p.reached i x).bind Handling.Stage.update?).toList.map (p, ·)

/-- Somebody has got ahead of an agent since the stream of an aggregate had a length: the stream is
longer by now, or another agent has a claim on the aggregate. -/
def Ahead (p : Pool ι σ) (i : ι) (id : Uuid) (length : Nat) : Prop :=
  length < (p.ledger.stream id).length ∨ ∃ j ≠ i, ∃ u ∈ (p.agents j).unit?, id ∈ u.claims

/-- An update of an aggregate that was read when its stream had a length is answered as it has to
be. -/
def Answers (p : Pool ι σ) (i : ι) (id : Uuid) (length : Nat) (answer : Except Error Unit) : Prop :=
  answer = .error (injectedFailure .stage) ∧ .stage ∈ p.world.store.failing ∨
  answer = .error (.conflict id length) ∧ .stage ∉ p.world.store.failing ∧ p.Ahead i id length ∨
  answer = .ok () ∧ .stage ∉ p.world.store.failing ∧ ¬p.Ahead i id length

theorem reached_eq_none {p : Pool ι σ} {i : ι} {x : Action ι σ} (hx : x.isStepOf i = false) :
    p.reached i x = none := by
  cases x with
  | step j peers told =>
    have hj : j ≠ i := by simpa [Action.isStepOf] using hx
    simp only [reached, if_neg hj]
    split <;> rfl
  | _ => rfl

theorem reached_step {p : Pool ι σ} {i : ι} {h : Handling σ}
    (hi : p.agents i = .task (.handling h)) (peers : Peers σ) (told : Bool) :
    p.reached i (.step i peers told) = some (h.step peers p.world).2.stage := by
  simp [reached, hi]

section
variable {p : Pool ι σ} {i : ι} {id : Uuid} {b : Nat}

omit [DecidableEq ι] in
/-- A unit of work that has staged nothing may write an aggregate exactly if nobody has got ahead. -/
theorem admits_iff (hp : p.clients.Sound) (hl : p.ledger.Sound) (hi : (p.agents i).unit? = some {})
    (hb : b ≤ (p.ledger.stream id).length) :
    p.world.store.admits {} id b = true ↔ ¬p.Ahead i id b := by
  have hv : p.world.store.ledger.version id = (p.ledger.stream id).length := hl.version id
  have hc : id ∈ p.world.store.claimed ↔ ∃ j ≠ i, ∃ u ∈ (p.agents j).unit?, id ∈ u.claims := by
    constructor
    · intro hid
      obtain ⟨j, hj⟩ := hp.claimed.someone id hid
      obtain ⟨u, hu, hc⟩ := UnitOfWork.mem_claimed.mp hj
      refine ⟨j, ?_, u, hu, hc⟩
      rintro rfl
      have hu : (p.agents j).unit? = some u := hu
      cases hi.symm.trans hu
      cases hc
    · rintro ⟨j, -, u, hu, hc⟩
      exact hp.claimed.claimed j id (UnitOfWork.mem_claimed.mpr ⟨u, hu, hc⟩)
  have hs : p.world.store.admits {} id b = true ↔
      ((p.ledger.stream id).length : Int) = b ∧ id ∉ p.world.store.claimed := by
    simp [Store.admits, hv]
  rw [hs, hc, Ahead, not_or]
  refine and_congr_left fun _ => ⟨fun he => ?_, fun he => ?_⟩ <;> omega

omit [DecidableEq ι] in
theorem answers_stage (hp : p.clients.Sound) (hl : p.ledger.Sound)
    (hi : (p.agents i).unit? = some {}) (t : Uuid) {a : Aggregate σ} (hb : a.baseVersion = b)
    (hle : b ≤ (p.ledger.stream a.id).length) :
    p.Answers i a.id b (p.world.store.stage {} t a a.snapshot).1 := by
  have ha := admits_iff hp hl hi hle
  by_cases hf : Operation.stage ∈ p.world.store.failing
  · exact .inl ⟨by simp [Store.stage, Store.check, hf], hf⟩
  · rw [← hb] at ha
    by_cases ahead : p.Ahead i a.id b
    · have hn : p.world.store.admits {} a.id a.baseVersion = false := by
        simpa using fun hn => ha.mp hn ahead
      refine .inr (.inl ⟨?_, hf, ahead⟩)
      rw [← hb]
      simp [Store.stage, Store.check, hf, hn]
    · exact .inr (.inr ⟨by simp [Store.stage, Store.check, hf, ha.mpr ahead], hf, ahead⟩)

end

/-- The reads and updates of a request, as far as its handling is: nothing is read or updated too
early, events are read once, and there is at most one update, answered as it has to be. -/
structure Raced (p₀ : Pool ι σ) (i : ι) (r : Request σ) (acts : List (Action ι σ))
    (h : Handling σ) : Prop where
  early : 3 < h.stage.rank → record (reads i) p₀ acts = []
  pending : 2 < h.stage.rank → record (updates i) p₀ acts = []
  /-- The events that were read are all those after the version that is there. -/
  read : ∀ u found, h.stage = .sawEvents u found →
    ∃ q, record (reads i) p₀ acts = [(q, found)] ∧ q.ledger.Grows (p₀.run acts).ledger ∧
      ∀ es, found = .ok es → ∃ n : Nat, h.aggregate.version = n ∧
        n + es.length = (q.ledger.stream r.aggregateId).length
  judged : ∀ d ∈ record (updates i) p₀ acts, record (updates i) p₀ acts = [d] ∧
    ∃ q found, record (reads i) p₀ acts = [(q, found)] ∧
      d.1.Answers i r.aggregateId (q.ledger.stream r.aggregateId).length d.2

section
variable {p₀ : Pool ι σ} {i : ι} {r : Request σ} {acts : List (Action ι σ)} {h : Handling σ}

theorem raced_nil (h : Handling σ) (begins : h.stage = .waiting) : Raced p₀ i r [] h where
  early _ := rfl
  pending _ := rfl
  read u found hs := by
    rw [begins] at hs
    cases hs
  judged _ hd := nomatch hd

theorem Raced.quiet (hr : Raced p₀ i r acts h) {x : Action ι σ} {h' : Handling σ}
    (grows : (p₀.run acts).ledger.Grows ((p₀.run acts).act x).ledger)
    (reads : (p₀.run acts).reads i x = []) (updates : (p₀.run acts).updates i x = [])
    (rank : h'.stage.rank ≤ h.stage.rank)
    (same : ∀ u found, h'.stage = .sawEvents u found → h' = h) : Raced p₀ i r (acts ++ [x]) h' := by
  have hd : record (Pool.reads i) p₀ (acts ++ [x]) = record (Pool.reads i) p₀ acts := by
    rw [record_concat, reads, List.append_nil]
  have hu : record (Pool.updates i) p₀ (acts ++ [x]) = record (Pool.updates i) p₀ acts := by
    rw [record_concat, updates, List.append_nil]
  refine ⟨fun hk => ?_, fun hk => ?_, fun u found hs => ?_, hd ▸ hu ▸ hr.judged⟩
  · rw [hd]
    exact hr.early (by omega)
  · rw [hu]
    exact hr.pending (by omega)
  · obtain rfl := same u found hs
    obtain ⟨q, hq, hg, hn⟩ := hr.read u found hs
    refine ⟨q, hd.trans hq, ?_, hn⟩
    rw [run_append]
    exact hg.trans grows

theorem Raced.step_quiet (hr : Raced p₀ i r acts h)
    (here : (p₀.run acts).agents i = .task (.handling h)) {peers : Peers σ} {told : Bool}
    (grows : (p₀.run acts).ledger.Grows ((p₀.run acts).act (.step i peers told)).ledger)
    (read : (h.step peers (p₀.run acts).world).2.stage.history? = none)
    (update : (h.step peers (p₀.run acts).world).2.stage.update? = none) :
    Raced p₀ i r (acts ++ [.step i peers told]) (h.step peers (p₀.run acts).world).2 := by
  have hm := reached_step here peers told
  refine hr.quiet grows ?_ ?_ ?_ fun u found hs => ?_
  · simp [reads, hm, read]
  · simp [updates, hm, update]
  · have hk := (h.step_move peers (p₀.run acts).world).rank_le
    omega
  · rw [hs] at read
    cases read

theorem Raced.step_read (hr : Raced p₀ i r acts h) (hl : (p₀.run acts).ledger.Sound)
    (hk : r.Knows (p₀.run acts).ledger h) {x : Action ι σ}
    (grows : (p₀.run acts).ledger.Grows ((p₀.run acts).act x).ledger) {u : UnitOfWork σ}
    {found : Option (SnapshotOf σ)} {a : Aggregate σ} (there : h.stage = .sawSnapshot u (.ok found))
    (loaded : h.aggregate.resume found = .ok a)
    (reached : (p₀.run acts).reached i x = some (.sawEvents u
      ((p₀.run acts).world.store.readEvents a.id (a.version + 1) none))) :
    Raced p₀ i r (acts ++ [x]) { h with
      aggregate := a
      stage := .sawEvents u ((p₀.run acts).world.store.readEvents a.id (a.version + 1) none) } := by
  have hd : record (reads i) p₀ (acts ++ [x]) = [(p₀.run acts,
      (p₀.run acts).world.store.readEvents a.id (a.version + 1) none)] := by
    rw [record_concat, hr.early (there ▸ (by decide : 3 < 4)), reads, reached]
    rfl
  have hu : record (updates i) p₀ (acts ++ [x]) = [] := by
    rw [record_concat, hr.pending (there ▸ (by decide : 2 < 4)), updates, reached]
    rfl
  refine ⟨fun hn => absurd hn (Nat.lt_irrefl 3), fun _ => hu, fun v f hs => ?_, fun d hd => ?_⟩
  · cases hs
    refine ⟨p₀.run acts, hd, by rw [run_append]; exact grows, fun es he => ?_⟩
    have hh := hk.holds
    rw [there] at hh
    obtain ⟨-, ha, hf⟩ := hh
    rw [ha] at loaded
    obtain ⟨n, s, hs, rfl⟩ := hl.resume (fun y hy => hf y (by rw [hy])) loaded
    refine ⟨n, rfl, ?_⟩
    have hb := Store.readEvents_eq_ok he
    have hle := hl.le_length hs
    rw [← hb, Aggregate.loaded_id, Aggregate.loaded_version]
    have hdrop : (p₀.run acts).ledger.eventsBetween r.aggregateId (n + 1) none =
        ((p₀.run acts).ledger.stream r.aggregateId).drop n := hl.eventsBetween r.aggregateId n
    have hlen := congrArg List.length hdrop
    rw [List.length_drop] at hlen
    have hq : (p₀.run acts).world.store.ledger = (p₀.run acts).ledger := rfl
    rw [hq]
    omega
  · rw [hu] at hd
    cases hd

theorem Raced.step_update (hr : Raced p₀ i r acts h)
    (here : (p₀.run acts).agents i = .task (.handling h)) (hc : (p₀.run acts).clients.Sound)
    (hl : (p₀.run acts).ledger.Sound) (hk : r.Knows (p₀.run acts).ledger h) {x : Action ι σ}
    {u v : UnitOfWork σ} {es : List (EventOf σ)} {a b : Aggregate σ}
    (there : h.stage = .sawEvents u (.ok es)) (loaded : h.aggregate.build es = (a, .ok ()))
    (changed : a.advanceAll (h.newEvents a.version) = (b, .ok ())) {answer : Except Error Unit}
    (ha : answer = ((p₀.run acts).world.store.stage u h.transactionId b b.snapshot).1)
    (reached : (p₀.run acts).reached i x = some (.staged v answer)) :
    Raced p₀ i r (acts ++ [x]) { h with aggregate := b, stage := .staged v answer } := by
  obtain ⟨rfl, n, s, hn, -, rfl⟩ := hk.leads hl there loaded changed
  obtain ⟨q, hq, hg, he⟩ := hr.read {} (.ok es) there
  obtain ⟨m, hm, hlen⟩ := he es rfl
  have hmn : m = n := by omega
  have hd : record (reads i) p₀ (acts ++ [x]) = [(q, .ok es)] := by
    rw [record_concat, hq, reads, reached]
    rfl
  have hu : record (updates i) p₀ (acts ++ [x]) = [(p₀.run acts, answer)] := by
    rw [record_concat, hr.pending (there ▸ (by decide : 2 < 3)), updates, reached]
    rfl
  refine ⟨fun hn => absurd hn (by decide : ¬3 < 2), fun hn => absurd hn (Nat.lt_irrefl 2), nofun,
    fun d hd' => ?_⟩
  rw [hu, List.mem_singleton] at hd'
  subst hd'
  refine ⟨hu, q, .ok es, hd, ?_⟩
  have hi : ((p₀.run acts).agents i).unit? = some {} := by
    rw [here]
    exact congrArg Handling.Stage.unit? there
  rw [ha]
  exact answers_stage hc hl hi h.transactionId (by rw [← hlen, hmn]; rfl) (hg.length_stream _)

theorem Raced.step (hr : Raced p₀ i r acts h)
    (here : (p₀.run acts).agents i = .task (.handling h)) (hc : (p₀.run acts).clients.Sound)
    (hl : (p₀.run acts).ledger.Sound) (hk : r.Knows (p₀.run acts).ledger h) (peers : Peers σ)
    (told : Bool)
    (grows : (p₀.run acts).ledger.Grows ((p₀.run acts).act (.step i peers told)).ledger) :
    Raced p₀ i r (acts ++ [.step i peers told]) (h.step peers (p₀.run acts).world).2 := by
  have quiet := hr.step_quiet here grows
  have hm := reached_step here peers told
  have move := h.step_move peers (p₀.run acts).world
  by_cases ended : h.stage.rank = 0
  · have hs := Handling.Stage.answers_of_rank_eq_zero ended
    rw [Handling.step_of_rank_eq_zero ended] at quiet ⊢
    exact quiet hs.1 hs.2
  · generalize h.step peers (p₀.run acts).world = w at quiet hm move ⊢
    obtain ⟨w', h'⟩ := w
    cases move with
    | idle still => exact absurd still ended
    | refused | opens | looks | saves | commits | fails => exact quiet rfl rfl
    | resumes u found a there loaded => exact hr.step_read hl hk grows there loaded hm
    | stages u es a b n there loaded changed =>
      exact hr.step_update here hc hl hk there loaded changed rfl hm

theorem Raced.cancel (hr : Raced p₀ i r acts h)
    (grows : (p₀.run acts).ledger.Grows ((p₀.run acts).act (.cancel i)).ledger) :
    Raced p₀ i r (acts ++ [.cancel i]) (h.cancel (p₀.run acts).world).2 := by
  have hz := h.rank_cancel (p₀.run acts).world
  refine hr.quiet grows rfl rfl (by omega) fun u found hs => ?_
  rw [hs] at hz
  cases hz

theorem Raced.other (hr : Raced p₀ i r acts h) {x : Action ι σ} (hx : x.isBy i = false)
    (grows : (p₀.run acts).ledger.Grows ((p₀.run acts).act x).ledger) :
    Raced p₀ i r (acts ++ [x]) h := by
  have hs : x.isStepOf i = false := by cases x <;> simp_all [Action.isBy, Action.isStepOf]
  have hn := reached_eq_none (p := p₀.run acts) hs
  exact hr.quiet grows (by simp [reads, hn]) (by simp [updates, hn]) (Nat.le_refl _)
    fun _ _ _ => rfl

end

theorem raced_run {calls : ι → Call σ} {i : ι} {r : Request σ} (called : calls i = .request r)
    (acts : List (Action ι σ)) :
    ∃ h, ((start {} calls).run acts).agents i = .task (.handling h) ∧
      Raced (start {} calls) i r acts h := by
  have hi : (start {} calls).agents i = .task (.handling r.handling) := by
    simp only [start, called, Call.agent]
  exact handling_run hi (raced_nil r.handling rfl)
    (fun acts _ x _ hr hx => hr.other hx (grows_run calls acts x))
    (fun acts _ peers told here hr => hr.step here (clients_run calls acts) (sound_run calls acts)
      (knows_run called here) peers told (grows_run calls acts _))
    (fun acts _ _ hr => hr.cancel (grows_run calls acts _)) acts

/-- The conflicts among all that goes wrong for a request are the updates that are refused. -/
theorem mem_faults_iff [ConvertingModel σ] {calls : ι → Call σ} {i : ι} {r : Request σ}
    (called : calls i = .request r) (acts : List (Action ι σ))
    (persist : ∀ j peers told, .step j peers told ∈ acts → peers.Persists) {x : Error}
    (hx : x.isConflict = true) :
    x ∈ record (faults i) (start {} calls) acts ↔
      ∃ q, (q, .error x) ∈ record (updates i) (start {} calls) acts := by
  induction acts using List.reverseRecOn with
  | nil => simp [record]
  | append_singleton acts y ih =>
    have hp := ih fun j peers told hm => persist j peers told (List.mem_append_left _ hm)
    simp only [record_concat, List.mem_append, exists_or, hp]
    refine or_congr_right ?_
    cases hs : y.isStepOf i with
    | false =>
      have hf : ((start {} calls).run acts).faults i y = [] := by
        cases y with
        | step j peers told => exact faults_eq_nil (by simpa [Action.isBy, Action.isStepOf] using hs)
        | _ => rfl
      simp [hf, updates, reached_eq_none hs]
    | true =>
      cases y with
      | step j peers told =>
        obtain rfl : j = i := by simpa [Action.isStepOf] using hs
        obtain ⟨h, here, -⟩ := raced_run called acts
        have hfit : ∀ u ∈ h.stage.unit?, u.Fits ((start {} calls).run acts).world.store.ledger := by
          intro u hu
          refine (clients_run calls acts).fits j u ?_
          simpa only [clients, here, Agent.unit?] using hu
        have hiff := Handling.fault_eq_some_iff
          (persist j peers told (List.mem_append_right _ List.mem_cons_self)) hfit hx
        rw [faults_step here, Option.mem_toList, hiff]
        simp only [updates, reached_step here peers told, Option.bind_some]
        generalize (h.step peers ((start {} calls).run acts).world).2.stage.update? = answer
        cases answer <;> simp [eq_comm]
      | cancel j => cases hs
      | notify j place => cases hs
      | fail operations => cases hs

/-- Requests whose handlings compete in any order of steps, with anything else going on beside them:
a request updates its aggregate at most once, after it has read the events once. Unless the update
is made to fail, it is refused if and only if somebody has got ahead since that read: the stream is
longer by then, or another open unit of work has a claim on the aggregate. A request that is refused
fails with a conflict at the length that the stream had at the read, whether undoing the rest goes
well or not; and no other request ever fails with a conflict. -/
theorem refused_iff_of_run [ConvertingModel σ] {calls : ι → Call σ} {i : ι} {r : Request σ}
    (called : calls i = .request r) (acts : List (Action ι σ))
    (persist : ∀ j peers told, .step j peers told ∈ acts → peers.Persists) :
    let reads := record (reads i) (start {} calls) acts
    let updates := record (updates i) (start {} calls) acts
    ∃ h, ((start {} calls).run acts).agents i = .task (.handling h) ∧
      (∀ q answer, (q, answer) ∈ updates → .stage ∉ q.world.store.failing →
        updates = [(q, answer)] ∧ ∃ q₀ found, reads = [(q₀, found)] ∧
          let b := (q₀.ledger.stream r.aggregateId).length
          (answer ≠ .ok () ↔ b < (q.ledger.stream r.aggregateId).length ∨
            ∃ j ≠ i, ∃ u ∈ (q.agents j).unit?, r.aggregateId ∈ u.claims) ∧
          ∀ result, answer ≠ .ok () → h.stage = .ended result →
            ∃ y, result = .error y ∧ y.isConflict = true ∧
              (y = .conflict r.aggregateId b ∨
                ∃ x, y = .rollbackFailed (.conflict r.aggregateId b) x)) ∧
      ∀ y, h.stage = .ended (.error y) → y.isConflict = true →
        ∃ q answer, (q, answer) ∈ updates ∧ answer ≠ .ok () ∧
          .stage ∉ q.world.store.failing := by
  intro reads updates
  obtain ⟨h, here, hr⟩ := raced_run called acts
  obtain ⟨h', hh⟩ := handles_run called acts
  cases here.symm.trans hh.here
  refine ⟨h, here, fun q answer hm hs => ?_, fun y hy hc => ?_⟩
  · obtain ⟨hu, q₀, found, hq, ha⟩ := hr.judged _ hm
    refine ⟨hu, q₀, found, hq, ?_⟩
    rcases ha with ⟨-, hn⟩ | ⟨ha, -, ahead⟩ | ⟨ha, -, behind⟩
    · exact absurd hn hs
    · have ha : answer = .error (.conflict r.aggregateId (q₀.ledger.stream r.aggregateId).length) :=
        ha
      subst ha
      refine ⟨iff_of_true (fun he => by cases he) ahead, fun result _ hres => ?_⟩
      have hf : Error.conflict r.aggregateId (q₀.ledger.stream r.aggregateId).length ∈
          record (faults i) (start {} calls) acts :=
        (mem_faults_iff called acts persist rfl).mpr ⟨q, hm⟩
      cases result with
      | ok o =>
        obtain ⟨hn, -⟩ := hh.done o (by rw [Handling.receipt?, hres])
        rw [hn] at hf
        cases hf
      | error y =>
        obtain ⟨d, -, g, x, -, -, -, hx, rfl⟩ := hh.failed y hres
        rw [hx, List.mem_singleton] at hf
        subst hf
        refine ⟨_, rfl, g.isConflict_verdict _ _, ?_⟩
        unfold Handling.verdict
        split
        · exact .inl rfl
        · exact .inl rfl
        · unfold Store.undoing
          split
          · exact .inl rfl
          · exact .inr ⟨_, rfl⟩
    · have ha : answer = .ok () := ha
      exact ⟨iff_of_false (absurd ha) behind, fun _ hn => absurd ha hn⟩
  · obtain ⟨d, -, g, x, -, -, -, hx, rfl⟩ := hh.failed y hy
    rw [g.isConflict_verdict] at hc
    obtain ⟨q, hq⟩ := (mem_faults_iff called acts persist hc).mp (hx ▸ List.mem_singleton_self x)
    refine ⟨q, .error x, hq, (fun he => by cases he), fun hn => ?_⟩
    obtain ⟨-, q₀, found, -, ha⟩ := hr.judged _ hq
    rcases ha with ⟨ha, -⟩ | ⟨-, hs, -⟩ | ⟨ha, -⟩
    · cases ha
      cases hc
    · exact hs hn
    · cases ha

def rivals (i : Bool) : Call User :=
  .request (.ofUser 1 (bif i then 2 else 1) (User.signUp "a@example.com"))

/-- Both have read the events of the user when the one is committed; then the other goes on, and
cannot undo anything. -/
def signingUpTogether : List (Action Bool User) :=
  List.replicate 3 (.go false) ++ List.replicate 6 (.go true) ++
    .fail [.rollback] :: List.replicate 2 (.go false)

theorem persist_signingUpTogether (j : Bool) (peers : Peers User) (told : Bool)
    (h : .step j peers told ∈ signingUpTogether) : peers.Persists := by
  simp only [signingUpTogether, Action.go, List.mem_append, List.mem_cons, List.mem_replicate,
    Action.step.injEq, reduceCtorEq, false_or] at h
  have hp : peers = .accepting := by
    rcases h with (⟨-, -, rfl, -⟩ | ⟨-, -, rfl, -⟩) | ⟨-, -, rfl, -⟩ <;> rfl
  rw [hp]
  exact fun _ _ hs => nomatch hs

theorem refused_iff_of_run_signingUpTogether :
    (∀ j peers told, .step j peers told ∈ signingUpTogether → Peers.Persists peers) ∧
    rivals false = .request (.ofUser 1 1 (User.signUp "a@example.com")) ∧
    ∃ h y, ((start {} rivals).run signingUpTogether).agents false = .task (.handling h) ∧
      h.stage = .ended (.error y) ∧ y.isConflict = true ∧
      y = .rollbackFailed (.conflict (.ofNat 1) 0) (injectedFailure .rollback) := by
  have hq : ∃ q, (q, .error (.conflict (.ofNat 1) 0)) ∈
      record (updates false) (start {} rivals) signingUpTogether ∧
      .stage ∉ q.world.store.failing := ⟨_, List.mem_singleton.mpr rfl, by decide⟩
  have hg : ∃ g, ((start {} rivals).run signingUpTogether).agents false = .task (.handling g) ∧
      g.stage = .ended (.error (.rollbackFailed (.conflict (.ofNat 1) 0)
        (injectedFailure .rollback))) := ⟨_, rfl, rfl⟩
  obtain ⟨q, hm, hs⟩ := hq
  obtain ⟨g, hg, hstage⟩ := hg
  obtain ⟨h, here, hu, -⟩ := refused_iff_of_run (show rivals false = .request _ from rfl)
    signingUpTogether persist_signingUpTogether
  cases here.symm.trans hg
  obtain ⟨-, q₀, found, -, -, hr⟩ := hu q _ hm hs
  obtain ⟨y, hy, hc, -⟩ := hr _ nofun hstage
  cases hy
  exact ⟨persist_signingUpTogether, rfl, g, _, hg, hstage, hc, rfl⟩

end Pool
end Outbox

import Outbox.Command.Handling
import Outbox.Relay.Consumer

/-! What a step comes to: one constructor for each way in which a handling of a command or a round
of the relay goes on, with all it reads, stages and makes durable. Whatever ends without a commit
ends in one way: its unit of work is released. -/
namespace Outbox
variable {σ : Type} [Model σ]

def UnitOfWork.writing (transactionId : Uuid) (a : Aggregate σ) : UnitOfWork σ where
  claims := [a.id]
  versions := [⟨a.id, a.baseVersion, a.version⟩]
  events := a.changes
  snapshots := if a.snapshotDue then [⟨a.id, a.version, a.snapshot⟩] else []
  transactions := [(transactionId, a.id)]

theorem World.save_store (peers : Peers σ) (w : World σ) (p : Model.Projection σ) :
    (w.save peers p).2.store = w.store := by
  unfold World.save
  split <;> rfl

theorem World.publish_store (peers : Peers σ) (w : World σ) (batch : List (IntegrationOf σ)) :
    (w.publish peers batch).2.store = w.store := by
  unfold World.publish
  split <;> rfl

namespace Store

theorem check_of_calm {s : Store σ} (h : s.failing = []) (op : Operation) :
    s.check op = .ok () := by
  simp [check, h]

theorem readSnapshot_eq_ok {s : Store σ} {id : Uuid} {before : Option Int}
    {found : Option (SnapshotOf σ)} (h : s.readSnapshot id before = .ok found) :
    s.ledger.latestSnapshot id before = found := by
  unfold readSnapshot at h
  split at h <;> simp_all

theorem readEvents_eq_ok {s : Store σ} {id : Uuid} {first : Int} {last : Option Int}
    {es : List (EventOf σ)} (h : s.readEvents id first last = .ok es) :
    s.ledger.eventsBetween id first last = es := by
  unfold readEvents at h
  split at h <;> simp_all

theorem readRange_eq_ok {s : Store σ} {id : Uuid} {r : LogRange} {es : List (EventOf σ)}
    (h : s.readRange id r = .ok es) : s.ledger.eventsIn id r = es := by
  unfold readRange at h
  split at h <;> simp_all

/-- Staging is made to fail, refused, or admitted; only then it stages and claims anything. -/
theorem stage_cases (s : Store σ) (t : Uuid) (a : Aggregate σ) :
    (∃ x, s.check .stage = .error x ∧ s.stage {} t a a.snapshot = (.error x, {}, s)) ∨
    (s.admits {} a.id a.baseVersion = false ∧
      s.stage {} t a a.snapshot = (.error (.conflict a.id a.baseVersion), {}, s)) ∨
    (s.admits {} a.id a.baseVersion = true ∧
      s.stage {} t a a.snapshot =
        (.ok (), .writing t a, { s with claimed := a.id :: s.claimed })) := by
  cases hc : s.check .stage with
  | error x => exact .inl ⟨x, rfl, by simp [stage, hc]⟩
  | ok _ =>
    cases ha : s.admits {} a.id a.baseVersion with
    | false => exact .inr (.inl ⟨rfl, by simp [stage, hc, ha]⟩)
    | true => exact .inr (.inr ⟨rfl, by simp [stage, hc, ha, UnitOfWork.writing]⟩)

theorem stage_ledger (s : Store σ) (u : UnitOfWork σ) (t : Uuid) (a : Aggregate σ)
    (x : Model.Snapshot σ) : (s.stage u t a x).2.2.ledger = s.ledger := by
  unfold stage
  split
  · rfl
  · split <;> rfl

/-- Only a unit of work that is told the checkpoint locks it. -/
theorem readCheckpoint_cases (s : Store σ) (u : UnitOfWork σ) :
    (∃ found, (∀ c, found ≠ .ok (some c)) ∧ s.readCheckpoint u = (found, u, s)) ∨
    ∃ held, s.readCheckpoint u =
      (.ok (some s.ledger.checkpoint), { u with holdsCheckpoint := true },
        { s with checkpointHeld := held }) := by
  cases hc : s.check .readCheckpoint with
  | error x => exact .inl ⟨.error x, nofun, by simp [readCheckpoint, hc]⟩
  | ok _ =>
    by_cases hu : u.holdsCheckpoint = true
    · have he : { u with holdsCheckpoint := true } = u := by rw [← hu]
      exact .inr ⟨s.checkpointHeld, by simp [readCheckpoint, hc, hu, he]⟩
    · cases hs : s.checkpointHeld with
      | true => exact .inl ⟨.ok none, nofun, by simp [readCheckpoint, hc, hu, hs]⟩
      | false => exact .inr ⟨true, by simp [readCheckpoint, hc, hu, hs]⟩

/-- Only a unit of work that moves the checkpoint locks it; none that holds it is kept from that,
unless the store fails. -/
theorem moveCheckpoint_cases (s : Store σ) (u : UnitOfWork σ) (c : Checkpoint) :
    (∃ x, (s.failing = [] → u.holdsCheckpoint = false) ∧
      s.moveCheckpoint u c = (.error x, u, s)) ∨
    ∃ held, s.moveCheckpoint u c =
      (.ok (), { u with holdsCheckpoint := true, checkpoint := some c },
        { s with checkpointHeld := held }) := by
  cases hc : s.check .moveCheckpoint with
  | error x =>
    have hf : s.failing ≠ [] := by
      intro hf
      simp [check, hf] at hc
    exact .inl ⟨x, fun he => absurd he hf, by simp [moveCheckpoint, hc]⟩
  | ok _ =>
    by_cases hu : u.holdsCheckpoint = true
    · exact .inr ⟨s.checkpointHeld, by simp [moveCheckpoint, hc, hu]⟩
    · have hu' : u.holdsCheckpoint = false := by simpa using hu
      cases hs : s.checkpointHeld with
      | true => exact .inl ⟨checkpointLocked, fun _ => hu', by simp [moveCheckpoint, hc, hu, hs]⟩
      | false => exact .inr ⟨true, by simp [moveCheckpoint, hc, hu, hs]⟩

/-- A commit that does not go through releases the unit of work all the same. -/
theorem commit_cases (s : Store σ) (u : UnitOfWork σ) :
    (∃ x, s.commit u = (.error x, s.release u)) ∨
    (s.ledger.outdated u = none ∧
      s.commit u = (.ok (), { s with ledger := s.ledger.absorb u }.release u)) := by
  cases hc : s.check .commit with
  | error x => exact .inl ⟨x, by simp [commit, hc]⟩
  | ok _ =>
    cases ho : s.ledger.outdated u with
    | some v => exact .inl ⟨.conflict v.aggregateId v.base, by simp [commit, hc, ho]⟩
    | none => exact .inr ⟨rfl, by simp [commit, hc, ho]⟩

def undoing (s : Store σ) (x : Error) : Error :=
  match s.check .rollback with
  | .ok _ => x
  | .error y => .rollbackFailed x y

theorem conclude_error {α : Type} (s : Store σ) (u : UnitOfWork σ) (x : Error) :
    s.conclude u (.error x : Except Error α) = (.error (s.undoing x), s.release u) := by
  unfold conclude rollback undoing
  cases s.check .rollback <;> rfl

theorem conclude_ok_cases {α : Type} (s : Store σ) (u : UnitOfWork σ) (a : α) :
    (∃ x, s.commit u = (.error x, s.release u) ∧ s.conclude u (.ok a) = (.error x, s.release u)) ∨
    (s.ledger.outdated u = none ∧
      s.conclude u (.ok a) = (.ok a, { s with ledger := s.ledger.absorb u }.release u)) := by
  rcases s.commit_cases u with ⟨x, h⟩ | ⟨ho, h⟩
  · exact .inl ⟨x, h, by simp [conclude, h]⟩
  · exact .inr ⟨ho, by simp [conclude, h]⟩

end Store

namespace Handling

def intended (h : Handling σ) : Receipt := ⟨h.aggregate.id, h.transactionId, h.aggregate.version⟩

/-- The ways in which a handling goes on by a step. -/
inductive Move (peers : Peers σ) (w : World σ) (h : Handling σ) : World σ → Handling σ → Prop
  | idle (ended : h.stage.rank = 0) : Move peers w h w h
  | refused (x : Error) (here : h.stage = .waiting) (denied : w.store.begin = .error x) :
    Move peers w h w { h with stage := .ended (.error x) }
  | opens (here : h.stage = .waiting) : Move peers w h w { h with stage := .opened {} }
  | looks (u : UnitOfWork σ) (here : h.stage = .opened u) :
    Move peers w h w
      { h with stage := .sawSnapshot u (w.store.readSnapshot h.aggregate.id none) }
  | resumes (u : UnitOfWork σ) (found : Option (SnapshotOf σ)) (a : Aggregate σ)
      (here : h.stage = .sawSnapshot u (.ok found)) (loaded : h.aggregate.resume found = .ok a) :
    Move peers w h w
      { h with
        aggregate := a
        stage := .sawEvents u (w.store.readEvents a.id (a.version + 1) none) }
  | stages (u : UnitOfWork σ) (es : List (EventOf σ)) (a b : Aggregate σ) (n : Notice)
      (here : h.stage = .sawEvents u (.ok es)) (loaded : h.aggregate.build es = (a, .ok ()))
      (changed : a.advanceAll (h.newEvents a.version) = (b, .ok ())) :
    Move peers w h { w.say n with store := (w.store.stage u h.transactionId b b.snapshot).2.2 }
      { h with
        aggregate := b
        stage := .staged (w.store.stage u h.transactionId b b.snapshot).2.1
          (w.store.stage u h.transactionId b b.snapshot).1 }
  | saves (u : UnitOfWork σ) (here : h.stage = .staged u (.ok ())) :
    Move peers w h (w.save peers h.aggregate.projection).2
      { h with stage := .saved u (w.save peers h.aggregate.projection).1 }
  | commits (u : UnitOfWork σ) (n : Notice) (here : h.stage = .saved u (.ok ()))
      (fresh : w.store.ledger.outdated u = none) :
    Move peers w h
      ({ w with store := { w.store with ledger := w.store.ledger.absorb u }.release u }.say n)
      { h with stage := .ended (.ok h.intended) }
  | fails (u : UnitOfWork σ) (a : Aggregate σ) (x : Error) (ns : List Notice)
      (here : h.stage.unit? = some u) :
    Move peers w h { w with store := w.store.release u, notices := w.notices ++ ns }
      { h with aggregate := a, stage := .ended (.error x) }

/-- Ending with an error is a way to fail, whatever aggregate is left behind. -/
theorem Move.conclude_error (peers : Peers σ) (w : World σ) (h : Handling σ) (u : UnitOfWork σ)
    (a : Aggregate σ) (x : Error) (ns : List Notice) (here : h.stage.unit? = some u) :
    Move peers w h
      (conclude { w with notices := w.notices ++ ns } { h with aggregate := a } u (.error x)).1
      (conclude { w with notices := w.notices ++ ns } { h with aggregate := a } u
        (.error x)).2 := by
  simp only [conclude, Store.conclude_error, World.say, List.append_assoc]
  exact .fails u a (w.store.undoing x) _ here

theorem Move.conclude_here (peers : Peers σ) (w : World σ) (h : Handling σ) (u : UnitOfWork σ)
    (x : Error) (here : h.stage.unit? = some u) :
    Move peers w h (conclude w h u (.error x)).1 (conclude w h u (.error x)).2 := by
  have hm := Move.conclude_error peers w h u h.aggregate x [] here
  rwa [List.append_nil] at hm

theorem step_move (peers : Peers σ) (w : World σ) (h : Handling σ) :
    Move peers w h (h.step peers w).1 (h.step peers w).2 := by
  cases hs : h.stage with
  | waiting =>
    cases hb : w.store.begin with
    | error x => simpa [step, hs, hb] using Move.refused x hs hb
    | ok u =>
      have hu : u = {} := by
        simp only [Store.begin] at hb
        split at hb <;> simp_all
      subst hu
      simpa [step, hs, hb] using Move.opens hs
  | opened u => simpa [step, hs] using Move.looks u hs
  | sawSnapshot u found =>
    have hu : h.stage.unit? = some u := by rw [hs]; rfl
    cases found with
    | error x =>
      have he : h.step peers w = conclude w h u (.error x) := by simp only [step, hs]
      rw [he]
      exact .conclude_here peers w h u x hu
    | ok found =>
      cases ha : h.aggregate.resume found with
      | error x =>
        have he : h.step peers w = conclude w h u (.error x) := by simp only [step, hs, ha]
        rw [he]
        exact .conclude_here peers w h u x hu
      | ok a => simpa [step, hs, ha] using Move.resumes u found a hs ha
  | sawEvents u found =>
    have hu : h.stage.unit? = some u := by rw [hs]; rfl
    cases found with
    | error x =>
      have he : h.step peers w = conclude w h u (.error x) := by simp only [step, hs]
      rw [he]
      exact .conclude_here peers w h u x hu
    | ok es =>
      rcases ha : h.aggregate.build es with ⟨a, _ | _⟩
      case error x =>
        have hm := Move.conclude_error peers w h u a x [] hu
        simpa [step, hs, ha] using hm
      case ok =>
        rcases hb : a.advanceAll (h.newEvents a.version) with ⟨b, _ | _⟩
        case error x =>
          have hm := Move.conclude_error peers w h u b x
            [.aggregateLoaded a.id a.version es.length] hu
          simpa [step, hs, ha, hb, World.say] using hm
        case ok =>
          have hm : Move peers w h _ _ := .stages u es a b
            (.aggregateLoaded a.id a.version es.length) hs ha hb
          simpa [step, hs, ha, hb] using hm
  | staged u r =>
    cases r with
    | error x =>
      have he : h.step peers w = conclude w h u (.error x) := by simp only [step, hs]
      rw [he]
      exact .conclude_here peers w h u x (by rw [hs]; rfl)
    | ok _ => simpa [step, hs] using Move.saves u hs
  | saved u r =>
    have hu : h.stage.unit? = some u := by rw [hs]; rfl
    cases r with
    | error x =>
      have he : h.step peers w = conclude w h u (.error x) := by simp only [step, hs]
      rw [he]
      exact .conclude_here peers w h u x hu
    | ok _ =>
      have he : h.step peers w = conclude w h u (.ok h.intended) := by
        simp only [step, hs, intended]
      rw [he]
      rcases w.store.conclude_ok_cases u h.intended with ⟨x, -, hx⟩ | ⟨ho, hc⟩
      · have hm : Move peers w h _ _ := .fails u h.aggregate x [h.notice (.error x)] hu
        simpa only [conclude, hx, World.say] using hm
      · have hm : Move peers w h _ _ := .commits u (h.notice (.ok h.intended)) hs ho
        simpa only [conclude, hc] using hm
  | ended r => simpa [step, hs] using Move.idle (by simp [hs, Stage.rank])
  | cancelled => simpa [step, hs] using Move.idle (by simp [hs, Stage.rank])

theorem step_of_rank_eq_zero {h : Handling σ} (ended : h.stage.rank = 0) (peers : Peers σ)
    (w : World σ) : h.step peers w = (w, h) := by
  cases hs : h.stage <;> simp_all [Stage.rank, step]

/-- A handling that is given up has done its part already, or it lets go of what it holds. -/
theorem cancel_cases (w : World σ) (h : Handling σ) :
    (h.stage.rank = 0 ∧ h.cancel w = (w, h)) ∨
    (h.stage = .waiting ∧ h.cancel w = (w, { h with stage := .cancelled })) ∨
    ∃ u, h.stage.unit? = some u ∧
      h.cancel w = ({ w with store := w.store.release u }, { h with stage := .cancelled }) := by
  cases hs : h.stage with
  | waiting => exact .inr (.inl ⟨rfl, by simp [cancel, hs, Stage.unit?]⟩)
  | ended r => exact .inl ⟨rfl, by simp [cancel, hs]⟩
  | cancelled => exact .inl ⟨rfl, by simp [cancel, hs]⟩
  | _ => exact .inr (.inr ⟨_, rfl, by simp [cancel, hs, Stage.unit?]⟩)

theorem cancel_batches (w : World σ) (h : Handling σ) : (h.cancel w).1.batches = w.batches := by
  rcases h.cancel_cases w with ⟨-, he⟩ | ⟨-, he⟩ | ⟨u, -, he⟩ <;> rw [he]

end Handling

namespace Round

def Stage.accepted : Stage σ → Bool
  | published _ _ _ (.ok _) => true
  | moved .. => true
  | _ => false

inductive Move (peers : Peers σ) (w : World σ) (r : Round σ) : World σ → Round σ → Prop
  | idle (ended : r.stage.rank = 0) : Move peers w r w r
  | refused (x : Error) (n : Notice) (here : r.stage = .waiting)
      (denied : w.store.begin = .error x) :
    Move peers w r (w.say n) { r with stage := .ended (.error x) }
  | opens (here : r.stage = .waiting) : Move peers w r w { r with stage := .opened {} }
  | locks (u : UnitOfWork σ) (here : r.stage = .opened u) :
    Move peers w r { w with store := (w.store.readCheckpoint u).2.2 }
      { r with
        stage := .sawCheckpoint (w.store.readCheckpoint u).2.1 (w.store.readCheckpoint u).1 }
  | collects (u : UnitOfWork σ) (c : Checkpoint)
      (here : r.stage = .sawCheckpoint u (.ok (some c))) (ahead : (r.range c).isEmpty = false) :
    Move peers w r w
      { r with
        stage := .sawUnhandled u (w.store.readRange r.transaction.aggregateId (r.range c)) }
  | seeks (u : UnitOfWork σ) (e : EventOf σ) (es : List (EventOf σ))
      (here : r.stage = .sawUnhandled u (.ok (e :: es))) :
    Move peers w r w
      { r with
        stage := .sawSnapshot u (e :: es) e.version (r.provider r.transaction.aggregateId)
          (w.store.readSnapshot (r.provider r.transaction.aggregateId).id (some e.version)) }
  | recalls (u : UnitOfWork σ) (es : List (EventOf σ)) (first : Int) (a b : Aggregate σ)
      (found : Option (SnapshotOf σ)) (here : r.stage = .sawSnapshot u es first a (.ok found))
      (loaded : a.resume found = .ok b) (short : b.version + 1 < first) :
    Move peers w r w
      { r with
        stage := .sawHistory u es b (w.store.readEvents b.id (b.version + 1) (some (first - 1))) }
  | announces (u : UnitOfWork σ) (es : List (EventOf σ)) (first : Int) (a b c : Aggregate σ)
      (found : Option (SnapshotOf σ)) (batch : List (IntegrationOf σ)) (n : Notice)
      (here : r.stage = .sawSnapshot u es first a (.ok found))
      (loaded : a.resume found = .ok b) (told : b.announce es = (c, .ok batch)) :
    Move peers w r (w.say n) { r with stage := .publishing u c batch }
  | replays (u : UnitOfWork σ) (es hs : List (EventOf σ)) (a b c : Aggregate σ)
      (batch : List (IntegrationOf σ)) (n : Notice)
      (here : r.stage = .sawHistory u es a (.ok hs)) (loaded : a.build hs = (b, .ok ()))
      (told : b.announce es = (c, .ok batch)) :
    Move peers w r (w.say n) { r with stage := .publishing u c batch }
  | publishes (u : UnitOfWork σ) (a : Aggregate σ) (batch : List (IntegrationOf σ))
      (here : r.stage = .publishing u a batch) :
    Move peers w r (w.publish peers batch).2
      { r with stage := .published u a batch.length (w.publish peers batch).1 }
  | moves (u : UnitOfWork σ) (published : Nat) (ns : List Notice)
      (here : r.stage = .sawUnhandled u (.ok []) ∧ published = 0 ∨
        ∃ a, r.stage = .published u a published (.ok ())) :
    Move peers w r
      { w with
        store := (w.store.moveCheckpoint u ⟨r.transaction.sequence⟩).2.2
        notices := w.notices ++ ns }
      { r with
        stage := .moved (w.store.moveCheckpoint u ⟨r.transaction.sequence⟩).2.1 published
          (w.store.moveCheckpoint u ⟨r.transaction.sequence⟩).1 }
  | commits (u : UnitOfWork σ) (published : Nat) (n : Notice)
      (here : r.stage = .moved u published (.ok ()))
      (fresh : w.store.ledger.outdated u = none) :
    Move peers w r
      ({ w with store := { w.store with ledger := w.store.ledger.absorb u }.release u }.say n)
      { r with stage := .ended (.ok (.relayed published r.transaction.sequence)) }
  | leaves (u : UnitOfWork σ) (result : Except Error RoundOutcome) (ns : List Notice)
      (here : r.stage.unit? = some u) (still : ∀ o, result = .ok o → o.advanced = false)
      (excuse : r.stage.accepted = true → (∃ n x, r.stage = .moved u n (.error x)) ∨
        ∃ x, w.store.commit u = (.error x, w.store.release u))
      (unsent : ∀ o, result = .ok o → r.stage.accepted = false) :
    Move peers w r { w with store := w.store.release u, notices := w.notices ++ ns }
      { r with stage := .ended result }

theorem Move.conclude_error (peers : Peers σ) (w : World σ) (r : Round σ) (u : UnitOfWork σ)
    (x : Error) (ns : List Notice) (here : r.stage.unit? = some u)
    (excuse : r.stage.accepted = true → ∃ n x, r.stage = .moved u n (.error x)) :
    Move peers w r (conclude { w with notices := w.notices ++ ns } r u (.error x)).1
      (conclude { w with notices := w.notices ++ ns } r u (.error x)).2 := by
  simp only [conclude, Store.conclude_error, World.say, List.append_assoc]
  exact .leaves u (.error (w.store.undoing x)) _ here (by simp) (fun ha => .inl (excuse ha))
    (by simp)

theorem Move.fail (peers : Peers σ) (w : World σ) (r : Round σ) (u : UnitOfWork σ)
    (step : RelayStep) (about : Option Uuid) (x : Error) (ns : List Notice)
    (here : r.stage.unit? = some u)
    (excuse : r.stage.accepted = true → ∃ n x, r.stage = .moved u n (.error x)) :
    Move peers w r (Round.fail { w with notices := w.notices ++ ns } r u step about x).1
      (Round.fail { w with notices := w.notices ++ ns } r u step about x).2 := by
  simp only [Round.fail, World.say, List.append_assoc]
  exact .conclude_error peers w r u x _ here excuse

theorem Move.standDown (peers : Peers σ) (w : World σ) (r : Round σ) (u : UnitOfWork σ)
    (o : RoundOutcome) (here : r.stage.unit? = some u) (still : o.advanced = false)
    (unsent : r.stage.accepted = false) :
    Move peers w r (Round.standDown w r u o).1 (Round.standDown w r u o).2 := by
  cases hr : w.store.check .rollback with
  | error x =>
    have hm : Move peers w r _ _ := .leaves u (.error x) [] here (by simp)
      (by simp [unsent]) (by simp)
    simpa [Round.standDown, Store.rollback, hr] using hm
  | ok _ =>
    have hm : Move peers w r _ _ := .leaves u (.ok o) [r.notice (.ok o)] here
      (by simpa using still) (by simp [unsent]) fun _ _ => unsent
    simpa [Round.standDown, Store.rollback, hr, World.say] using hm

theorem step_move (peers : Peers σ) (w : World σ) (r : Round σ) :
    Move peers w r (r.step peers w).1 (r.step peers w).2 := by
  have hf (u : UnitOfWork σ) (k : RelayStep) (about : Option Uuid) (x : Error)
      (hu : r.stage.unit? = some u)
      (he : r.stage.accepted = true → ∃ n x, r.stage = .moved u n (.error x)) :
      Move peers w r (r.fail w u k about x).1 (r.fail w u k about x).2 := by
    have hm := Move.fail peers w r u k about x [] hu he
    rwa [List.append_nil] at hm
  cases hs : r.stage with
  | waiting =>
    cases hb : w.store.begin with
    | error x => simpa [step, hs, hb] using Move.refused x _ hs hb
    | ok u =>
      have hu : u = {} := by
        simp only [Store.begin] at hb
        split at hb <;> simp_all
      subst hu
      simpa [step, hs, hb] using Move.opens hs
  | opened u => simpa [step, hs] using Move.locks u hs
  | sawCheckpoint u found =>
    have hu : r.stage.unit? = some u := by rw [hs]; rfl
    rcases found with x | _ | c
    · have he : r.step peers w = r.fail w u .readCheckpoint none x := by simp only [step, hs]
      rw [he]
      exact hf u _ _ x hu (by simp [hs, Stage.accepted])
    · have he : r.step peers w = r.standDown w u .checkpointLocked := by simp only [step, hs]
      rw [he]
      exact .standDown peers w r u _ hu rfl (by rw [hs]; rfl)
    · cases ha : (r.range c).isEmpty with
      | true =>
        have he : r.step peers w = r.standDown w u (.alreadyRelayed c.last) := by
          simp only [step, hs, ha, if_true]
        rw [he]
        exact .standDown peers w r u _ hu rfl (by rw [hs]; rfl)
      | false => simpa [step, hs, ha] using Move.collects u c hs ha
  | sawUnhandled u found =>
    rcases found with x | _ | ⟨e, es⟩
    · have he : r.step peers w = r.fail w u .loadUnhandled (some r.transaction.aggregateId) x := by
        simp only [step, hs]
      rw [he]
      exact hf u _ _ x (by rw [hs]; rfl) (by simp [hs, Stage.accepted])
    · have hm : Move peers w r _ _ := .moves u 0 [] (.inl ⟨hs, rfl⟩)
      simpa [step, hs, moveCheckpoint] using hm
    · simpa [step, hs] using Move.seeks u e es hs
  | sawSnapshot u es first a found =>
    have hu : r.stage.unit? = some u := by rw [hs]; rfl
    cases found with
    | error x =>
      have he : r.step peers w = r.fail w u .loadSnapshot (some a.id) x := by simp only [step, hs]
      rw [he]
      exact hf u _ _ x hu (by simp [hs, Stage.accepted])
    | ok found =>
      cases hb : a.resume found with
      | error x =>
        have he : r.step peers w = r.fail w u .applySnapshot (some a.id) x := by
          simp only [step, hs, hb]
        rw [he]
        exact hf u _ _ x hu (by simp [hs, Stage.accepted])
      | ok b =>
        by_cases hv : b.version + 1 < first
        · simpa [step, hs, hb, hv] using Move.recalls u es first a b found hs hb hv
        · rcases hc : b.announce es with ⟨c, x | batch⟩
          · have hm := Move.fail peers w r u .publishEvents (some r.transaction.aggregateId) x
              [.aggregateRebuilt r.transaction.aggregateId b.version es.length] hu
              (by simp [hs, Stage.accepted])
            simpa [step, hs, hb, hv, hc, Round.announce, World.say] using hm
          · simpa [step, hs, hb, hv, hc, Round.announce] using
              Move.announces u es first a b c found batch _ hs hb hc
  | sawHistory u es a found =>
    have hu : r.stage.unit? = some u := by rw [hs]; rfl
    cases found with
    | error x =>
      have he : r.step peers w = r.fail w u .loadHistory (some a.id) x := by simp only [step, hs]
      rw [he]
      exact hf u _ _ x hu (by simp [hs, Stage.accepted])
    | ok hist =>
      rcases hb : a.build hist with ⟨b, x | _⟩
      · have he : r.step peers w = r.fail w u .replayHistory (some a.id) x := by
          simp only [step, hs, hb]
        rw [he]
        exact hf u _ _ x hu (by simp [hs, Stage.accepted])
      · rcases hc : b.announce es with ⟨c, x | batch⟩
        · have hm := Move.fail peers w r u .publishEvents (some r.transaction.aggregateId) x
            [.aggregateRebuilt r.transaction.aggregateId b.version es.length] hu
              (by simp [hs, Stage.accepted])
          simpa [step, hs, hb, hc, Round.announce, World.say] using hm
        · simpa [step, hs, hb, hc, Round.announce] using
            Move.replays u es hist a b c batch _ hs hb hc
  | publishing u a batch => simpa [step, hs] using Move.publishes u a batch hs
  | published u a count result =>
    cases result with
    | error x =>
      have he : r.step peers w = r.fail w u .publishEvents (some r.transaction.aggregateId) x := by
        simp only [step, hs]
      rw [he]
      exact hf u _ _ x (by rw [hs]; rfl) (by simp [hs, Stage.accepted])
    | ok _ =>
      have hm : Move peers w r _ _ := .moves u count [.publishedEvents a.id count]
        (.inr ⟨a, hs⟩)
      simpa [step, hs, moveCheckpoint, World.say] using hm
  | moved u published result =>
    have hu : r.stage.unit? = some u := by rw [hs]; rfl
    cases result with
    | error x =>
      have he : r.step peers w = r.fail w u .updateCheckpoint none x := by simp only [step, hs]
      rw [he]
      exact hf u _ _ x hu (by simp [hs, Stage.accepted])
    | ok _ =>
      have he : r.step peers w =
          r.conclude w u (.ok (.relayed published r.transaction.sequence)) := by
        simp only [step, hs]
      rw [he]
      rcases w.store.conclude_ok_cases u (RoundOutcome.relayed published r.transaction.sequence)
        with ⟨x, hf, hx⟩ | ⟨ho, hc⟩
      · have hm : Move peers w r _ _ := .leaves u (.error x) [r.notice (.error x)] hu
          (by simp) (fun _ => .inr ⟨x, hf⟩) (by simp)
        simpa only [conclude, hx, World.say] using hm
      · have hm : Move peers w r _ _ := .commits u published
          (r.notice (.ok (.relayed published r.transaction.sequence))) hs ho
        simpa only [conclude, hc] using hm
  | ended result => simpa [step, hs] using Move.idle (by simp [hs, Stage.rank])
  | cancelled => simpa [step, hs] using Move.idle (by simp [hs, Stage.rank])

theorem step_of_rank_eq_zero {r : Round σ} (h : r.stage.rank = 0) (peers : Peers σ) (w : World σ) :
    r.step peers w = (w, r) := by
  cases hs : r.stage <;> simp_all [Stage.rank, step]

/-- A round that is given up has done its part already, or it lets go of what it holds. -/
theorem cancel_cases (w : World σ) (r : Round σ) :
    (r.stage.rank = 0 ∧ r.cancel w = (w, r)) ∨
    (r.stage = .waiting ∧ r.cancel w = (w, { r with stage := .cancelled })) ∨
    ∃ u, r.stage.unit? = some u ∧
      r.cancel w = ({ w with store := w.store.release u }, { r with stage := .cancelled }) := by
  cases hs : r.stage with
  | waiting => exact .inr (.inl ⟨rfl, by simp [cancel, hs, Stage.unit?]⟩)
  | ended result => exact .inl ⟨rfl, by simp [cancel, hs]⟩
  | cancelled => exact .inl ⟨rfl, by simp [cancel, hs]⟩
  | _ => exact .inr (.inr ⟨_, rfl, by simp [cancel, hs, Stage.unit?]⟩)

theorem Move.transaction {peers : Peers σ} {w w' : World σ} {r r' : Round σ}
    (hm : Move peers w r w' r') : r'.transaction = r.transaction := by
  cases hm <;> rfl

theorem Move.provider {peers : Peers σ} {w w' : World σ} {r r' : Round σ}
    (hm : Move peers w r w' r') : r'.provider = r.provider := by
  cases hm <;> rfl

theorem cancel_batches (w : World σ) (r : Round σ) : (r.cancel w).1.batches = w.batches := by
  rcases r.cancel_cases w with ⟨-, he⟩ | ⟨-, he⟩ | ⟨u, -, he⟩ <;> rw [he]

theorem transaction_cancel (w : World σ) (r : Round σ) :
    (r.cancel w).2.transaction = r.transaction := by
  rcases r.cancel_cases w with ⟨-, he⟩ | ⟨-, he⟩ | ⟨u, -, he⟩ <;> rw [he]

end Round

namespace Consumer

/-- The ways in which a consumer goes on by a step. -/
inductive Move (peers : Peers σ) (w : World σ) (k : Consumer σ) : World σ → Consumer σ → Prop
  | rests (ns : List Notice) (k' : Consumer σ) (here : ∀ r, k.stage ≠ .relaying r)
      (there : ∀ r, k'.stage ≠ .relaying r) (provider : k'.provider = k.provider)
      (arrivals : k'.source.arrivals ⊆ k.source.arrivals)
      (kept : (∀ x ∈ k.source.arrivals, ∃ t, x.result = .ok (some t)) →
        k'.source.arrivals = k.source.arrivals) :
    Move peers w k { w with notices := w.notices ++ ns } k'
  | takes (x : Arrival) (xs : List Arrival) (t : Transaction) (here : k.stage = .polling)
      (next : k.source.arrivals = x :: xs) (answer : x.result = .ok (some t)) :
    Move peers w k w
      { k with
        source := { k.source with arrivals := xs }
        calls := k.calls + 1
        stage := .relaying { transaction := t, provider := k.provider } }
  | relays (r : Round σ) (here : k.stage = .relaying r)
      (going : ∀ result, (r.step peers w).2.stage ≠ .ended result) :
    Move peers w k (r.step peers w).1 { k with stage := .relaying (r.step peers w).2 }
  | accounts (r : Round σ) (result : Except Error RoundOutcome) (ns : List Notice) (report : Report)
      (here : k.stage = .relaying r) (ended : (r.step peers w).2.stage = .ended result) :
    Move peers w k { (r.step peers w).1 with notices := (r.step peers w).1.notices ++ ns }
      { k with report, stage := .polling }

theorem account_eq (w : World σ) (k : Consumer σ) (t : Transaction)
    (result : Except Error RoundOutcome) :
    ∃ ns report, k.account w t result =
      ({ w with notices := w.notices ++ ns }, { k with report, stage := .polling }) := by
  cases result with
  | error x => exact ⟨_, _, rfl⟩
  | ok o =>
    cases ho : o.advanced with
    | true => exact ⟨[], k.report.count (some o), by simp [account, outcome, ho]⟩
    | false =>
      exact ⟨[.nothingRelayed o t], k.report.count (some o),
        by simp [account, outcome, ho, World.say]⟩

theorem step_move (peers : Peers σ) (told : Bool) (w : World σ) (k : Consumer σ) :
    Move peers w k (k.step peers told w).1 (k.step peers told w).2 := by
  cases hs : k.stage with
  | polling =>
    have hn (r : Round σ) : k.stage ≠ .relaying r := by simp [hs]
    have hd (r : Round σ) : Stage.stopped ≠ .relaying r := by simp
    cases told with
    | true =>
      have hm : Move peers w k _ _ := .rests [.consumerStopped k.report]
        { k with stage := .stopped } hn hd rfl (List.Subset.refl _)
          fun _ => rfl
      simpa [step, hs, stop, World.say] using hm
    | false =>
      cases ha : k.source.arrivals with
      | nil =>
        cases hc : k.source.closes with
        | true =>
          have hm : Move peers w k _ _ := .rests [.sourceClosed, .consumerStopped k.report]
            { k with calls := k.calls + 1, stage := .stopped } hn hd rfl (List.Subset.refl _)
            fun _ => rfl
          simpa [step, hs, ha, hc, receive, stop, World.say] using hm
        | false =>
          have hm : Move peers w k _ _ := .rests [] k hn hn rfl (List.Subset.refl _)
            fun _ => rfl
          simpa [step, hs, ha, hc] using hm
      | cons x xs =>
        have hx : xs ⊆ k.source.arrivals := ha ▸ List.subset_cons_self x xs
        have lost (h : ∀ x ∈ k.source.arrivals, ∃ t, x.result = .ok (some t))
            (hr : ∀ t, x.result ≠ .ok (some t)) : xs = k.source.arrivals := by
          obtain ⟨t, ht⟩ := h x (ha ▸ List.mem_cons_self)
          exact absurd ht (hr t)
        rcases hr : x.result with y | _ | t
        · have hm : Move peers w k _ _ := .rests [.notReceived y]
            { k with
              source := { k.source with arrivals := xs }
              calls := k.calls + 1
              report := { k.report with failed := k.report.failed + 1 } } hn hn rfl hx
            fun h => lost h (by simp [hr])
          simpa [step, hs, ha, hr, receive, World.say] using hm
        · have hm : Move peers w k _ _ := .rests [.sourceClosed, .consumerStopped k.report]
            { k with
              source := { k.source with arrivals := xs }
              calls := k.calls + 1
              stage := .stopped } hn hd rfl hx fun h => lost h (by simp [hr])
          simpa [step, hs, ha, hr, receive, stop, World.say] using hm
        · have hm : Move peers w k _ _ := .takes x xs t hs ha hr
          simpa [step, hs, ha, hr, receive] using hm
  | relaying r =>
    by_cases ho : ∃ result, (r.step peers w).2.stage = .ended result
    · obtain ⟨result, ho⟩ := ho
      obtain ⟨ns, report, he⟩ :=
        account_eq (r.step peers w).1 k (r.step peers w).2.transaction result
      have hm : Move peers w k _ _ := .accounts r result ns report hs ho
      simpa [step, hs, ho, he] using hm
    · have hg (result : Except Error RoundOutcome) : (r.step peers w).2.stage ≠ .ended result :=
        fun he => ho ⟨result, he⟩
      have hm : Move peers w k _ _ := .relays r hs hg
      cases he : (r.step peers w).2.stage <;> simp_all [step]
  | stopped =>
    have hn (r : Round σ) : k.stage ≠ .relaying r := by simp [hs]
    have hm : Move peers w k _ _ := .rests [] k hn hn rfl (List.Subset.refl _)
      fun _ => rfl
    simpa [step, hs] using hm
  | crashed =>
    have hn (r : Round σ) : k.stage ≠ .relaying r := by simp [hs]
    have hm : Move peers w k _ _ := .rests [] k hn hn rfl (List.Subset.refl _)
      fun _ => rfl
    simpa [step, hs] using hm

end Consumer
end Outbox

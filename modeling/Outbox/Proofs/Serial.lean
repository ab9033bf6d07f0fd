import Outbox.Proofs.Claims
import Outbox.Proofs.Replay
import Outbox.Proofs.Turn

/-! Handling requests side by side comes to the same as handling those that went well one after
another, in the order of their commits. -/
namespace Outbox
variable {σ : Type} [Model σ]

theorem Ledger.Sound.resume_latest [LawfulModel σ] {l : Ledger σ} (h : l.Sound) (id : Uuid)
    (cap : Int) : ∃ n s, l.CanLoad id n s ∧
      (Aggregate.loaded id cap 0 Model.initial).resume (l.latestSnapshot id none) =
        .ok (.loaded id cap n s) := by
  obtain ⟨n, s, hs, -, hr⟩ := h.resume_stored id cap fun x hx =>
    have hm := mem_of_latestSnapshot hx
    ⟨hm.1, hm.2.1⟩
  exact ⟨n, s, hs, hr⟩

theorem Ledger.Sound.build_rest [LawfulModel σ] {l : Ledger σ} (h : l.Sound) (hf : l.Faithful)
    {id : Uuid} (cap : Int) {k : Nat} {s t : σ} (ht : l.CanLoad id k t)
    (hs : l.stateAt id (l.stream id).length = .ok s) :
    (Aggregate.loaded id cap k t).build ((l.stream id).drop k) =
      (.loaded id cap (l.stream id).length s, .ok ()) := by
  have hk : k + ((l.stream id).drop k).length = (l.stream id).length := by
    rw [List.length_drop, Nat.add_sub_cancel' (h.le_length ht)]
  rw [h.build_prefix hf cap ht (List.prefix_refl _) (hk.symm ▸ hs), hk]

def World.claiming (w : World σ) (id : Uuid) (saved : List (Model.Projection σ))
    (notices : List Notice) : World σ :=
  { w with store := { w.store with claimed := [id] }, saved, notices }

theorem Store.release_claimed {s : Store σ} (free : s.claimed = []) {id : Uuid} {u : UnitOfWork σ}
    (hc : u.claims = [id]) (hh : u.holdsCheckpoint = false) :
    { s with claimed := [id] }.release u = s := by
  cases s
  simp_all [release]

namespace Request

def stands (r : Request σ) (a : Aggregate σ) (stage : Handling.Stage σ) : Handling σ where
  command := r.command
  transactionId := r.transactionId
  createdAt := r.createdAt
  aggregate := a
  stage := stage

/-- The state that the request leads to from a version and its state, unless one of its events is
refused or the read model does not take the projection. -/
def verdict (r : Request σ) (peers : Peers σ) (n : Nat) (s₀ : σ) : Except Error σ :=
  match Model.replay s₀ (r.events n) with
  | .error x => .error x
  | .ok s =>
    match peers.save (r.outcome n s).projection with
    | .error x => .error x
    | .ok () => .ok s

theorem of_verdict_eq_ok {r : Request σ} {peers : Peers σ} {n : Nat} {s₀ s : σ}
    (h : r.verdict peers n s₀ = .ok s) :
    Model.replay s₀ (r.events n) = .ok s ∧ peers.save (r.outcome n s).projection = .ok () := by
  unfold verdict at h
  cases hr : Model.replay s₀ (r.events n) with
  | error x => simp [hr] at h
  | ok t =>
    cases hp : peers.save (r.outcome n t).projection with
    | error x => simp [hr, hp] at h
    | ok _ =>
      obtain rfl : t = s := by simpa [hr, hp] using h
      exact ⟨rfl, hp⟩

section
variable {r : Request σ} (peers : Peers σ) {w : World σ} (calm : w.store.failing = [])
include calm

theorem step_waiting :
    (r.stands r.fresh .waiting).step peers w = (w, r.stands r.fresh (.opened {})) := by
  simp [stands, Handling.step, Store.begin, Store.check_of_calm calm]

theorem step_opened :
    (r.stands r.fresh (.opened {})).step peers w =
      (w, r.stands r.fresh
        (.sawSnapshot {} (.ok (w.store.ledger.latestSnapshot r.aggregateId none)))) := by
  simp [stands, Handling.step, Store.readSnapshot, Store.check_of_calm calm, fresh,
    Aggregate.loaded]

theorem step_sawSnapshot (hl : w.store.ledger.Sound) {found : Option (SnapshotOf σ)} {k : Nat}
    {t : σ} (hk : r.fresh.resume found = .ok (.loaded r.aggregateId r.cap k t)) :
    (r.stands r.fresh (.sawSnapshot {} (.ok found))).step peers w =
      (w, r.stands (.loaded r.aggregateId r.cap k t)
        (.sawEvents {} (.ok ((w.store.ledger.stream r.aggregateId).drop k)))) := by
  have he := hl.eventsBetween r.aggregateId k
  simp only [stands, Handling.step, hk, Store.readEvents, Store.check_of_calm calm,
    Aggregate.loaded, he]

/-- A handling that is to undo what it did, while nothing fails, has but its error to show. -/
theorem conclude_error {u : UnitOfWork σ} {h : Handling σ} {x : Error} :
    ∃ ns, h.conclude w u (.error x) =
      ({ w with store := w.store.release u, notices := ns },
        { h with stage := .ended (.error x) }) := by
  refine ⟨w.notices ++ [h.notice (.error x)], ?_⟩
  simp only [Handling.conclude, Store.conclude_error, Store.undoing, Store.check_of_calm calm]
  rfl

theorem stage_outcome (free : w.store.claimed = []) {n : Nat} {s : σ}
    (hc : w.store.ledger.outdated (r.unit n s) = none) :
    w.store.stage {} r.transactionId (r.outcome n s) (r.outcome n s).snapshot =
      (.ok (), r.unit n s, { w.store with claimed := [r.aggregateId] }) := by
  have hv : w.store.ledger.version r.aggregateId = n := Ledger.outdated_writing.mp hc
  rcases w.store.stage_cases r.transactionId (r.outcome n s) with
    ⟨x, hx, -⟩ | ⟨ha, -⟩ | ⟨-, he⟩
  · simp [Store.check_of_calm calm] at hx
  · simp [Store.admits, outcome, hv, free] at ha
  · rw [he, free]
    rfl

section
variable {es : List (EventOf σ)} {n k : Nat} {s₀ t : σ}
  (hb : (Aggregate.loaded r.aggregateId r.cap k t).build es =
    (.loaded r.aggregateId r.cap n s₀, .ok ()))
include hb

theorem step_sawEvents (free : w.store.claimed = []) {s : σ}
    (hs : Model.replay s₀ (r.events n) = .ok s)
    (hc : w.store.ledger.outdated (r.unit n s) = none) :
    ∃ ns, (r.stands (.loaded r.aggregateId r.cap k t) (.sawEvents {} (.ok es))).step peers w =
      (w.claiming r.aggregateId w.saved ns,
        r.stands (r.outcome n s) (.staged (r.unit n s) (.ok ()))) := by
  have ha : (Aggregate.loaded r.aggregateId r.cap n s₀).advanceAll (r.events n) =
      (r.outcome n s, .ok ()) := by
    have hn := (Aggregate.advanceAll_numbered
      (a := .loaded r.aggregateId r.cap n s₀) (r.numbered_events n)).1 s hs
    simpa [Aggregate.loaded, outcome] using hn
  have hg := stage_outcome calm free hc
  have he : (r.stands (.loaded r.aggregateId r.cap k t) (.sawEvents {} (.ok es))).newEvents n =
      r.events n := rfl
  refine ⟨w.notices ++ [.aggregateLoaded r.aggregateId n es.length], ?_⟩
  simp only [stands] at he
  simp only [stands, Handling.step, hb, Aggregate.loaded_version, he, ha, World.say_store, hg]
  rfl

theorem step_sawEvents_refused {x : Error} (hs : Model.replay s₀ (r.events n) = .error x) :
    ∃ ns a, (r.stands (.loaded r.aggregateId r.cap k t) (.sawEvents {} (.ok es))).step peers w =
      ({ w with store := w.store.release {}, notices := ns },
        r.stands a (.ended (.error x))) := by
  obtain ⟨a, ha⟩ := (Aggregate.advanceAll_numbered
    (a := .loaded r.aggregateId r.cap n s₀) (r.numbered_events n)).2 x hs
  obtain ⟨ns, hx⟩ := conclude_error
    (w := w.say (.aggregateLoaded r.aggregateId n es.length)) calm (u := {})
    (h := r.stands a (.sawEvents {} (.ok es))) (x := x)
  refine ⟨ns, a, ?_⟩
  have he : (r.stands (.loaded r.aggregateId r.cap k t) (.sawEvents {} (.ok es))).newEvents n =
      r.events n := rfl
  simp only [stands] at he hx
  simp only [stands, Handling.step, hb, Aggregate.loaded_version, Aggregate.loaded_id, he, ha, hx]
  rfl

end

section
variable {id : Uuid} {u : UnitOfWork σ} {a : Aggregate σ} (saved : List (Model.Projection σ))
  (ns : List Notice)

variable {peers} in
omit calm in
theorem step_staged (hp : peers.save a.projection = .ok ()) :
    (r.stands a (.staged u (.ok ()))).step peers (w.claiming id saved ns) =
      (w.claiming id (saved ++ [a.projection]) ns, r.stands a (.saved u (.ok ()))) := by
  simp [stands, Handling.step, World.save, hp, World.claiming]

variable {peers} in
omit calm in
theorem step_staged_refused {x : Error} (hp : peers.save a.projection = .error x) :
    (r.stands a (.staged u (.ok ()))).step peers (w.claiming id saved ns) =
      (w.claiming id saved ns, r.stands a (.saved u (.error x))) := by
  simp [stands, Handling.step, World.save, hp]

theorem step_saved_refused (free : w.store.claimed = []) (hc : u.claims = [id])
    (hh : u.holdsCheckpoint = false) {x : Error} :
    ∃ ns', (r.stands a (.saved u (.error x))).step peers (w.claiming id saved ns) =
      ({ w with saved, notices := ns' }, r.stands a (.ended (.error x))) := by
  obtain ⟨ns', he⟩ := conclude_error (w := w.claiming id saved ns) calm (u := u)
    (h := r.stands a (.saved u (.error x))) (x := x)
  have hs : (w.claiming id saved ns).store.release u = w.store := Store.release_claimed free hc hh
  rw [hs] at he
  exact ⟨ns', he⟩

theorem step_saved (free : w.store.claimed = []) {n : Nat} {s : σ}
    (hc : w.store.ledger.outdated (r.unit n s) = none) :
    ∃ ns', (r.stands (r.outcome n s) (.saved (r.unit n s) (.ok ()))).step peers
        (w.claiming r.aggregateId saved ns) =
      ({ w with
          store := { w.store with ledger := w.store.ledger.absorb (r.unit n s) }
          saved
          notices := ns' },
        r.stands (r.outcome n s) (.ended (.ok (r.receipt n)))) := by
  have he : (w.claiming r.aggregateId saved ns).store.conclude (r.unit n s) (.ok (r.receipt n)) =
      (.ok (r.receipt n), { w.store with ledger := w.store.ledger.absorb (r.unit n s) }) := by
    have hs := Store.release_claimed (u := r.unit n s)
      (s := { w.store with ledger := w.store.ledger.absorb (r.unit n s) }) free rfl rfl
    have hk : (w.claiming r.aggregateId saved ns).store.check .commit = .ok () :=
      Store.check_of_calm calm _
    have ho : (w.claiming r.aggregateId saved ns).store.ledger.outdated (r.unit n s) = none := hc
    simp only [Store.conclude, Store.commit, hk, ho]
    exact congrArg (Prod.mk _) hs
  refine ⟨ns ++ [.commandHandled r.aggregateId r.transactionId
    (n + r.command.events.length) r.command.commandType], ?_⟩
  change Handling.conclude _ _ (r.unit n s) (.ok (r.receipt n)) = _
  simp only [Handling.conclude, he]
  rfl

end
end

/-! ### Nothing else at work -/

section
variable [LawfulModel σ] {r : Request σ} (peers : Peers σ) {w : World σ}
  (calm : w.store.failing = []) (free : w.store.claimed = []) (hl : w.store.ledger.Sound)
  (hf : w.store.ledger.Faithful) {n : Nat} {s₀ : σ}
  (hn : (w.store.ledger.stream r.aggregateId).length = n)
  (hs : w.store.ledger.stateAt r.aggregateId n = .ok s₀)
include calm hl hf hn hs

omit calm hf hs [LawfulModel σ] in
theorem outdated_unit (s : σ) : w.store.ledger.outdated (r.unit n s) = none := by
  refine Ledger.outdated_writing.mpr ?_
  rw [← hn]
  exact hl.version r.aggregateId

theorem complete_loads :
    ∃ (k : Nat) (t : σ) (es : List (EventOf σ)), (Aggregate.loaded r.aggregateId r.cap k t).build es =
        (.loaded r.aggregateId r.cap n s₀, .ok ()) ∧
      r.handling.complete peers w =
        (r.stands (.loaded r.aggregateId r.cap k t) (.sawEvents {} (.ok es))).complete peers w := by
  obtain ⟨k, t, ht, hk⟩ := hl.resume_latest r.aggregateId r.cap
  have hb := hl.build_rest hf r.cap ht (hn.symm ▸ hs)
  rw [hn] at hb
  refine ⟨k, t, _, hb, ?_⟩
  calc r.handling.complete peers w
    _ = (r.stands r.fresh (.opened {})).complete peers w :=
      Handling.complete_of_step (step_waiting peers calm)
    _ = _ := Handling.complete_of_step (step_opened peers calm)
    _ = _ := Handling.complete_of_step (step_sawSnapshot peers calm hl hk)

variable {peers} in
include free in
theorem complete_of_refused {x : Error} (hv : r.verdict peers n s₀ = .error x) :
    ∃ ns h, r.handling.complete peers w = ({ w with notices := ns }, h) ∧
      h.stage = .ended (.error x) := by
  obtain ⟨k, t, es, hb, he⟩ := complete_loads peers calm hl hf hn hs
  cases hr : Model.replay s₀ (r.events n) with
  | error y =>
    obtain rfl : y = x := by simpa [verdict, hr] using hv
    obtain ⟨ns, a, h₁⟩ := step_sawEvents_refused peers calm hb hr
    refine ⟨ns, r.stands a (.ended (.error y)), ?_, rfl⟩
    rw [he, Handling.complete_of_step h₁, Handling.complete_of_rank_eq_zero rfl]
    simp [Store.release]
  | ok s =>
    cases hp : peers.save (r.outcome n s).projection with
    | ok _ => simp [verdict, hr, hp] at hv
    | error y =>
      obtain rfl : y = x := by simpa [verdict, hr, hp] using hv
      have hc := outdated_unit hl hn s
      obtain ⟨ns, h₁⟩ := step_sawEvents peers calm hb free hr hc
      obtain ⟨ns', h₂⟩ := step_saved_refused (r := r) (u := r.unit n s) (a := r.outcome n s)
        peers calm w.saved ns free rfl rfl (x := y)
      refine ⟨ns', r.stands (r.outcome n s) (.ended (.error y)), ?_, rfl⟩
      calc r.handling.complete peers w
        _ = _ := he
        _ = _ := Handling.complete_of_step h₁
        _ = _ := Handling.complete_of_step (step_staged_refused w.saved ns hp)
        _ = _ := Handling.complete_of_step h₂
        _ = _ := Handling.complete_of_rank_eq_zero rfl peers _

variable {peers} in
include free in
theorem complete_of_settled {s : σ} (hv : r.verdict peers n s₀ = .ok s) :
    ∃ ns h, r.handling.complete peers w =
        ({ w with
            store := { w.store with ledger := w.store.ledger.absorb (r.unit n s) }
            saved := w.saved ++ [(r.outcome n s).projection]
            notices := ns }, h) ∧
      h.stage = .ended (.ok (r.receipt n)) := by
  obtain ⟨k, t, es, hb, he⟩ := complete_loads peers calm hl hf hn hs
  obtain ⟨hr, hp⟩ := of_verdict_eq_ok hv
  have hc := outdated_unit hl hn s
  obtain ⟨ns, h₁⟩ := step_sawEvents peers calm hb free hr hc
  obtain ⟨ns', h₂⟩ := step_saved (r := r) (n := n) (s := s) peers calm
    (w.saved ++ [(r.outcome n s).projection]) ns free hc
  refine ⟨ns', r.stands (r.outcome n s) (.ended (.ok (r.receipt n))), ?_, rfl⟩
  calc r.handling.complete peers w
    _ = _ := he
    _ = _ := Handling.complete_of_step h₁
    _ = _ := Handling.complete_of_step (step_staged w.saved ns hp)
    _ = _ := Handling.complete_of_step h₂
    _ = _ := Handling.complete_of_rank_eq_zero rfl peers _

end

/-- What the request leads to from the end of its stream is what it comes to when nothing else is
at work. -/
theorem complete_eq [LawfulModel σ] {r : Request σ} {w : World σ} (hl : w.store.ledger.Sound)
    (hf : w.store.ledger.Faithful) (calm : w.store.failing = []) (free : w.store.claimed = [])
    {n : Nat} {s : σ} (hw : r.Writes w.store.ledger n s)
    (hc : w.store.ledger.outdated (r.unit n s) = none) :
    (r.handling.complete .accepting w).1.store =
        { w.store with ledger := w.store.ledger.absorb (r.unit n s) } ∧
      (r.handling.complete .accepting w).2.stage = .ended (.ok (r.receipt n)) := by
  obtain ⟨s₀, hs₀, hr⟩ := hw
  have hv : r.verdict .accepting n s₀ = .ok s := by simp [verdict, hr, Peers.accepting]
  obtain ⟨ns, h, he, hs⟩ :=
    complete_of_settled calm free hl hf (hl.length_stream hc) (hs₀.stateAt hf) hv
  rw [he]
  exact ⟨rfl, hs⟩

/-- Requests handled one after another, each from its start to its end. -/
def handleAll (peers : Peers σ) : World σ → List (Request σ) → World σ × List (Option Receipt)
  | w, [] => (w, [])
  | w, r :: rs =>
    let one := r.handling.complete peers w
    let rest := handleAll peers one.1 rs
    (rest.1, (Agent.task (.handling one.2)).receipt? :: rest.2)

theorem handleAll_append (peers : Peers σ) (w : World σ) (rs ts : List (Request σ)) :
    handleAll peers w (rs ++ ts) =
      ((handleAll peers (handleAll peers w rs).1 ts).1,
        (handleAll peers w rs).2 ++ (handleAll peers (handleAll peers w rs).1 ts).2) := by
  induction rs generalizing w with
  | nil => rfl
  | cons r rs ih => simp [handleAll, ih]

end Request

namespace Pool
variable {ι : Type} [DecidableEq ι]

/-- The agent whose call goes well with an action, if one does. -/
def settles (p : Pool ι σ) : Action ι σ → List ι
  | .step i peers told =>
    if (p.agents i).receipt?.isNone && ((p.act (.step i peers told)).agents i).receipt?.isSome
    then [i] else []
  | _ => []

theorem settles_eq_nil {p : Pool ι σ} {x : Action ι σ}
    (h : ∀ j, ((p.act x).agents j).receipt? = (p.agents j).receipt?) : p.settles x = [] := by
  cases x with
  | step i peers told =>
    rw [settles, h i]
    cases (p.agents i).receipt? <;> rfl
  | cancel i => rfl
  | notify i place => rfl
  | fail operations => rfl

section
variable {requests : ι → Request σ} {p : Pool ι σ}

/-- An action commits one request and writes its receipt, or it changes neither the ledger nor
which requests have a receipt. -/
theorem Sound.act_request (h : p.Sound fun i => .request (requests i)) (x : Action ι σ) :
    ((p.act x).ledger = p.ledger ∧
      ∀ j, ((p.act x).agents j).receipt? = (p.agents j).receipt?) ∨
    ∃ i n s, (requests i).Writes p.ledger n s ∧ p.ledger.outdated ((requests i).unit n s) = none ∧
      (p.act x).ledger = p.ledger.absorb ((requests i).unit n s) ∧ p.settles x = [i] ∧
      (p.agents i).receipt? = none ∧
      ∀ j, ((p.act x).agents j).receipt? =
        if j = i then some ((requests i).receipt n) else (p.agents j).receipt? := by
  cases x with
  | step i peers told =>
    rcases h.step_request (i := i) rfl peers told with
      ⟨hl, hr⟩ | ⟨n, s, hw, hc, hl, hn, hr⟩
    · exact .inl ⟨hl, hr⟩
    · refine .inr ⟨i, n, s, hw, hc, hl, ?_, hn, hr⟩
      simp [settles, hn, hr]
  | cancel i => exact .inl (h.cancel_request (i := i) rfl)
  | notify i place => exact .inl ⟨p.ledger_notify i place, p.receipt?_notify i place⟩
  | fail operations => exact .inl ⟨rfl, fun j => rfl⟩

structure Settled (p : Pool ι σ) (order : List ι) : Prop where
  nodup : order.Nodup
  mem : ∀ i, i ∈ order ↔ (p.agents i).receipt?.isSome

omit [DecidableEq ι] in
theorem settled_start (w : World σ) (requests : ι → Request σ) :
    (start w fun i => .request (requests i)).Settled [] :=
  ⟨.nil, fun i => by simp [start, Call.agent, Agent.receipt?, Handling.receipt?, Request.handling]⟩

theorem Settled.act {order : List ι} (hs : p.Settled order)
    (h : p.Sound fun i => .request (requests i)) (x : Action ι σ) :
    (p.act x).Settled (order ++ p.settles x) := by
  rcases h.act_request x with ⟨-, hr⟩ | ⟨i, n, s, -, -, -, hx, hn, hr⟩
  · rw [settles_eq_nil hr, List.append_nil]
    exact ⟨hs.nodup, fun i => by rw [hr]; exact hs.mem i⟩
  · have hi : i ∉ order := fun hm => by simpa [hn] using (hs.mem i).mp hm
    rw [hx]
    refine ⟨List.nodup_append.mpr ⟨hs.nodup, List.pairwise_singleton _ i, by
      simpa using fun j hj => ne_of_mem_of_not_mem hj hi⟩, fun j => ?_⟩
    rw [hr, List.mem_append, List.mem_singleton, hs.mem]
    by_cases hj : j = i
    · simp [hj]
    · simp [hj]

/-- What the serial handling of those that went well has in common with a run. -/
structure Serialises (w : World σ) (requests : ι → Request σ) (p : Pool ι σ) (order : List ι) :
    Prop where
  store : (Request.handleAll .accepting w (order.map requests)).1.store =
    { w.store with ledger := p.ledger }
  receipts : (Request.handleAll .accepting w (order.map requests)).2 =
    order.map fun i => (p.agents i).receipt?
  nodup : order.Nodup
  mem : ∀ i, i ∈ order ↔ (p.agents i).receipt?.isSome

omit [DecidableEq ι] in
/-- A request that goes well in the run goes well after the others that have. -/
theorem Serialises.complete_eq [LawfulModel σ] {w : World σ} {order : List ι}
    (hs : Serialises w requests p order) (h : p.Sound fun i => .request (requests i))
    (hf : p.ledger.Faithful) (calm : w.store.failing = []) (free : w.store.claimed = []) {i : ι}
    {n : Nat} {s : σ} (hw : (requests i).Writes p.ledger n s)
    (hc : p.ledger.outdated ((requests i).unit n s) = none) :
    ((requests i).handling.complete .accepting
        (Request.handleAll .accepting w (order.map requests)).1).1.store =
          { w.store with ledger := p.ledger.absorb ((requests i).unit n s) } ∧
      ((requests i).handling.complete .accepting
        (Request.handleAll .accepting w (order.map requests)).1).2.stage =
          .ended (.ok ((requests i).receipt n)) := by
  have hd := Request.complete_eq (r := requests i)
    (w := (Request.handleAll .accepting w (order.map requests)).1)
    (by rw [hs.store]; exact h.ledger) (by rw [hs.store]; exact hf) (by rw [hs.store]; exact calm)
    (by rw [hs.store]; exact free) (by rw [hs.store]; exact hw) (by rw [hs.store]; exact hc)
  rwa [hs.store] at hd

theorem Serialises.act [LawfulModel σ] {w : World σ} {order : List ι}
    (hs : Serialises w requests p order) (h : p.Sound fun i => .request (requests i))
    (hf : p.ledger.Faithful) (calm : w.store.failing = []) (free : w.store.claimed = [])
    (x : Action ι σ) : Serialises w requests (p.act x) (order ++ p.settles x) := by
  obtain ⟨nodup, mem⟩ := (Settled.mk hs.nodup hs.mem).act h x
  refine ⟨?_, ?_, nodup, mem⟩
  · rcases h.act_request x with ⟨hl, hr⟩ | ⟨i, n, s, hw, hc, hl, hx, -, -⟩
    · rw [settles_eq_nil hr, List.append_nil, hl]
      exact hs.store
    · rw [hx]
      simp only [List.map_append, List.map_cons, List.map_nil, Request.handleAll_append,
        Request.handleAll]
      rw [(hs.complete_eq h hf calm free hw hc).1, hl]
  · rcases h.act_request x with ⟨-, hr⟩ | ⟨i, n, s, hw, hc, -, hx, hn, hr⟩
    · rw [settles_eq_nil hr, List.append_nil]
      simpa only [hr] using hs.receipts
    · have hi : i ∉ order := fun hm => by simpa [hn] using (hs.mem i).mp hm
      have hk : order.map (fun j => ((p.act x).agents j).receipt?) =
          order.map fun j => (p.agents j).receipt? := by
        refine List.map_congr_left fun j hj => ?_
        rw [hr, if_neg (ne_of_mem_of_not_mem hj hi)]
      have hy : (Agent.task (.handling ((requests i).handling.complete .accepting
          (Request.handleAll .accepting w (order.map requests)).1).2)).receipt? =
          ((p.act x).agents i).receipt? := by
        rw [hr, if_pos rfl, Agent.receipt?, Handling.receipt?,
          (hs.complete_eq h hf calm free hw hc).2]
      rw [hx]
      simp only [List.map_append, List.map_cons, List.map_nil, Request.handleAll_append,
        Request.handleAll, hs.receipts, hk, hy]

theorem Serialises.run [LawfulModel σ] {w : World σ}
    (h : (start w fun i => .request (requests i)).Sound fun i => .request (requests i))
    (hf : w.store.ledger.Faithful) (calm : w.store.failing = []) (free : w.store.claimed = [])
    (acts : List (Action ι σ)) :
    Serialises w requests ((start w fun i => .request (requests i)).run acts)
      (record settles (start w fun i => .request (requests i)) acts) := by
  induction acts using List.reverseRecOn with
  | nil => exact ⟨rfl, rfl, (settled_start w requests).nodup, (settled_start w requests).mem⟩
  | append_singleton acts x ih =>
    rw [run_append, record_concat]
    exact ih.act (h.run acts).2 (h.faithful_run hf acts) calm free x

end

/-- The world that earlier requests leave behind, with nothing made to fail from then on. -/
def after {κ : Type} [DecidableEq κ] (earlier : κ → Request σ) (before : List (Action κ σ)) :
    World σ := ((start {} fun i => .request (earlier i)).run (before ++ [.fail []])).world

/-- However requests are handled side by side, on a store that earlier ones have left behind, what
is durable in the end and every receipt are as if those that went well had been handled one after
another, in the order of their commits. -/
theorem run_eq_handleAll [LawfulModel σ] {κ : Type} [DecidableEq κ] (earlier : κ → Request σ)
    (before : List (Action κ σ)) (requests : ι → Request σ) (acts : List (Action ι σ))
    (rest : ∀ i, (((start {} fun i => .request (earlier i)).run before).agents i).unit? = none) :
    let p := start (after earlier before) fun i => .request (requests i)
    let order := record settles p acts
    let serial := Request.handleAll .accepting (after earlier before) (order.map requests)
    serial.1.store.ledger = (p.run acts).ledger ∧
      serial.2 = order.map (fun i => ((p.run acts).agents i).receipt?) ∧
      order.Nodup ∧ ∀ i, i ∈ order ↔ ((p.run acts).agents i).receipt?.isSome := by
  intro p order serial
  have hl : (after earlier before).store.ledger.Sound := sound_run _ _
  have hf : (after earlier before).store.ledger.Faithful := faithful_run _ _
  have calm : (after earlier before).store.failing = [] := by
    simp only [after, run_append, run_cons, run_nil, act]
  have free : (after earlier before).store.claimed = [] := by
    have he := (claimed_run (fun i => .request (earlier i)) before).eq_nil rest
    simpa only [after, run_append, run_cons, run_nil, act] using he
  have hs : Serialises (after earlier before) requests (p.run acts) order :=
    Serialises.run (sound_start _ hl) hf calm free acts
  have hd := congrArg Store.ledger hs.store
  exact ⟨hd, hs.receipts, hs.nodup, hs.mem⟩

def signIns : Pool Bool User :=
  start
    (after (fun _ : Unit => .ofUser 1 1 (User.signUp "a@example.com")) (List.replicate 6 (.go ())))
    fun i => .request (.ofUser 1 (2 + i.toNat) (User.signIn "phone"))

def turns (n : Nat) : List (Action Bool User) := (List.replicate n [.go false, .go true]).flatten

/-- Of two sign-ins in turns, the one that commits goes on as if it were alone. -/
theorem run_eq_handleAll_signIns :
    (∀ i, (signedUp.agents i).unit? = none) ∧ record settles signIns (turns 6) = [false] ∧
    (Request.handleAll .accepting signIns.world
        [.ofUser 1 2 (User.signIn "phone")]).1.store.ledger =
      (signIns.run (turns 6)).ledger := by
  have rest : ∀ i, (signedUp.agents i).unit? = none := by
    rintro ⟨⟩
    decide
  have ho : record settles signIns (turns 6) = [false] := by decide
  obtain ⟨hs, -⟩ := run_eq_handleAll (fun _ : Unit => .ofUser 1 1 (User.signUp "a@example.com"))
    (List.replicate 6 (.go ())) (fun i : Bool => .ofUser 1 (2 + i.toNat) (User.signIn "phone"))
    (turns 6) rest
  rw [← signIns, ho] at hs
  exact ⟨rest, ho, hs⟩

end Pool
end Outbox

import Outbox.Proofs.Serial
import Outbox.Proofs.Turn

/-! Every stored snapshot is the replay of its stream up to its version, and no stored event is ever
refused. So loading an aggregate goes wrong only where the store cannot be read, and it leads to the
state of the full replay, however much is committed between the snapshot and the events after it. -/
namespace Outbox
variable {σ : Type} [Model σ]

theorem Model.replay_prefix {s t : σ} {es fs : List (EventOf σ)}
    (h : Model.replay s (es ++ fs) = .ok t) : ∃ u, Model.replay s es = .ok u := by
  rw [Model.replay_append] at h
  cases hu : Model.replay s es with
  | error x => simp [hu] at h
  | ok u => exact ⟨u, rfl⟩

theorem Store.readSnapshot_eq_error {s : Store σ} {id : Uuid} {before : Option Int} {x : Error}
    (h : s.readSnapshot id before = .error x) : x = injectedFailure .readSnapshot := by
  by_cases hf : Operation.readSnapshot ∈ s.failing <;> simp_all [readSnapshot, check]

theorem Store.readEvents_eq_error {s : Store σ} {id : Uuid} {first : Int} {last : Option Int}
    {x : Error} (h : s.readEvents id first last = .error x) : x = injectedFailure .readEvents := by
  by_cases hf : Operation.readEvents ∈ s.failing <;> simp_all [readEvents, check]

namespace Ledger

/-- No stored event is refused, and a snapshot is newer than those of its aggregate before it. -/
structure Replayable (l : Ledger σ) : Prop where
  replays : ∀ id, ∃ s, l.stateAt id (l.stream id).length = .ok s
  rising : l.snapshots.Pairwise fun x y => x.aggregateId = y.aggregateId → x.version < y.version

theorem Replayable.empty : ({} : Ledger σ).Replayable where
  replays _ := ⟨Model.initial, rfl⟩
  rising := .nil

theorem Replayable.stateAt {l : Ledger σ} (h : l.Replayable) (id : Uuid) (n : Nat) :
    ∃ s, l.stateAt id n = .ok s := by
  obtain ⟨s, hs⟩ := h.replays id
  rw [Ledger.stateAt, List.take_length, ← List.take_append_drop n (l.stream id)] at hs
  exact Model.replay_prefix hs

theorem Dense.replay_upTo {l : Ledger σ} (h : l.Dense) (id : Uuid) (n : Nat) :
    Model.replay Model.initial (l.eventsBetween id 1 (some n)) = l.stateAt id n := by
  have he := h.eventsBetween_upTo id 0 n
  rw [List.drop_zero, Int.natCast_zero, Int.zero_add] at he
  rw [he, Ledger.stateAt]

section
variable [LawfulModel σ] {l : Ledger σ}

theorem Replayable.absorb_unit (h : l.Replayable) (hl : l.Sound) (hf : l.Faithful) {r : Request σ}
    {n : Nat} {s : σ} (hw : r.Writes l n s) (hc : l.outdated (r.unit n s) = none) :
    (l.absorb (r.unit n s)).Replayable where
  replays id := by
    by_cases hid : id = r.aggregateId
    · subst hid
      have hs := (hl.canLoad_absorb hw hc).stateAt (hf.absorb_unit hl hw hc)
      have hn : ((l.absorb (r.unit n s)).stream r.aggregateId).length =
          n + r.command.events.length := by
        simp [stream_absorb_unit, hl.length_stream hc]
      exact ⟨s, by rw [hn, hs]⟩
    · have hs : (l.absorb (r.unit n s)).stream id = l.stream id := by
        simp [stream_absorb_unit, hid]
      simpa only [Ledger.stateAt, hs] using h.replays id
  rising := by
    refine List.pairwise_append.mpr ⟨h.rising, ?_, fun x hx y hy hid => ?_⟩
    · unfold Request.unit UnitOfWork.writing
      split <;> simp
    · obtain ⟨hd, rfl⟩ := Request.mem_snapshots_unit.mp hy
      obtain ⟨k, -, hv, -, hk, -, -⟩ := hl.snapshot x hx
      have hn := hl.length_stream hc
      have hlt : (n : Int) < n + r.command.events.length := Aggregate.lt_of_snapshotDue hd
      rw [hid, hn] at hk
      show x.version < n + r.command.events.length
      omega

theorem Step.replayable {m : Ledger σ} (h : l.Step m) (hl : l.Sound) (hf : l.Faithful)
    (hr : l.Replayable) : m.Replayable := by
  cases h with
  | still => exact hr
  | handled r n s writes current => exact hr.absorb_unit hl hf writes current
  | relayed u reads =>
    rw [absorb_readOnly l reads]
    exact ⟨hr.replays, hr.rising⟩

theorem Replayable.build_rest (h : l.Replayable) (hl : l.Sound) (hf : l.Faithful) {id : Uuid}
    (cap : Int) {k : Nat} {t : σ} (ht : l.CanLoad id k t) :
    ∃ s, Model.replay Model.initial (l.eventsBetween id 1 (some (l.version id))) = .ok s ∧
      (Aggregate.loaded id cap k t).build (l.eventsBetween id (k + 1) none) =
        (.loaded id cap (l.version id) s, .ok ()) := by
  obtain ⟨s, hs⟩ := h.replays id
  refine ⟨s, ?_, ?_⟩
  · rw [hl.version, hl.replay_upTo, hs]
  · rw [hl.eventsBetween, hl.version, hl.build_rest hf cap ht hs]

end
end Ledger

namespace Pool
variable {ι : Type} [DecidableEq ι]

theorem Sound.replayable_run [LawfulModel σ] {calls : ι → Call σ} {p : Pool ι σ} (h : p.Sound calls)
    (hf : p.ledger.Faithful) (hr : p.ledger.Replayable) (acts : List (Action ι σ)) :
    (p.run acts).ledger.Replayable := by
  induction acts generalizing p with
  | nil => exact hr
  | cons x acts ih =>
    obtain ⟨hs, hx⟩ := h.act x
    exact ih hx (hs.faithful h.ledger hf) (hs.replayable h.ledger hf hr)

theorem replayable_run [LawfulModel σ] (calls : ι → Call σ) (acts : List (Action ι σ)) :
    ((start {} calls).run acts).ledger.Replayable :=
  (sound_start calls Ledger.Sound.empty).replayable_run Ledger.Faithful.empty
    Ledger.Replayable.empty acts

/-- What loading has come to by the stage that the handling of a request has reached: an answer is
the failure of the read, or it is taken over. The state that events lead to is the one after all
that were durable when the handling took its last step, and so read them. -/
def Loads (p₀ : Pool ι σ) (acts : List (Action ι σ)) (i : ι) (r : Request σ) (a : Aggregate σ) :
    Handling.Stage σ → Prop
  | .sawSnapshot _ (.error x) => x = injectedFailure .readSnapshot
  | .sawSnapshot _ (.ok found) => ∃ b, a.resume found = .ok b
  | .sawEvents _ (.error x) => x = injectedFailure .readEvents
  | .sawEvents _ (.ok es) =>
    ∃ before peers told after s, acts = before ++ .step i peers told :: after ∧
      (∀ y ∈ after, y.isBy i = false) ∧
      let l := (p₀.run before).ledger
      Model.replay Model.initial
          (l.eventsBetween r.aggregateId 1 (some (l.version r.aggregateId))) = .ok s ∧
        a.build es = (.loaded r.aggregateId r.cap (l.version r.aggregateId) s, .ok ())
  | _ => True

section
variable {p₀ : Pool ι σ} {acts : List (Action ι σ)} {i : ι} {r : Request σ}

theorem loads_of_rank_eq_zero {a : Aggregate σ} {stage : Handling.Stage σ}
    (ended : stage.rank = 0) : Loads p₀ acts i r a stage := by
  cases stage <;> simp_all [Handling.Stage.rank, Loads]

theorem Loads.other {a : Aggregate σ} {stage : Handling.Stage σ} (h : Loads p₀ acts i r a stage)
    {x : Action ι σ} (hx : x.isBy i = false) : Loads p₀ (acts ++ [x]) i r a stage := by
  cases stage with
  | sawSnapshot u found => cases found <;> exact h
  | sawEvents u found =>
    cases found with
    | error x => exact h
    | ok es =>
      obtain ⟨before, peers, told, after, s, rfl, hn, hs⟩ := h
      refine ⟨before, peers, told, after ++ [x], s, by simp, fun y hy => ?_, hs⟩
      rcases List.mem_append.mp hy with hy | hy
      · exact hn y hy
      · rwa [List.mem_singleton.mp hy]
  | _ => trivial

theorem loads_step [LawfulModel σ] {h : Handling σ} (hl : (p₀.run acts).ledger.Sound)
    (hf : (p₀.run acts).ledger.Faithful) (hr : (p₀.run acts).ledger.Replayable)
    (hk : r.Knows (p₀.run acts).ledger h) (peers : Peers σ) (told : Bool) :
    Loads p₀ (acts ++ [.step i peers told]) i r (h.step peers (p₀.run acts).world).2.aggregate
      (h.step peers (p₀.run acts).world).2.stage := by
  have hh := hk.holds
  have hm := h.step_move peers (p₀.run acts).world
  generalize h.step peers (p₀.run acts).world = next at hm
  obtain ⟨w', h'⟩ := next
  cases hm with
  | idle ended => exact loads_of_rank_eq_zero ended
  | refused | commits | fails => exact loads_of_rank_eq_zero rfl
  | opens | stages | saves => trivial
  | looks u here =>
    rw [here] at hh
    obtain ⟨-, ha⟩ := hh
    simp only
    cases hs : (p₀.run acts).world.store.readSnapshot h.aggregate.id none with
    | error x => exact Store.readSnapshot_eq_error hs
    | ok found =>
      obtain ⟨n, s, -, hb⟩ := hl.resume_latest r.aggregateId r.cap
      have hx := Store.readSnapshot_eq_ok hs
      rw [ha] at hx
      refine ⟨.loaded r.aggregateId r.cap n s, ?_⟩
      rw [ha, ← hx]
      exact hb
  | resumes u found a here loaded =>
    rw [here] at hh
    obtain ⟨-, ha, hx⟩ := hh
    rw [ha] at loaded
    obtain ⟨n, t, ht, rfl⟩ := hl.resume (fun x hf => hx x (by rw [hf])) loaded
    simp only [Aggregate.loaded_id, Aggregate.loaded_version]
    cases he : (p₀.run acts).world.store.readEvents r.aggregateId (n + 1) none with
    | error x => exact Store.readEvents_eq_error he
    | ok es =>
      obtain ⟨s, hs, hb⟩ := hr.build_rest hl hf r.cap ht
      refine ⟨acts, peers, told, [], s, rfl, by simp, hs, ?_⟩
      rw [← Store.readEvents_eq_ok he]
      exact hb

end

theorem loads_run [LawfulModel σ] {calls : ι → Call σ} {i : ι} {r : Request σ}
    (called : calls i = .request r) (acts : List (Action ι σ)) :
    ∃ h, ((start {} calls).run acts).agents i = .task (.handling h) ∧
      Loads (start {} calls) acts i r h.aggregate h.stage := by
  have hi : (start {} calls).agents i = .task (.handling r.handling) := by
    simp only [start, called, Call.agent]
  exact handling_run (P := fun acts h => Loads (start {} calls) acts i r h.aggregate h.stage) hi
    trivial (fun _ _ _ _ hd hx => hd.other hx)
    (fun acts _ peers told here _ => loads_step (sound_run calls acts) (faithful_run calls acts)
      (replayable_run calls acts) (knows_run called here) peers told)
    (fun _ h _ _ => loads_of_rank_eq_zero (h.rank_cancel _)) acts

/-- Whatever goes on side by side, fails or is given up: every stored snapshot has a version that
its aggregate has reached and keeps the state after the events up to there, no two of an aggregate
have the same version, and loading an aggregate to handle a request goes wrong only where a read is
made to fail, and leads to the state after all the events that are durable when they are read. -/
theorem snapshots_of_run [LawfulModel σ] (calls : ι → Call σ) (acts : List (Action ι σ)) :
    let p := (start {} calls).run acts
    (∀ x ∈ p.ledger.snapshots, 1 ≤ x.version ∧ x.version ≤ p.ledger.version x.aggregateId ∧
      ∃ s, Model.replay Model.initial
          (p.ledger.eventsBetween x.aggregateId 1 (some x.version)) = .ok s ∧
        x.payload = Model.snapshot s) ∧
    (p.ledger.snapshots.Pairwise fun x y =>
      x.aggregateId = y.aggregateId → x.version < y.version) ∧
    ∀ i r, calls i = .request r → ∃ h, p.agents i = .task (.handling h) ∧
      Loads (start {} calls) acts i r h.aggregate h.stage := by
  intro p
  have hl : p.ledger.Sound := sound_run calls acts
  have hf : p.ledger.Faithful := faithful_run calls acts
  refine ⟨fun x hx => ?_, (replayable_run calls acts).rising, fun i r hr => loads_run hr acts⟩
  obtain ⟨n, s, hv, h1, hn, hs, hp⟩ := hl.snapshot x hx
  refine ⟨by omega, by rw [hv, hl.version]; omega, s, ?_, hp⟩
  rw [hv, hl.replay_upTo, hs.stateAt hf]

/-- A user is about to sign up, with a snapshot of every second version, and to sign in twice. -/
def signUpAndIns : Option Bool → Request User
  | none => { Request.ofUser 1 0 (User.signUp "a@example.com") with cap := 2 }
  | some false => { Request.ofUser 1 1 (User.signIn "phone") with cap := 2 }
  | some true => { Request.ofUser 1 2 (User.signIn "laptop") with cap := 2 }

/-- One sign-in is handled after another has read the snapshot and before it reads the events. -/
def overtaken : List (Action (Option Bool) User) :=
  List.replicate 6 (.go none) ++ List.replicate 2 (.go (some false)) ++
    List.replicate 6 (.go (some true)) ++ [.go (some false)]

theorem snapshots_of_run_overtaken :
    let p := (start {} fun i => .request (signUpAndIns i)).run overtaken
    p.ledger.snapshots.map Snapshot.version = [2] ∧ p.ledger.version (.ofNat 1) = 3 ∧
      ∃ h, p.agents (some false) = .task (.handling h) ∧ h.stage.rank = 3 ∧
        h.stage.justRead = true ∧
        Loads (start {} fun i => .request (signUpAndIns i)) overtaken (some false)
          (signUpAndIns (some false)) h.aggregate h.stage := by
  intro p
  obtain ⟨-, -, hd⟩ := snapshots_of_run (fun i => .request (signUpAndIns i)) overtaken
  obtain ⟨h, here, hl⟩ := hd (some false) _ rfl
  have reads : (match p.agents (some false) with
      | .task t => t.rank == 3 && t.justRead
      | .consumer _ => false) = true := by decide +kernel
  rw [here] at reads
  simp only [Task.rank, Task.justRead, Bool.and_eq_true, beq_iff_eq] at reads
  exact ⟨by decide +kernel, by decide +kernel, h, here, reads.1, reads.2, hl⟩

end Pool
end Outbox

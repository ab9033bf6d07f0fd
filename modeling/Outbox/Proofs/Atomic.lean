import Outbox.Proofs.Claims
import Outbox.Proofs.Fault
import Outbox.Proofs.Reach
import Outbox.Proofs.Turn

/-! A command is handled entirely or not at all: what a request makes durable it makes durable in
one step, and nothing that ends otherwise has made anything durable. -/
namespace Outbox
variable {σ : Type} [Model σ]

theorem Command.eventsAfter_eq_map {P : Type} (a t : Uuid) (c : String) (w : Timestamp) (b : Int)
    (es : List (WantedEvent P)) :
    eventsAfter a t c w b es = es.zipIdx.map fun e =>
      ⟨a, t, c, b + (e.2 + 1 : Nat), e.1.eventType, e.1.payload, w⟩ := by
  induction es generalizing b with
  | nil => rfl
  | cons e es ih =>
    rw [eventsAfter, ih, List.zipIdx_cons', List.map_cons, List.map_map]
    simp [Function.comp_def, Prod.map]
    intros
    omega

/-- What a ledger and its next one have to do with each other if a request is committed in between
and answered with a receipt. -/
structure Request.Committed (r : Request σ) (l m : Ledger σ) (o : Receipt) : Prop where
  log : m.log = l.log ++ [⟨r.transactionId, r.aggregateId, l.log.length + 1⟩]
  events : m.events = l.events ++ r.command.events.zipIdx.map fun e =>
    { aggregateId := r.aggregateId
      transactionId := r.transactionId
      commandType := r.command.commandType
      version := l.version r.aggregateId + (e.2 + 1 : Nat)
      eventType := e.1.eventType
      payload := e.1.payload
      createdAt := r.createdAt }
  version : ∀ id, m.versions.get? id =
    if id = r.aggregateId then some (l.version r.aggregateId + r.command.events.length)
    else l.versions.get? id
  /-- The state that the events lead to is kept if a multiple of the cap is among their versions. -/
  snapshot : (0 < r.cap ∧ ∃ k : Int, l.version r.aggregateId < k * r.cap ∧
      k * r.cap ≤ l.version r.aggregateId + r.command.events.length) →
    ∃ n s, l.version r.aggregateId = (n : Nat) ∧ r.Writes l n s ∧
      m.snapshots = l.snapshots ++ [⟨r.aggregateId,
        l.version r.aggregateId + r.command.events.length, Model.snapshot s⟩]
  noSnapshot : ¬(0 < r.cap ∧ ∃ k : Int, l.version r.aggregateId < k * r.cap ∧
      k * r.cap ≤ l.version r.aggregateId + r.command.events.length) →
    m.snapshots = l.snapshots
  checkpoint : m.checkpoint = l.checkpoint
  receipt : o =
    ⟨r.aggregateId, r.transactionId, l.version r.aggregateId + r.command.events.length⟩

theorem Ledger.Sound.committed {l : Ledger σ} (h : l.Sound) {r : Request σ} {n : Nat} {s : σ}
    (hw : r.Writes l n s) (hf : l.outdated (r.unit n s) = none) :
    r.Committed l (l.absorb (r.unit n s)) (r.receipt n) := by
  have hv : l.version r.aggregateId = n := outdated_writing.mp hf
  have hd := Aggregate.snapshotDue_iff (a := r.outcome n s) (Int.natCast_nonneg n)
    (Int.le_add_of_nonneg_right (Int.natCast_nonneg _))
  refine ⟨?_, ?_, fun id => ?_, fun hk => ?_, fun hk => ?_, rfl, ?_⟩
  · rw [log_absorb_unit, h.nextSequence]
  · rw [hv, ← Command.eventsAfter_eq_map]
    rfl
  · rw [hv]
    exact Versions.get?_set ..
  · rw [hv] at hk ⊢
    refine ⟨n, s, rfl, hw, ?_⟩
    have he : (r.unit n s).snapshots = [⟨r.aggregateId, n + r.command.events.length,
        Model.snapshot s⟩] := if_pos (hd.mpr hk)
    exact congrArg (l.snapshots ++ ·) he
  · rw [hv] at hk
    have he : (r.unit n s).snapshots = [] := if_neg fun hs => hk (hd.mp hs)
    exact (congrArg (l.snapshots ++ ·) he).trans (List.append_nil _)
  · rw [hv]
    rfl

namespace Pool
variable {ι : Type} [DecidableEq ι]

/-- What an agent does itself, each action as the pools before and after it. -/
def deeds (i : ι) (p : Pool ι σ) (x : Action ι σ) : List (Pool ι σ × Pool ι σ) :=
  if x.isBy i then [(p, p.act x)] else []

def faults (i : ι) (p : Pool ι σ) : Action ι σ → List Error
  | .step j peers _ =>
    match p.agents i with
    | .task (.handling h) => if j = i then (h.fault peers p.world).toList else []
    | _ => []
  | _ => []

theorem deeds_eq_nil {p : Pool ι σ} {i : ι} {x : Action ι σ} (hx : x.isBy i = false) :
    p.deeds i x = [] := by
  simp [deeds, hx]

theorem deeds_eq_singleton {p : Pool ι σ} {i : ι} {x : Action ι σ} (hx : x.isBy i = true) :
    p.deeds i x = [(p, p.act x)] := by
  simp [deeds, hx]

omit [DecidableEq ι] in
theorem exists_deed_concat {P : Pool ι σ × Pool ι σ → Prop} {ds : List (Pool ι σ × Pool ι σ)}
    {d : Pool ι σ × Pool ι σ} (hd : d.2.ledger = d.1.ledger)
    (h : ∃ earlier e later, ds = earlier ++ e :: later ∧ P e ∧
      ∀ e ∈ earlier ++ later, e.2.ledger = e.1.ledger) :
    ∃ earlier e later, ds ++ [d] = earlier ++ e :: later ∧ P e ∧
      ∀ e ∈ earlier ++ later, e.2.ledger = e.1.ledger := by
  obtain ⟨earlier, e, later, rfl, he, hq⟩ := h
  refine ⟨earlier, e, later ++ [d], by rw [List.append_assoc, List.cons_append], he, ?_⟩
  rw [← List.append_assoc]
  exact List.forall_mem_append.mpr ⟨hq, List.forall_mem_singleton.mpr hd⟩

theorem faults_eq_nil {p : Pool ι σ} {i : ι} {x : Action ι σ} (hx : x.isBy i = false) :
    p.faults i x = [] := by
  cases x with
  | step j peers told =>
    have hj : j ≠ i := by simpa [Action.isBy] using hx
    simp only [faults, if_neg hj]
    split <;> rfl
  | _ => rfl

theorem faults_step {p : Pool ι σ} {i : ι} {h : Handling σ} (hi : p.agents i = .task (.handling h))
    (peers : Peers σ) (told : Bool) :
    p.faults i (.step i peers told) = (h.fault peers p.world).toList := by
  simp [faults, hi]

/-- The handling of a request after a run: as long as it has not gone well, none of its actions has
made anything durable, and once it has, exactly one has, and that all; and it has failed with what
has gone wrong. -/
structure Handles (p₀ : Pool ι σ) (i : ι) (r : Request σ) (acts : List (Action ι σ))
    (h : Handling σ) : Prop where
  here : (p₀.run acts).agents i = .task (.handling h)
  untouched : h.receipt? = none → ∀ d ∈ record (deeds i) p₀ acts, d.2.ledger = d.1.ledger
  done : ∀ o, h.receipt? = some o → record (faults i) p₀ acts = [] ∧
    ∃ earlier d later, record (deeds i) p₀ acts = earlier ++ d :: later ∧
      r.Committed d.1.ledger d.2.ledger o ∧
      ∀ d ∈ earlier ++ later, d.2.ledger = d.1.ledger
  going : h.stage.rank ≠ 0 → record (faults i) p₀ acts = h.stage.refusal.toList
  failed : ∀ y, h.stage = .ended (.error y) →
    ∃ d ∈ record (deeds i) p₀ acts, ∃ g x, d.1.agents i = .task (.handling g) ∧
      g.stage.rank ≠ 0 ∧ d.2.agents i = .task (.handling h) ∧
      record (faults i) p₀ acts = [x] ∧ y = g.verdict d.1.world.store x

section
variable {p₀ : Pool ι σ} {i : ι} {r : Request σ}

theorem handles_nil (called : p₀.agents i = (Call.request r).agent) :
    Handles p₀ i r [] r.handling where
  here := called
  untouched _ _ hd := nomatch hd
  done _ ho := nomatch ho
  going _ := rfl
  failed _ hy := nomatch hy

theorem Handles.other {acts : List (Action ι σ)} {h : Handling σ} (hh : Handles p₀ i r acts h)
    {x : Action ι σ} (hx : x.isBy i = false) : Handles p₀ i r (acts ++ [x]) h := by
  have ht : record (deeds i) p₀ (acts ++ [x]) = record (deeds i) p₀ acts := by
    rw [record_concat, deeds_eq_nil hx, List.append_nil]
  have hf : record (faults i) p₀ (acts ++ [x]) = record (faults i) p₀ acts := by
    rw [record_concat, faults_eq_nil hx, List.append_nil]
  refine ⟨?_, ht ▸ hh.untouched, ht ▸ hf ▸ hh.done, hf ▸ hh.going, ht ▸ hf ▸ hh.failed⟩
  rw [run_append]
  exact agents_act_of_not_isBy hh.here hx

theorem Handles.quiet {acts : List (Action ι σ)} {h h' : Handling σ} (hh : Handles p₀ i r acts h)
    {x : Action ι σ} (hx : x.isBy i = true)
    (here : ((p₀.run acts).act x).agents i = .task (.handling h'))
    (ledger : ((p₀.run acts).act x).ledger = (p₀.run acts).ledger)
    (receipt : h'.receipt? = h.receipt?)
    (fine : ∀ o, h.receipt? = some o → (p₀.run acts).faults i x = [])
    (going : h'.stage.rank ≠ 0 → record (faults i) p₀ (acts ++ [x]) = h'.stage.refusal.toList)
    (failed : ∀ y, h'.stage = .ended (.error y) →
      ∃ d ∈ record (deeds i) p₀ (acts ++ [x]), ∃ g x', d.1.agents i = .task (.handling g) ∧
        g.stage.rank ≠ 0 ∧ d.2.agents i = .task (.handling h') ∧
        record (faults i) p₀ (acts ++ [x]) = [x'] ∧ y = g.verdict d.1.world.store x') :
    Handles p₀ i r (acts ++ [x]) h' := by
  have ht := record_concat (deeds i) p₀ acts x
  rw [deeds_eq_singleton hx] at ht
  refine ⟨by rw [run_append]; exact here, fun hn => ?_, fun o ho => ?_, going, failed⟩
  · rw [ht]
    exact List.forall_mem_append.mpr
      ⟨hh.untouched (receipt ▸ hn), List.forall_mem_singleton.mpr ledger⟩
  · obtain ⟨hf, hd⟩ := hh.done o (receipt ▸ ho)
    rw [ht]
    exact ⟨by rw [record_concat, hf, fine o (receipt ▸ ho)]; rfl, exists_deed_concat ledger hd⟩

theorem Handles.finish {acts : List (Action ι σ)} {h : Handling σ} (hh : Handles p₀ i r acts h)
    {x : Action ι σ} (hx : x.isBy i = true) (ended : h.stage.rank = 0)
    (here : ((p₀.run acts).act x).agents i = .task (.handling h))
    (ledger : ((p₀.run acts).act x).ledger = (p₀.run acts).ledger)
    (fine : (p₀.run acts).faults i x = []) : Handles p₀ i r (acts ++ [x]) h := by
  refine hh.quiet hx here ledger rfl (fun _ _ => fine) (absurd ended) fun y hy => ?_
  obtain ⟨d, hd, g, x', hg, hr, hd', hf, he⟩ := hh.failed y hy
  refine ⟨d, ?_, g, x', hg, hr, hd', ?_, he⟩
  · rw [record_concat]
    exact List.mem_append_left _ hd
  · rw [record_concat, fine, List.append_nil, hf]

theorem Handles.step {acts : List (Action ι σ)} {h : Handling σ} (hh : Handles p₀ i r acts h)
    (hl : (p₀.run acts).ledger.Sound) (hk : r.Knows (p₀.run acts).ledger h) (peers : Peers σ)
    (told : Bool) :
    Handles p₀ i r (acts ++ [.step i peers told]) (h.step peers (p₀.run acts).world).2 := by
  have hx : (Action.step i peers told : Action ι σ).isBy i = true := by simp [Action.isBy]
  have here : ((p₀.run acts).act (.step i peers told)).agents i =
      .task (.handling (h.step peers (p₀.run acts).world).2) := agents_step_task hh.here peers told
  have hw : ((p₀.run acts).act (.step i peers told)).world =
      (h.step peers (p₀.run acts).world).1 := world_step_task hh.here peers told
  by_cases ended : h.stage.rank = 0
  · have he := Handling.step_of_rank_eq_zero ended peers (p₀.run acts).world
    rw [he]
    rw [he] at here hw
    refine hh.finish hx ended here (congrArg (fun w => w.store.ledger) hw) ?_
    · rw [faults_step hh.here, Handling.fault_of_rank_eq_zero ended]
      rfl
  · have hf : record (faults i) p₀ (acts ++ [.step i peers told]) =
        h.faults peers (p₀.run acts).world := by
      rw [record_concat, hh.going ended, faults_step hh.here]
      rfl
    have hn := Handling.receipt?_of_rank_ne_zero ended
    have hr := h.step_reports peers (p₀.run acts).world ended
    rcases hk.move hl (h.step_move peers (p₀.run acts).world) with
      ⟨hd, -, hy⟩ | ⟨n, s, hws, hc, hd, -, hy⟩
    · refine hh.quiet hx here (congrArg (fun w => w.store.ledger) hw |>.trans hd) hy
        (fun o ho => ?_) (fun hg => ?_) fun y hy => ?_
      · rw [hn] at ho
        cases ho
      · rw [hf]
        cases hs : (h.step peers (p₀.run acts).world).2.stage <;>
          simp_all [Handling.Reports, Handling.Stage.rank]
      · rw [hy] at hr
        obtain ⟨x, hx', he⟩ := hr
        refine ⟨(p₀.run acts, _), ?_, h, x, hh.here, ended, here, hf.trans hx', he⟩
        rw [record_concat, deeds_eq_singleton hx]
        exact List.mem_append_right _ List.mem_cons_self
    · have hs : (h.step peers (p₀.run acts).world).2.receipt? = some (r.receipt n) := by
        rw [hy]
        rfl
      refine ⟨by rw [run_append]; exact here, fun h0 => ?_, fun o ho => ?_, fun hg => ?_,
        fun y hy' => ?_⟩
      · rw [hs] at h0
        cases h0
      · obtain rfl : r.receipt n = o := Option.some.inj (hs.symm.trans ho)
        rw [hy] at hr
        refine ⟨hf.trans hr, record (deeds i) p₀ acts,
          (p₀.run acts, (p₀.run acts).act (.step i peers told)), [], ?_, ?_, fun d hd => ?_⟩
        · rw [record_concat, deeds_eq_singleton hx]
        · have hm : ((p₀.run acts).act (.step i peers told)).ledger =
              (p₀.run acts).ledger.absorb (r.unit n s) :=
            (congrArg (fun w => w.store.ledger) hw).trans hd
          rw [hm]
          exact hl.committed hws hc
        · rw [List.append_nil] at hd
          exact hh.untouched hn d hd
      · rw [hy] at hg
        exact absurd rfl hg
      · rw [hy] at hy'
        cases hy'

theorem Handles.cancel {acts : List (Action ι σ)} {h : Handling σ} (hh : Handles p₀ i r acts h) :
    Handles p₀ i r (acts ++ [.cancel i]) (h.cancel (p₀.run acts).world).2 := by
  have hx : (Action.cancel i : Action ι σ).isBy i = true := by simp [Action.isBy]
  have here : ((p₀.run acts).act (.cancel i)).agents i =
      .task (.handling (h.cancel (p₀.run acts).world).2) := agents_cancel_task hh.here
  have hw : ((p₀.run acts).act (.cancel i)).world = (h.cancel (p₀.run acts).world).1 :=
    world_cancel_task hh.here
  have gone (s : Store σ) (hl : s.ledger = (p₀.run acts).ledger)
      (he : h.cancel (p₀.run acts).world =
        ({ (p₀.run acts).world with store := s }, { h with stage := .cancelled })) :
      Handles p₀ i r (acts ++ [.cancel i]) (h.cancel (p₀.run acts).world).2 := by
    refine hh.quiet hx here ?_ (h.receipt?_cancel _) (fun _ _ => rfl) (fun hg => ?_) fun y hy => ?_
    · exact (congrArg (fun w => w.store.ledger) (hw.trans (congrArg Prod.fst he))).trans hl
    · rw [he] at hg
      exact absurd rfl hg
    · rw [he] at hy
      cases hy
  rcases h.cancel_cases (p₀.run acts).world with ⟨ended, he⟩ | ⟨-, he⟩ | ⟨u, -, he⟩
  · rw [he]
    rw [he] at here hw
    exact hh.finish hx ended here (congrArg (fun w => w.store.ledger) hw) rfl
  · exact gone _ rfl he
  · exact gone ((p₀.run acts).world.store.release u) rfl he

end

theorem handles_run {calls : ι → Call σ} {i : ι} {r : Request σ} (called : calls i = .request r)
    (acts : List (Action ι σ)) : ∃ h, Handles (start {} calls) i r acts h := by
  have hi : (start {} calls).agents i = .task (.handling r.handling) := by
    simp only [start, called, Call.agent]
  obtain ⟨h, -, hh⟩ := handling_run hi (handles_nil hi) (fun _ _ _ _ hh hx => hh.other hx)
    (fun acts _ peers told here hh =>
      hh.step (sound_run calls acts) (knows_run called here) peers told)
    (fun _ _ _ hh => hh.cancel) acts
  exact ⟨h, hh⟩

/-- Whatever the store is made to fail at, whatever the read model answers and whatever goes on
beside it: as long as the handling of a request has not gone well, and so if it fails or is given
up, nothing it did has changed what is durable; if it goes well, nothing has gone wrong and exactly
one of the things it did has changed what is durable, by all that was asked for; if it fails, one
thing has gone wrong, and that is what it says, unless undoing the rest failed as well; once it is
over, no claim is its own; and it is over within six steps. -/
theorem atomic_run {calls : ι → Call σ} {i : ι} {r : Request σ} (called : calls i = .request r)
    (acts : List (Action ι σ)) :
    let p := (start {} calls).run acts
    let deeds := record (deeds i) (start {} calls) acts
    let faults := record (faults i) (start {} calls) acts
    ∃ h, p.agents i = .task (.handling h) ∧
      (h.receipt? = none → ∀ d ∈ deeds, d.2.ledger = d.1.ledger) ∧
      (∀ o, h.receipt? = some o → faults = [] ∧
        ∃ earlier d later, deeds = earlier ++ d :: later ∧
          r.Committed d.1.ledger d.2.ledger o ∧ ∀ d ∈ earlier ++ later, d.2.ledger = d.1.ledger) ∧
      (∀ y, h.stage = .ended (.error y) →
        ∃ d ∈ deeds, ∃ g x, d.1.agents i = .task (.handling g) ∧ g.stage.rank ≠ 0 ∧
          d.2.agents i = .task (.handling h) ∧ faults = [x] ∧ y = g.verdict d.1.world.store x) ∧
      (h.stage.unit? = none →
        ∀ id ∈ p.world.store.claimed, ∃ j ≠ i, ∃ u ∈ (p.agents j).unit?, id ∈ u.claims) ∧
      (6 ≤ acts.countP (Action.isStepOf i) → h.stage.rank = 0) := by
  intro p deeds faults
  obtain ⟨h, hh⟩ := handles_run called acts
  refine ⟨h, hh.here, hh.untouched, hh.done, hh.failed, fun hu id hid => ?_, fun hn => ?_⟩
  · obtain ⟨j, u, hj, hm⟩ := claimed_run calls acts id hid
    refine ⟨j, ?_, u, hj, hm⟩
    rintro rfl
    have he : (p.agents j).unit? = none := (congrArg Agent.unit? hh.here).trans hu
    rw [he] at hj
    cases hj
  · have ha : (start {} calls).agents i = .task (.handling r.handling) := by
      simp only [start, called]
      rfl
    obtain ⟨t, ht, hr⟩ := rank_run ha acts
    cases hh.here.symm.trans ht
    have hk : (Task.handling r.handling : Task σ).rank = 6 := rfl
    have hz : (Task.handling h).rank = 0 := by omega
    exact hz

/-- A user signs up while the store can neither take events nor undo anything: nothing of that
lasts, and both failures are reported. -/
theorem atomic_run_signingUp :
    (fun _ : Unit => Call.request (.ofUser 1 1 (User.signUp "a@example.com"))) () =
      Call.request (.ofUser 1 1 (User.signUp "a@example.com")) ∧
    ∃ h, (signingUp.run (.fail [.stage, .rollback] :: List.replicate 5 (.go ()))).agents () =
        .task (.handling h) ∧
      h.stage = .ended (.error (.rollbackFailed (injectedFailure .stage)
        (injectedFailure .rollback))) ∧
      ∀ d ∈ record (deeds ()) signingUp (.fail [.stage, .rollback] :: List.replicate 5 (.go ())),
        d.2.ledger = d.1.ledger := by
  have hq : ∃ q, (signingUp.run (.fail [.stage, .rollback] :: List.replicate 5 (.go ()))).agents ()
        = .task (.handling q) ∧
      q.stage = .ended (.error (.rollbackFailed (injectedFailure .stage)
        (injectedFailure .rollback))) := ⟨_, rfl, rfl⟩
  obtain ⟨q, hq, hs⟩ := hq
  obtain ⟨h, hh, hn, -⟩ := @atomic_run User _ Unit _
    (fun _ => .request (.ofUser 1 1 (User.signUp "a@example.com"))) () _ rfl
    (.fail [.stage, .rollback] :: List.replicate 5 (.go ()))
  cases hh.symm.trans hq
  refine ⟨rfl, q, hq, hs, hn ?_⟩
  rw [Handling.receipt?, hs]

end Pool
end Outbox

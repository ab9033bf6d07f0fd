import Outbox.Proofs.Intake
import Outbox.Relay.Timed

/-! Serving: whatever the source answers, however rounds go and whenever shutdown is requested or
its window ends, nothing that was taken is lost from sight. What the report counts is what was
taken; and where serving is given up, at most one notification is left over, with nothing done. -/
namespace Outbox
variable {σ : Type} [Model σ]

inductive Service.Turn (σ : Type) [Model σ]
  /-- The service undergoes a move; a step of its consumer meets with these peers. -/
  | move (m : Move) (peers : Peers σ)
  /-- From now on these operations of the store fail. -/
  | fail (operations : List Operation)
  | note (n : Notice)

def Service.Turn.isCrash : Turn σ → Bool
  | .move .crash _ => true
  | _ => false

structure Serving (σ : Type) [Model σ] where
  world : World σ
  service : Service σ

/-- Serving ends with the report of the consumer once that has stopped. -/
theorem Service.join_cases (w : World σ) (v : Service σ)
    (unserved : ∀ r, v.phase ≠ .served r) :
    (v.join w).1.store = w.store ∧
      (v.consumer.stage = .stopped ∧
          (v.join w).2 = { v with phase := .served (.ok v.consumer.report) } ∨
        v.consumer.stage ≠ .stopped ∧ (v.join w).2 = v) := by
  unfold join
  rcases hp : v.phase with _ | _ | r
  · cases hs : v.consumer.stage <;> simp
  · cases hs : v.consumer.stage <;> simp
  · exact absurd hp (unserved r)

namespace Serving
open Service (Turn)

def start (w : World σ) (provider : Uuid → Aggregate σ) (source : Source) (window : Duration) :
    Serving σ :=
  match Service.start w { provider, source } window with
  | (w, v) => ⟨w, v⟩

def turn (s : Serving σ) : Turn σ → Serving σ
  | .move m peers =>
    match s.service.move peers s.world m with
    | (w, v) => ⟨w, v⟩
  | .fail operations => { s with world.store.failing := operations }
  | .note n => { s with world := s.world.say n }

def run (s : Serving σ) (turns : List (Turn σ)) : Serving σ := turns.foldl turn s

theorem run_concat (s : Serving σ) (turns : List (Turn σ)) (x : Turn σ) :
    s.run (turns ++ [x]) = (s.run turns).turn x := by
  simp [run]

def marks (s : Serving σ) : Turn σ → List Mark
  | .move m peers =>
    match s.service.phase, m with
    | .running, .work | .draining, .work =>
      s.service.consumer.marks peers s.service.tellsToStop s.world
    | .running, .shutdown => [.told]
    | _, _ => []
  | _ => []

def history : Serving σ → List (Turn σ) → List Mark
  | _, [] => []
  | s, x :: turns => s.marks x ++ history (s.turn x) turns

theorem history_concat (s : Serving σ) (turns : List (Turn σ)) (x : Turn σ) :
    s.history (turns ++ [x]) = s.history turns ++ (s.run turns).marks x := by
  induction turns generalizing s with
  | nil => simp [history, run]
  | cons y turns ih => simp [history, ih, run]

def Quiet (h : List Mark) : Prop := h.Pairwise fun a b => a = .told → b.answer? = none

/-- Who holds the checkpoint: the consumer, or whoever did at first. -/
structure Keeps (w₀ w : World σ) (u : Option (UnitOfWork σ)) : Prop where
  lock : w.store.checkpointHeld = (w₀.store.checkpointHeld || UnitOfWork.holds u)
  alone : UnitOfWork.holds u = true → w₀.store.checkpointHeld = false

theorem Keeps.trade {w₀ w w' : World σ} {u u' : Option (UnitOfWork σ)} (h : Keeps w₀ w u)
    (ht : w.store.Trades u w'.store u') : Keeps w₀ w' u' := by
  obtain ⟨lock, alone⟩ := h
  cases ht.hands with
  | stays same here =>
    rw [← here] at lock alone
    exact ⟨same.trans lock, alone⟩
  | taken free now here =>
    rw [free, eq_comm, Bool.or_eq_false_iff] at lock
    exact ⟨by rw [now, here, Bool.or_true], fun _ => lock.1⟩
  | given had now gone =>
    exact ⟨by rw [now, gone, alone had]; rfl, by simp [gone]⟩

/-- What is true of a service, in its world, after turns since it started. -/
structure Serves (w₀ : World σ) (source : Source) (window : Duration) (turns : List (Turn σ))
    (s : Serving σ) (st : Standing) (h : List Mark) : Prop where
  tallies : Consumer.Tallies w₀.store.ledger source s.world.store.ledger s.service.consumer st h
  patience : s.service.window = window
  phase : match s.service.phase with
    | .served (.ok report) =>
      s.service.consumer.stage = .stopped ∧ report = s.service.consumer.report
    | .served (.error x) =>
      s.service.consumer.stage = .crashed ∧
        (x = .shutdownTimeout window ∨ x = .task ∧ turns.any Turn.isCrash = true)
    | _ => s.service.consumer.isOver = false
  told : Mark.told ∈ h → s.service.tellsToStop = true
  asked : s.service.phase = .draining → Mark.told ∈ h
  quiet : Quiet h
  keeps : Keeps w₀ s.world s.service.consumer.unit?

section
variable {w₀ : World σ} {source : Source} {window : Duration} {turns : List (Turn σ)}
  {s : Serving σ} {st : Standing} {h : List Mark}

theorem Serves.same (hs : Serves w₀ source window turns s st h) (x : Turn σ) {w : World σ}
    (ledger : w.store.ledger = s.world.store.ledger)
    (lock : w.store.checkpointHeld = s.world.store.checkpointHeld) :
    Serves w₀ source window (turns ++ [x]) { s with world := w } st (h ++ []) := by
  obtain ⟨tallies, hw, phase, told, asked, quiet, keeps⟩ := hs
  rw [List.append_nil]
  refine ⟨ledger ▸ tallies, hw, ?_, told, asked, quiet, lock.trans keeps.lock, keeps.alone⟩
  rcases hp : s.service.phase with _ | _ | x | report <;> rw [hp] at phase
  · exact phase
  · exact phase
  · exact ⟨phase.1, phase.2.imp_right (And.imp_right (by simp +contextual))⟩
  · exact phase

theorem Serves.giveUp (hs : Serves w₀ source window turns s st h) (y : Turn σ)
    (going : s.service.consumer.isOver = false) (x : ServiceError)
    (reason : x = .shutdownTimeout window ∨ x = .task ∧ y.isCrash = true) {w : World σ}
    (store : w.store = (s.service.giveUp s.world x).1.store) :
    Serves w₀ source window (turns ++ [y]) ⟨w, (s.service.giveUp s.world x).2⟩ st (h ++ []) := by
  have ht := s.service.consumer.trades_abort s.world
  obtain ⟨hc, ha⟩ := hs.tallies.abort going
  rw [List.append_nil]
  refine ⟨store ▸ ha, hs.patience, ⟨hc, ?_⟩, fun _ => rfl, nofun, hs.quiet,
    hs.keeps.trade (store ▸ ht)⟩
  exact reason.imp_right (And.imp_right fun hy => by simp [hy])

theorem Serves.work (hs : Serves w₀ source window turns s st h) (y : Turn σ) (peers : Peers σ)
    (going : s.service.consumer.isOver = false) (unserved : ∀ r, s.service.phase ≠ .served r) :
    let next := s.service.consumer.step peers s.service.tellsToStop s.world
    let joined := { s.service with consumer := next.2 }.join next.1
    ∃ st', Serves w₀ source window (turns ++ [y]) ⟨joined.1, joined.2⟩ st'
      (h ++ s.service.consumer.marks peers s.service.tellsToStop s.world) := by
  intro next joined
  have hw := s.service.consumer.step_works peers s.service.tellsToStop s.world
  have ht := (s.service.consumer.step_move peers s.service.tellsToStop s.world).trades
  have asked : s.service.tellsToStop = true → Mark.told ∈ h := by
    unfold Service.tellsToStop
    split
    · nofun
    · next hn =>
      rcases hp : s.service.phase with _ | _ | r
      · exact absurd hp hn
      · exact fun _ => hs.asked hp
      · exact absurd hp (unserved r)
  obtain ⟨st', tallies⟩ := hs.tallies.step hw asked
  have quiet : Quiet (h ++ s.service.consumer.marks peers s.service.tellsToStop s.world) := by
    refine List.pairwise_append.mpr ⟨hs.quiet, ?_, ?_⟩
    · exact List.pairwise_of_forall_mem_list fun m hm _ _ ht =>
        absurd (ht ▸ hm) hw.told_notMem
    · rintro a ha b hb rfl
      rw [hs.told ha] at hw hb
      exact hw.answer?_eq_none b hb
  obtain ⟨store, ⟨stopped, he⟩ | ⟨going', he⟩⟩ :=
    Service.join_cases next.1 { s.service with consumer := next.2 } unserved
  · refine ⟨st', ?_⟩
    rw [he]
    exact ⟨store ▸ tallies, hs.patience, ⟨stopped, rfl⟩, fun _ => rfl, nofun, quiet,
      hs.keeps.trade (store ▸ ht)⟩
  · refine ⟨st', ?_⟩
    rw [he]
    refine ⟨store ▸ tallies, hs.patience, ?_, fun hm => ?_,
      fun hp => List.mem_append_left _ (hs.asked hp), quiet, hs.keeps.trade (store ▸ ht)⟩
    · have hn := (hw.over going).resolve_left going'
      rcases hp : s.service.phase with _ | _ | r
      · exact hn
      · exact hn
      · exact absurd hp (unserved r)
    · exact (List.mem_append.mp hm).elim hs.told (absurd · hw.told_notMem)

end

theorem serves_start (w : World σ) (provider : Uuid → Aggregate σ) (source : Source)
    (window : Duration) :
    let s := start w provider source window
    Serves w source s.service.window [] s .ready [] where
  tallies := Consumer.tallies_start ..
  patience := rfl
  phase := rfl
  told := by simp
  asked := nofun
  quiet := .nil
  keeps := ⟨(Bool.or_false _).symm, nofun⟩

section
variable {w₀ : World σ} {source : Source} {window : Duration} {turns : List (Turn σ)}
  {s : Serving σ} {st : Standing} {h : List Mark}

theorem Serves.shutdown (hs : Serves w₀ source window turns s st h) (y : Turn σ)
    (going : s.service.consumer.isOver = false) {w : World σ} (store : w.store = s.world.store) :
    Serves w₀ source window (turns ++ [y]) ⟨w, { s.service with phase := .draining }⟩ st
      (h ++ [.told]) := by
  obtain ⟨tallies, patience, -, -, -, quiet, keeps⟩ := hs
  refine ⟨?_, patience, going, fun _ => rfl, fun _ => by simp, ?_, ?_⟩
  · rw [store]
    exact tallies.told
  · exact List.pairwise_append.mpr ⟨quiet, List.pairwise_singleton .., by simp [Mark.answer?]⟩
  · obtain ⟨lock, alone⟩ := keeps
    exact ⟨store ▸ lock, alone⟩

theorem Serves.turn (hs : Serves w₀ source window turns s st h) (x : Turn σ) :
    ∃ st', Serves w₀ source window (turns ++ [x]) (s.turn x) st' (h ++ s.marks x) := by
  have going := hs.phase
  obtain ⟨w, consumer, window', phase⟩ := s
  cases x with
  | fail operations => exact ⟨st, hs.same _ rfl rfl⟩
  | note n => exact ⟨st, hs.same _ rfl rfl⟩
  | move m peers =>
    cases phase with
    | running =>
      cases m with
      | work => exact hs.work _ peers going nofun
      | shutdown => exact ⟨st, hs.shutdown _ going rfl⟩
      | expire => exact ⟨st, hs.same _ rfl rfl⟩
      | crash => exact ⟨st, hs.giveUp _ going .task (.inr ⟨rfl, rfl⟩) rfl⟩
    | draining =>
      cases m with
      | work => exact hs.work _ peers going nofun
      | shutdown => exact ⟨st, hs.same _ rfl rfl⟩
      | expire => exact ⟨st, hs.giveUp _ going _ (.inl (congrArg _ hs.patience)) rfl⟩
      | crash => exact ⟨st, hs.giveUp _ going .task (.inr ⟨rfl, rfl⟩) rfl⟩
    | served result => cases m <;> exact ⟨st, hs.same _ rfl rfl⟩

end

theorem serves_run (w : World σ) (provider : Uuid → Aggregate σ) (source : Source)
    (window : Duration) (turns : List (Turn σ)) :
    let s := start w provider source window
    ∃ st, Serves w source s.service.window turns (s.run turns) st (s.history turns) := by
  intro s
  induction turns using List.reverseRecOn with
  | nil => exact ⟨.ready, serves_start w provider source window⟩
  | append_singleton turns x ih =>
    obtain ⟨st, ih⟩ := ih
    rw [run_concat, history_concat]
    exact ih.turn x

/-- While no round is on its way, the checkpoint is as locked as at first. -/
theorem Keeps.idle {w₀ w : World σ} {k : Consumer σ} (h : Keeps w₀ w k.unit?)
    (idle : ∀ r, k.stage ≠ .relaying r) : w.store.checkpointHeld = w₀.store.checkpointHeld := by
  have hn : k.unit? = none := by
    cases hs : k.stage with
    | relaying r => exact absurd hs (idle r)
    | polling | stopped | crashed => simp only [Consumer.unit?, hs]
  rw [h.lock, hn]
  exact Bool.or_false _

theorem phase_of_result? {v : Service σ} {r : Except ServiceError Report}
    (h : v.result? = some r) : v.phase = .served r := by
  cases hp : v.phase <;> simp_all [Service.result?]

/-- Shutdown loses nothing silently. Whatever the source answers, whatever becomes of the rounds and
whenever shutdown is requested, its window ends or the consumer breaks down: answers are taken in
the order of the source, none while a round is on its way, none after the end of the source and none
once the consumer is told to stop. What is durable is what the rounds that are over have left, and
those that did not relay have left nothing. While no round is on its way the checkpoint is as locked
as at first. If serving ends with a report, the source has ended or shutdown was requested, every
notification has had its round, and the report counts all answers but the end of the source, and the
rounds that moved the checkpoint; if it ends with an error, at most one notification has not had its
round to the end, the checkpoint is as locked as at first, and the window has ended, or the consumer
has broken down. -/
theorem accounted_of_run (w : World σ) (provider : Uuid → Aggregate σ) (source : Source)
    (window : Duration) (turns : List (Turn σ)) :
    let s := start w provider source window
    let t := s.run turns
    let h := s.history turns
    let done := settlements h
    taken h <+: source.answers ∧ Quiet h ∧ (∀ x ∈ done, x.Fits) ∧
      t.world.store.ledger = done.foldl (fun l x => l.relayed x.result) w.store.ledger ∧
      ∃ st, OneByOne st h ∧
        (taken h).filterMap Received.transaction? =
          done.map Settlement.transaction ++ st.pending ∧
        (st.pending = [] → t.world.store.checkpointHeld = w.store.checkpointHeld) ∧
        (∀ report, t.service.result? = some (.ok report) →
          st.pending = [] ∧ (st = .closed ∨ .told ∈ h) ∧
            report.total = (taken h).countP (!Received.isEnd ·) ∧
            report.relayed = done.countP Settlement.moved) ∧
        ∀ x, t.service.result? = some (.error x) →
          st.pending.length ≤ 1 ∧ t.world.store.checkpointHeld = w.store.checkpointHeld ∧
            (x = .shutdownTimeout s.service.window ∨
              x = .task ∧ turns.any Turn.isCrash = true) := by
  intro s t h done
  obtain ⟨st, tallies, -, phase, -, -, quiet, keeps⟩ := serves_run w provider source window turns
  refine ⟨tallies.inOrder, quiet, tallies.made.fits, tallies.made.ledger, st, tallies.oneByOne,
    tallies.oneByOne.notified, ?_, ?_, ?_⟩
  · refine fun hn => keeps.idle fun r hr => ?_
    have hs := tallies.stands
    rw [hr] at hs
    simp [hs.1, Standing.pending] at hn
  · intro report hr
    rw [phase_of_result? hr] at phase
    obtain ⟨stopped, rfl⟩ := phase
    have hs := tallies.stands
    rw [stopped] at hs
    have hn : st.pending = [] := by rcases hs with rfl | ⟨rfl, -⟩ <;> rfl
    have ht := tallies.total
    rw [hn] at ht
    exact ⟨hn, hs.imp_right And.right, ht, tallies.made.relayed⟩
  · intro x hr
    rw [phase_of_result? hr] at phase
    obtain ⟨crashed, reason⟩ := phase
    exact ⟨st.length_pending_le, keeps.idle (by simp [crashed]), reason⟩

/-! ### Serving in time -/

/-- Turns lead from here to there, in which the consumer breaks down at that pace only. -/
def Leads (pace : Pace) (s s' : Serving σ) : Prop :=
  ∃ turns, s.run turns = s' ∧ (pace ≠ .crash → turns.any Turn.isCrash = false)

theorem Leads.trans {pace : Pace} {s s' s'' : Serving σ} (h : Leads pace s s')
    (h' : Leads pace s' s'') : Leads pace s s'' := by
  obtain ⟨turns, rfl, hc⟩ := h
  obtain ⟨more, rfl, hc'⟩ := h'
  refine ⟨turns ++ more, by simp [run], fun hp => ?_⟩
  rw [List.any_append, hc hp, hc' hp]
  rfl

section
variable (peers : Peers σ) (pace : Pace) (request : ShutdownRequest) (w : World σ) (v : Service σ)

theorem leads_ring (t : Nat) (c : Service.Clock) :
    let next := v.ring peers request t c w
    Leads pace ⟨w, v⟩ ⟨next.2.1, next.2.2⟩ := by
  unfold Service.ring
  rcases v.phase with _ | _ | r
  · rcases request with _ | ms | x
    · exact ⟨[.move .shutdown peers], rfl, fun _ => rfl⟩
    · exact ⟨[.move .shutdown peers], rfl, fun _ => rfl⟩
    · exact ⟨[.note (.signalReceived x), .move .shutdown peers], rfl, fun _ => rfl⟩
  · exact ⟨[.move .expire peers], rfl, fun _ => rfl⟩
  · exact ⟨[.move .expire peers], rfl, fun _ => rfl⟩

theorem leads_wakeUp (t : Nat) (c : Service.Clock) :
    let next := v.wakeUp peers pace t c w
    Leads pace ⟨w, v⟩ ⟨next.2.1, next.2.2⟩ := by
  refine ⟨[.move (if v.isPublishing && pace == .crash then .crash else .work) peers], rfl,
    fun hp => ?_⟩
  have hn : (v.isPublishing && pace == .crash) = false := by simp [hp]
  rw [hn]
  rfl

variable {w v} in
theorem leads_next? {c c' : Service.Clock} {w' : World σ} {v' : Service σ}
    (h : v.next? peers pace request c w = some (c', w', v')) : Leads pace ⟨w, v⟩ ⟨w', v'⟩ := by
  have rings (t : Nat) (he : v.ring peers request t c w = (c', w', v')) :
      Leads pace ⟨w, v⟩ ⟨w', v'⟩ := by
    simpa only [he] using leads_ring peers pace request w v t c
  have wakes (t : Nat) (he : v.wakeUp peers pace t c w = (c', w', v')) :
      Leads pace ⟨w, v⟩ ⟨w', v'⟩ := by
    simpa only [he] using leads_wakeUp peers pace w v t c
  unfold Service.next? at h
  split at h
  next t u _ _ =>
    split at h
    · exact rings t (Option.some.inj h)
    · exact wakes u (Option.some.inj h)
  next t _ _ => exact rings t (Option.some.inj h)
  next u _ _ => exact wakes u (Option.some.inj h)
  next => cases h

theorem leads_elapse (n : Nat) (c : Service.Clock) :
    let served := v.elapse peers pace request n c w
    Leads pace ⟨w, v⟩ ⟨served.1, served.2⟩ := by
  induction n generalizing c w v with
  | zero => exact ⟨[], rfl, fun _ => rfl⟩
  | succ n ih =>
    simp only [Service.elapse]
    split
    · exact ⟨[], rfl, fun _ => rfl⟩
    · split
      · exact ⟨[], rfl, fun _ => rfl⟩
      · next h => exact (leads_next? peers pace request h).trans (ih ..)

/-- Serving in time is serving by turns. -/
theorem leads_serve (provider : Uuid → Aggregate σ) (source : Source) (window : Duration) :
    let served := Service.serve peers pace request w { provider, source } window
    Leads pace (start w provider source window) ⟨served.1, served.2⟩ :=
  leads_elapse peers pace request _ _ _ {}

end

/-- A broker that never answers holds a round up beyond the window; nothing is left of that. -/
example :
    let served := Service.serve .accepting .never (.after 1) Pool.signedUp.world
      { provider := User.new, source := ⟨[⟨0, .ok (some ⟨.ofNat 1, .ofNat 1, 1⟩)⟩], true⟩ }
      (.ofSeconds 1)
    served.2.result? = some (.error (.shutdownTimeout (.ofSeconds 1))) ∧
      served.1.store.ledger.checkpoint = Pool.signedUp.ledger.checkpoint ∧
      served.1.store.checkpointHeld = false := by
  decide +kernel

end Serving
end Outbox

import Outbox.Proofs.Caps
import Outbox.Proofs.Intake
import Outbox.Proofs.Sequence
import Outbox.Store.Seed

/-! What a consumer reports while nothing else is at work: of the notifications it is given, those
for a place of the log beyond all before them have moved the checkpoint, and no other has. -/
namespace Outbox

def notifications (script : List (Except Error Transaction)) : List Transaction :=
  script.filterMap Except.toOption

def highest (c : Int) (ts : List Transaction) : Int := ts.foldl (fun m t => max m t.sequence) c

/-- A notification is for a place beyond a checkpoint and beyond the places of all before it. -/
def IsRecord (c : Int) (ts : List Transaction) (i : Fin ts.length) : Prop :=
  c < ts[i].sequence ∧ ∀ t ∈ ts.take i, t.sequence < ts[i].sequence

instance (c : Int) (ts : List Transaction) (i : Fin ts.length) : Decidable (IsRecord c ts i) :=
  inferInstanceAs (Decidable (_ ∧ _))

theorem isRecord_zero {c : Int} {t : Transaction} {ts : List Transaction} :
    IsRecord c (t :: ts) (0 : Fin (ts.length + 1)) ↔ c < t.sequence := by
  simp [IsRecord]

theorem isRecord_succ {c : Int} {t : Transaction} {ts : List Transaction} {i : Fin ts.length} :
    IsRecord c (t :: ts) i.succ ↔ IsRecord (max c t.sequence) ts i := by
  simp only [IsRecord, Fin.getElem_fin, Fin.val_succ, List.getElem_cons_succ, List.take_succ_cons,
    List.forall_mem_cons, Int.max_lt, and_assoc]

theorem countP_isRecord_cons (f : Bool → Bool) (c : Int) (t : Transaction) (ts : List Transaction) :
    (List.finRange (t :: ts).length).countP (fun i => f (IsRecord c (t :: ts) i)) =
      (List.finRange ts.length).countP (fun i => f (IsRecord (max c t.sequence) ts i)) +
        (f (c < t.sequence)).toNat := by
  have hpos : List.finRange (t :: ts).length = (0 : Fin (ts.length + 1)) :: _ := List.finRange_succ
  refine (congrArg (List.countP _) hpos).trans ?_
  rw [List.countP_cons, List.countP_map]
  simp only [Function.comp_def, isRecord_zero, isRecord_succ]
  cases f (c < t.sequence) <;> rfl

def records (c : Int) (ts : List Transaction) : Nat :=
  (List.finRange ts.length).countP fun i => IsRecord c ts i

def repeats (c : Int) (ts : List Transaction) : Nat :=
  (List.finRange ts.length).countP fun i => !IsRecord c ts i

theorem records_cons (c : Int) (t : Transaction) (ts : List Transaction) :
    records c (t :: ts) = records (max c t.sequence) ts + (decide (c < t.sequence)).toNat :=
  countP_isRecord_cons id c t ts

theorem repeats_cons (c : Int) (t : Transaction) (ts : List Transaction) :
    repeats c (t :: ts) = repeats (max c t.sequence) ts + (!decide (c < t.sequence)).toNat :=
  countP_isRecord_cons not c t ts

namespace Report

/-- What is to be reported of what is received: the notifications that are records, those that are
not, and the errors. -/
def tally (c : Int) (script : List (Except Error Transaction)) : Report where
  relayed := records c (notifications script)
  skipped := repeats c (notifications script)
  failed := script.countP fun x => x.toOption.isNone

instance : Add Report :=
  ⟨fun r s => ⟨r.relayed + s.relayed, r.skipped + s.skipped, r.failed + s.failed⟩⟩

theorem add_eq (r s : Report) :
    r + s = ⟨r.relayed + s.relayed, r.skipped + s.skipped, r.failed + s.failed⟩ := rfl

theorem empty_add (r : Report) : {} + r = r := by
  simp [add_eq]

theorem count_add (r s : Report) (o : Option RoundOutcome) : r.count o + s = r + s.count o := by
  cases o with
  | none => simp [count, add_eq, Nat.add_assoc, Nat.add_comm 1]
  | some o => cases ho : o.advanced <;> simp [count, ho, add_eq, Nat.add_assoc, Nat.add_comm 1]

theorem tally_error (c : Int) (x : Error) (script : List (Except Error Transaction)) :
    tally c (.error x :: script) = (tally c script).count none := by
  have hn : notifications (.error x :: script) = notifications script := rfl
  have hc : List.countP (fun x => x.toOption.isNone) (.error x :: script) =
      script.countP (fun x => x.toOption.isNone) + 1 := List.countP_cons_of_pos rfl
  rw [tally, tally, hn, hc, count]

theorem tally_ok {c : Int} {t : Transaction} (script : List (Except Error Transaction))
    {o : RoundOutcome} (h : o.advanced = decide (c < t.sequence)) :
    tally c (.ok t :: script) = (tally (max c t.sequence) script).count (some o) := by
  have hn : notifications (.ok t :: script) = t :: notifications script := rfl
  have hc : List.countP (fun x => x.toOption.isNone) (.ok t :: script) =
      script.countP (fun x => x.toOption.isNone) := List.countP_cons_of_neg (by simp [Except.toOption])
  rw [tally, tally, hn, hc, records_cons, repeats_cons]
  by_cases hlt : c < t.sequence <;> simp [count, h, hlt]

end Report

def Source.playing (script : List (Except Error Transaction)) : Source where
  arrivals := script.map fun x => ⟨0, x.map some⟩

variable {σ : Type} [Model σ]

def Ledger.publishable (l : Ledger σ) (peers : Peers σ) (id : Uuid) (r : LogRange) : Bool :=
  match l.within id r with
  | [] => true
  | e :: es =>
    match l.told id e.version (e :: es) with
    | .error _ => false
    | .ok batch => (peers.publish batch).isOk

/-- The events of every round that moves the checkpoint can be published: those between the places
that are reached before and its own. -/
def Ledger.CanPublish (l : Ledger σ) (peers : Peers σ) (c : Int) (ts : List Transaction) : Prop :=
  ∀ i : Fin ts.length, IsRecord c ts i →
    l.publishable peers ts[i].aggregateId ⟨highest c (ts.take i), ts[i].sequence⟩ = true

instance (l : Ledger σ) (peers : Peers σ) (c : Int) (ts : List Transaction) :
    Decidable (l.CanPublish peers c ts) := inferInstanceAs (Decidable (∀ _, _))

theorem Ledger.CanPublish.of_cons {l : Ledger σ} {peers : Peers σ} {c : Int} {t : Transaction}
    {ts : List Transaction} (h : l.CanPublish peers c (t :: ts)) :
    (c < t.sequence → l.publishable peers t.aggregateId ⟨c, t.sequence⟩ = true) ∧
      l.CanPublish peers (max c t.sequence) ts :=
  ⟨fun hlt => h (0 : Fin (ts.length + 1)) (isRecord_zero.mpr hlt),
    fun i hi => h i.succ (isRecord_succ.mpr hi)⟩

theorem Ledger.relay_of_publishable {l : Ledger σ} {peers : Peers σ} {t : Transaction}
    (ahead : l.checkpoint.last < t.sequence)
    (h : l.publishable peers t.aggregateId ⟨l.checkpoint.last, t.sequence⟩ = true) :
    ∃ n, (l.relay peers t).1 = .ok (.relayed n t.sequence) := by
  simp only [relay, if_neg (Int.not_le.mpr ahead)]
  rw [publishable] at h
  rw [due]
  cases hd : l.within t.aggregateId ⟨l.checkpoint.last, t.sequence⟩ with
  | nil => exact ⟨0, rfl⟩
  | cons e es =>
    simp only [hd] at h
    cases ht : l.told t.aggregateId e.version (e :: es) with
    | error x => simp [ht] at h
    | ok batch =>
      simp only [ht] at h
      cases hp : peers.publish batch with
      | error x => simp [hp, Except.isOk, Except.toBool] at h
      | ok _ => exact ⟨batch.length, by simp only [ht, deliver, hp]⟩

section
variable [LawfulModel σ] {s : Store σ} (calm : s.failing = []) (unlocked : s.checkpointHeld = false)
  (sound : s.ledger.Sound) (faithful : s.ledger.Faithful) (replayable : s.ledger.Replayable)
  (peers : Peers σ) (cap : Uuid → Int)
include calm unlocked sound faithful replayable

/-- A round, if it can publish, moves the checkpoint up to its transaction unless it is there. -/
theorem Round.ends_publishable {w : World σ} {m : Int} (store : w.store = s.seedCheckpoint m)
    {t : Transaction}
    (publishable : m < t.sequence →
      s.ledger.publishable peers t.aggregateId ⟨m, t.sequence⟩ = true) :
    let next := (stands t (fun id => .new id (cap id)) .waiting).complete peers w
    ∃ o, next.2.stage = .ended (.ok o) ∧ o.advanced = decide (m < t.sequence) ∧
      next.1.store = s.seedCheckpoint (max m t.sequence) := by
  intro next
  have hstep : s.ledger.Step (s.seedCheckpoint m).ledger :=
    s.ledger.step_relayed (.ok (.relayed 0 m))
  have hends : Ends w (w.store.ledger.relay peers t).1
      (w.batches ++ (w.store.ledger.relay peers t).2) next := by
    refine ends_complete cap peers ?_ ?_ ?_ ?_ ?_ <;> rw [store]
    · exact calm
    · exact unlocked
    · exact hstep.sound sound
    · exact hstep.faithful sound faithful
    · exact hstep.replayable sound faithful replayable
  clear_value next
  rw [store] at hends
  by_cases hlt : m < t.sequence
  · obtain ⟨n, hn⟩ := Ledger.relay_of_publishable (l := (s.seedCheckpoint m).ledger) hlt
      (publishable hlt)
    have hs := hends.store
    rw [hn, store] at hs
    refine ⟨.relayed n t.sequence, hn ▸ hends.stage, (decide_eq_true hlt).symm, ?_⟩
    rw [hs, Int.max_eq_right (Int.le_of_lt hlt)]
    rfl
  · have hn : ((s.seedCheckpoint m).ledger.relay peers t).1 = .ok (.alreadyRelayed m) := by
      have hle : t.sequence ≤ (s.seedCheckpoint m).ledger.checkpoint.last := Int.not_lt.mp hlt
      rw [Ledger.relay, if_pos hle]
      rfl
    have hs := hends.store
    rw [hn, store] at hs
    refine ⟨.alreadyRelayed m, hn ▸ hends.stage, (decide_eq_false hlt).symm, ?_⟩
    rw [hs, Int.max_eq_left (Int.not_lt.mp hlt)]
    rfl

end

namespace Consumer
variable {peers : Peers σ} {told : Nat → Bool} {w : World σ} {k : Consumer σ}

theorem steps_of_step {w' : World σ} {k' : Consumer σ}
    (hs : k.step peers (told k.calls) w = (w', k')) (n : Nat) :
    k.steps peers told (n + 1) w = k'.steps peers told n w' := by
  rw [steps, hs]

theorem steps_of_stopped (here : k.stage = .stopped) (n : Nat) : k.steps peers told n w = (w, k) := by
  induction n with
  | zero => rfl
  | succ n ih => simpa only [steps, step, here] using ih

section
variable {r : Round σ} (here : k.stage = .relaying r)
include here

theorem step_of_going (still : ∀ result, (r.step peers w).2.stage ≠ .ended result) (b : Bool) :
    k.step peers b w = ((r.step peers w).1, { k with stage := .relaying (r.step peers w).2 }) := by
  simp only [step, here]

theorem step_of_ended {result : Except Error RoundOutcome}
    (ended : (r.step peers w).2.stage = .ended result) (b : Bool) :
    ∃ w', w'.store = (r.step peers w).1.store ∧
      k.step peers b w =
        (w', { k with report := k.report.count result.toOption, stage := .polling }) := by
  obtain ⟨hw, hk⟩ := account_settles (r.step peers w).1 k (r.step peers w).2.transaction result
  refine ⟨_, hw, ?_⟩
  simp only [step, here, ended, ← hk]

/-- A consumer that has a round on its way takes no more steps than the round, whatever the round
ends with, and then counts it. -/
theorem steps_relaying (going : r.stage.rank ≠ 0) {result : Except Error RoundOutcome}
    (ended : (r.complete peers w).2.stage = .ended result) {n : Nat} (hn : r.stage.rank ≤ n) :
    ∃ j w', j ≤ r.stage.rank ∧ w'.store = (r.complete peers w).1.store ∧
      k.steps peers told n w =
        { k with report := k.report.count result.toOption, stage := .polling }.steps peers told
          (n - j) w' := by
  induction hr : r.stage.rank using Nat.strongRecOn generalizing r k w n with
  | _ m ih =>
    obtain ⟨n, rfl⟩ : ∃ i, n = i + 1 := ⟨n - 1, by omega⟩
    have hm := r.step_move peers w
    have hle := hm.rank_le
    have hc : r.complete peers w = (r.step peers w).2.complete peers (r.step peers w).1 :=
      Round.complete_of_step rfl
    rw [hc] at ended ⊢
    by_cases last : ∃ result, (r.step peers w).2.stage = .ended result
    · obtain ⟨result', last⟩ := last
      rw [Round.complete_of_rank_eq_zero (by rw [last]; rfl)] at ended ⊢
      obtain rfl : result' = result := by simpa [last] using ended
      obtain ⟨w', hw, hs⟩ := step_of_ended here last (told k.calls)
      exact ⟨1, w', by omega, hw, steps_of_step hs n⟩
    · have still (result) : (r.step peers w).2.stage ≠ .ended result := fun he => last ⟨result, he⟩
      obtain ⟨j, w', hj, hw, he⟩ := ih (r.step peers w).2.stage.rank (by omega)
        (k := { k with stage := .relaying (r.step peers w).2 }) rfl (hm.further going still) ended
        (n := n) (by omega) rfl
      refine ⟨j + 1, w', by omega, hw, ?_⟩
      rw [steps_of_step (step_of_going here still _), Nat.add_sub_add_right]
      exact he

end

def awaiting (provider : Uuid → Aggregate σ) (script : List (Except Error Transaction)) (calls : Nat)
    (report : Report) : Consumer σ := { provider, source := .playing script, calls, report }

def beginning (provider : Uuid → Aggregate σ) (script : List (Except Error Transaction))
    (calls : Nat) (report : Report) (t : Transaction) : Consumer σ where
  provider := provider
  source := .playing script
  calls := calls
  report := report
  stage := .relaying (.stands t provider .waiting)

section
variable (provider : Uuid → Aggregate σ) (script : List (Except Error Transaction)) (calls : Nat)
  (report : Report)

theorem step_awaiting_nil :
    (awaiting provider [] calls report).step peers false w =
      (awaiting provider [] (calls + 1) report).stop (w.say .sourceClosed) := rfl

theorem step_awaiting_error (x : Error) :
    (awaiting provider (.error x :: script) calls report).step peers false w =
      (w.say (.notReceived x), awaiting provider script (calls + 1) (report.count none)) := rfl

theorem step_awaiting_ok (t : Transaction) :
    (awaiting provider (.ok t :: script) calls report).step peers false w =
      (w, beginning provider script (calls + 1) report t) := rfl

variable (told) in
/-- A round takes nine steps at most. -/
theorem steps_beginning {t : Transaction} {result : Except Error RoundOutcome}
    (ended : ((Round.stands t provider .waiting).complete peers w).2.stage = .ended result)
    {n : Nat} (hn : 9 ≤ n) :
    ∃ j w', j ≤ 9 ∧ w'.store = ((Round.stands t provider .waiting).complete peers w).1.store ∧
      (beginning provider script calls report t).steps peers told n w =
        (awaiting provider script calls (report.count result.toOption)).steps peers told (n - j) w' :=
  steps_relaying (k := beginning provider script calls report t) rfl (Nat.succ_ne_zero _) ended hn

end

section
variable [LawfulModel σ] {s : Store σ} (calm : s.failing = []) (unlocked : s.checkpointHeld = false)
  (sound : s.ledger.Sound) (faithful : s.ledger.Faithful) (replayable : s.ledger.Replayable)
  (cap : Uuid → Int)
include calm unlocked sound faithful replayable

/-- A consumer that has steps enough goes through its script to the end. -/
theorem steps_awaiting {script : List (Except Error Transaction)} {m : Int} (calls : Nat)
    (report : Report) (store : w.store = s.seedCheckpoint m)
    (publishable : s.ledger.CanPublish peers m (notifications script)) {n : Nat}
    (enough : 10 * script.length + 1 ≤ n) :
    let next :=
      (awaiting (fun id => .new id (cap id)) script calls report).steps peers (fun _ => false) n w
    next.2.stage = .stopped ∧ next.2.report = report + .tally m script ∧
      next.1.store = s.seedCheckpoint (highest m (notifications script)) := by
  induction script generalizing m w n calls report with
  | nil =>
    obtain ⟨n, rfl⟩ : ∃ i, n = i + 1 := ⟨n - 1, by omega⟩
    rw [steps_of_step (step_awaiting_nil ..), steps_of_stopped rfl]
    exact ⟨rfl, rfl, store⟩
  | cons x script ih =>
    obtain ⟨n, rfl⟩ : ∃ i, n = i + 1 := ⟨n - 1, by omega⟩
    rw [List.length_cons] at enough
    cases x with
    | error x =>
      rw [steps_of_step (step_awaiting_error ..), Report.tally_error, ← Report.count_add]
      exact ih (calls + 1) (report.count none) (w := w.say (.notReceived x)) store publishable
        (by omega)
    | ok t =>
      obtain ⟨hround, hrest⟩ := Ledger.CanPublish.of_cons publishable
      obtain ⟨o, ended, advanced, hstore⟩ :=
        Round.ends_publishable calm unlocked sound faithful replayable peers cap store hround
      obtain ⟨j, w', hj, hw, he⟩ := steps_beginning (fun _ => false)
        (fun id => .new id (cap id)) script (calls + 1) report ended (n := n) (by omega)
      rw [steps_of_step (step_awaiting_ok ..), he, Report.tally_ok script advanced,
        ← Report.count_add]
      exact ih (calls + 1) (report.count (some o)) (hw.trans hstore) hrest (by omega)

end
end Consumer

namespace Pool
variable {ι : Type} [DecidableEq ι]

/-- Whatever has happened before, with nothing made to fail from then on and nobody holding the
checkpoint, wherever it stands: a consumer that is never told to stop and whose rounds can all
publish goes through whatever its source answers to the end. It reports as relayed the
notifications for a place beyond the checkpoint and beyond those of all before them, as skipped the
other notifications, and as failed the errors; the checkpoint ends up at the greatest place of all,
and nothing else that is durable has changed. -/
theorem report_of_run [LawfulModel σ] {calls : ι → Call σ} {acts : List (Action ι σ)}
    (calm : ((start {} calls).run acts).world.store.failing = [])
    (unlocked : ((start {} calls).run acts).world.store.checkpointHeld = false)
    (peers : Peers σ) (cap : Uuid → Int) (c : Int) (script : List (Except Error Transaction))
    (publishable : ((start {} calls).run acts).ledger.CanPublish peers c (notifications script)) :
    let w := ((start {} calls).run acts).world
    let next := Consumer.run peers (fun _ => false) { w with store := w.store.seedCheckpoint c }
      { provider := fun id => .new id (cap id), source := .playing script }
    next.2.stage = .stopped ∧ next.2.report = .tally c script ∧
      next.1.store = w.store.seedCheckpoint (highest c (notifications script)) := by
  intro w next
  have enough : 10 * script.length + 1 ≤
      (Consumer.awaiting (fun id => .new id (cap id)) script 0 {} : Consumer σ).rank := by
    simp [Consumer.awaiting, Consumer.rank, Source.playing]
  obtain ⟨stage, report, store⟩ := Consumer.steps_awaiting calm unlocked (sound_run calls acts)
    (faithful_run calls acts) (replayable_run calls acts) cap 0 {}
    (w := { w with store := w.store.seedCheckpoint c }) rfl publishable enough
  exact ⟨stage, report.trans (Report.empty_add _), store⟩

/-- Of the notifications that come in, out of order and with an error among them, two move the
checkpoint beyond the first place of the log. -/
theorem report_of_run_signUpsAndIn :
    let p : Pool (Fin 3) User := (start {} fun i => .request (signUpsAndIn i)).run
      (List.replicate 6 (.go 0) ++ (List.replicate 6 [.go 1, .go 2]).flatten)
    let t (id user : Nat) (sequence : Int) : Transaction := ⟨.ofNat id, .ofNat user, sequence⟩
    let script : List (Except Error Transaction) :=
      [.ok (t 2 2 2), .error checkpointLocked, .ok (t 1 1 1), .ok (t 3 1 3), .ok (t 3 1 3)]
    let next := Consumer.run .accepting (fun _ => false)
      { p.world with store := p.world.store.seedCheckpoint 1 }
      { provider := fun id => .new id User.snapshotCap, source := .playing script }
    p.world.store.failing = [] ∧ p.world.store.checkpointHeld = false ∧
      p.ledger.CanPublish .accepting 1 (notifications script) ∧
      next.2.stage = .stopped ∧ next.2.report = ⟨2, 2, 1⟩ ∧
      next.1.store.ledger.checkpoint = ⟨3⟩ := by
  intro p t script next
  have calm : p.world.store.failing = [] := by decide +kernel
  have unlocked : p.world.store.checkpointHeld = false := by decide +kernel
  have publishable : p.ledger.CanPublish .accepting 1 (notifications script) := by decide +kernel
  obtain ⟨stage, report, store⟩ := report_of_run calm unlocked .accepting
    (fun _ => User.snapshotCap) 1 script publishable
  refine ⟨calm, unlocked, publishable, stage, report.trans (by decide +kernel), ?_⟩
  rw [store]
  decide +kernel

end Pool
end Outbox

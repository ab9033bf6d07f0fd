import Outbox.Proofs.Sequence
import Outbox.Store.Seed

/-! A store that is seeded with what a run has committed stands where the run has left its own: the
events alone, in the order of their commits, tell the versions and the log. -/
namespace Outbox
variable {σ : Type} [Model σ]

namespace Ledger

/-- A ledger has the versions, the events and the log of another. -/
structure Retells (l m : Ledger σ) : Prop where
  versions : ∀ id, l.versions.get? id = m.versions.get? id
  events : l.events = m.events
  log : l.log = m.log

theorem Retells.version {l m : Ledger σ} (h : l.Retells m) (id : Uuid) :
    l.version id = m.version id := by
  rw [Ledger.version, Ledger.version, h.versions]

theorem Retells.nextSequence {l m : Ledger σ} (h : l.Retells m) :
    l.nextSequence = m.nextSequence := by
  rw [Ledger.nextSequence, Ledger.nextSequence, h.log]

theorem addEvent_of_fresh {l : Ledger σ} {e : EventOf σ}
    (fresh : ∀ t ∈ l.log, t.id ≠ e.transactionId) :
    l.addEvent e =
      { l with
        versions := l.versions.set e.aggregateId (max (l.version e.aggregateId) e.version)
        events := l.events ++ [e]
        log := l.log ++ [⟨e.transactionId, e.aggregateId, l.nextSequence⟩] } := by
  have hn : l.sequenceOf e.transactionId = none := by
    rw [sequenceOf, Option.map_eq_none_iff, List.find?_eq_none]
    simpa using fresh
  simp only [addEvent, hn, Option.isNone_none, if_true]
  rfl

theorem addEvent_of_logged {l : Ledger σ} {e : EventOf σ}
    (logged : ∃ t ∈ l.log, t.id = e.transactionId) :
    l.addEvent e =
      { l with
        versions := l.versions.set e.aggregateId (max (l.version e.aggregateId) e.version)
        events := l.events ++ [e] } := by
  have hs : (l.sequenceOf e.transactionId).isNone = false := by
    rw [sequenceOf, Option.isNone_map, Option.isNone_eq_false_iff, List.find?_isSome]
    simpa using logged
  simp only [addEvent, hs, Bool.false_eq_true, if_false]

/-- More events of a transaction that is in the log, at the next versions of their aggregate, take
the version to the last of them and leave the log alone. -/
theorem foldl_addEvent_of_logged {es : List (EventOf σ)} {l : Ledger σ} {id t : Uuid} {n : Int}
    (own : ∀ e ∈ es, e.aggregateId = id ∧ e.transactionId = t) (numbered : Event.Numbered n es)
    (logged : ∃ x ∈ l.log, x.id = t) (hv : l.versions.get? id = some n) :
    (∀ id', (es.foldl addEvent l).versions.get? id' =
        if id' = id then some (n + es.length) else l.versions.get? id') ∧
      (es.foldl addEvent l).events = l.events ++ es ∧ (es.foldl addEvent l).log = l.log := by
  induction es generalizing l n with
  | nil =>
    refine ⟨fun id' => ?_, (List.append_nil _).symm, rfl⟩
    split
    · next h => simp [h, hv]
    · rfl
  | cons e es ih =>
    obtain ⟨rfl, rfl⟩ := own e List.mem_cons_self
    obtain ⟨he, hes⟩ := numbered
    have hm : max (l.version e.aggregateId) e.version = n + 1 := by
      rw [Ledger.version, hv, Option.getD_some]
      omega
    rw [List.foldl_cons, addEvent_of_logged logged, hm]
    obtain ⟨hversions, hevents, hlog⟩ := ih
      (l := { l with versions := l.versions.set e.aggregateId (n + 1), events := l.events ++ [e] })
      (fun f hf => own f (List.mem_cons_of_mem _ hf)) hes logged (by simp)
    refine ⟨fun id' => ?_, hevents.trans (List.append_assoc ..), hlog⟩
    rw [hversions, Versions.get?_set]
    split
    · rw [List.length_cons, Int.natCast_add, Int.natCast_one, Int.add_assoc, Int.add_comm 1]
    · rfl

/-- The events of a new transaction do the same, and the first of them records it. -/
theorem foldl_addEvent_of_fresh {e : EventOf σ} {es : List (EventOf σ)} {l : Ledger σ} {id t : Uuid}
    {n : Int} (own : ∀ f ∈ e :: es, f.aggregateId = id ∧ f.transactionId = t)
    (numbered : Event.Numbered n (e :: es)) (fresh : ∀ x ∈ l.log, x.id ≠ t)
    (hv : l.version id = n) :
    (∀ id', ((e :: es).foldl addEvent l).versions.get? id' =
        if id' = id then some (n + (e :: es).length) else l.versions.get? id') ∧
      ((e :: es).foldl addEvent l).events = l.events ++ e :: es ∧
      ((e :: es).foldl addEvent l).log = l.log ++ [⟨t, id, l.nextSequence⟩] := by
  obtain ⟨rfl, rfl⟩ := own e List.mem_cons_self
  obtain ⟨he, hes⟩ := numbered
  have hm : max (l.version e.aggregateId) e.version = n + 1 := by omega
  rw [List.foldl_cons, addEvent_of_fresh fresh, hm]
  obtain ⟨hversions, hevents, hlog⟩ := foldl_addEvent_of_logged
    (l := { l with
      versions := l.versions.set e.aggregateId (n + 1)
      events := l.events ++ [e]
      log := l.log ++ [⟨e.transactionId, e.aggregateId, l.nextSequence⟩] })
    (fun f hf => own f (List.mem_cons_of_mem _ hf)) hes
    ⟨_, List.mem_append_right _ List.mem_cons_self, rfl⟩ (by simp)
  refine ⟨fun id' => ?_, hevents.trans (List.append_assoc ..), hlog⟩
  rw [hversions, Versions.get?_set]
  split
  · rw [List.length_cons, Int.natCast_add, Int.natCast_one, Int.add_assoc, Int.add_comm 1]
  · rfl

/-- So they do to a seeded store what their commit does to the ledger. -/
theorem Retells.absorb_unit {l m : Ledger σ} (h : l.Retells m) {r : Request σ} {n : Nat} {s : σ}
    (busy : r.command.events ≠ []) (fresh : ∀ t ∈ m.log, t.id ≠ r.transactionId)
    (current : m.outdated (r.unit n s) = none) :
    ((r.events n).foldl addEvent l).Retells (m.absorb (r.unit n s)) := by
  have hlen := r.length_events n
  have hv : l.version r.aggregateId = n := (h.version _).trans (outdated_writing.mp current)
  have habs : m.absorb (r.unit n s) = _ := absorb_writing m r.transactionId (r.outcome n s)
  obtain ⟨e, es, hes⟩ : ∃ e es, r.events n = e :: es := by
    refine List.exists_cons_of_ne_nil fun hn => busy ?_
    rw [hn] at hlen
    exact List.length_eq_zero_iff.mp hlen.symm
  have hown : ∀ f ∈ e :: es, f.aggregateId = r.aggregateId ∧ f.transactionId = r.transactionId :=
    fun f hf => Request.of_mem_events (hes ▸ hf)
  obtain ⟨hversions, hevents, hlog⟩ :=
    foldl_addEvent_of_fresh (l := l) hown (hes ▸ r.numbered_events n) (h.log ▸ fresh) hv
  rw [← hes] at hversions hevents hlog
  refine ⟨fun id => ?_, ?_, ?_⟩
  · rw [hversions, habs, Versions.get?_set, h.versions, hlen]
    rfl
  · rw [hevents, habs, h.events]
    rfl
  · rw [hlog, habs, h.log, h.nextSequence]
    rfl

end Ledger

namespace Request

def eventsOf (r : Request σ) (o : Receipt) : List (EventOf σ) :=
  r.events (o.version - r.command.events.length)

@[simp] theorem eventsOf_receipt (r : Request σ) (n : Nat) :
    r.eventsOf (r.receipt n) = r.events n := by
  have hv : (r.receipt n).version - r.command.events.length = n := by
    simp only [receipt]
    omega
  rw [eventsOf, hv]

end Request

namespace Pool
variable {ι : Type} [DecidableEq ι]

def committed (requests : ι → Request σ) (p : Pool ι σ) (order : List ι) : List (EventOf σ) :=
  order.flatMap fun i => ((p.agents i).receipt?.map (requests i).eventsOf).getD []

section
variable {requests : ι → Request σ} {p : Pool ι σ}

/-- An action that commits adds what it commits, and takes nothing back. -/
theorem Settled.committed_act {order : List ι} (hs : p.Settled order)
    (h : p.Sound fun i => .request (requests i)) (x : Action ι σ) :
    ((p.act x).ledger = p.ledger ∧ p.settles x = [] ∧
      committed requests (p.act x) order = committed requests p order) ∨
    ∃ i n s, p.ledger.outdated ((requests i).unit n s) = none ∧ (p.agents i).receipt? = none ∧
      (p.act x).ledger = p.ledger.absorb ((requests i).unit n s) ∧ p.settles x = [i] ∧
      committed requests (p.act x) (order ++ [i]) =
        committed requests p order ++ (requests i).events n := by
  rcases h.act_request x with ⟨hl, hr⟩ | ⟨i, n, s, -, hc, hl, hx, hn, hr⟩
  · exact .inl ⟨hl, settles_eq_nil hr, by simp only [committed, hr]⟩
  · refine .inr ⟨i, n, s, hc, hn, hl, hx, ?_⟩
    rw [committed, List.flatMap_append, List.flatMap_singleton, hr, if_pos rfl, Option.map_some,
      Option.getD_some, Request.eventsOf_receipt]
    refine congrArg (· ++ _) (List.flatMap_congr fun j hj => ?_)
    have hi : i ∉ order := fun hm => by simpa [hn] using (hs.mem i).mp hm
    rw [hr, if_neg (ne_of_mem_of_not_mem hj hi)]

theorem retells_run (distinct : Function.Injective fun i => (requests i).transactionId)
    (acts : List (Action ι σ)) :
    let p₀ := start {} fun i => .request (requests i)
    (∀ i ∈ record settles p₀ acts, (requests i).command.events ≠ []) →
      ((committed requests (p₀.run acts) (record settles p₀ acts)).foldl
        Ledger.addEvent {}).Retells (p₀.run acts).ledger := by
  intro p₀ busy
  induction acts using List.reverseRecOn with
  | nil => exact ⟨fun _ => rfl, rfl, rfl⟩
  | append_singleton acts x ih =>
    have htidy := tidy_requests distinct acts
    rw [record_concat] at busy ⊢
    rw [run_append, run_cons, run_nil]
    have ih := ih fun i hi => busy i (List.mem_append_left _ hi)
    rcases (settled_run requests acts).committed_act htidy.sound x with
      ⟨hl, hx, hes⟩ | ⟨i, n, s, hc, hn, hl, hx, hes⟩
    · rw [hx, List.append_nil, hes, hl]
      exact ih
    · rw [hx] at busy ⊢
      rw [hes, hl, List.foldl_append]
      exact ih.absorb_unit (busy i (List.mem_append_right _ List.mem_cons_self))
        (htidy.fresh (Call.distinct_requests distinct) rfl hn) hc

end

/-- However requests go on side by side, fail or are given up, as long as no command that goes well
is empty: a store that is seeded with the events committed, in the order of their commits, has the
version of every aggregate, the events and the log of the store that they went through. It makes no
difference if the events are added in two parts, wherever they are split. -/
theorem seeded_of_run (requests : ι → Request σ)
    (distinct : Function.Injective fun i => (requests i).transactionId)
    (acts : List (Action ι σ))
    (busy : ∀ i, (((start {} fun i => .request (requests i)).run acts).agents i).receipt?.isSome →
      (requests i).command.events ≠ []) :
    let p₀ := start {} fun i => .request (requests i)
    let order := record settles p₀ acts
    let es := committed requests (p₀.run acts) order
    (p₀.run acts).Settled order ∧
      (Store.empty.seedEvents es).ledger.Retells (p₀.run acts).ledger ∧
      ∀ earlier later, earlier ++ later = es →
        (Store.empty.seedEvents earlier).seedEvents later = Store.empty.seedEvents es := by
  intro p₀ order es
  have hs : (p₀.run acts).Settled order := settled_run requests acts
  refine ⟨hs, ?_, fun earlier later he => ?_⟩
  · exact retells_run distinct acts fun i hi => busy i ((hs.mem i).mp hi)
  · rw [← he, Store.seedEvents_append]

/-- Of the three transactions, the first is split between two seedings. -/
theorem seeded_of_run_signUpsAndIn :
    let p₀ := start {} fun i => .request (signUpsAndIn i)
    let acts := List.replicate 6 (.go 0) ++ (List.replicate 6 [.go 1, .go 2]).flatten
    let es := committed signUpsAndIn (p₀.run acts) (record settles p₀ acts)
    let s := (Store.empty.seedEvents (es.take 1)).seedEvents (es.drop 1)
    (Function.Injective fun i => (signUpsAndIn i).transactionId) ∧
      (∀ i, ((p₀.run acts).agents i).receipt?.isSome → (signUpsAndIn i).command.events ≠ []) ∧
      es.length = 5 ∧ s.ledger.log = logOf signUpsAndIn [0, 1, 2] ∧
      s.ledger.versions.get? (.ofNat 1) = some 3 := by
  intro p₀ acts es s
  have distinct : Function.Injective fun i => (signUpsAndIn i).transactionId := by
    intro i j
    revert i j
    decide
  have busy : ∀ i, ((p₀.run acts).agents i).receipt?.isSome →
      (signUpsAndIn i).command.events ≠ [] := by
    intro i _
    revert i
    decide
  obtain ⟨-, hr, hsplit⟩ := seeded_of_run signUpsAndIn distinct acts busy
  have hs : s = Store.empty.seedEvents es := hsplit _ _ (List.take_append_drop 1 es)
  refine ⟨distinct, busy, by decide +kernel, ?_, ?_⟩
  · rw [hs]
    refine hr.log.trans ?_
    decide +kernel
  · rw [hs]
    refine (hr.versions _).trans ?_
    decide +kernel

end Pool
end Outbox

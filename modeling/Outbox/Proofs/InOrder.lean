import Outbox.Proofs.Coverage
import Outbox.Proofs.Lock
import Outbox.Proofs.Progress

/-! Delivery in order. One consumer is notified of transactions in the order of the log, of some of
them again, while commands commit: up to the checkpoint, the events of one transaction after another
have been published, each of them once. -/
namespace Outbox
variable {σ : Type} [Model σ]

/-- The move of the checkpoint past a transaction and no other. -/
def Transaction.leg (t : Transaction) : Leg := ⟨t.aggregateId, ⟨t.sequence - 1, t.sequence⟩⟩

/-- Whether numbers come in order once all up to one of them have come: whichever is new is the next
one. -/
def Orderly : Int → List Int → Prop
  | _, [] => True
  | m, s :: ss => s ≤ m + 1 ∧ Orderly (max m s) ss

instance Orderly.decidable : (m : Int) → (ss : List Int) → Decidable (Orderly m ss)
  | _, [] => .isTrue trivial
  | m, s :: ss =>
    have := decidable (max m s) ss
    inferInstanceAs (Decidable (s ≤ m + 1 ∧ Orderly (max m s) ss))

theorem orderly_append {m : Int} {ss ts : List Int} :
    Orderly m (ss ++ ts) ↔ Orderly m ss ∧ Orderly (ss.foldl max m) ts := by
  induction ss generalizing m with
  | nil => simp [Orderly]
  | cons s ss ih => simp [Orderly, ih, and_assoc]

/-- What is published by moves past one transaction each: for each that committed events, these. -/
theorem Ledger.Ordered.flatMap_batch {l : Ledger σ} (h : l.Ordered) (hl : l.Sound) (n : Nat) :
    ((l.log.take n).map Transaction.leg).flatMap (fun g => l.batch g.aggregateId g.range) =
      ((l.log.take n).map l.contents).filter fun es => !es.isEmpty := by
  have hb (t : Transaction) (ht : t ∈ l.log.take n) :
      l.batch t.leg.aggregateId t.leg.range = [l.contents t].filter fun es => !es.isEmpty := by
    rw [Ledger.batch, Transaction.leg, h.within_place hl (List.mem_of_mem_take ht)]
    cases hc : (l.contents t).isEmpty <;> simp [hc]
  rw [List.flatMap_map, List.flatMap_congr hb, ← List.filter_flatMap, List.map_eq_flatMap]

namespace Consumer

/-- A consumer that was notified in the order of the log: it has moved the checkpoint past one
transaction after another, and has yet to handle what it was notified of since. -/
structure InTurn (l : Ledger σ) (k : Consumer σ) (gs : List Leg) (noticed handled : List Int) :
    Prop where
  thrives : k.Thrives
  logged : ∀ t ∈ k.pending, t ∈ l.log
  bound : l.checkpoint.last ≤ l.log.length
  legs : gs = (l.log.take l.checkpoint.last.toNat).map Transaction.leg
  highest : l.checkpoint.last = handled.foldl max 0
  noticed : noticed = handled ++ k.pending.map Transaction.sequence

namespace InTurn
variable {l m : Ledger σ} {k k' : Consumer σ} {gs : List Leg} {noticed handled : List Int}

theorem mono (h : k.InTurn l gs noticed handled) (hm : l.Later m) :
    k.InTurn m gs noticed handled where
  thrives := h.thrives
  logged t ht := hm.log.subset (h.logged t ht)
  bound := by
    rw [hm.checkpoint]
    exact Int.le_trans h.bound (Int.ofNat_le.mpr hm.log.length_le)
  legs := by
    have hb := h.bound
    obtain ⟨ts, hts⟩ := hm.log
    rw [hm.checkpoint, ← hts, List.take_append_of_le_length (by omega)]
    exact h.legs
  highest := hm.checkpoint ▸ h.highest
  noticed := h.noticed

theorem notify (h : k.InTurn l gs noticed handled) {t : Transaction} (ht : t ∈ l.log) :
    InTurn l { k with source.arrivals := k.source.arrivals ++ [⟨0, .ok (some t)⟩] } gs
      (noticed ++ [t.sequence]) handled where
  thrives := by
    refine ⟨fun x hx => ?_, h.thrives.going, h.thrives.round⟩
    rcases List.mem_append.mp hx with hx | hx
    · exact h.thrives.answered x hx
    · exact ⟨t, by rw [List.mem_singleton.mp hx]⟩
  logged u hu := by
    rw [pending_notify] at hu
    rcases List.mem_append.mp hu with hu | hu
    · exact h.logged u hu
    · exact List.mem_singleton.mp hu ▸ ht
  bound := h.bound
  legs := h.legs
  highest := h.highest
  noticed := by
    rw [pending_notify, h.noticed, List.map_append, List.append_assoc]
    rfl

theorem stays (h : k.InTurn l gs noticed handled) (thrives : k'.Thrives)
    (pending : k'.pending = k.pending) : k'.InTurn l gs noticed handled where
  thrives := thrives
  logged := pending ▸ h.logged
  bound := h.bound
  legs := h.legs
  highest := h.highest
  noticed := pending ▸ h.noticed

section
variable {t : Transaction} (next : k.pending = t :: k'.pending)
include next

theorem again (h : k.InTurn l gs noticed handled) (thrives : k'.Thrives)
    (behind : t.sequence ≤ l.checkpoint.last) :
    k'.InTurn l gs noticed (handled ++ [t.sequence]) where
  thrives := thrives
  logged u hu := h.logged u (next ▸ List.mem_cons_of_mem t hu)
  bound := h.bound
  legs := h.legs
  highest := by
    rw [List.foldl_append, ← h.highest]
    exact (Int.max_eq_left behind).symm
  noticed := by
    rw [h.noticed, next, List.map_cons, List.append_assoc]
    rfl

theorem sequence_eq (h : k.InTurn l gs noticed handled) (orderly : Orderly 0 noticed)
    (ahead : l.checkpoint.last < t.sequence) : t.sequence = l.checkpoint.last + 1 := by
  rw [h.noticed, next, orderly_append, ← h.highest] at orderly
  have hs := orderly.2.1
  omega

theorem first (h : k.InTurn l gs noticed handled) (hl : l.Sound) (orderly : Orderly 0 noticed)
    (thrives : k'.Thrives) (ahead : l.checkpoint.last < t.sequence) :
    k'.InTurn { l with checkpoint := ⟨t.sequence⟩ }
      (gs ++ [⟨t.aggregateId, ⟨l.checkpoint.last, t.sequence⟩⟩]) noticed
      (handled ++ [t.sequence]) where
  thrives := thrives
  logged u hu := h.logged u (next ▸ List.mem_cons_of_mem t hu)
  bound := (hl.sequence_mem (h.logged t (next ▸ List.mem_cons_self))).2
  legs := by
    have ht := h.logged t (next ▸ List.mem_cons_self)
    have hs := h.sequence_eq next orderly ahead
    -- so the transaction is the first in the log that the checkpoint has not gone past
    obtain ⟨n, hn⟩ := List.mem_iff_getElem?.mp ht
    have hp := hl.place n t hn
    have hc : l.checkpoint.last.toNat = n := by omega
    have hc' : t.sequence.toNat = n + 1 := by omega
    have hg : t.leg = ⟨t.aggregateId, ⟨l.checkpoint.last, t.sequence⟩⟩ := by
      rw [Transaction.leg, show t.sequence - 1 = l.checkpoint.last by omega]
    simp only [hc']
    rw [List.take_add_one, hn, List.map_append, h.legs, hc, Option.toList_some, List.map_singleton,
      hg]
  highest := by
    rw [List.foldl_append, ← h.highest]
    exact (Int.max_eq_right (Int.le_of_lt ahead)).symm
  noticed := by
    rw [h.noticed, next, List.map_cons, List.append_assoc]
    rfl

end

end InTurn
end Consumer

def Action.Accepts {ι : Type} : Action (Option ι) σ → Prop
  | .step none peers _ => ∀ batch, peers.publish batch = .ok ()
  | _ => True

namespace Pool
variable {ι : Type} [DecidableEq ι]

def noticed (p : Pool (Option ι) σ) : Action (Option ι) σ → List Int
  | .notify none place => (p.ledger.log[place]?.map Transaction.sequence).toList
  | _ => []

def handled (p : Pool (Option ι) σ) (x : Action (Option ι) σ) : List Int :=
  match (p.agents none).round?, ((p.act x).agents none).round? with
  | some r, none => [r.transaction.sequence]
  | _, _ => []

def isBetween (p : Pool (Option ι) σ) : Bool := (p.agents none).round?.isNone

section
variable {p : Pool (Option ι) σ} {x : Action (Option ι) σ}

theorem handled_eq_nil
    (busy : (p.agents none).round?.isSome → ((p.act x).agents none).round?.isSome) :
    p.handled x = [] := by
  unfold handled
  split
  · next here free => simp [here, free] at busy
  · rfl

theorem handled_eq {r : Round σ} (here : (p.agents none).round? = some r)
    (free : ((p.act x).agents none).round? = none) : p.handled x = [r.transaction.sequence] := by
  rw [handled, here, free]

end

/-- What is true while one consumer that is notified in the order of the log relays beside
requests. -/
structure Delivering (cap : Uuid → Int) (requests : ι → Request σ) (p : Pool (Option ι) σ)
    (told : List (List (EventOf σ))) (gs : List Leg) (ns hs : List Int) : Prop where
  relays : Relays cap requests p told gs
  turn : ∃ k, p.agents none = .consumer k ∧ k.InTurn p.ledger gs ns hs

section
variable {cap : Uuid → Int} {requests : ι → Request σ} {p : Pool (Option ι) σ}
  {told : List (List (EventOf σ))} {gs : List Leg} {ns hs : List Int}

omit [DecidableEq ι] in
theorem distinct_consuming (cap : Uuid → Int)
    (distinct : Function.Injective fun i => (requests i).transactionId) :
    Call.Distinct (consuming cap requests) := by
  rintro (_ | i) (_ | j) r s ⟨⟩ ⟨⟩ he
  exact congrArg some (distinct he)

omit [DecidableEq ι] in
theorem delivering_start (cap : Uuid → Int) (requests : ι → Request σ) :
    Delivering cap requests (start {} (consuming cap requests)) [] [] [] [] where
  relays := relays_start cap requests
  turn := by
    refine ⟨_, rfl, ⟨?_, ?_, ?_⟩, ?_, Int.le_refl 0, rfl, rfl, rfl⟩
    · intro x hx
      cases hx
    · rintro r ⟨⟩
    · rintro r ⟨⟩
    · intro t ht
      cases ht

omit [DecidableEq ι] in
/-- A round of the consumer finds the checkpoint free: nobody else ever holds it. -/
theorem Delivering.free_of_opened (h : Delivering cap requests p told gs ns hs)
    (guarded : p.Guarded) (modest : p.Modest) {k : Consumer σ} (hk : p.agents none = .consumer k)
    {r : Round σ} {u : UnitOfWork σ} (hr : k.round? = some r) (hu : r.stage = .opened u) :
    p.world.store.checkpointHeld = false := by
  by_contra held
  obtain ⟨_ | i, hi⟩ := guarded.someone (by simpa using held)
  · obtain ⟨_, hk', hd⟩ := h.relays.delivers
    cases hk.symm.trans hk'
    have hh := (hd.relays.sane r hr).holds
    rw [hu] at hh
    obtain rfl : u = {} := hh
    have hs : k.stage = .relaying r := by
      cases hs : k.stage <;> simp_all [Consumer.round?]
    rw [hk, Agent.holdsCheckpoint, Agent.unit?, Consumer.unit?_relaying hs, hu] at hi
    cases hi
  · obtain ⟨y, hy, -⟩ := h.relays.sound.agent_request (i := some i) rfl
    have hm : UnitOfWork.holds y.stage.unit? = false := modest (some i) y hy
    rw [hy] at hi
    exact absurd (hm.symm.trans hi) (by simp)

theorem Delivering.aside [LawfulModel σ] (h : Delivering cap requests p told gs ns hs)
    (distinct : Function.Injective fun i => (requests i).transactionId)
    {x : Action (Option ι) σ} (hx : x.isOrdinary = true)
    (later : p.ledger.Later (p.act x).ledger)
    (consumer : (p.act x).agents none = p.agents none) (unnoticed : p.noticed x = []) :
    Delivering cap requests (p.act x) (told ++ p.published x) (gs ++ p.legs x)
      (ns ++ p.noticed x) (hs ++ p.handled x) where
  relays := h.relays.act distinct hx
  turn := by
    obtain ⟨k, hk, ht⟩ := h.turn
    rw [legs_eq_nil later.checkpoint, unnoticed, handled_eq_nil (by simp [consumer]),
      List.append_nil, List.append_nil, List.append_nil]
    exact ⟨k, consumer.trans hk, ht.mono later⟩

theorem Delivering.notify [LawfulModel σ] (h : Delivering cap requests p told gs ns hs)
    (distinct : Function.Injective fun i => (requests i).transactionId) (place : Nat) :
    Delivering cap requests (p.act (.notify none place)) (told ++ p.published (.notify none place))
      (gs ++ p.legs (.notify none place)) (ns ++ p.noticed (.notify none place))
      (hs ++ p.handled (.notify none place)) where
  relays := h.relays.act distinct rfl
  turn := by
    obtain ⟨k, hk, ht⟩ := h.turn
    have hl := p.ledger_notify none place
    rw [legs_eq_nil (congrArg Ledger.checkpoint hl), List.append_nil, hl]
    cases hp : p.ledger.log[place]? with
    | none =>
      have hx : p.act (.notify none place) = p := by simp only [Pool.act, hp]
      have hh : p.handled (.notify none place) = [] := handled_eq_nil (by simp [hx])
      simp only [hh, noticed, hx, hp, Option.map_none, Option.toList_none, List.append_nil]
      exact ⟨k, hk, ht⟩
    | some t =>
      have hx : (p.act (.notify none place)).agents none = (Agent.consumer k).notify t := by
        simp only [Pool.act, hp, Function.update_self, hk]
      have hh : p.handled (.notify none place) = [] := handled_eq_nil fun hb => by
        rw [hx]
        rw [hk] at hb
        exact hb
      simp only [hh, noticed, hp, Option.map_some, Option.toList_some, List.append_nil]
      exact ⟨_, hx, ht.notify (List.mem_of_getElem? hp)⟩

theorem Delivering.step_consumer [LawfulModel σ] (h : Delivering cap requests p told gs ns hs)
    (distinct : Function.Injective fun i => (requests i).transactionId)
    (ordered : p.ledger.Ordered) (guarded : p.Guarded) (modest : p.Modest) {peers : Peers σ}
    (accepts : ∀ batch, peers.publish batch = .ok ()) (telling : p.ledger.Telling)
    (orderly : Orderly 0 ns) (stop : Bool) :
    let x : Action (Option ι) σ := .step none peers stop
    Delivering cap requests (p.act x) (told ++ p.published x) (gs ++ p.legs x)
      (ns ++ p.noticed x) (hs ++ p.handled x) := by
  intro x
  refine ⟨h.relays.act distinct rfl, ?_⟩
  obtain ⟨k, hk, ht⟩ := h.turn
  obtain ⟨k', hk', hd⟩ := h.relays.delivers
  cases hk.symm.trans hk'
  have hl := h.relays.sound.ledger
  have he : p.act x = _ := act_step_consumer hk peers stop
  have hx : (p.act x).agents none = .consumer (k.step peers stop p.world).2 := by simp [he]
  have hw : (p.act x).ledger = (k.step peers stop p.world).1.store.ledger := by
    rw [he]
    rfl
  have hround : p.roundOf x = k.round? := by rw [roundOf, hk]; rfl
  have hkr : (p.agents none).round? = k.round? := by rw [hk]; rfl
  have hkr' : ((p.act x).agents none).round? = (k.step peers stop p.world).2.round? := by
    rw [hx]
    rfl
  obtain ⟨thrives, hh⟩ := ht.thrives.step h.relays.calm hl h.relays.faithful telling ordered
    accepts (fun _ _ => h.free_of_opened guarded modest hk) hd.relays
    (k.step_move peers stop p.world)
  refine ⟨_, hx, ?_⟩
  rw [← hw] at hh
  rw [show p.noticed x = [] from rfl, List.append_nil]
  generalize hm : (p.act x).ledger = m at hh
  cases hh with
  | stays pending busy =>
    have hg : p.legs x = [] := legs_eq_nil (congrArg Ledger.checkpoint hm)
    have hn : p.handled x = [] := handled_eq_nil (hkr ▸ hkr' ▸ busy)
    rw [hg, hn, List.append_nil, List.append_nil]
    exact ht.stays thrives pending
  | again r here free next behind =>
    have hg : p.legs x = [] := legs_eq_nil (congrArg Ledger.checkpoint hm)
    rw [hg, handled_eq (hkr.trans here) (hkr'.trans free), List.append_nil]
    exact ht.again next thrives behind
  | first r here free next ahead =>
    rw [legs_eq_of_ahead (hround.trans here) ahead (congrArg Ledger.checkpoint hm),
      handled_eq (hkr.trans here) (hkr'.trans free)]
    exact ht.first next hl orderly thrives ahead

theorem Delivering.act [LawfulModel σ] (h : Delivering cap requests p told gs ns hs)
    (distinct : Function.Injective fun i => (requests i).transactionId)
    (tidy : p.Tidy (consuming cap requests)) (guarded : p.Guarded) (modest : p.Modest)
    {x : Action (Option ι) σ} (hx : x.isOrdinary = true) (accepts : x.Accepts)
    (telling : p.ledger.Telling) (orderly : Orderly 0 ns) :
    Delivering cap requests (p.act x) (told ++ p.published x) (gs ++ p.legs x)
      (ns ++ p.noticed x) (hs ++ p.handled x) := by
  cases x with
  | step i peers stop =>
    cases i with
    | none =>
      exact h.step_consumer distinct tidy.ordered guarded modest accepts telling orderly stop
    | some i =>
      have hd := distinct_consuming cap distinct
      have later := (tidy.step_request hd (i := some i) rfl peers stop).1
      exact h.aside distinct hx later (by simp [Pool.act]) rfl
  | cancel i =>
    cases i with
    | none => cases hx
    | some i =>
      have hl := (h.relays.sound.cancel_request (i := some i) rfl).1
      exact h.aside distinct hx (hl ▸ .refl _) (by simp [Pool.act]) rfl
  | notify i place =>
    cases i with
    | none => exact h.notify distinct place
    | some i =>
      have hl := p.ledger_notify (some i) place
      refine h.aside distinct hx (hl ▸ .refl _) ?_ rfl
      simp only [Pool.act]
      split <;> simp
  | fail operations => cases hx

theorem delivering_run [LawfulModel σ] (cap : Uuid → Int)
    (distinct : Function.Injective fun i => (requests i).transactionId)
    {acts : List (Action (Option ι) σ)} (ordinary : ∀ x ∈ acts, x.isOrdinary = true)
    (accepting : ∀ x ∈ acts, x.Accepts) :
    let p₀ := start {} (consuming cap requests)
    (p₀.run acts).ledger.Telling → Orderly 0 (record noticed p₀ acts) →
      Delivering cap requests (p₀.run acts) (record published p₀ acts) (record legs p₀ acts)
        (record noticed p₀ acts) (record handled p₀ acts) := by
  intro p₀ telling orderly
  induction acts using List.reverseRecOn with
  | nil => exact delivering_start cap requests
  | append_singleton acts x ih =>
    have tidy := (tidy_start (consuming cap requests)).run (distinct_consuming cap distinct) acts
    have guarded := (guarded_start (consuming cap requests)).run acts
    have modest := (modest_start {} (consuming cap requests)).run acts
    obtain ⟨hs, hq⟩ := tidy.sound.act x
    rw [run_append] at telling
    -- what can be told of all events at the end could be told of fewer before
    have telling' := telling.of_grows hs.grows tidy.sound.ledger.toDense hq.ledger.toDense
    rw [record_concat, orderly_append] at orderly
    rw [run_append, record_concat, record_concat, record_concat, record_concat]
    have hx : x ∈ acts ++ [x] := List.mem_append_right _ (List.mem_singleton_self x)
    have hd := ih (fun y hy => ordinary y (List.mem_append_left _ hy))
      (fun y hy => accepting y (List.mem_append_left _ hy)) telling' orderly.1
    exact hd.act distinct tidy guarded modest (ordinary x hx) (accepting x hx) telling' orderly.1

end

/-- However commands commit beside a consumer that is notified of transactions in the order of the
log, of some of them again: if there is something to tell of every event and the broker takes it,
then between two rounds the checkpoint is the highest place that has been handled, and what has been
published is a batch for each transaction up to it that committed events, one after another: one
integration event for each of these events, in the order of their places and versions. -/
theorem in_order_of_run [LawfulModel σ] (cap : Uuid → Int) (requests : ι → Request σ)
    (distinct : Function.Injective fun i => (requests i).transactionId)
    (acts : List (Action (Option ι) σ)) (ordinary : ∀ x ∈ acts, x.isOrdinary = true)
    (accepting : ∀ x ∈ acts, x.Accepts) :
    let p₀ := start {} (consuming cap requests)
    let p := p₀.run acts
    let l := p.ledger
    let relayed := l.events.filter (l.place · ≤ l.checkpoint.last)
    l.Telling → Orderly 0 (record noticed p₀ acts) → p.isBetween = true →
      record handled p₀ acts <+: record noticed p₀ acts ∧
      l.checkpoint.last = (record handled p₀ acts).foldl max 0 ∧
      p.world.batches.map (List.map .ok) =
        (((l.log.take l.checkpoint.last.toNat).map l.contents).filter fun es => !es.isEmpty).map
          (List.map l.tell) ∧
      p.world.published.map .ok = relayed.map l.tell ∧
      relayed.Pairwise fun e f =>
        l.place e < l.place f ∨ l.place e = l.place f ∧ e.version < f.version := by
  intro p₀ p l relayed telling orderly between
  have h := delivering_run cap distinct ordinary accepting telling orderly
  obtain ⟨k, hk, ht⟩ := h.turn
  obtain ⟨_, hk', hd⟩ := h.relays.delivers
  cases hk.symm.trans hk'
  have hl : l.Sound := h.relays.sound.ledger
  have ho : l.Ordered :=
    ((tidy_start (consuming cap requests)).run (distinct_consuming cap distinct) acts).ordered
  have hn : 0 ≤ l.checkpoint.last := hd.chain.le
  have hsent : k.sent l = [] := by
    rw [isBetween, hk, Option.isNone_iff_eq_none] at between
    rw [Consumer.sent, show k.round? = none from between]
  have hbatches := hd.batches
  rw [hd.parts, hsent, List.append_nil, ht.legs, ho.flatMap_batch hl] at hbatches
  refine ⟨?_, ht.highest, hbatches, ?_, (ho.pairwise_version hl).filter _⟩
  · rw [ht.noticed]
    exact List.prefix_append _ _
  · have hb : l.checkpoint.last ≤ l.log.length := ht.bound
    have hcontents := ho.flatMap_contents hl (n := l.checkpoint.last.toNat) (by omega)
    rw [Int.toNat_of_nonneg hn] at hcontents
    calc p.world.published.map .ok = (p.world.batches.map (List.map .ok)).flatten :=
          List.map_flatten
      _ = ((l.log.take l.checkpoint.last.toNat).map l.contents).flatten.map l.tell := by
          rw [hbatches, ← List.map_flatten, List.flatten_filter_not_isEmpty]
      _ = relayed.map l.tell := by rw [← List.flatMap_def, hcontents]

def errands : Fin 3 → Request User
  | 0 => .ofUser 1 1 (User.signUp "a@example.com")
  | 1 => .ofUser 1 2 (Command.ofPayloads User "user.idle" [])
  | 2 => .ofUser 2 3 (User.signUp "b@example.com")

/-- The second user signs up in the middle of the round for the first one, of whose transaction the
consumer is notified once more later on. -/
def onceMore : List (Action (Option (Fin 3)) User) :=
  List.replicate 6 (.go (some 0)) ++ .notify none 0 :: List.replicate 5 (.go none) ++
    List.replicate 6 (.go (some 1)) ++ List.replicate 6 (.go (some 2)) ++
      .notify none 1 :: .notify none 0 :: .notify none 2 :: List.replicate 24 (.go none)

/-- Of three transactions, one without events, two batches are published. -/
theorem in_order_of_run_onceMore :
    let p₀ : Pool (Option (Fin 3)) User := start {} (consuming (fun _ => User.snapshotCap) errands)
    let p := p₀.run onceMore
    let l := p.ledger
    (∀ x ∈ onceMore, x.isOrdinary = true) ∧ (∀ x ∈ onceMore, x.Accepts) ∧ l.Telling ∧
      Orderly 0 (record noticed p₀ onceMore) ∧ p.isBetween = true ∧
      record handled p₀ onceMore = [1, 2, 1, 3] ∧ p.world.batches.length = 2 ∧
      l.checkpoint.last = (record handled p₀ onceMore).foldl max 0 ∧
      p.world.batches.map (List.map .ok) =
        (((l.log.take l.checkpoint.last.toNat).map l.contents).filter fun es => !es.isEmpty).map
          (List.map l.tell) := by
  have distinct : Function.Injective fun i => (errands i).transactionId := by
    intro i j
    revert i j
    decide
  have ordinary : ∀ x ∈ onceMore, x.isOrdinary = true := by decide
  have accepting : ∀ x ∈ onceMore, x.Accepts := by
    intro x hx
    simp only [onceMore, List.mem_append, List.mem_cons, List.mem_replicate] at hx
    rcases hx with (((⟨-, rfl⟩ | rfl | ⟨-, rfl⟩) | ⟨-, rfl⟩) | ⟨-, rfl⟩) | rfl | rfl | rfl |
      ⟨-, rfl⟩ <;> first | trivial | exact fun _ => rfl
  obtain ⟨-, highest, batches, -, -⟩ := in_order_of_run (fun _ => User.snapshotCap) errands distinct
    onceMore ordinary accepting (by decide) (by decide) (by decide)
  exact ⟨ordinary, accepting, by decide, by decide, by decide, by decide, by decide, highest,
    batches⟩

end Pool
end Outbox

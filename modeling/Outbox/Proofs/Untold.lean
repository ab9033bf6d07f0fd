import Outbox.Proofs.Batch
import Outbox.Proofs.Commute
import Outbox.Proofs.Progress

/-! What keeps a round of the relay from its end. Once a store has been reached by commands and
rounds, there is always a snapshot to rebuild from, nothing is missing before the events that are
due and all of them can be replayed; so only an event of which nothing can be told is in its way. -/
namespace Outbox

theorem mapM_cases {α β ε : Type} (f : α → Except ε β) (xs : List α) :
    (∃ e front x back, xs.mapM f = .error e ∧ xs = front ++ x :: back ∧
      (∀ y ∈ front, ∃ z, f y = .ok z) ∧ f x = .error e) ∨
    ∃ zs, xs.mapM f = .ok zs ∧ ∀ x ∈ xs, ∃ z, f x = .ok z := by
  induction xs with
  | nil => exact .inr ⟨[], rfl, by simp⟩
  | cons x xs ih =>
    cases hx : f x with
    | error e =>
      refine .inl ⟨e, [], x, xs, ?_, rfl, by simp, hx⟩
      simp [List.mapM_cons, hx, bind, Except.bind]
    | ok b =>
      have grown {ys : List α} (h : ∀ y ∈ ys, ∃ z, f y = .ok z) : ∀ y ∈ x :: ys, ∃ z, f y = .ok z :=
        List.forall_mem_cons.mpr ⟨⟨b, hx⟩, h⟩
      rcases ih with ⟨e, front, y, back, hm, rfl, told, hy⟩ | ⟨zs, hm, told⟩
      · refine .inl ⟨e, x :: front, y, back, ?_, rfl, grown told, hy⟩
        simp only [List.mapM_cons, hx, hm, bind, Except.bind]
      · refine .inr ⟨b :: zs, ?_, grown told⟩
        simp only [List.mapM_cons, hx, hm, bind, Except.bind, pure, Except.pure]

variable {σ : Type} [Model σ]

namespace Ledger

/-- What an aggregate that was rebuilt up to events of its stream announces is what is to be learnt
of each of them, or the first error. -/
theorem Replayable.announce {l : Ledger σ} (hr : l.Replayable) (hd : l.Dense) {a : Aggregate σ}
    {n : Nat} {es : List (EventOf σ)} (hv : a.version = n) (hs : l.stateAt a.id n = .ok a.state)
    (hn : Event.Numbered n es) (he : ∀ e ∈ es, e ∈ l.stream a.id) :
    (a.announce es).2 = es.mapM l.tell := by
  induction es generalizing a n with
  | nil => rfl
  | cons e es ih =>
    obtain ⟨hev, hes⟩ := hn
    have hm : e ∈ l.stream a.id := he e List.mem_cons_self
    have hid : e.aggregateId = a.id := (mem_stream.mp hm).2
    obtain ⟨s, hs'⟩ := hr.stateAt a.id (n + 1)
    have ha : Model.apply a.state e = .ok s := by
      rw [← stateAt_succ hs (hd.getElem?_stream hm hev), hs']
    have ht := hd.tell_eq (n := n + 1) (by omega) (hid ▸ hs')
    rw [hid] at ht
    have hi := ih (a := { a with state := s, version := e.version, changes := a.changes ++ [e] })
      (n := n + 1) (by simpa using hev) hs' (by simpa using hes)
      fun f hf => he f (List.mem_cons_of_mem e hf)
    simp only [Aggregate.announce, Aggregate.advance, hev, hv, if_true, ha,
      Aggregate.integrationEvent] at hi ⊢
    cases hp : Model.integration s e.eventType with
    | error x => simp [List.mapM_cons, ht, hp, bind, Except.bind]
    | ok payload =>
      simp only [hp] at ht ⊢
      simp only [List.mapM_cons, ht, ← hi, bind, Except.bind, pure, Except.pure]
      split <;> next h => simp only [h]

theorem Replayable.told {l : Ledger σ} (hr : l.Replayable) (hl : l.Sound) (ho : l.Ordered)
    {t : Transaction} {e : EventOf σ} {es : List (EventOf σ)} (h : e :: es = l.due t) :
    l.told t.aggregateId e.version (e :: es) = (e :: es).mapM l.tell := by
  have hn := Round.numbered_due hl ho h
  have he : ∀ f ∈ e :: es, f ∈ l.stream t.aggregateId := fun f hf => (mem_due.mp (h ▸ hf)).1
  have hv := (hl.numbered t.aggregateId).bounds (he e List.mem_cons_self)
  obtain ⟨n, hn'⟩ : ∃ n : Nat, e.version - 1 = n := ⟨(e.version - 1).toNat, by omega⟩
  obtain ⟨s, hs⟩ := hr.stateAt t.aggregateId n
  rw [Ledger.told, hn', Int.toNat_natCast, hs]
  exact hr.announce hl.toDense rfl hs (hn' ▸ hn) he

/-- While the broker takes whatever it gets, a round for a transaction beyond the checkpoint fails
with the first error that there is in telling of what is due, with nothing published. -/
theorem relay_cases {l : Ledger σ} (hr : l.Replayable) (hl : l.Sound) (ho : l.Ordered)
    {peers : Peers σ} (accepts : ∀ batch, peers.publish batch = .ok ()) {t : Transaction}
    (ahead : l.checkpoint.last < t.sequence) :
    (∃ x front e back, l.relay peers t = (.error x, []) ∧ l.due t = front ++ e :: back ∧
      (∀ f ∈ front, ∃ i, l.tell f = .ok i) ∧ l.tell e = .error x) ∨
    (∃ n batches, l.relay peers t = (.ok (.relayed n t.sequence), batches) ∧
      ∀ e ∈ l.due t, ∃ i, l.tell e = .ok i) := by
  simp only [relay, if_neg (Int.not_le.mpr ahead)]
  cases hd : l.due t with
  | nil => exact .inr ⟨0, [], rfl, by simp⟩
  | cons e es =>
    simp only [hr.told hl ho hd.symm]
    rcases mapM_cases l.tell (e :: es) with
      ⟨x, front, f, back, hm, hs, told, hf⟩ | ⟨batch, hm, told⟩
    · rw [hm]
      exact .inl ⟨x, front, f, back, rfl, hs, told, hf⟩
    · rw [hm]
      exact .inr ⟨batch.length, [batch], by simp only [deliver, accepts], told⟩

end Ledger

/-! ### Users -/

namespace Ledger

/-- A committed event of the aggregate of a transaction is due with it and cannot be told: its type
is unknown, or the user whom it and the events before it lead to has no address. -/
structure Hinders (l : Ledger User) (t : Transaction) (e : EventOf User) : Prop where
  committed : e ∈ l.events
  own : e.aggregateId = t.aggregateId
  due : ∃ n, l.sequenceOf e.transactionId = some n ∧ l.checkpoint.last < n ∧ n ≤ t.sequence
  untold : UserEvent.isKnownType e.eventType = false ∨
    ∃ u : User, Model.replay Model.initial
      ((l.stream e.aggregateId).filter fun f => f.version ≤ e.version) = .ok u ∧ u.email = none

variable {l : Ledger User} {t : Transaction} {e : EventOf User}

theorem mem_due_iff : e ∈ l.due t ↔ (e ∈ l.events ∧ e.aggregateId = t.aggregateId) ∧
    ∃ n, l.sequenceOf e.transactionId = some n ∧ l.checkpoint.last < n ∧ n ≤ t.sequence := by
  rw [mem_due, mem_stream, isInRange]
  cases l.sequenceOf e.transactionId with
  | none => simp
  | some n => simp [LogRange.contains_iff]

theorem tell_eq_error_iff (hr : l.Replayable) (hd : l.Dense) (he : e ∈ l.events) {x : Error} :
    l.tell e = .error x ↔
      (UserEvent.isKnownType e.eventType = false ∨
        ∃ u : User, Model.replay Model.initial
          ((l.stream e.aggregateId).filter fun f => f.version ≤ e.version) = .ok u ∧
            u.email = none) ∧
      x = User.untold e.eventType := by
  have hv := (hd.numbered e.aggregateId).bounds (mem_stream.mpr ⟨he, rfl⟩)
  obtain ⟨n, hn⟩ : ∃ n : Nat, e.version = 0 + n := ⟨e.version.toNat, by omega⟩
  obtain ⟨u, hu⟩ := hr.stateAt e.aggregateId n
  rw [stateAt, ← (hd.numbered e.aggregateId).filter_upTo n, ← hn] at hu
  simp only [tell, hu, Except.ok.injEq, exists_eq_left']
  rw [← User.integration_eq_error_iff (u := u)]
  cases (Model.integration u e.eventType : Except Error UserIntegration) <;> simp

theorem hinders_iff (hr : l.Replayable) (hd : l.Dense) :
    l.Hinders t e ↔ e ∈ l.due t ∧ ∃ x, l.tell e = .error x := by
  constructor
  · intro h
    exact ⟨mem_due_iff.mpr ⟨⟨h.committed, h.own⟩, h.due⟩, _,
      (tell_eq_error_iff hr hd h.committed).mpr ⟨h.untold, rfl⟩⟩
  · rintro ⟨hm, x, hx⟩
    obtain ⟨⟨committed, own⟩, due⟩ := mem_due_iff.mp hm
    exact ⟨committed, own, due, ((tell_eq_error_iff hr hd committed).mp hx).1⟩

/-- A round for a transaction beyond the checkpoint fails with what is wrong with the first event
that hinders it. -/
theorem relay_user (hr : l.Replayable) (hl : l.Sound) (ho : l.Ordered) {peers : Peers User}
    (accepts : ∀ batch, peers.publish batch = .ok ()) (ahead : l.checkpoint.last < t.sequence) :
    (∃ e, l.relay peers t = (.error (User.untold e.eventType), []) ∧ l.Hinders t e ∧
      ∀ f, l.Hinders t f → e.version ≤ f.version) ∨
    (∃ n batches, l.relay peers t = (.ok (.relayed n t.sequence), batches) ∧
      ∀ e, ¬ l.Hinders t e) := by
  rcases relay_cases hr hl ho accepts ahead with
    ⟨x, front, e, back, hrelay, hsplit, told, he⟩ | ⟨n, batches, hrelay, told⟩
  · have hm : e ∈ l.due t := by simp [hsplit]
    obtain ⟨-, rfl⟩ := (tell_eq_error_iff hr hl.toDense (mem_due_iff.mp hm).1.1).mp he
    refine .inl ⟨e, hrelay, (hinders_iff hr hl.toDense).mpr ⟨hm, _, he⟩, fun f hf => ?_⟩
    obtain ⟨hf, y, hy⟩ := (hinders_iff hr hl.toDense).mp hf
    have hsorted : (l.due t).Pairwise fun e f => e.version < f.version :=
      (hl.numbered t.aggregateId).pairwise.filter _
    rw [hsplit] at hf hsorted
    rcases List.mem_append.mp hf with hf | hf
    · obtain ⟨i, hi⟩ := told f hf
      cases hi.symm.trans hy
    · rcases List.mem_cons.mp hf with rfl | hf
      · exact Int.le_refl _
      · exact Int.le_of_lt (List.rel_of_pairwise_cons (List.pairwise_append.mp hsorted).2.1 hf)
  · refine .inr ⟨n, batches, hrelay, fun e he => ?_⟩
    obtain ⟨hm, x, hx⟩ := (hinders_iff hr hl.toDense).mp he
    obtain ⟨i, hi⟩ := told e hm
    cases hi.symm.trans hx

end Ledger

namespace Pool
variable {ι : Type} [DecidableEq ι]

/-- Whatever has happened before, with nothing made to fail from then on: a round for a transaction
beyond the checkpoint, which nobody holds, whose batch the broker would take, fails if and only if
an event hinders it. Then it fails with what is wrong with the first of these by version, a matter
of conversion, and leaves everything as it was; else it relays. -/
theorem relay_fails_iff_of_run {calls : ι → Call User} (distinct : Call.Distinct calls)
    {acts : List (Action ι User)} {peers : Peers User}
    (accepts : ∀ batch, peers.publish batch = .ok ()) (cap : Uuid → Int) {t : Transaction}
    (calm : ((start {} calls).run acts).world.store.failing = [])
    (unlocked : ((start {} calls).run acts).world.store.checkpointHeld = false)
    (ahead : ((start {} calls).run acts).ledger.checkpoint.last < t.sequence) :
    let w := ((start {} calls).run acts).world
    let l := w.store.ledger
    let round : Round User := { transaction := t, provider := fun id => .new id (cap id) }
    let next := round.complete peers w
    ((∃ x, next.2.stage = .ended (.error x)) ↔ ∃ e, l.Hinders t e) ∧
      (∀ x, next.2.stage = .ended (.error x) →
        (∃ e, l.Hinders t e ∧ (∀ f, l.Hinders t f → e.version ≤ f.version) ∧
          x = User.untold e.eventType ∧ ∃ detail, x = .conversion detail) ∧
        next.1.batches = w.batches ∧ next.1.store = w.store) ∧
      (∀ id expected actual,
        next.2.stage ≠ .ended (.error (.invalidVersion id expected actual))) ∧
      ((¬ ∃ e, l.Hinders t e) → ∃ n, next.2.stage = .ended (.ok (.relayed n t.sequence))) := by
  intro w l round next
  have hl : l.Sound := sound_run calls acts
  have hr : l.Replayable := replayable_run calls acts
  have ho : l.Ordered := ((tidy_start calls).run distinct acts).ordered
  have hends : Round.Ends w (l.relay peers t).1 (w.batches ++ (l.relay peers t).2) next :=
    Round.ends_complete cap peers calm unlocked hl (faithful_run calls acts) hr
  rcases Ledger.relay_user hr hl ho accepts ahead with
    ⟨e, hrelay, he, first⟩ | ⟨n, batches, hrelay, none⟩
  · rw [hrelay] at hends
    obtain ⟨detail, hdetail⟩ := User.untold_eq_conversion e.eventType
    refine ⟨⟨fun _ => ⟨e, he⟩, fun _ => ⟨_, hends.stage⟩⟩, fun x hx => ?_, fun id v w hx => ?_,
      fun hn => absurd ⟨e, he⟩ hn⟩
    · cases hends.stage.symm.trans hx
      refine ⟨⟨e, he, first, rfl, detail, hdetail⟩, ?_, hends.store⟩
      rw [hends.batches, List.append_nil]
    · rw [hends.stage, hdetail] at hx
      simp at hx
  · rw [hrelay] at hends
    refine ⟨⟨fun ⟨x, hx⟩ => ?_, fun ⟨e, he⟩ => absurd he (none e)⟩, fun x hx => ?_,
      fun id v w hx => ?_, fun _ => ⟨n, hends.stage⟩⟩
    · cases hends.stage.symm.trans hx
    · cases hends.stage.symm.trans hx
    · cases hends.stage.symm.trans hx

def tooEarly : Bool → Request User
  | false => .ofUser 1 1 (User.signIn "phone")
  | true => .ofUser 1 2 (User.signUp "a@example.com")

def afterAll : List (Action Bool User) :=
  List.replicate 6 (.go false) ++ List.replicate 6 (.go true)

/-- Of the first of the three events nothing can be told, so nothing is of the other two. -/
theorem relay_fails_iff_of_run_tooEarly :
    let p : Pool Bool User := (start {} fun i => .request (tooEarly i)).run afterAll
    let t : Transaction := ⟨.ofNat 2, .ofNat 1, 2⟩
    let next := Round.complete .accepting p.world { transaction := t, provider := User.new }
    p.world.store.failing = [] ∧ p.world.store.checkpointHeld = false ∧
      p.ledger.checkpoint.last < t.sequence ∧ (p.ledger.due t).length = 3 ∧
      next.2.stage = .ended (.error (User.unregistered "user.authenticated")) ∧
      (∃ e, p.ledger.Hinders t e ∧ (∀ f, p.ledger.Hinders t f → e.version ≤ f.version) ∧
        User.unregistered "user.authenticated" = User.untold e.eventType) ∧
      next.1.batches = [] := by
  intro p t next
  have distinct : Call.Distinct fun i => Call.request (tooEarly i) := by
    rintro i j _ _ ⟨⟩ ⟨⟩
    revert i j
    decide
  have failed : next.2.stage = .ended (.error (User.unregistered "user.authenticated")) := by rfl
  obtain ⟨-, failing, -, -⟩ := @relay_fails_iff_of_run Bool _ _ distinct afterAll .accepting
    (fun _ => rfl) (fun _ => User.snapshotCap) t (by decide) (by decide) (by decide)
  obtain ⟨⟨e, he, first, why, -⟩, batches, -⟩ := failing _ failed
  exact ⟨by decide, by decide, by decide, by decide, failed, ⟨e, he, first, why⟩, batches⟩

end Pool
end Outbox

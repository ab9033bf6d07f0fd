import Outbox.Proofs.Delivery
import Outbox.Proofs.Turn

/-! How much is replayed. The versions from one multiple of the cap up to the next make a bucket. A
command may run through several buckets and leaves one snapshot at most, at its end; so only where
a transaction ends is there sure to be a snapshot in the bucket, no further than that. But a load
and a round of the relay never go anywhere else, however far back in the log the round begins. -/
namespace Outbox
variable {σ : Type} [Model σ]

theorem Order.exists_latestBy {α : Type} {key : α → Int} {x : α} {xs : List α} (h : x ∈ xs) :
    ∃ y, latestBy key xs = some y ∧ key x ≤ key y := by
  induction xs with
  | nil => cases h
  | cons z zs ih =>
    simp only [latestBy]
    rcases List.mem_cons.mp h with rfl | h
    · cases latestBy key zs with
      | none => exact ⟨x, rfl, Int.le_refl _⟩
      | some y =>
        by_cases hxy : key x ≤ key y
        · exact ⟨y, if_pos hxy, hxy⟩
        · exact ⟨x, if_neg hxy, Int.le_refl _⟩
    · obtain ⟨y, hy, hxy⟩ := ih h
      rw [hy]
      by_cases hzy : key z ≤ key y
      · exact ⟨y, if_pos hzy, hxy⟩
      · exact ⟨z, if_neg hzy, by omega⟩

namespace Aggregate

/-- What is not due for a snapshot has stayed in its bucket. -/
theorem ediv_eq_of_not_snapshotDue {a : Aggregate σ} (positive : 0 < a.cap)
    (hb : 0 ≤ a.baseVersion) (hv : a.baseVersion ≤ a.version) (h : ¬a.snapshotDue = true) :
    a.baseVersion / a.cap = a.version / a.cap := by
  have hn : ¬a.baseVersion / a.cap < a.version / a.cap := by
    simpa [snapshotDue, positive, Int.tdiv_eq_ediv_of_nonneg hb,
      Int.tdiv_eq_ediv_of_nonneg (Int.le_trans hb hv)] using h
  exact Int.le_antisymm (Int.ediv_le_ediv positive hv) (Int.not_lt.mp hn)

theorem version_of_resume {id : Uuid} {cap : Int} {s : σ} {found : Option (SnapshotOf σ)}
    {a : Aggregate σ} (h : (loaded id cap 0 s).resume found = .ok a) :
    a.version = (found.map Snapshot.version).getD 0 := by
  cases found with
  | none =>
    cases h
    rfl
  | some x =>
    obtain ⟨-, t, -, rfl⟩ := resume_loaded h
    rfl

end Aggregate

/-! ### Buckets -/

namespace Ledger

/-- A place in a stream where one transaction ends and another begins, or where the stream ends. -/
def Boundary (l : Ledger σ) (id : Uuid) (n : Nat) : Prop :=
  n ≤ (l.stream id).length ∧ ∀ k e f, n = k + 1 → (l.stream id)[k]? = some e →
    (l.stream id)[n]? = some f → e.transactionId ≠ f.transactionId

/-- From the first multiple of the cap on, a version has a snapshot in its bucket, up to it. -/
def Bucketed (l : Ledger σ) (id : Uuid) (cap : Int) (n : Nat) : Prop :=
  cap ≤ n → ∃ x ∈ l.snapshots, x.aggregateId = id ∧ x.version ≤ n ∧ x.version / cap = n / cap

/-- So it is wherever in a stream a transaction ends. -/
def Paced (l : Ledger σ) (id : Uuid) (cap : Int) : Prop :=
  ∀ n, l.Boundary id n → l.Bucketed id cap n

section
variable {l m : Ledger σ} {id : Uuid} {cap : Int} {n : Nat}

theorem boundary_length (l : Ledger σ) (id : Uuid) : l.Boundary id (l.stream id).length := by
  refine ⟨Nat.le_refl _, fun k e f _ _ hf => ?_⟩
  simp at hf

theorem Boundary.of_grows (h : m.Boundary id n) (hg : l.Grows m)
    (hn : n ≤ (l.stream id).length) : l.Boundary id n :=
  ⟨hn, fun k e f hk he hf => h.2 k e f hk (hg.getElem?_stream he) (hg.getElem?_stream hf)⟩

/-- Before the first event that lies in a range of the log, a transaction has ended. -/
theorem Dense.boundary_of_eventsIn (h : l.Dense) {range : LogRange} {e : EventOf σ}
    {es : List (EventOf σ)} (he : l.eventsIn id range = e :: es) :
    ∃ n : Nat, e.version = n + 1 ∧ l.Boundary id n := by
  rw [h.eventsIn] at he
  obtain ⟨before, after, hs, outside, inside, -⟩ := List.filter_eq_cons_iff.mp he
  have hv := h.numbered id
  rw [hs, Event.numbered_append, Int.zero_add] at hv
  refine ⟨before.length, hv.2.1, by rw [hs, List.length_append]; omega, fun k f g hk hf hg => ?_⟩
  rw [hs, List.getElem?_append_left (by omega)] at hf
  rw [hs, List.getElem?_append_right (Nat.le_refl _), Nat.sub_self] at hg
  obtain rfl : e = g := Option.some.inj hg
  intro hid
  refine outside f (List.mem_of_getElem? hf) ?_
  rw [isInRange, hid]
  exact inside

theorem Bucketed.mono (h : l.Bucketed id cap n) (hg : l.Grows m) : m.Bucketed id cap n := by
  intro enough
  obtain ⟨x, hx, hs⟩ := h enough
  exact ⟨x, hg.snapshots.subset hx, hs⟩

theorem Paced.empty (positive : 0 < cap) (id : Uuid) : ({} : Ledger σ).Paced id cap := by
  rintro n ⟨hn, -⟩ enough
  obtain rfl : n = 0 := Nat.le_zero.mp hn
  omega

theorem Paced.relay (h : l.Paced id cap) (c : Checkpoint) :
    { l with checkpoint := c }.Paced id cap := h

section
variable {r : Request σ} {s : σ}

theorem Sound.length_stream_absorb (hl : l.Sound) (hf : l.outdated (r.unit n s) = none) :
    ((l.absorb (r.unit n s)).stream r.aggregateId).length = n + r.command.events.length := by
  simp [stream_absorb_unit, hl.length_stream hf]

/-- No transaction ends inside of a commit, all of whose events are of one. -/
theorem Sound.not_boundary_absorb (hl : l.Sound) (hf : l.outdated (r.unit n s) = none) {k : Nat}
    (hn : n < k) (hk : k < n + r.command.events.length) :
    ¬(l.absorb (r.unit n s)).Boundary r.aggregateId k := by
  have within {j : Nat} (hj : n ≤ j) {e : EventOf σ}
      (he : ((l.absorb (r.unit n s)).stream r.aggregateId)[j]? = some e) :
      e.transactionId = r.transactionId := by
    rw [stream_absorb_unit, if_pos rfl,
      List.getElem?_append_right (by rwa [hl.length_stream hf])] at he
    exact (Request.of_mem_events (List.mem_of_getElem? he)).2
  obtain ⟨j, rfl⟩ : ∃ j, k = j + 1 := ⟨k - 1, by omega⟩
  rw [← hl.length_stream_absorb hf] at hk
  have before := List.getElem?_eq_getElem (Nat.lt_of_succ_lt hk)
  have after := List.getElem?_eq_getElem hk
  intro hb
  refine hb.2 j _ _ rfl before after ?_
  rw [within (by omega) before, within (by omega) after]

/-- A commit ends in a bucket with a snapshot: its own, or the one that it found there. -/
theorem Paced.bucketed_absorb (h : l.Paced r.aggregateId r.cap) (positive : 0 < r.cap)
    (hl : l.Sound) (hf : l.outdated (r.unit n s) = none) :
    (l.absorb (r.unit n s)).Bucketed r.aggregateId r.cap (n + r.command.events.length) := by
  have hg := grows_absorb_writing l r.transactionId (r.outcome n s)
  by_cases due : (r.outcome n s).snapshotDue = true
  · intro _
    refine ⟨_, List.mem_append_right _ (Request.mem_snapshots_unit.mpr ⟨due, rfl⟩), rfl, ?_⟩
    simp
  · have hd : (n : Int) / r.cap = (n + r.command.events.length : Nat) / r.cap := by
      rw [Int.natCast_add]
      exact Aggregate.ediv_eq_of_not_snapshotDue positive (Int.natCast_nonneg n)
        (Int.le_add_of_nonneg_right (Int.natCast_nonneg _)) due
    intro enough
    have hn : r.cap ≤ n := by
      have hone : 1 ≤ (n : Int) / r.cap := by
        rw [hd]
        exact (Int.le_ediv_iff_mul_le positive).mpr (by omega)
      have hmul := (Int.le_ediv_iff_mul_le positive).mp hone
      omega
    have hb : l.Boundary r.aggregateId n := hl.length_stream hf ▸ l.boundary_length r.aggregateId
    obtain ⟨x, hx, ho, hv, hb⟩ := h n hb hn
    exact ⟨x, hg.snapshots.subset hx, ho, by omega, hb.trans hd⟩

theorem Paced.absorb_unit (h : l.Paced id cap) (positive : 0 < cap) (hl : l.Sound)
    (capped : r.aggregateId = id → r.cap = cap) (hf : l.outdated (r.unit n s) = none) :
    (l.absorb (r.unit n s)).Paced id cap := by
  have hg := grows_absorb_writing l r.transactionId (r.outcome n s)
  intro k hk
  by_cases hold : k ≤ (l.stream id).length
  · exact (h k (hk.of_grows hg hold)).mono hg
  -- beyond what there was, only the end of the commit is left
  · have hle := hk.1
    obtain rfl : id = r.aggregateId := by
      by_contra hid
      rw [stream_absorb_unit, if_neg hid, List.append_nil] at hle
      exact hold hle
    obtain rfl := capped rfl
    rw [hl.length_stream_absorb hf] at hle
    rw [hl.length_stream hf] at hold
    obtain rfl : k = n + r.command.events.length := by
      by_contra hend
      exact hl.not_boundary_absorb hf (by omega) (by omega) hk
    exact h.bucketed_absorb positive hl hf

end

/-! ### The latest snapshot -/

/-- The latest snapshot that is admitted lies in the bucket if all up to there are. -/
theorem Bucketed.latest (h : l.Bucketed id cap n) (positive : 0 < cap) (enough : cap ≤ n)
    {before : Option Int} (admits : ∀ x ∈ l.snapshots, x.aggregateId = id →
      (isBelow before x.version = true ↔ x.version ≤ n)) :
    ∃ x, l.latestSnapshot id before = some x ∧ x.version ≤ n ∧ x.version / cap = n / cap := by
  obtain ⟨x, hx, ho, hv, hd⟩ := h enough
  have hm : x ∈ l.snapshots.filter fun s => s.aggregateId == id && isBelow before s.version := by
    simp [hx, ho, (admits x hx ho).mpr hv]
  obtain ⟨y, hy, hxy⟩ : ∃ y, l.latestSnapshot id before = some y ∧ x.version ≤ y.version :=
    Order.exists_latestBy hm
  obtain ⟨hy', ho', hb⟩ := mem_of_latestSnapshot hy
  have hle := (admits y hy' ho').mp hb
  refine ⟨y, hy, hle, Int.le_antisymm (Int.ediv_le_ediv positive hle) ?_⟩
  rw [← hd]
  exact Int.ediv_le_ediv positive hxy

theorem Bucketed.lt_add_latest (h : l.Bucketed id cap n) (positive : 0 < cap) (hl : l.Sound)
    {before : Option Int} (admits : ∀ x ∈ l.snapshots, x.aggregateId = id →
      (isBelow before x.version = true ↔ x.version ≤ n)) :
    (n : Int) < cap + ((l.latestSnapshot id before).map Snapshot.version).getD 0 := by
  by_cases enough : cap ≤ n
  · obtain ⟨x, hx, -, hd⟩ := h.latest positive enough admits
    have hlt := Int.lt_ediv_add_one_mul_self (n : Int) positive
    have hle := Int.ediv_mul_le x.version (Int.ne_of_gt positive)
    rw [← hd, Int.add_mul, Int.one_mul] at hlt
    rw [hx]
    show (n : Int) < cap + x.version
    omega
  · cases hx : l.latestSnapshot id before with
    | none =>
      show (n : Int) < cap + 0
      omega
    | some x =>
      obtain ⟨k, -, hv, -⟩ := hl.snapshot x (mem_of_latestSnapshot hx).1
      show (n : Int) < cap + x.version
      omega

/-- Without a bound, all snapshots of an aggregate are admitted; none is beyond the end of its
stream. -/
theorem Sound.admits_none (hl : l.Sound) {x : SnapshotOf σ} (hx : x ∈ l.snapshots)
    (ho : x.aggregateId = id) :
    isBelow none x.version = true ↔ x.version ≤ (l.stream id).length := by
  obtain ⟨k, -, hv, -, hk, -⟩ := hl.snapshot x hx
  rw [ho] at hk
  exact ⟨fun _ => by omega, fun _ => rfl⟩

theorem isBelow_succ {v : Int} : isBelow (some (n + 1)) v = true ↔ v ≤ n := by
  simp only [isBelow, decide_eq_true_eq]
  omega

/-- After the latest snapshot of one moment, a later one finds fewer events than the cap, those not
counted that were committed in between. -/
theorem Paced.length_rest_lt (h : l.Paced id cap) (positive : 0 < cap) (hl : l.Sound)
    (hm : m.Sound) {s : σ} (hs : m.CanLoad id n s)
    (hn : ((l.latestSnapshot id none).map Snapshot.version).getD 0 = n) :
    (m.eventsBetween id (n + 1) none).length < cap + (m.version id - l.version id) := by
  have hlt := (h _ (l.boundary_length id)).lt_add_latest positive hl
    fun x hx ho => hl.admits_none hx ho
  have hle := hm.le_length hs
  rw [hn] at hlt
  rw [hm.eventsBetween, List.length_drop, hm.version, hl.version]
  omega

end
end Ledger

/-! ### Rounds -/

def Handling.Stage.replaying? : Handling.Stage σ → Option (List (EventOf σ))
  | sawEvents _ found => found.toOption
  | _ => none

def Round.Stage.replaying? : Round.Stage σ → Option (List (EventOf σ))
  | sawHistory _ _ _ found => found.toOption
  | _ => none

namespace Round

/-- What a round of an aggregate that has a snapshot in every bucket has found, by its stage: from
the snapshot to the first event that is due it is less than the cap. -/
def Nears (l : Ledger σ) (id : Uuid) (cap : Int) : Stage σ → Prop
  | .sawUnhandled _ found =>
    ∀ e es, found = .ok (e :: es) → ∃ n : Nat, e.version = n + 1 ∧ l.Bucketed id cap n
  | .sawSnapshot _ _ first a found =>
    ∃ (n : Nat) (c : Int), first = n + 1 ∧ a = .loaded id c 0 Model.initial ∧
      ∀ o, found = .ok o → (∀ x, o = some x → x ∈ l.snapshots ∧ x.aggregateId = id) ∧
        n < cap + (o.map Snapshot.version).getD 0
  | .sawHistory _ _ _ found => ∀ hs, found = .ok hs → hs.length < cap
  | _ => True

structure Brief (l : Ledger σ) (id : Uuid) (cap : Int) (r : Round σ) : Prop where
  fresh : r.Fresh
  nears : r.transaction.aggregateId = id → Nears l id cap r.stage

section
variable {l m : Ledger σ} {id : Uuid} {cap : Int} {r r' : Round σ}

theorem Nears.mono {stage : Stage σ} (h : Nears l id cap stage) (hg : l.Grows m) :
    Nears m id cap stage := by
  cases stage with
  | sawUnhandled u found =>
    intro e es he
    obtain ⟨n, hv, hb⟩ := h e es he
    exact ⟨n, hv, hb.mono hg⟩
  | sawSnapshot u es first a found =>
    obtain ⟨n, c, hf, ha, ho⟩ := h
    refine ⟨n, c, hf, ha, fun o he => ⟨fun x hx => ?_, (ho o he).2⟩⟩
    obtain ⟨hs, hid⟩ := (ho o he).1 x hx
    exact ⟨hg.snapshots.subset hs, hid⟩
  | _ => exact h

theorem Nears.length_lt {stage : Stage σ} (h : Nears l id cap stage) {es : List (EventOf σ)}
    (here : stage.replaying? = some es) : es.length < cap := by
  cases stage with
  | sawHistory u unhandled a found =>
    cases found with
    | error x => cases here
    | ok hs =>
      cases here
      exact h es rfl
  | _ => cases here

theorem Brief.mono (h : r.Brief l id cap) (hg : l.Grows m) : r.Brief m id cap :=
  ⟨h.fresh, fun hid => (h.nears hid).mono hg⟩

theorem Brief.cancel (h : r.Brief l id cap) (w : World σ) : (r.cancel w).2.Brief l id cap := by
  refine ⟨h.fresh.cancel w, fun hid => ?_⟩
  rcases r.cancel_cases w with ⟨-, he⟩ | ⟨-, he⟩ | ⟨u, -, he⟩ <;> rw [he] at hid ⊢
  · exact h.nears hid
  · trivial
  · trivial

theorem Brief.move {peers : Peers σ} {w w' : World σ} (h : r.Brief w.store.ledger id cap)
    (hl : w.store.ledger.Sound) (hp : w.store.ledger.Paced id cap) (positive : 0 < cap)
    (hm : Move peers w r w' r') : r'.Brief w.store.ledger id cap := by
  refine ⟨hm.fresh h.fresh, fun hid => ?_⟩
  rw [hm.transaction] at hid
  have hn := h.nears hid
  cases hm with
  | idle => exact hn
  | collects u c here ahead =>
    intro e es he
    have hi := Store.readRange_eq_ok he
    rw [hid] at hi
    obtain ⟨n, hv, hb⟩ := hl.boundary_of_eventsIn hi
    exact ⟨n, hv, hp n hb⟩
  | seeks u e es here =>
    rw [here] at hn
    obtain ⟨n, hv, hb⟩ := hn e es rfl
    obtain ⟨c, hc⟩ := h.fresh id
    rw [hid, hc, hv]
    refine ⟨n, c, rfl, Aggregate.new_eq_loaded id c, fun o ho => ?_⟩
    have hx : w.store.ledger.latestSnapshot id (some (n + 1)) = o := Store.readSnapshot_eq_ok ho
    refine ⟨fun x hs => ?_, ?_⟩
    · obtain ⟨hs', ho', -⟩ := Ledger.mem_of_latestSnapshot (hx.trans hs)
      exact ⟨hs', ho'⟩
    · rw [← hx]
      exact hb.lt_add_latest positive hl fun _ _ _ => Ledger.isBelow_succ
  | recalls u es first a b found here loaded short =>
    rw [here] at hn
    obtain ⟨n, c, rfl, rfl, ho⟩ := hn
    obtain ⟨stored, hlt⟩ := ho found rfl
    have hv := Aggregate.version_of_resume loaded
    obtain ⟨k, t, -, rfl⟩ := hl.resume stored loaded
    intro hs hr
    have he := Store.readEvents_eq_ok hr
    rw [Int.add_sub_cancel] at he
    have hb := hl.eventsBetween_upTo id k n
    rw [← hb.symm.trans he, List.length_drop, List.length_take]
    rw [Aggregate.loaded_version] at hv
    omega
  | _ => trivial

end
end Round

namespace Consumer

structure Brief (l : Ledger σ) (id : Uuid) (cap : Int) (k : Consumer σ) : Prop where
  fresh : ∀ id, ∃ c, k.provider id = .new id c
  round : ∀ r, k.round? = some r → r.Brief l id cap

section
variable {l m : Ledger σ} {id : Uuid} {cap : Int} {k k' : Consumer σ}

theorem brief_of_round?_eq_none (fresh : ∀ id, ∃ c, k.provider id = .new id c)
    (h : k.round? = none) : k.Brief l id cap := by
  refine ⟨fresh, fun r hr => ?_⟩
  rw [h] at hr
  cases hr

theorem Brief.mono (h : k.Brief l id cap) (hg : l.Grows m) : k.Brief m id cap :=
  ⟨h.fresh, fun r hr => (h.round r hr).mono hg⟩

theorem Brief.move {peers : Peers σ} {w w' : World σ} (h : k.Brief w.store.ledger id cap)
    (hl : w.store.ledger.Sound) (hp : w.store.ledger.Paced id cap) (positive : 0 < cap)
    (hm : Move peers w k w' k') : k'.Brief w.store.ledger id cap := by
  cases hm with
  | rests ns k' here there provider =>
    exact brief_of_round?_eq_none (provider ▸ h.fresh) (round?_eq_none there)
  | takes x xs t here =>
    refine ⟨h.fresh, fun r hr => ?_⟩
    cases hr
    exact ⟨h.fresh, fun _ => trivial⟩
  | relays r here =>
    refine ⟨h.fresh, fun r' hr => ?_⟩
    cases hr
    exact (h.round r (round?_eq_some here)).move hl hp positive (r.step_move peers w)
  | accounts => exact brief_of_round?_eq_none h.fresh rfl

theorem Brief.abort (h : k.Brief l id cap) (w : World σ) : (k.abort w).2.Brief l id cap := by
  cases hs : k.stage with
  | relaying | polling =>
    simp only [Consumer.abort, hs]
    exact brief_of_round?_eq_none h.fresh rfl
  | stopped | crashed =>
    simp only [Consumer.abort, hs]
    exact h

end
end Consumer

namespace Agent

def Brief (l : Ledger σ) (id : Uuid) (cap : Int) : Agent σ → Prop
  | task (.handling _) => True
  | task (.round r) => r.Brief l id cap
  | consumer k => k.Brief l id cap

section
variable {l m : Ledger σ} {id : Uuid} {cap : Int} {a : Agent σ}

theorem Brief.mono (h : a.Brief l id cap) (hg : l.Grows m) : a.Brief m id cap := by
  rcases a with (g | r) | k
  · trivial
  · exact Round.Brief.mono h hg
  · exact Consumer.Brief.mono h hg

theorem Brief.step {w : World σ} (h : a.Brief w.store.ledger id cap) (hl : w.store.ledger.Sound)
    (hp : w.store.ledger.Paced id cap) (positive : 0 < cap) (peers : Peers σ) (told : Bool) :
    (a.step peers told w).2.Brief w.store.ledger id cap := by
  rcases a with (g | r) | k
  · trivial
  · exact Round.Brief.move h hl hp positive (r.step_move peers w)
  · exact Consumer.Brief.move h hl hp positive (k.step_move peers told w)

theorem Brief.cancel (h : a.Brief l id cap) (w : World σ) : (a.cancel w).2.Brief l id cap := by
  rcases a with (g | r) | k
  · trivial
  · exact Round.Brief.cancel h w
  · exact Consumer.Brief.abort h w

theorem Brief.notify (h : a.Brief l id cap) (t : Transaction) : (a.notify t).Brief l id cap := by
  rcases a with t | k
  · exact h
  · obtain ⟨fresh, round⟩ : k.Brief l id cap := h
    exact ⟨fresh, round⟩

def replaying? : Agent σ → Option (List (EventOf σ))
  | task (.handling h) => h.stage.replaying?
  | task (.round r) => r.stage.replaying?
  | consumer k => k.round?.bind fun r => r.stage.replaying?

theorem replaying?_of_round {r : Round σ} (hr : a.round? = some r) :
    a.replaying? = r.stage.replaying? := by
  rcases a with (g | q) | k
  · cases hr
  · cases hr
    rfl
  · have hk : k.round? = some r := hr
    rw [replaying?, hk]
    rfl

theorem Brief.round (h : a.Brief l id cap) {r : Round σ} (hr : a.round? = some r) :
    r.Brief l id cap := by
  rcases a with (g | q) | k
  · cases hr
  · cases hr
    exact h
  · exact Consumer.Brief.round h r hr

end
end Agent

/-- A call in which any aggregate to be rebuilt is one to which nothing has happened. -/
def Call.Fresh : Call σ → Prop
  | request _ => True
  | relay _ provider | consume provider _ => ∀ id, ∃ cap, provider id = .new id cap

namespace Pool
variable {ι : Type} [DecidableEq ι]

section
variable {calls : ι → Call σ} {p : Pool ι σ}

/-- Whatever happens, it changes the checkpoint at most, or it is the commit of a request. -/
theorem Sound.durable_act (h : p.Sound calls) (x : Action ι σ) :
    (∃ c, (p.act x).ledger = { p.ledger with checkpoint := c }) ∨
      ∃ i r n s, calls i = .request r ∧ p.ledger.outdated (r.unit n s) = none ∧
        (p.act x).ledger = p.ledger.absorb (r.unit n s) := by
  cases x with
  | step i peers told =>
    cases hc : calls i with
    | request r =>
      rcases h.step_request hc peers told with ⟨he, -⟩ | ⟨n, s, -, hf, he, -⟩
      · exact .inl ⟨p.ledger.checkpoint, he⟩
      · exact .inr ⟨i, r, n, s, hc, hf, he⟩
    | relay | consume => exact .inl ((h.knows i).checkpoint_step (by simp [hc]) peers told)
  | cancel i => exact .inl ⟨p.ledger.checkpoint, (h.knows i).cancel.1⟩
  | notify i place => exact .inl ⟨p.ledger.checkpoint, p.ledger_notify i place⟩
  | fail operations => exact .inl ⟨p.ledger.checkpoint, rfl⟩

/-- What a run keeps true where all who write an aggregate want a snapshot every so many versions:
there is one in every bucket, and all rounds of the aggregate are brief. -/
structure Brief (calls : ι → Call σ) (id : Uuid) (cap : Int) (p : Pool ι σ) : Prop where
  sound : p.Sound calls
  paced : p.ledger.Paced id cap
  agents : ∀ i, (p.agents i).Brief p.ledger id cap

variable {id : Uuid} {cap : Int} (positive : 0 < cap)
include positive

omit [DecidableEq ι] in
theorem brief_start (fresh : ∀ i, (calls i).Fresh) (id : Uuid) :
    (start {} calls).Brief calls id cap where
  sound := sound_start calls Ledger.Sound.empty
  paced := .empty positive id
  agents i := by
    have hf := fresh i
    simp only [start]
    cases hc : calls i with
    | request r => trivial
    | relay t provider =>
      rw [hc] at hf
      exact ⟨hf, fun _ => trivial⟩
    | consume provider source =>
      rw [hc] at hf
      exact Consumer.brief_of_round?_eq_none hf rfl

theorem Brief.agents_act (h : p.Brief calls id cap) (x : Action ι σ) (j : ι) :
    ((p.act x).agents j).Brief p.ledger id cap := by
  have update {i : ι} {a : Agent σ} (ha : a.Brief p.ledger id cap) :
      (Function.update p.agents i a j).Brief p.ledger id cap := by
    by_cases hj : j = i
    · subst hj
      rwa [Function.update_self]
    · rw [Function.update_of_ne hj]
      exact h.agents j
  cases x with
  | step i peers told =>
    exact update ((h.agents i).step h.sound.ledger h.paced positive peers told)
  | cancel i => exact update ((h.agents i).cancel p.world)
  | notify i place =>
    cases ht : p.ledger.log[place]? with
    | none =>
      simp only [act, ht]
      exact h.agents j
    | some t =>
      simp only [act, ht]
      exact update ((h.agents i).notify t)
  | fail operations => exact h.agents j

theorem Brief.act (h : p.Brief calls id cap)
    (caps : ∀ i r, calls i = .request r → r.aggregateId = id → r.cap = cap) (x : Action ι σ) :
    (p.act x).Brief calls id cap := by
  obtain ⟨hs, sound⟩ := h.sound.act x
  refine ⟨sound, ?_, fun j => (h.agents_act positive x j).mono hs.grows⟩
  rcases h.sound.durable_act x with ⟨c, he⟩ | ⟨i, r, n, s, hc, hf, he⟩
  · rw [he]
    exact h.paced.relay c
  · rw [he]
    exact h.paced.absorb_unit positive h.sound.ledger (caps i r hc) hf

theorem brief_run (fresh : ∀ i, (calls i).Fresh)
    (caps : ∀ i r, calls i = .request r → r.aggregateId = id → r.cap = cap)
    (acts : List (Action ι σ)) : ((start {} calls).run acts).Brief calls id cap := by
  induction acts using List.reverseRecOn with
  | nil => exact brief_start positive fresh id
  | append_singleton acts x ih =>
    rw [run_append]
    exact ih.act positive caps x

end

/-! ### Loads -/

/-- What a load comes to, by the stage that its handling has reached: it takes the latest snapshot
that there is, and later it is given fewer events than the cap, those not counted that were
committed in between. -/
def Replays (p₀ : Pool ι σ) (acts : List (Action ι σ)) (i : ι) (id : Uuid) (cap : Int) :
    Handling.Stage σ → Prop
  | .sawSnapshot _ (.ok found) =>
    ∃ before peers told after, acts = before ++ .step i peers told :: after ∧
      (∀ y ∈ after, y.isBy i = false) ∧ found = (p₀.run before).ledger.latestSnapshot id none
  | .sawEvents _ (.ok es) =>
    ∃ before peers told between peers' told' after,
      acts = before ++ .step i peers told :: (between ++ .step i peers' told' :: after) ∧
      (∀ y ∈ between ++ after, y.isBy i = false) ∧
      es.length < cap +
        ((p₀.run (before ++ .step i peers told :: between)).ledger.version id -
          (p₀.run before).ledger.version id)
  | _ => True

section
variable {p₀ : Pool ι σ} {acts : List (Action ι σ)} {i : ι} {id : Uuid} {cap : Int}

theorem replays_of_rank_eq_zero {stage : Handling.Stage σ} (ended : stage.rank = 0) :
    Replays p₀ acts i id cap stage := by
  cases stage <;> simp_all [Handling.Stage.rank, Replays]

theorem replays_of_ok {u : UnitOfWork σ} {found : Except Error (List (EventOf σ))}
    (h : ∀ es, found = .ok es → Replays p₀ acts i id cap (.sawEvents u (.ok es))) :
    Replays p₀ acts i id cap (.sawEvents u found) := by
  cases found with
  | error x => trivial
  | ok es => exact h es rfl

theorem Replays.other {stage : Handling.Stage σ} (h : Replays p₀ acts i id cap stage)
    {x : Action ι σ} (hx : x.isBy i = false) : Replays p₀ (acts ++ [x]) i id cap stage := by
  have quiet {xs : List (Action ι σ)} (hn : ∀ y ∈ xs, y.isBy i = false) :
      ∀ y ∈ xs ++ [x], y.isBy i = false :=
    List.forall_mem_append.mpr ⟨hn, List.forall_mem_singleton.mpr hx⟩
  cases stage with
  | sawSnapshot u found =>
    cases found with
    | error y => trivial
    | ok found =>
      obtain ⟨before, peers, told, after, rfl, hn, hf⟩ := h
      exact ⟨before, peers, told, after ++ [x], by simp, quiet hn, hf⟩
  | sawEvents u found =>
    cases found with
    | error y => trivial
    | ok es =>
      obtain ⟨before, peers, told, between, peers', told', after, rfl, hn, hs⟩ := h
      refine ⟨before, peers, told, between, peers', told', after ++ [x], by simp, ?_, hs⟩
      rw [← List.append_assoc]
      exact quiet hn
  | _ => trivial

end

section
variable {calls : ι → Call σ} {i : ι} {id : Uuid} {cap : Int} (positive : 0 < cap)
  (fresh : ∀ i, (calls i).Fresh)
  (caps : ∀ i r, calls i = .request r → r.aggregateId = id → r.cap = cap)
include positive fresh caps

theorem replays_step {acts : List (Action ι σ)} {r : Request σ} (called : calls i = .request r)
    (own : r.aggregateId = id) {h : Handling σ}
    (hi : ((start {} calls).run acts).agents i = .task (.handling h))
    (hr : Replays (start {} calls) acts i id cap h.stage) (peers : Peers σ) (told : Bool) :
    Replays (start {} calls) (acts ++ [.step i peers told]) i id cap
      (h.step peers ((start {} calls).run acts).world).2.stage := by
  have hh := (knows_run called hi).holds
  have hl : ((start {} calls).run acts).world.store.ledger.Sound := sound_run calls acts
  have hm := h.step_move peers ((start {} calls).run acts).world
  generalize h.step peers ((start {} calls).run acts).world = next at hm
  obtain ⟨w', h'⟩ := next
  subst own
  cases hm with
  | idle ended => exact replays_of_rank_eq_zero ended
  | refused | commits | fails => exact replays_of_rank_eq_zero rfl
  | opens | stages | saves => trivial
  | looks u here =>
    rw [here] at hh
    obtain ⟨-, ha⟩ := hh
    simp only
    cases hs : ((start {} calls).run acts).world.store.readSnapshot h.aggregate.id none with
    | error x => trivial
    | ok found =>
      have hx := Store.readSnapshot_eq_ok hs
      rw [ha] at hx
      exact ⟨acts, peers, told, [], rfl, nofun, hx.symm⟩
  | resumes u found a here loaded =>
    rw [here] at hh hr
    obtain ⟨-, ha, stored⟩ := hh
    obtain ⟨before, peers₀, told₀, between, rfl, quiet, rfl⟩ := hr
    rw [ha] at loaded
    have hv := Aggregate.version_of_resume loaded
    obtain ⟨k, t, ht, rfl⟩ := hl.resume (fun x hf => stored x (by rw [hf])) loaded
    refine replays_of_ok fun es he =>
      ⟨before, peers₀, told₀, between, peers, told, [], by simp, ?_, ?_⟩
    · rwa [List.append_nil]
    · have hb := brief_run positive fresh caps before
      rw [← Store.readEvents_eq_ok he]
      exact hb.paced.length_rest_lt positive hb.sound.ledger hl ht hv.symm

theorem replays_run {r : Request σ} (called : calls i = .request r) (own : r.aggregateId = id)
    (acts : List (Action ι σ)) :
    ∃ h, ((start {} calls).run acts).agents i = .task (.handling h) ∧
      Replays (start {} calls) acts i id cap h.stage := by
  have hi : (start {} calls).agents i = .task (.handling r.handling) := by
    simp only [start, called, Call.agent]
  exact handling_run (P := fun acts h => Replays (start {} calls) acts i id cap h.stage) hi trivial
    (fun _ _ _ _ hr hx => hr.other hx)
    (fun _ _ peers told here hr => replays_step positive fresh caps called own here hr peers told)
    (fun _ h _ _ => replays_of_rank_eq_zero (h.rank_cancel _)) acts

/-- Whatever goes on side by side, as long as all who write an aggregate want a snapshot every so
many versions: once the aggregate has reached the cap, its latest snapshot lies in the bucket of its
version, so that whoever loads it then replays fewer events than the cap. In the run itself, where a
load reads the snapshot first and the events later, it replays fewer than that and what has been
committed in between; and every round that rebuilds the aggregate replays fewer events than the cap,
wherever in the log its range begins and whatever is committed meanwhile. -/
theorem replays_lt_of_run (acts : List (Action ι σ)) :
    let p := (start {} calls).run acts
    (cap ≤ p.ledger.version id → ∃ x, p.ledger.latestSnapshot id none = some x ∧
      x.version ≤ p.ledger.version id ∧ x.version / cap = p.ledger.version id / cap) ∧
    (∀ c a, (Aggregate.new id c).resume (p.ledger.latestSnapshot id none) = .ok a →
      (p.ledger.eventsBetween id (a.version + 1) none).length < cap) ∧
    (∀ i r, calls i = .request r → r.aggregateId = id →
      ∃ h, p.agents i = .task (.handling h) ∧ Replays (start {} calls) acts i id cap h.stage) ∧
    ∀ i r es, (p.agents i).round? = some r → r.transaction.aggregateId = id →
      (p.agents i).replaying? = some es → es.length < cap := by
  intro p
  have hp : p.Brief calls id cap := brief_run positive fresh caps acts
  have hl := hp.sound.ledger
  refine ⟨fun enough => ?_, fun c a loaded => ?_,
    fun i r called own => replays_run positive fresh caps called own acts,
    fun i r es hr hid here => ?_⟩
  · rw [hl.version] at enough ⊢
    exact (hp.paced _ (Ledger.boundary_length _ id)).latest positive enough
      fun x hs ho => hl.admits_none hs ho
  · rw [Aggregate.new_eq_loaded] at loaded
    have hv := Aggregate.version_of_resume loaded
    have stored (x : SnapshotOf σ) (hx : p.ledger.latestSnapshot id none = some x) :
        x ∈ p.ledger.snapshots ∧ x.aggregateId = id := by
      obtain ⟨hs, ho, -⟩ := Ledger.mem_of_latestSnapshot hx
      exact ⟨hs, ho⟩
    obtain ⟨k, t, ht, rfl⟩ := hl.resume stored loaded
    have hlt := hp.paced.length_rest_lt positive hl hl ht hv.symm
    rwa [Int.sub_self, Int.add_zero] at hlt
  · rw [Agent.replaying?_of_round hr] at here
    exact (((hp.agents i).round hr).nears hid).length_lt here

end

/-- A user is about to sign up and to sign in three times, with a snapshot of every second version,
and a consumer is there. -/
def inPairs : Option (Bool × Bool) → Call User
  | none => .consume (fun id => .new id 2) ⟨[], true⟩
  | some (false, false) =>
    .request { Request.ofUser 1 1 (User.signUp "a@example.com") with cap := 2 }
  | some (false, true) => .request { Request.ofUser 1 2 (User.signIn "laptop") with cap := 2 }
  | some (true, false) => .request { Request.ofUser 1 3 (User.signIn "phone") with cap := 2 }
  | some (true, true) => .request { Request.ofUser 1 4 (User.signIn "tablet") with cap := 2 }

/-- The user signs up and in, which another sign-in loads; while that has not gone on, a third one
is committed, of which the consumer is about to tell after the others. -/
def pastPair : List (Action (Option (Bool × Bool)) User) :=
  List.replicate 6 (.go (some (false, false))) ++ List.replicate 6 (.go (some (false, true))) ++
    List.replicate 3 (.go (some (true, false))) ++ List.replicate 6 (.go (some (true, true))) ++
      .notify none 1 :: List.replicate 9 (.go none) ++
        .notify none 2 :: List.replicate 6 (.go none)

/-- Both the second sign-in and the consumer replay the first one's event, after the snapshot of the
second version, though by now there is one of the fourth. -/
theorem replays_lt_of_run_pastPair :
    let p := (start {} inPairs).run pastPair
    p.ledger.version (.ofNat 1) = 4 ∧
      (∃ x, p.ledger.latestSnapshot (.ofNat 1) none = some x ∧ x.version ≤ 4 ∧
        x.version / 2 = 4 / 2) ∧
      (∃ a, (Aggregate.new (.ofNat 1) 2).resume (p.ledger.latestSnapshot (.ofNat 1) none) = .ok a ∧
        (p.ledger.eventsBetween (.ofNat 1) (a.version + 1) none).length < (2 : Int)) ∧
      ((p.agents (some (true, false))).replaying?.map List.length = some 1 ∧
        ∃ h, p.agents (some (true, false)) = .task (.handling h) ∧
          Replays (start {} inPairs) pastPair (some (true, false)) (.ofNat 1) 2 h.stage) ∧
      ∃ r es, (p.agents none).round? = some r ∧ r.transaction.aggregateId = .ofNat 1 ∧
        (p.agents none).replaying? = some es ∧ es.length = 1 ∧ (es.length : Int) < 2 := by
  intro p
  have fresh : ∀ i, (inPairs i).Fresh := by
    rintro (_ | ⟨_ | _, _ | _⟩)
    · exact fun _ => ⟨2, rfl⟩
    · trivial
    · trivial
    · trivial
    · trivial
  have caps : ∀ i r, inPairs i = .request r → r.aggregateId = .ofNat 1 → r.cap = 2 := by
    rintro (_ | ⟨_ | _, _ | _⟩) r called - <;> cases called <;> rfl
  have version : p.ledger.version (.ofNat 1) = 4 := by decide +kernel
  obtain ⟨bucket, load, loads, rounds⟩ := replays_lt_of_run (by decide) fresh caps pastPair
  rw [version] at bucket
  obtain ⟨a, loaded⟩ : ∃ a, (Aggregate.new (.ofNat 1) 2).resume
      (p.ledger.latestSnapshot (.ofNat 1) none) = .ok a := by
    have fits : ((Aggregate.new (.ofNat 1) 2).resume
        (p.ledger.latestSnapshot (.ofNat 1) none)).toOption.isSome = true := by decide +kernel
    cases he : (Aggregate.new (.ofNat 1) 2).resume (p.ledger.latestSnapshot (.ofNat 1) none) with
    | error x =>
      rw [he] at fits
      cases fits
    | ok a => exact ⟨a, rfl⟩
  have about : (p.agents none).round?.map (·.transaction.aggregateId) = some (.ofNat 1) := by
    decide +kernel
  have given : (p.agents none).replaying?.map List.length = some 1 := by decide +kernel
  obtain ⟨r, hr, hid⟩ := Option.map_eq_some_iff.mp about
  obtain ⟨es, hes, hlen⟩ := Option.map_eq_some_iff.mp given
  exact ⟨version, bucket (by decide), ⟨a, loaded, load 2 a loaded⟩,
    ⟨by decide +kernel, loads _ _ rfl rfl⟩, r, es, hr, hid, hes, hlen, rounds none r es hr hid hes⟩

/-- The user signs up, which a sign-in loads; between its reading of the snapshot and of the events
two other ones are committed, and it goes on to its own end. -/
def outrun : List (Action (Option (Bool × Bool)) User) :=
  List.replicate 6 (.go (some (false, false))) ++ List.replicate 2 (.go (some (true, false))) ++
    List.replicate 6 (.go (some (false, true))) ++ List.replicate 6 (.go (some (true, true))) ++
      [.go (some (true, false))]

/-- The snapshot that the load has read is the latest of the bucket, but the events that it replays
are no fewer than the cap; and the sign-in is none the worse for it. -/
theorem replays_cap_outrun :
    let p := (start {} inPairs).run (outrun.take 8)
    let q := (start {} inPairs).run outrun
    let r := q.run (List.replicate 3 (.go (some (true, false))))
    (∀ i x, inPairs i = .request x → x.aggregateId = .ofNat 1 ∧ x.cap = 2) ∧
      (p.ledger.version (.ofNat 1) = 2 ∧
        (p.ledger.latestSnapshot (.ofNat 1) none).map Snapshot.version = some 2) ∧
      (∃ es, (q.agents (some (true, false))).replaying? = some es ∧
        es.map Event.version = [3, 4] ∧ ¬(es.length : Int) < 2) ∧
      (r.agents (some (true, false))).receipt? = some ⟨.ofNat 1, .ofNat 3, 5⟩ := by
  intro p q r
  refine ⟨?_, ⟨by decide +kernel, by decide +kernel⟩, ?_, by decide +kernel⟩
  · rintro (_ | ⟨_ | _, _ | _⟩) x called <;> cases called <;> exact ⟨rfl, rfl⟩
  · have versions : (q.agents (some (true, false))).replaying?.map (List.map Event.version) =
        some [3, 4] := by decide +kernel
    obtain ⟨es, hes, hv⟩ := Option.map_eq_some_iff.mp versions
    have length : es.length = 2 := by simpa using congrArg List.length hv
    exact ⟨es, hes, hv, by omega⟩

end Pool
end Outbox

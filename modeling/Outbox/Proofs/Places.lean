import Outbox.Proofs.Range
import Outbox.Proofs.Turn

/-! The order of what is committed: events lie in the order of the places that their transactions
have in the log. So what a range of the log holds of an aggregate are consecutive events of its
stream. -/
namespace Outbox
variable {σ : Type} [Model σ]

/-- What is sorted by a key is what lies up to a bound, followed by what lies beyond it. -/
theorem filter_append_filter_of_pairwise {α : Type} {key : α → Int} {xs : List α}
    (h : xs.Pairwise fun x y => key x ≤ key y) (a : Int) :
    xs.filter (key · ≤ a) ++ xs.filter (a < key ·) = xs := by
  induction xs with
  | nil => rfl
  | cons x xs ih =>
    obtain ⟨hx, hxs⟩ := List.pairwise_cons.mp h
    by_cases ha : key x ≤ a
    · rw [List.filter_cons_of_pos (by simpa using ha), List.filter_cons_of_neg (by simpa using ha),
        List.cons_append, ih hxs]
    · have hn : xs.filter (key · ≤ a) = [] := by
        refine List.filter_eq_nil_iff.mpr fun y hy => ?_
        have hxy := hx y hy
        simp only [decide_eq_true_eq]
        omega
      rw [hn, List.nil_append] at ih
      rw [List.filter_cons_of_neg (by simpa using ha), hn,
        List.filter_cons_of_pos (by simpa using ha), List.nil_append, ih hxs]

theorem filter_le_of_pairwise {α : Type} {key : α → Int} {xs : List α}
    (h : xs.Pairwise fun x y => key x ≤ key y) (a : Int) :
    xs.filter (key · ≤ a) = xs.take (xs.countP (key · ≤ a)) := by
  rw [List.countP_eq_length_filter]
  exact List.take_left.symm.trans (congrArg (List.take _) (filter_append_filter_of_pairwise h a))

theorem filter_lt_of_pairwise {α : Type} {key : α → Int} {xs : List α}
    (h : xs.Pairwise fun x y => key x ≤ key y) (a : Int) :
    xs.filter (a < key ·) = xs.drop (xs.countP (key · ≤ a)) := by
  rw [List.countP_eq_length_filter]
  exact List.drop_left.symm.trans (congrArg (List.drop _) (filter_append_filter_of_pairwise h a))

namespace Ledger

def place (l : Ledger σ) (e : EventOf σ) : Int := (l.sequenceOf e.transactionId).getD 0

/-- What every run keeps true while no transaction id is used twice: all events of a transaction are
those of its aggregate, and events are stored in the order of the log. -/
structure Ordered (l : Ledger σ) : Prop where
  logged : l.Logged
  distinct : l.log.Pairwise fun s t => s.id ≠ t.id
  owner : ∀ e ∈ l.events, ∀ t ∈ l.log, t.id = e.transactionId → t.aggregateId = e.aggregateId
  sorted : l.events.Pairwise fun e f => l.place e ≤ l.place f

theorem Ordered.empty : ({} : Ledger σ).Ordered where
  logged e he := by cases he
  distinct := .nil
  owner e he := by cases he
  sorted := .nil

theorem Ordered.relay {l : Ledger σ} (h : l.Ordered) (c : Checkpoint) :
    { l with checkpoint := c }.Ordered :=
  ⟨h.logged, h.distinct, h.owner, h.sorted⟩

theorem Ordered.sequenceOf {l : Ledger σ} (h : l.Ordered) {t : Transaction} (ht : t ∈ l.log) :
    l.sequenceOf t.id = some t.sequence := by
  have hf : l.log.find? (·.id == t.id) = some t := by
    have hd := h.distinct
    generalize l.log = ts at ht hd
    induction ts with
    | nil => cases ht
    | cons s ts ih =>
      obtain ⟨hs, hts⟩ := List.pairwise_cons.mp hd
      rcases List.mem_cons.mp ht with rfl | ht
      · simp
      · rw [List.find?_cons_of_neg (by simpa using hs t ht)]
        exact ih ht hts
  rw [Ledger.sequenceOf, hf]
  rfl

theorem Ordered.sequenceOf_event {l : Ledger σ} (h : l.Ordered) {e : EventOf σ}
    (he : e ∈ l.events) : l.sequenceOf e.transactionId = some (l.place e) := by
  obtain ⟨t, ht, hte⟩ := h.logged e he
  rw [place, ← hte, h.sequenceOf ht]
  rfl

theorem Ordered.isInRange_iff {l : Ledger σ} (h : l.Ordered) {e : EventOf σ} (he : e ∈ l.events)
    {r : LogRange} : l.isInRange r e = true ↔ r.after < l.place e ∧ l.place e ≤ r.upTo := by
  rw [isInRange, h.sequenceOf_event he]
  exact LogRange.contains_iff

theorem Sound.sequence_mem {l : Ledger σ} (h : l.Sound) {t : Transaction} (ht : t ∈ l.log) :
    1 ≤ t.sequence ∧ t.sequence ≤ l.log.length := by
  obtain ⟨n, hn⟩ := List.mem_iff_getElem?.mp ht
  have hp := h.place n t hn
  have hl := (List.getElem?_eq_some_iff.mp hn).1
  omega

theorem Ordered.place_bounds {l : Ledger σ} (h : l.Ordered) (hl : l.Sound) {e : EventOf σ}
    (he : e ∈ l.events) : 1 ≤ l.place e ∧ l.place e ≤ l.log.length := by
  obtain ⟨t, ht, hte⟩ := h.logged e he
  rw [place, ← hte, h.sequenceOf ht]
  exact hl.sequence_mem ht

theorem Ordered.absorb_unit {l : Ledger σ} (h : l.Ordered) (hl : l.Sound) {r : Request σ} {n : Nat}
    {s : σ} (fresh : ∀ t ∈ l.log, t.id ≠ r.transactionId) :
    (l.absorb (r.unit n s)).Ordered := by
  have hg := grows_absorb_writing l r.transactionId (r.outcome n s)
  have hold {e : EventOf σ} (he : e ∈ l.events) : (l.absorb (r.unit n s)).place e = l.place e := by
    obtain ⟨t, ht, hte⟩ := h.logged e he
    rw [place, place, ← hte]
    exact congrArg (·.getD 0) (sequenceOf_of_grown hg.log ht)
  have hnew {e : EventOf σ} (he : e ∈ r.events n) :
      (l.absorb (r.unit n s)).place e = l.log.length + 1 := by
    rw [place, (Request.of_mem_events he).2, sequenceOf_absorb_unit hl fresh]
    rfl
  refine ⟨logged_absorb_unit h.logged r n s, ?_, fun e he t ht hte => ?_, ?_⟩
  · rw [log_absorb_unit]
    refine List.pairwise_append.mpr ⟨h.distinct, List.pairwise_singleton _ _, fun t ht u hu => ?_⟩
    rw [List.mem_singleton.mp hu]
    exact fresh t ht
  · rw [log_absorb_unit] at ht
    rcases List.mem_append.mp he with he | he <;> rcases List.mem_append.mp ht with ht | ht
    · exact h.owner e he t ht hte
    · obtain ⟨u, hu, hue⟩ := h.logged e he
      rw [List.mem_singleton.mp ht] at hte
      exact absurd (hue.trans hte.symm) (fresh u hu)
    · rw [(Request.of_mem_events he).2] at hte
      exact absurd hte (fresh t ht)
    · rw [List.mem_singleton.mp ht]
      exact (Request.of_mem_events he).1.symm
  · refine List.pairwise_append.mpr ⟨?_, ?_, fun e he f hf => ?_⟩
    · exact h.sorted.imp_of_mem fun he hf hp => by rw [hold he, hold hf]; exact hp
    · exact List.pairwise_of_forall_mem_list fun e he f hf =>
        Int.le_of_eq ((hnew he).trans (hnew hf).symm)
    · have hb := (h.place_bounds hl he).2
      rw [hold he, hnew hf]
      omega

/-- The events of a stream in the order of their versions are in the order of the log. -/
theorem Ordered.pairwise_stream {l : Ledger σ} (h : l.Ordered) (id : Uuid) :
    (l.stream id).Pairwise fun e f => l.place e ≤ l.place f := h.sorted.filter _

theorem Ordered.place_le {l : Ledger σ} (h : l.Ordered) (hd : l.Dense) {id : Uuid} {e f : EventOf σ}
    (he : e ∈ l.stream id) (hf : f ∈ l.stream id) (hv : e.version ≤ f.version) :
    l.place e ≤ l.place f := by
  obtain ⟨i, hi, rfl⟩ := List.mem_iff_getElem.mp he
  obtain ⟨j, hj, rfl⟩ := List.mem_iff_getElem.mp hf
  rw [(hd.numbered id).version_getElem i hi, (hd.numbered id).version_getElem j hj] at hv
  rcases Nat.lt_or_eq_of_le (show i ≤ j by omega) with hij | rfl
  · exact List.pairwise_iff_getElem.mp (h.pairwise_stream id) i j hi hj hij
  · exact Int.le_refl _

/-- What a range of the log holds of an aggregate are consecutive events of its stream, from the
first one beyond the start of the range on. -/
theorem Ordered.within_prefix {l : Ledger σ} (h : l.Ordered) (id : Uuid) (r : LogRange) :
    l.within id r <+: (l.stream id).drop ((l.stream id).countP (l.place · ≤ r.after)) := by
  rw [← filter_lt_of_pairwise (h.pairwise_stream id),
    ← filter_append_filter_of_pairwise ((h.pairwise_stream id).filter _) r.upTo,
    List.filter_filter]
  refine ⟨_, congrArg (· ++ _) (List.filter_congr fun e he => ?_)⟩
  rw [Bool.eq_iff_iff, h.isInRange_iff (mem_stream.mp he).1]
  simp [and_comm]

def contents (l : Ledger σ) (t : Transaction) : List (EventOf σ) :=
  l.events.filter (·.transactionId == t.id)

theorem Sound.eq_of_sequence {l : Ledger σ} (h : l.Sound) {s t : Transaction} (hs : s ∈ l.log)
    (ht : t ∈ l.log) (he : s.sequence = t.sequence) : s = t := by
  obtain ⟨n, hn⟩ := List.mem_iff_getElem?.mp hs
  obtain ⟨m, hm⟩ := List.mem_iff_getElem?.mp ht
  have hpn := h.place n s hn
  have hpm := h.place m t hm
  obtain rfl : n = m := by omega
  exact Option.some.inj (hn.symm.trans hm)

theorem Ordered.place_eq_iff {l : Ledger σ} (h : l.Ordered) (hl : l.Sound) {e : EventOf σ}
    (he : e ∈ l.events) {t : Transaction} (ht : t ∈ l.log) :
    l.place e = t.sequence ↔ e.transactionId = t.id := by
  obtain ⟨s, hs, hse⟩ := h.logged e he
  have hp : l.place e = s.sequence := by rw [place, ← hse, h.sequenceOf hs]; rfl
  constructor
  · intro hts
    rw [← hse, hl.eq_of_sequence hs ht (hp.symm.trans hts)]
  · intro hid
    rw [place, hid, h.sequenceOf ht]
    rfl

/-- The place of a transaction holds, of its aggregate, what it committed. -/
theorem Ordered.within_place {l : Ledger σ} (h : l.Ordered) (hl : l.Sound) {t : Transaction}
    (ht : t ∈ l.log) : l.within t.aggregateId ⟨t.sequence - 1, t.sequence⟩ = l.contents t := by
  rw [within, stream, List.filter_filter, contents]
  refine List.filter_congr fun e he => ?_
  have hid := h.place_eq_iff hl he ht
  rw [Bool.eq_iff_iff, Bool.and_eq_true, h.isInRange_iff he, beq_iff_eq, beq_iff_eq, ← hid]
  constructor
  · rintro ⟨⟨ha, hb⟩, -⟩
    simp only at ha hb
    omega
  · intro hp
    refine ⟨⟨?_, Int.le_of_eq hp⟩, (h.owner e he t ht (hid.mp hp).symm).symm⟩
    simp only
    omega

/-- One transaction after another, they are all the events up to a place. -/
theorem Ordered.flatMap_contents {l : Ledger σ} (h : l.Ordered) (hl : l.Sound) {n : Nat}
    (hn : n ≤ l.log.length) :
    (l.log.take n).flatMap l.contents = l.events.filter (l.place · ≤ n) := by
  induction n with
  | zero =>
    refine (List.filter_eq_nil_iff.mpr fun e he => ?_).symm
    have hb := (h.place_bounds hl he).1
    simp only [decide_eq_true_eq]
    omega
  | succ n ih =>
    have ht : l.log[n]? = some l.log[n] := List.getElem?_eq_getElem hn
    have hp := hl.place n _ ht
    have hsplit := filter_append_filter_of_pairwise (h.sorted.filter (l.place · ≤ (n + 1 : Nat))) n
    rw [List.filter_filter, List.filter_filter] at hsplit
    rw [List.take_add_one, ht, List.flatMap_append, ih (Nat.le_of_succ_le hn), ← hsplit]
    congr 1
    · refine List.filter_congr fun e _ => ?_
      rw [Bool.eq_iff_iff, Bool.and_eq_true, decide_eq_true_eq, decide_eq_true_eq]
      omega
    · rw [Option.toList_some, List.flatMap_singleton, contents]
      refine List.filter_congr fun e he => ?_
      rw [Bool.eq_iff_iff, beq_iff_eq, ← h.place_eq_iff hl he (List.getElem_mem hn),
        Bool.and_eq_true, decide_eq_true_eq, decide_eq_true_eq]
      omega

/-- Events lie in the order of their places, those of one transaction in that of their versions. -/
theorem Ordered.pairwise_version {l : Ledger σ} (h : l.Ordered) (hl : l.Sound) :
    l.events.Pairwise fun e f =>
      l.place e < l.place f ∨ l.place e = l.place f ∧ e.version < f.version := by
  have hv : l.events.Pairwise fun e f => e.aggregateId = f.aggregateId → e.version < f.version := by
    rw [List.pairwise_iff_getElem]
    intro i j hi hj hij hid
    have hs := (hl.numbered l.events[j].aggregateId).pairwise
    rw [stream, List.pairwise_filter, List.pairwise_iff_getElem] at hs
    exact hs i j hi hj hij (beq_iff_eq.mpr hid) (beq_self_eq_true _)
  refine (h.sorted.and hv).imp_of_mem fun {e f} he hf hef => ?_
  rcases Int.lt_or_eq_of_le hef.1 with hlt | heq
  · exact .inl hlt
  · refine .inr ⟨heq, hef.2 ?_⟩
    obtain ⟨t, ht, htf⟩ := h.logged f hf
    have hp := heq.trans ((h.place_eq_iff hl hf ht).mpr htf.symm)
    have hte := (h.place_eq_iff hl he ht).mp hp
    rw [← h.owner f hf t ht htf, h.owner e he t ht hte.symm]

end Ledger

/-- No two requests are made under one transaction id. -/
def Call.Distinct {ι : Type} (calls : ι → Call σ) : Prop :=
  ∀ i j r s, calls i = .request r → calls j = .request s → r.transactionId = s.transactionId → i = j

theorem Call.distinct_requests {ι : Type} {requests : ι → Request σ}
    (distinct : Function.Injective fun i => (requests i).transactionId) :
    Distinct fun i => .request (requests i) := by
  intro i j r s hi hj he
  cases hi
  cases hj
  exact distinct he

namespace Pool
variable {ι : Type} [DecidableEq ι]

/-- What a run keeps true of the log: it holds the transactions of the requests that have gone
well, and events are stored in its order. -/
structure Tidy (calls : ι → Call σ) (p : Pool ι σ) : Prop where
  sound : p.Sound calls
  ordered : p.ledger.Ordered
  signed : ∀ t ∈ p.ledger.log, ∃ i r, calls i = .request r ∧ t.id = r.transactionId ∧
    (p.agents i).receipt?.isSome = true

omit [DecidableEq ι] in
theorem tidy_start (calls : ι → Call σ) : (start {} calls).Tidy calls where
  sound := sound_start calls Ledger.Sound.empty
  ordered := .empty
  signed t ht := by cases ht

section
variable {calls : ι → Call σ} {p : Pool ι σ}

theorem Tidy.relay (h : p.Tidy calls) {x : Action ι σ}
    (ledger : ∃ c, (p.act x).ledger = { p.ledger with checkpoint := c })
    (receipts : ∀ j r, calls j = .request r →
      ((p.act x).agents j).receipt? = (p.agents j).receipt?) :
    (p.act x).Tidy calls := by
  obtain ⟨c, hc⟩ := ledger
  refine ⟨(h.sound.act x).2, hc ▸ h.ordered.relay c, fun t ht => ?_⟩
  obtain ⟨i, r, hi, hr, hd⟩ := h.signed t (by rw [hc] at ht; exact ht)
  exact ⟨i, r, hi, hr, (congrArg Option.isSome (receipts i r hi)).trans hd⟩

omit [DecidableEq ι] in
/-- A request that has not gone well yet has a transaction id that is not in the log. -/
theorem Tidy.fresh (h : p.Tidy calls) (distinct : Call.Distinct calls) {i : ι} {r : Request σ}
    (hi : calls i = .request r) (hn : (p.agents i).receipt? = none) :
    ∀ t ∈ p.ledger.log, t.id ≠ r.transactionId := by
  intro t ht he
  obtain ⟨j, s, hj, hs, hd⟩ := h.signed t ht
  have hji : j = i := distinct j i s r hj hi (hs.symm.trans he)
  rw [hji, hn] at hd
  cases hd

theorem Tidy.step_request (h : p.Tidy calls) (distinct : Call.Distinct calls) {i : ι}
    {r : Request σ} (hi : calls i = .request r) (peers : Peers σ) (told : Bool) :
    p.ledger.Later (p.act (.step i peers told)).ledger ∧
      (p.act (.step i peers told)).Tidy calls := by
  rcases h.sound.step_request hi peers told with ⟨hl, hr⟩ | ⟨n, s, -, -, hl, hn, hr⟩
  · refine ⟨hl ▸ .refl _, h.relay ⟨p.ledger.checkpoint, hl⟩ fun j _ _ => hr j⟩
  · have fresh := h.fresh distinct hi hn
    refine ⟨hl ▸ Ledger.later_absorb_unit h.sound.ledger h.ordered.logged fresh,
      (h.sound.act _).2, hl ▸ h.ordered.absorb_unit h.sound.ledger fresh, fun t ht => ?_⟩
    rw [hl, Ledger.log_absorb_unit] at ht
    rcases List.mem_append.mp ht with ht | ht
    · obtain ⟨j, s, hj, hs, hd⟩ := h.signed t ht
      refine ⟨j, s, hj, hs, ?_⟩
      rw [hr]
      split
      · rfl
      · exact hd
    · rw [List.mem_singleton.mp ht]
      exact ⟨i, r, hi, rfl, by simp [hr]⟩

theorem Tidy.act (h : p.Tidy calls) (distinct : Call.Distinct calls) (x : Action ι σ) :
    (p.act x).Tidy calls := by
  cases x with
  | step i peers told =>
    have others (hn : ∀ r, calls i ≠ .request r) : (p.act (.step i peers told)).Tidy calls := by
      refine h.relay ((h.sound.knows i).checkpoint_step hn peers told) fun j r hj => ?_
      have hji : j ≠ i := by
        rintro rfl
        exact hn r hj
      simp [Pool.act, hji]
    cases hc : calls i with
    | request r => exact (h.step_request distinct hc peers told).2
    | relay | consume => exact others (by simp [hc])
  | cancel i =>
    obtain ⟨hl, -⟩ := (h.sound.knows i).cancel
    refine h.relay ⟨p.ledger.checkpoint, hl⟩ fun j r hj => ?_
    by_cases hji : j = i
    · subst hji
      exact (h.sound.cancel_request hj).2 j
    · simp [Pool.act, hji]
  | notify i place =>
    exact h.relay ⟨p.ledger.checkpoint, p.ledger_notify i place⟩
      fun j _ _ => p.receipt?_notify i place j
  | fail operations => exact h.relay ⟨p.ledger.checkpoint, rfl⟩ fun _ _ _ => rfl

theorem Tidy.run (h : p.Tidy calls) (distinct : Call.Distinct calls) (acts : List (Action ι σ)) :
    (p.run acts).Tidy calls := by
  induction acts generalizing p with
  | nil => exact h
  | cons x acts ih => exact ih (h.act distinct x)

end

theorem tidy_requests {requests : ι → Request σ}
    (distinct : Function.Injective fun i => (requests i).transactionId)
    (acts : List (Action ι σ)) :
    ((start {} fun i => .request (requests i)).run acts).Tidy fun i => .request (requests i) :=
  (tidy_start _).run (Call.distinct_requests distinct) acts

end Pool
end Outbox

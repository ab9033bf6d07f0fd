import Outbox.Proofs.Relaying

/-! Ranges of the log: once all its places are taken, a range holds the same events for ever, as
long as no transaction id is used twice. -/
namespace Outbox
variable {σ : Type} [Model σ]

theorem LogRange.contains_iff {r : LogRange} {s : Int} :
    r.contains s = true ↔ r.after < s ∧ s ≤ r.upTo := by
  simp [contains]

namespace Ledger

/-- The transaction of every event is in the log. -/
def Logged (l : Ledger σ) : Prop := ∀ e ∈ l.events, ∃ t ∈ l.log, t.id = e.transactionId

theorem isInRange_iff {l : Ledger σ} {r : LogRange} {e : EventOf σ} :
    l.isInRange r e = true ↔ ∃ s, l.sequenceOf e.transactionId = some s ∧ r.contains s = true := by
  cases hs : l.sequenceOf e.transactionId <;> simp [isInRange, hs]

theorem mem_batch {l : Ledger σ} {id : Uuid} {r : LogRange} {e : EventOf σ} :
    e ∈ (l.batch id r).flatten ↔
      e ∈ l.events ∧ e.aggregateId = id ∧ l.isInRange r e = true := by
  have hw : (l.batch id r).flatten = l.within id r := by
    rw [batch]
    split
    · next hn => rw [List.isEmpty_iff.mp hn, List.flatten_nil]
    · rw [List.flatten_singleton]
  rw [hw, within, List.mem_filter, mem_stream, and_assoc]

/-- What may be committed without changing what ranges of the log hold. -/
structure Later (l m : Ledger σ) : Prop extends l.Grows m where
  checkpoint : m.checkpoint = l.checkpoint
  within : ∀ id (r : LogRange), r.upTo ≤ l.log.length → m.within id r = l.within id r

theorem Later.refl (l : Ledger σ) : l.Later l := ⟨.refl l, rfl, fun _ _ _ => rfl⟩

theorem Later.due {l m : Ledger σ} (h : l.Later m) {t : Transaction}
    (ht : t.sequence ≤ l.log.length) : m.due t = l.due t := by
  rw [Ledger.due, Ledger.due, h.checkpoint]
  exact h.within _ _ ht

theorem sequenceOf_of_grown {l m : Ledger σ} (h : l.log <+: m.log) {t : Transaction}
    (ht : t ∈ l.log) : m.sequenceOf t.id = l.sequenceOf t.id := by
  obtain ⟨ts, hts⟩ := h
  have hf : (l.log.find? (·.id == t.id)).isSome := by
    rw [List.find?_isSome]
    exact ⟨t, ht, by simp⟩
  rw [sequenceOf, sequenceOf, ← hts, List.find?_append]
  rw [Option.or_of_isSome hf]

theorem sequenceOf_absorb_unit {l : Ledger σ} (h : l.Sound) {r : Request σ} {n : Nat} {s : σ}
    (fresh : ∀ t ∈ l.log, t.id ≠ r.transactionId) :
    (l.absorb (r.unit n s)).sequenceOf r.transactionId = some (l.log.length + 1) := by
  have hn : l.log.find? (·.id == r.transactionId) = none := by
    rw [List.find?_eq_none]
    simpa using fresh
  rw [sequenceOf, log_absorb_unit, List.find?_append, hn]
  simp [h.nextSequence]

theorem later_absorb_unit {l : Ledger σ} (h : l.Sound) (hg : l.Logged) {r : Request σ} {n : Nat}
    {s : σ} (fresh : ∀ t ∈ l.log, t.id ≠ r.transactionId) : l.Later (l.absorb (r.unit n s)) := by
  have hgr := grows_absorb_writing l r.transactionId (r.outcome n s)
  refine ⟨hgr, rfl, fun id rg hr => ?_⟩
  have hold : (l.stream id).filter ((l.absorb (r.unit n s)).isInRange rg) =
      (l.stream id).filter (l.isInRange rg) := by
    refine List.filter_congr fun e he => ?_
    obtain ⟨t, ht, hte⟩ := hg e (mem_stream.mp he).1
    have hs : (l.absorb (r.unit n s)).sequenceOf t.id = l.sequenceOf t.id :=
      sequenceOf_of_grown hgr.log ht
    simp only [isInRange, ← hte, hs]
  have hnew : (if id = r.aggregateId then r.events n else []).filter
      ((l.absorb (r.unit n s)).isInRange rg) = [] := by
    refine List.filter_eq_nil_iff.mpr fun e he => ?_
    have hm : e ∈ r.events n := by
      split at he
      · exact he
      · simp at he
    rw [isInRange, (Request.of_mem_events hm).2, sequenceOf_absorb_unit h fresh]
    intro hc
    have hu := (LogRange.contains_iff.mp hc).2
    omega
  rw [within, within, stream_absorb_unit, List.filter_append, hold, hnew, List.append_nil]

theorem logged_absorb_unit {l : Ledger σ} (hg : l.Logged) (r : Request σ) (n : Nat) (s : σ) :
    (l.absorb (r.unit n s)).Logged := by
  intro e he
  rw [log_absorb_unit]
  rcases List.mem_append.mp he with he | he
  · obtain ⟨t, ht, hte⟩ := hg e he
    exact ⟨t, List.mem_append_left _ ht, hte⟩
  · exact ⟨_, List.mem_append_right _ (List.mem_singleton.mpr rfl),
      (Request.of_mem_events he).2.symm⟩

theorem Step.logged {l m : Ledger σ} (h : l.Step m) (hl : l.Logged) : m.Logged := by
  cases h with
  | still => exact hl
  | handled r n s => exact logged_absorb_unit hl r n s
  | relayed u reads =>
    rw [absorb_readOnly l reads]
    exact hl

theorem Later.batch {l m : Ledger σ} (h : l.Later m) (id : Uuid) {r : LogRange}
    (hr : r.upTo ≤ l.log.length) : m.batch id r = l.batch id r := by
  rw [Ledger.batch, Ledger.batch, h.within id r hr]

theorem Later.parcels {l m : Ledger σ} (h : l.Later m) {t : Transaction}
    (ht : t.sequence ≤ l.log.length) : m.parcels t = l.parcels t := by
  rw [Ledger.parcels, Ledger.parcels, h.checkpoint]
  exact h.batch _ ht

theorem Grows.tell {l m : Ledger σ} (h : l.Grows m) (hl : l.Dense) (hm : m.Dense) {e : EventOf σ}
    (he : e ∈ l.events) : m.tell e = l.tell e := by
  have hs : e ∈ l.stream e.aggregateId := mem_stream.mpr ⟨he, rfl⟩
  have hb := (hl.numbered _).bounds hs
  have hv : e.version = (e.version.toNat : Int) := by omega
  have hf := (hl.numbered e.aggregateId).filter_upTo e.version.toNat
  have hf' := (hm.numbered e.aggregateId).filter_upTo e.version.toNat
  rw [Int.zero_add, ← hv] at hf hf'
  rw [Ledger.tell, Ledger.tell, hf, hf', h.take_stream]
  omega

end Ledger

/-- What a round holds and has found stays true, whatever is committed after the transaction that
it was notified of. -/
theorem Round.Holds.mono {l m : Ledger σ} (h : l.Later m) (hl : l.Dense) (hm : m.Dense)
    {t : Transaction} (ht : t.sequence ≤ l.log.length) {stage : Stage σ} (hh : Holds l t stage) :
    Holds m t stage := by
  have hlock {u : UnitOfWork σ} {es : List (EventOf σ)} (hk : Locked l t u es) : Locked m t u es :=
    ⟨hk.unit, h.checkpoint ▸ hk.ahead, (h.due ht).symm ▸ hk.events, hk.some⟩
  cases stage with
  | waiting | ended | cancelled => trivial
  | opened u => exact hh
  | sawCheckpoint u found =>
    intro c hc
    rw [h.checkpoint]
    exact hh c hc
  | sawUnhandled u found =>
    obtain ⟨hu, hc, he⟩ := hh
    exact ⟨hu, h.checkpoint ▸ hc, fun es hf => (h.due ht).symm ▸ he es hf⟩
  | sawSnapshot u es first a found =>
    obtain ⟨hk, hf, ha, hx⟩ := hh
    exact ⟨hlock hk, hf, ha, fun x hs => ⟨h.snapshots.subset (hx x hs).1, (hx x hs).2⟩⟩
  | sawHistory u es a found =>
    obtain ⟨hk, cap, n, s, hs, ha, he⟩ := hh
    exact ⟨hlock hk, cap, n, s, hs.mono h.toGrows, ha,
      fun es hf => (he es hf).trans (h.drop_stream _ n)⟩
  | publishing u a batch =>
    obtain ⟨hk, hb⟩ := hh
    refine ⟨hlock hk, hb.trans (List.map_congr_left fun e he => ?_)⟩
    rw [hk.events] at he
    exact (h.tell hl hm (Ledger.mem_stream.mp (Ledger.mem_due.mp he).1).1).symm
  | published u a n result =>
    obtain ⟨hk, hn⟩ := hh
    exact ⟨hlock hk, hn⟩
  | moved u n result =>
    obtain ⟨hc, hn, hu⟩ := hh
    exact ⟨h.checkpoint ▸ hc, (h.due ht).symm ▸ hn, hu⟩

end Outbox

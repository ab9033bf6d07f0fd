import Mathlib.Data.List.Basic
import Mathlib.Tactic.Common
import Outbox.Proofs.Move

/-! The stream of an aggregate: its committed events in the order of their commits. As long as the
events of a stream carry the versions from 1 on, what the store answers to a reader is a part of
the stream, cut by version or by place of the log. -/
namespace Outbox

namespace Event
variable {P : Type}

/-- The events carry the versions after a base, one after another. -/
def Numbered : Int → List (Event P) → Prop
  | _, [] => True
  | base, e :: es => e.version = base + 1 ∧ Numbered (base + 1) es

theorem numbered_append {base : Int} {es fs : List (Event P)} :
    Numbered base (es ++ fs) ↔ Numbered base es ∧ Numbered (base + es.length) fs := by
  induction es generalizing base with
  | nil => simp [Numbered]
  | cons e es ih =>
    have hb : base + 1 + (es.length : Int) = base + (es.length + 1 : Nat) := by omega
    simp only [List.cons_append, Numbered, ih, List.length_cons, and_assoc, hb]

theorem numbered_eventsAfter (a t : Uuid) (c : String) (w : Timestamp) (base : Int)
    (es : List (WantedEvent P)) : Numbered base (Command.eventsAfter a t c w base es) := by
  induction es generalizing base with
  | nil => trivial
  | cons e es ih => exact ⟨rfl, ih _⟩

theorem Numbered.take {base : Int} {es : List (Event P)} (h : Numbered base es) (n : Nat) :
    Numbered base (es.take n) := by
  rw [← List.take_append_drop n es, numbered_append] at h
  exact h.1

theorem Numbered.drop {base : Int} {es : List (Event P)} (h : Numbered base es) {n : Nat}
    (hn : n ≤ es.length) : Numbered (base + n) (es.drop n) := by
  rw [← List.take_append_drop n es, numbered_append, List.length_take, Nat.min_eq_left hn] at h
  exact h.2

theorem Numbered.version_getElem {base : Int} {es : List (Event P)} (h : Numbered base es)
    (k : Nat) (hk : k < es.length) : es[k].version = base + k + 1 := by
  induction es generalizing base k with
  | nil => simp at hk
  | cons e es ih =>
    obtain ⟨he, hes⟩ := h
    cases k with
    | zero => simpa using he
    | succ k =>
      have hv := ih hes k (by simpa using hk)
      simp only [List.getElem_cons_succ, hv]
      omega

theorem Numbered.bounds {base : Int} {es : List (Event P)} (h : Numbered base es) {e : Event P}
    (he : e ∈ es) : base < e.version ∧ e.version ≤ base + es.length := by
  obtain ⟨k, hk, rfl⟩ := List.mem_iff_getElem.mp he
  rw [h.version_getElem k hk]
  omega

theorem Numbered.pairwise {base : Int} {es : List (Event P)} (h : Numbered base es) :
    es.Pairwise fun e f => e.version < f.version := by
  induction es generalizing base with
  | nil => exact .nil
  | cons e es ih =>
    obtain ⟨he, hes⟩ := h
    refine .cons (fun f hf => ?_) (ih hes)
    have hb := hes.bounds hf
    omega

theorem Numbered.map_version {base : Int} {es : List (Event P)} (h : Numbered base es) :
    es.map Event.version = (List.range es.length).map fun k : Nat => base + k + 1 := by
  refine List.ext_getElem (by simp) fun k hk _ => ?_
  simpa using h.version_getElem k (by simpa using hk)

theorem Numbered.filter_from {base : Int} {es : List (Event P)} (h : Numbered base es) (n : Nat) :
    (es.filter fun e => base + n + 1 ≤ e.version) = es.drop n := by
  induction es generalizing base n with
  | nil => simp
  | cons e es ih =>
    obtain ⟨he, hes⟩ := h
    cases n with
    | zero =>
      simp only [List.drop_zero]
      refine List.filter_eq_self.mpr fun f hf => ?_
      rcases List.mem_cons.mp hf with rfl | hf
      · simp [he]
      · have hb := hes.bounds hf
        simp only [decide_eq_true_eq]
        omega
    | succ n =>
      have hn : ¬ base + (n + 1 : Nat) + 1 ≤ e.version := by omega
      have hb : base + ((n + 1 : Nat) : Int) + 1 = base + 1 + n + 1 := by omega
      rw [List.filter_cons_of_neg (by simpa using hn), List.drop_succ_cons, ← ih hes n]
      simp only [hb]

theorem Numbered.filter_upTo {base : Int} {es : List (Event P)} (h : Numbered base es) (n : Nat) :
    (es.filter fun e => e.version ≤ base + n) = es.take n := by
  induction es generalizing base n with
  | nil => simp
  | cons e es ih =>
    obtain ⟨he, hes⟩ := h
    cases n with
    | zero =>
      simp only [List.take_zero]
      refine List.filter_eq_nil_iff.mpr fun f hf => ?_
      rcases List.mem_cons.mp hf with rfl | hf
      · simp only [decide_eq_true_eq]
        omega
      · have hb := hes.bounds hf
        simp only [decide_eq_true_eq]
        omega
    | succ n =>
      have hn : e.version ≤ base + (n + 1 : Nat) := by omega
      have hb : base + ((n + 1 : Nat) : Int) = base + 1 + n := by omega
      rw [List.filter_cons_of_pos (by simpa using hn), List.take_succ_cons, ← ih hes n]
      simp only [hb]

end Event

variable {σ : Type} [Model σ]

structure UnitOfWork.ReadOnly (u : UnitOfWork σ) : Prop where
  versions : u.versions = []
  events : u.events = []
  snapshots : u.snapshots = []
  transactions : u.transactions = []

theorem UnitOfWork.ReadOnly.withCheckpoint {u : UnitOfWork σ} (h : u.ReadOnly) (held : Bool)
    (c : Option Checkpoint) : { u with holdsCheckpoint := held, checkpoint := c }.ReadOnly :=
  ⟨h.versions, h.events, h.snapshots, h.transactions⟩

/-- The changes are those of the aggregate itself and lead from its base version to its version. -/
structure Aggregate.Coherent (a : Aggregate σ) : Prop where
  numbered : Event.Numbered a.baseVersion a.changes
  own : ∀ e ∈ a.changes, e.aggregateId = a.id
  version : a.version = a.baseVersion + a.changes.length

namespace Ledger

/-- The committed events of an aggregate in the order of their commits. -/
def stream (l : Ledger σ) (id : Uuid) : List (EventOf σ) := l.events.filter (·.aggregateId == id)

/-- Every stream carries the versions from 1 on, and the last of them is the stored version. -/
structure Dense (l : Ledger σ) : Prop where
  numbered : ∀ id, Event.Numbered 0 (l.stream id)
  version : ∀ id, l.version id = (l.stream id).length

theorem mem_stream {l : Ledger σ} {id : Uuid} {e : EventOf σ} :
    e ∈ l.stream id ↔ e ∈ l.events ∧ e.aggregateId = id := by
  simp [stream]

theorem Dense.empty : ({} : Ledger σ).Dense where
  numbered _ := trivial
  version _ := rfl

/-- What sorting by version does to a part of a stream: nothing. -/
theorem Dense.sort_filter {l : Ledger σ} (h : l.Dense) (id : Uuid) (p : EventOf σ → Bool) :
    Order.sortBy Event.version (l.events.filter fun e => e.aggregateId == id && p e) =
      (l.stream id).filter p := by
  have hf : (l.events.filter fun e => e.aggregateId == id && p e) = (l.stream id).filter p := by
    simp only [stream, List.filter_filter, Bool.and_comm]
  rw [hf]
  exact Order.sortBy_of_pairwise
    (((h.numbered id).pairwise.filter p).imp fun hv => Int.le_of_lt hv)

theorem Dense.eventsOf {l : Ledger σ} (h : l.Dense) (id : Uuid) : l.eventsOf id = l.stream id := by
  have hs := h.sort_filter id fun _ => true
  simpa [Ledger.eventsOf] using hs

theorem Dense.eventsIn {l : Ledger σ} (h : l.Dense) (id : Uuid) (r : LogRange) :
    l.eventsIn id r = (l.stream id).filter (l.isInRange r) :=
  h.sort_filter id _

theorem Dense.eventsBetween {l : Ledger σ} (h : l.Dense) (id : Uuid) (n : Nat) :
    l.eventsBetween id (n + 1) none = (l.stream id).drop n := by
  have hs := h.sort_filter id fun e => (n : Int) + 1 ≤ e.version
  rw [← (h.numbered id).filter_from n]
  simpa [Ledger.eventsBetween, isUpTo] using hs

theorem Dense.eventsBetween_upTo {l : Ledger σ} (h : l.Dense) (id : Uuid) (n m : Nat) :
    l.eventsBetween id (n + 1) (some m) = ((l.stream id).take m).drop n := by
  have hs := h.sort_filter id fun e => decide ((n : Int) + 1 ≤ e.version) && e.version ≤ (m : Int)
  have hm := (h.numbered id).filter_upTo m
  rw [← ((h.numbered id).take m).filter_from n, ← hm, List.filter_filter]
  simpa [Ledger.eventsBetween, isUpTo, Bool.and_assoc] using hs

theorem mem_of_latestSnapshot {l : Ledger σ} {id : Uuid} {before : Option Int} {x : SnapshotOf σ}
    (h : l.latestSnapshot id before = some x) :
    x ∈ l.snapshots ∧ x.aggregateId = id ∧ isBelow before x.version = true := by
  have hm := Order.mem_of_latestBy h
  simpa using hm

theorem outdated_writing {l : Ledger σ} {t : Uuid} {a : Aggregate σ} :
    l.outdated (.writing t a) = none ↔ l.version a.id = a.baseVersion := by
  simp [outdated, UnitOfWork.writing]

theorem version_set (l : Ledger σ) (id id' : Uuid) (v : Int) (es : List (EventOf σ))
    (xs : List (SnapshotOf σ)) (ts : List Transaction) :
    Ledger.version { l with
      versions := l.versions.set id v, events := es, snapshots := xs, log := ts } id' =
      if id' = id then v else l.version id' := by
  by_cases h : id' = id <;> simp [Ledger.version, h]

/-- What becomes durable with an aggregate: its version, its changes, its snapshot and one more
transaction. -/
theorem absorb_writing (l : Ledger σ) (t : Uuid) (a : Aggregate σ) :
    l.absorb (.writing t a) =
      { l with
        versions := l.versions.set a.id a.version
        events := l.events ++ a.changes
        snapshots := l.snapshots ++ (UnitOfWork.writing t a).snapshots
        log := l.log ++ [⟨t, a.id, l.nextSequence⟩] } := rfl

theorem stream_absorb_writing (l : Ledger σ) (t : Uuid) (a : Aggregate σ) (h : a.Coherent)
    (id : Uuid) :
    (l.absorb (.writing t a)).stream id = l.stream id ++ if id = a.id then a.changes else [] := by
  simp only [absorb_writing, stream, List.filter_append]
  congr 1
  split
  · next he =>
    subst he
    exact List.filter_eq_self.mpr fun e hm => by simpa using h.own e hm
  · next he =>
    refine List.filter_eq_nil_iff.mpr fun e hm => ?_
    simpa [h.own e hm] using Ne.symm he

theorem Dense.absorb_writing {l : Ledger σ} (hl : l.Dense) {t : Uuid} {a : Aggregate σ}
    (ha : a.Coherent) (hf : l.outdated (.writing t a) = none) :
    (l.absorb (.writing t a)).Dense := by
  have hb : a.baseVersion = (l.stream a.id).length := by
    rw [← hl.version, outdated_writing.mp hf]
  refine ⟨fun id => ?_, fun id => ?_⟩
  · rw [stream_absorb_writing l t a ha, Event.numbered_append]
    refine ⟨hl.numbered id, ?_⟩
    split
    · next he =>
      subst he
      rw [Int.zero_add, ← hb]
      exact ha.numbered
    · trivial
  · rw [stream_absorb_writing l t a ha, Ledger.absorb_writing, version_set]
    split
    · next he =>
      subst he
      rw [ha.version, hb, List.length_append]
      omega
    · simpa using hl.version id

theorem absorb_readOnly (l : Ledger σ) {u : UnitOfWork σ} (h : u.ReadOnly) :
    l.absorb u =
      { l with checkpoint := if u.holdsCheckpoint then u.checkpoint.getD l.checkpoint
        else l.checkpoint } := by
  obtain ⟨hv, he, hs, ht⟩ := h
  cases hc : u.checkpoint with
  | none => simp [absorb, hv, he, hs, ht, hc]
  | some c => cases hh : u.holdsCheckpoint <;> simp [absorb, hv, he, hs, ht, hc, hh]

end Ledger
end Outbox

import Outbox.Proofs.Reach
import Outbox.User

/-! If what is restored from a snapshot is the state it was taken of, then an aggregate is loaded
in one state only: that after the events of its stream, replayed one after another. -/
namespace Outbox

/-- A snapshot replaces whatever state there is with the one it was taken of. -/
class LawfulModel (σ : Type) [Model σ] : Prop where
  restore_snapshot (s t : σ) : Model.restore s (Model.snapshot t) = .ok t

instance : LawfulModel User where
  restore_snapshot := User.restore_snapshot

variable {σ : Type} [Model σ]

namespace Ledger

def stateAt (l : Ledger σ) (id : Uuid) (n : Nat) : Except Error σ :=
  Model.replay Model.initial ((l.stream id).take n)

/-- Every snapshot was taken of the state after the events up to its version. -/
def Faithful (l : Ledger σ) : Prop :=
  ∀ x ∈ l.snapshots, ∃ (n : Nat) (s : σ), x.version = n ∧ n ≤ (l.stream x.aggregateId).length ∧
    x.payload = Model.snapshot s ∧ l.stateAt x.aggregateId n = .ok s

theorem Faithful.empty : ({} : Ledger σ).Faithful := nofun

theorem Grows.stateAt {l m : Ledger σ} (h : l.Grows m) {id : Uuid} {n : Nat}
    (hn : n ≤ (l.stream id).length) : m.stateAt id n = l.stateAt id n := by
  simp only [Ledger.stateAt, h.take_stream id hn]

theorem stateAt_append {l : Ledger σ} {id : Uuid} {n : Nat} {s : σ} {es : List (EventOf σ)}
    (hs : l.stateAt id n = .ok s) (hp : es <+: (l.stream id).drop n) :
    l.stateAt id (n + es.length) = Model.replay s es := by
  obtain ⟨fs, hf⟩ := hp
  have ht : (l.stream id).take (n + es.length) = (l.stream id).take n ++ es := by
    rw [List.take_add, ← hf, List.take_left]
  rw [Ledger.stateAt, ht]
  exact Model.replay_append_of_eq_ok hs

theorem stateAt_succ {l : Ledger σ} {id : Uuid} {n : Nat} {s : σ} {e : EventOf σ}
    (hs : l.stateAt id n = .ok s) (he : (l.stream id)[n]? = some e) :
    l.stateAt id (n + 1) = Model.apply s e := by
  have hp : [e] <+: (l.stream id).drop n := by
    obtain ⟨hn, rfl⟩ := List.getElem?_eq_some_iff.mp he
    rw [List.drop_eq_getElem_cons hn]
    exact List.prefix_append [_] _
  have ha := stateAt_append hs hp
  simp only [List.length_singleton] at ha
  rw [ha]
  cases h : Model.apply s e <;> simp [Model.replay, h]

section
variable [LawfulModel σ]

theorem CanLoad.stateAt {l : Ledger σ} (hf : l.Faithful) {id : Uuid} {n : Nat} {s : σ}
    (h : l.CanLoad id n s) : l.stateAt id n = .ok s := by
  induction h with
  | fresh => rfl
  | @snapshot x n s hx ho hv hr =>
    obtain ⟨k, t, hk, -, hp, ht⟩ := hf x hx
    have hn : k = n := by omega
    rw [hp, LawfulModel.restore_snapshot] at hr
    cases hr
    rw [← hn, ← ho]
    exact ht
  | event _ hn ha ih => rw [stateAt_succ ih hn, ha]

theorem Sound.resume_stored {l : Ledger σ} (h : l.Sound) (id : Uuid) (cap : Int)
    {found : Option (SnapshotOf σ)}
    (stored : ∀ x ∈ found, x ∈ l.snapshots ∧ x.aggregateId = id) :
    ∃ n s, l.CanLoad id n s ∧ (found.map Snapshot.version).getD 0 = n ∧
      (Aggregate.loaded id cap 0 Model.initial).resume found = .ok (.loaded id cap n s) := by
  cases found with
  | none => exact ⟨0, Model.initial, .fresh, rfl, rfl⟩
  | some x =>
    obtain ⟨hm, ho⟩ := stored x rfl
    obtain ⟨n, s, hv, h1, -, -, hp⟩ := h.snapshot x hm
    have hr : Model.restore Model.initial x.payload = .ok s := by
      rw [hp, LawfulModel.restore_snapshot]
    have hn : ¬ x.version ≤ 0 := by omega
    refine ⟨n, s, .snapshot hm ho hv hr, hv, ?_⟩
    simp [Aggregate.resume, Aggregate.restore, Aggregate.loaded, hr, ← hv, hn]

/-- A stored snapshot from before an event takes an aggregate to that event or short of it. -/
theorem Sound.resume_below {l : Ledger σ} (h : l.Sound) (id : Uuid) (cap : Int) {m : Nat}
    {found : Option (SnapshotOf σ)}
    (stored : ∀ x ∈ found, x ∈ l.snapshots ∧ x.aggregateId = id)
    (below : ∀ x ∈ found, x.version < m + 1) :
    ∃ n s, n ≤ m ∧ l.CanLoad id n s ∧
      (Aggregate.loaded id cap 0 Model.initial).resume found = .ok (.loaded id cap n s) := by
  obtain ⟨n, s, hs, hv, hr⟩ := h.resume_stored id cap stored
  refine ⟨n, s, ?_, hs, hr⟩
  cases found with
  | none =>
    have h0 : (0 : Int) = n := hv
    omega
  | some x =>
    have hx : x.version = n := hv
    have hlt := below x rfl
    omega

theorem Sound.build_prefix {l : Ledger σ} (h : l.Sound) (hf : l.Faithful) {id : Uuid} (cap : Int)
    {n : Nat} {s t : σ} {es : List (EventOf σ)} (hs : l.CanLoad id n s)
    (hp : es <+: (l.stream id).drop n) (ht : l.stateAt id (n + es.length) = .ok t) :
    (Aggregate.loaded id cap n s).build es =
      (.loaded id cap (n + es.length : Nat) t, .ok ()) := by
  have hr : Model.replay s es = .ok t := by rw [← stateAt_append (hs.stateAt hf) hp, ht]
  rw [(Aggregate.build_loaded id cap s (h.numbered_of_prefix hs hp)).1 t hr, Int.natCast_add]

/-- From the latest snapshot before the next event, and the events after it, an aggregate is rebuilt
up to a version. -/
theorem Sound.rebuild {l : Ledger σ} (h : l.Sound) (hf : l.Faithful) (id : Uuid) (cap : Int)
    {m : Nat} (hm : m ≤ (l.stream id).length) {s : σ} (hs : l.stateAt id m = .ok s) :
    ∃ n t, n ≤ m ∧
      (Aggregate.new id cap).resume (l.latestSnapshot id (some (m + 1))) =
        .ok (.loaded id cap n t) ∧
      (Aggregate.loaded id cap n t).build (l.eventsBetween id (n + 1) (some m)) =
        (.loaded id cap m s, .ok ()) := by
  have stored : ∀ x ∈ l.latestSnapshot id (some (m + 1)), x ∈ l.snapshots ∧ x.aggregateId = id :=
    fun x hx => have hm := mem_of_latestSnapshot hx; ⟨hm.1, hm.2.1⟩
  have below : ∀ x ∈ l.latestSnapshot id (some (m + 1)), x.version < m + 1 :=
    fun x hx => of_decide_eq_true (mem_of_latestSnapshot hx).2.2
  obtain ⟨n, t, hnm, ht, hr⟩ := h.resume_below id cap stored below
  refine ⟨n, t, hnm, hr, ?_⟩
  have hp : ((l.stream id).take m).drop n <+: (l.stream id).drop n := by
    rw [List.drop_take]
    exact List.take_prefix _ _
  have hlen : n + (((l.stream id).take m).drop n).length = m := by
    rw [List.length_drop, List.length_take]
    omega
  rw [h.eventsBetween_upTo, h.build_prefix hf cap ht hp (hlen.symm ▸ hs), hlen]

theorem Faithful.absorb_unit {l : Ledger σ} (hf : l.Faithful) (hl : l.Sound) {r : Request σ}
    {n : Nat} {s : σ} (hw : r.Writes l n s) (hc : l.outdated (r.unit n s) = none) :
    (l.absorb (r.unit n s)).Faithful := by
  have hg := grows_absorb_writing l r.transactionId (r.outcome n s)
  intro x hx
  rcases List.mem_append.mp hx with hx | hx
  · obtain ⟨k, t, hv, hk, hp, ht⟩ := hf x hx
    exact ⟨k, t, hv, Nat.le_trans hk (hg.length_stream _), hp, (hg.stateAt hk).trans ht⟩
  · obtain ⟨-, rfl⟩ := Request.mem_snapshots_unit.mp hx
    obtain ⟨s₀, hs, hr⟩ := hw
    have he := hl.length_stream hc
    have hp := l.stream_absorb_unit r n s r.aggregateId
    rw [if_pos rfl] at hp
    refine ⟨n + r.command.events.length, s, by simp, ?_, rfl, ?_⟩
    · simp [hp, he]
    · have hn : (l.absorb (r.unit n s)).stateAt r.aggregateId n = .ok s₀ :=
        (hg.stateAt (Nat.le_of_eq he.symm)).trans (hs.stateAt hf)
      have hd : ((l.absorb (r.unit n s)).stream r.aggregateId).drop n = r.events n := by
        rw [hp, ← he, List.drop_left]
      have hq : r.events n <+: ((l.absorb (r.unit n s)).stream r.aggregateId).drop n :=
        hd.symm ▸ List.prefix_refl _
      have ha := stateAt_append hn hq
      rwa [Request.length_events, hr] at ha

theorem Step.faithful {l m : Ledger σ} (h : l.Step m) (hl : l.Sound) (hf : l.Faithful) :
    m.Faithful := by
  cases h with
  | still => exact hf
  | handled r n s writes current => exact hf.absorb_unit hl writes current
  | relayed u reads =>
    rw [absorb_readOnly l reads]
    exact hf

end
end Ledger

namespace Pool
variable {ι : Type} [DecidableEq ι] [LawfulModel σ]

theorem Sound.faithful_run {calls : ι → Call σ} {p : Pool ι σ} (h : p.Sound calls)
    (hf : p.ledger.Faithful) (acts : List (Action ι σ)) : (p.run acts).ledger.Faithful := by
  induction acts generalizing p with
  | nil => exact hf
  | cons x acts ih =>
    obtain ⟨hs, hx⟩ := h.act x
    exact ih hx (hs.faithful h.ledger hf)

theorem faithful_run (calls : ι → Call σ) (acts : List (Action ι σ)) :
    ((start {} calls).run acts).ledger.Faithful :=
  (sound_start calls Ledger.Sound.empty).faithful_run Ledger.Faithful.empty acts

end Pool
end Outbox

import Outbox.Proofs.Clients
import Outbox.Proofs.Load
import Outbox.Store.Seed
import Outbox.User

/-! Units of work that update any number of aggregates, the same one more than once too. An update is
admitted on top of the version that is durable, not of the one that the update before it in the same
unit of work is to make durable. So the versions of an aggregate stay distinct exactly as long as no
unit of work that is committed updates an aggregate again after events of it. -/
namespace Outbox
variable {σ : Type} [Model σ]

/-! ### Aggregates that were loaded and changed -/

namespace Aggregate

/-- What an aggregate can be once it has been loaded and events of its own have happened to it, in
any number of calls, whether these went well or not. -/
inductive Draft : Aggregate σ → Prop
  | loaded {s : Store σ} {id : Uuid} {cap : Int} {a : Aggregate σ} {n : Nat}
      (load : s.load (new id cap) = (a, .ok n)) : Draft a
  | changed {a b : Aggregate σ} {es : List (EventOf σ)} {r : Except Error Unit} (before : Draft a)
      (own : ∀ e ∈ es, e.aggregateId = a.id) (advance : a.advanceAll es = (b, r)) : Draft b

def Unchanged (a : Aggregate σ) : Prop := a.version = a.baseVersion ∧ a.changes = []

theorem Unchanged.coherent {a : Aggregate σ} (h : a.Unchanged) : a.Coherent where
  numbered := by
    rw [h.2]
    trivial
  own := by simp [h.2]
  version := by simp [h.1, h.2]

theorem Unchanged.reloads {a b : Aggregate σ} (h : a.Unchanged) (hb : a.Reloads b) :
    b.Unchanged := by
  refine ⟨?_, hb.changes.trans h.2⟩
  rcases hb.version with hv | ⟨hv, hw⟩
  · exact hv.symm
  · rw [hv, hw, h.1]

theorem unchanged_of_load {s : Store σ} {id : Uuid} {cap : Int} {a : Aggregate σ} {n : Nat}
    (h : s.load (new id cap) = (a, .ok n)) : a.Unchanged := by
  have hn : (new id cap : Aggregate σ).Unchanged := ⟨rfl, rfl⟩
  unfold Store.load at h
  split at h
  · cases h
  · split at h
    · cases h
    · next b hb =>
      split at h
      · cases h
      · split at h
        · cases h
        · next c hc =>
          cases h
          exact hn.reloads (((Reloads.refl _).resume hb).build hc)

theorem Coherent.advance {a b : Aggregate σ} (h : a.Coherent) {e : EventOf σ}
    (own : e.aggregateId = a.id) (hb : a.advance e = .ok b) : b.Coherent ∧ b.id = a.id := by
  simp only [Aggregate.advance] at hb
  split at hb
  · next hv =>
    split at hb
    · cases hb
    · cases hb
      refine ⟨⟨?_, fun f hf => ?_, ?_⟩, rfl⟩
      · rw [Event.numbered_append]
        exact ⟨h.numbered, by rw [hv, h.version], trivial⟩
      · rcases List.mem_append.mp hf with hf | hf
        · exact h.own f hf
        · rw [List.mem_singleton.mp hf]
          exact own
      · simp only [hv, h.version, List.length_append, List.length_singleton]
        omega
  · cases hb

theorem Coherent.advanceAll {a b : Aggregate σ} (h : a.Coherent) {es : List (EventOf σ)}
    {r : Except Error Unit} (own : ∀ e ∈ es, e.aggregateId = a.id)
    (hb : a.advanceAll es = (b, r)) : b.Coherent := by
  induction es generalizing a with
  | nil =>
    cases hb
    exact h
  | cons e es ih =>
    cases hr : a.advance e with
    | error x =>
      simp only [Aggregate.advanceAll, feed, hr] at hb
      cases hb
      exact h
    | ok c =>
      obtain ⟨hc, hid⟩ := h.advance (own e List.mem_cons_self) hr
      simp only [Aggregate.advanceAll, feed, hr] at hb
      exact ih hc (fun f hf => hid.symm ▸ own f (List.mem_cons_of_mem e hf)) hb

theorem Draft.coherent {a : Aggregate σ} (h : a.Draft) : a.Coherent := by
  induction h with
  | loaded load => exact (unchanged_of_load load).coherent
  | changed _ own advance ih => exact ih.advanceAll own advance

def staged (a : Aggregate σ) : StagedVersion := ⟨a.id, a.baseVersion, a.version⟩

theorem Coherent.exists_next {a : Aggregate σ} (h : a.Coherent) (hc : a.changes ≠ []) :
    ∃ e ∈ a.changes, e.aggregateId = a.id ∧ e.version = a.baseVersion + 1 := by
  have hn := h.numbered
  cases hs : a.changes with
  | nil => exact absurd hs hc
  | cons e es =>
    rw [hs] at hn
    exact ⟨e, List.mem_cons_self, h.own e (hs ▸ List.mem_cons_self), hn.1⟩

end Aggregate

/-! ### One update after another -/

/-- Each update is based on the version that its row has by then, and moves the row on. -/
def Versions.Follows : Versions → List StagedVersion → Prop
  | _, [] => True
  | v, s :: ss => (v.get? s.aggregateId).getD 0 = s.base ∧ Follows (v.set s.aggregateId s.next) ss

/-- Where all updates are based on the rows as they were at first, they follow one another exactly
if none that moved a row is followed by another of its aggregate. -/
theorem Versions.follows_iff {r : Uuid → Int} {ss : List StagedVersion}
    (hb : ∀ s ∈ ss, s.base = r s.aggregateId) (v : Versions) :
    v.Follows ss ↔ (∀ s ∈ ss, (v.get? s.aggregateId).getD 0 = r s.aggregateId) ∧
      ss.Pairwise fun s t => s.aggregateId = t.aggregateId → s.next = s.base := by
  induction ss generalizing v with
  | nil => simp [Follows]
  | cons s ss ih =>
    have hs : s.base = r s.aggregateId := hb s List.mem_cons_self
    simp only [Follows, ih fun t ht => hb t (List.mem_cons_of_mem s ht), List.forall_mem_cons,
      List.pairwise_cons, get?_set, hs]
    constructor
    · rintro ⟨h₁, h₂, h₃⟩
      refine ⟨⟨h₁, fun t ht => ?_⟩, fun t ht he => ?_, h₃⟩
      · have ht' := h₂ t ht
        split at ht'
        · next he => rw [he, h₁]
        · exact ht'
      · simpa [he] using h₂ t ht
    · rintro ⟨⟨h₁, h₂⟩, h₃, h₄⟩
      refine ⟨h₁, fun t ht => ?_, h₄⟩
      split
      · next he => simpa [he] using h₃ t ht he.symm
      · exact h₂ t ht

namespace Ledger

/-- Makes the version and the changes of an aggregate durable. -/
def write (l : Ledger σ) (a : Aggregate σ) : Ledger σ :=
  { l with versions := l.versions.set a.id a.version, events := l.events ++ a.changes }

/-- The events of every aggregate have versions of their own, and the highest of them is the stored
version. -/
structure Upright (l : Ledger σ) : Prop where
  distinct : ∀ id, ((l.stream id).map Event.version).Nodup
  highest : ∀ id, ∀ e ∈ l.stream id, e.version ≤ l.version id
  reached : ∀ id, l.stream id ≠ [] → ∃ e ∈ l.stream id, e.version = l.version id

def HasNext (l : Ledger σ) (id : Uuid) (n : Int) : Prop := ∃ e ∈ l.stream id, e.version = n + 1

/-- Two events of an aggregate have one version, or its row stands at a version although the next
one is there. -/
def Broken (l : Ledger σ) (id : Uuid) (n : Int) : Prop :=
  ¬((l.stream id).map Event.version).Nodup ∨ l.version id = n ∧ l.HasNext id n

theorem Dense.upright {l : Ledger σ} (h : l.Dense) : l.Upright where
  distinct id := by
    rw [(h.numbered id).map_version]
    refine List.Pairwise.map _ (fun i j hij he => ?_) List.nodup_range
    have he : (0 : Int) + i + 1 = 0 + j + 1 := he
    omega
  highest id e he := by
    have hb := (h.numbered id).bounds he
    rw [h.version]
    omega
  reached id hs := by
    have hk : (l.stream id).length - 1 < (l.stream id).length := by
      have hp := List.length_pos_iff.mpr hs
      omega
    refine ⟨_, List.getElem_mem hk, ?_⟩
    rw [(h.numbered id).version_getElem _ hk, h.version]
    omega

theorem Broken.here {l : Ledger σ} {id : Uuid} {n : Int} (h : l.Broken id n) :
    l.Broken id (l.version id) := by
  rcases h with hd | ⟨hv, hn⟩
  · exact .inl hd
  · exact .inr ⟨rfl, hv ▸ hn⟩

theorem Broken.not_upright {l : Ledger σ} {id : Uuid} (h : l.Broken id (l.version id)) :
    ¬l.Upright := by
  intro hu
  rcases h with hd | ⟨-, e, he, hv⟩
  · exact hd (hu.distinct id)
  · have hle := hu.highest id e he
    omega

theorem Dense.congr {l m : Ledger σ} (h : l.Dense) (he : m.events = l.events)
    (hv : m.versions = l.versions) : m.Dense := by
  have hs (id : Uuid) : m.stream id = l.stream id := by simp only [stream, he]
  refine ⟨fun id => hs id ▸ h.numbered id, fun id => ?_⟩
  rw [hs, ← h.version id, Ledger.version, Ledger.version, hv]

theorem Broken.congr {l m : Ledger σ} {id : Uuid} {n : Int} (h : l.Broken id n)
    (he : m.events = l.events) (hv : m.versions = l.versions) : m.Broken id n := by
  have hs : m.stream id = l.stream id := by simp only [stream, he]
  simpa only [Broken, HasNext, hs, version, hv] using h

section
variable {l : Ledger σ} {a : Aggregate σ} (ha : a.Coherent)

theorem version_write (l : Ledger σ) (a : Aggregate σ) (id : Uuid) :
    (l.write a).version id = if id = a.id then a.version else l.version id := by
  by_cases h : id = a.id <;> simp [write, version, h]

include ha in
theorem stream_write (id : Uuid) :
    (l.write a).stream id = l.stream id ++ if id = a.id then a.changes else [] :=
  stream_absorb_writing l a.id a ha id

include ha in
theorem Dense.write (h : l.Dense) (hf : l.version a.id = a.baseVersion) : (l.write a).Dense :=
  (h.absorb_writing ha (t := a.id) (outdated_writing.mpr hf)).congr rfl rfl

include ha in
theorem HasNext.write {id : Uuid} {n : Int} (h : l.HasNext id n) : (l.write a).HasNext id n := by
  obtain ⟨e, he, hv⟩ := h
  refine ⟨e, ?_, hv⟩
  rw [stream_write ha]
  exact List.mem_append_left _ he

include ha in
theorem hasNext_write (hc : a.changes ≠ []) : (l.write a).HasNext a.id a.baseVersion := by
  obtain ⟨e, he, -, hv⟩ := ha.exists_next hc
  refine ⟨e, ?_, hv⟩
  rw [stream_write ha, if_pos rfl]
  exact List.mem_append_right _ he

include ha in
/-- An update that is based on a version whose next one is there already writes that again, or it
moves the row back. -/
theorem HasNext.broken (h : l.HasNext a.id a.baseVersion) :
    (l.write a).Broken a.id a.baseVersion := by
  by_cases hc : a.changes = []
  · refine .inr ⟨?_, h.write ha⟩
    rw [version_write, if_pos rfl, ha.version, hc]
    simp
  · obtain ⟨e, he, hv⟩ := h
    obtain ⟨f, hf, -, hw⟩ := ha.exists_next hc
    refine .inl fun hn => ?_
    rw [stream_write ha, if_pos rfl, List.map_append, List.nodup_append] at hn
    exact hn.2.2 _ (List.mem_map_of_mem he) _ (List.mem_map_of_mem hf) (hv.trans hw.symm)

include ha in
theorem Broken.write {id : Uuid} {n : Int} (h : l.Broken id n) (hb : a.id = id → a.baseVersion = n) :
    (l.write a).Broken id n := by
  rcases h with hd | ⟨hv, hn⟩
  · refine .inl fun hn => hd ?_
    rw [stream_write ha, List.map_append, List.nodup_append] at hn
    exact hn.1
  · by_cases hid : a.id = id
    · subst hid
      rw [← hb rfl] at hn ⊢
      exact hn.broken ha
    · refine .inr ⟨?_, hn.write ha⟩
      rwa [version_write, if_neg (Ne.symm hid)]

end

section
variable {as : List (Aggregate σ)} {r : Uuid → Int} (ha : ∀ a ∈ as, a.Coherent)

include ha in
/-- Updates that follow one another take every stream on from where it ends. -/
theorem Dense.foldl_write {l : Ledger σ} (h : l.Dense)
    (hf : l.versions.Follows (as.map Aggregate.staged)) : (as.foldl Ledger.write l).Dense := by
  induction as generalizing l with
  | nil => exact h
  | cons a as ih =>
    obtain ⟨hv, hf⟩ := hf
    rw [List.forall_mem_cons] at ha
    exact ih ha.2 (h.write ha.1 hv) hf

variable (hb : ∀ a ∈ as, a.baseVersion = r a.id)
include ha hb

theorem Broken.foldl_write {l : Ledger σ} {id : Uuid} (h : l.Broken id (r id)) :
    (as.foldl Ledger.write l).Broken id (r id) := by
  induction as generalizing l with
  | nil => exact h
  | cons a as ih =>
    rw [List.forall_mem_cons] at ha hb
    exact ih ha.2 hb.2 (h.write ha.1 fun hid => hid ▸ hb.1)

/-- The update of an aggregate whose next version is there already breaks its stream. -/
theorem HasNext.foldl_write {l : Ledger σ} {a : Aggregate σ} (h : l.HasNext a.id (r a.id))
    (hm : a ∈ as) : (as.foldl Ledger.write l).Broken a.id (r a.id) := by
  induction as generalizing l with
  | nil => cases hm
  | cons b as ih =>
    rw [List.forall_mem_cons] at ha hb
    rcases List.mem_cons.mp hm with rfl | hm
    · rw [← hb.1] at h
      have hw := h.broken ha.1
      rw [hb.1] at hw
      exact hw.foldl_write ha.2 hb.2
    · exact ih ha.2 hb.2 (h.write ha.1) hm

theorem broken_foldl_write {l : Ledger σ}
    (hp : ¬(as.map Aggregate.staged).Pairwise fun s t =>
      s.aggregateId = t.aggregateId → s.next = s.base) :
    ∃ id, (as.foldl Ledger.write l).Broken id (r id) := by
  induction as generalizing l with
  | nil => exact absurd .nil hp
  | cons a as ih =>
    rw [List.forall_mem_cons] at ha hb
    rw [List.map_cons, List.pairwise_cons, not_and_or] at hp
    rcases hp with hp | hp
    · -- an update with changes comes before another one of its aggregate
      simp only [List.mem_map, forall_exists_index, and_imp, forall_apply_eq_imp_iff₂, not_forall]
        at hp
      obtain ⟨b, hm, hid, hv⟩ := hp
      have hid : a.id = b.id := hid
      have hc : a.changes ≠ [] := by
        intro hc
        have hl := ha.1.version
        rw [hc, List.length_nil, Int.natCast_zero, Int.add_zero] at hl
        exact hv hl
      have hn := hasNext_write (l := l) ha.1 hc
      rw [hb.1, hid] at hn
      exact ⟨b.id, hn.foldl_write ha.2 hb.2 hm⟩
    · exact ih ha.2 hb.2 hp

end
end Ledger

structure UnitOfWork.Stages (u : UnitOfWork σ) (as : List (Aggregate σ)) : Prop where
  coherent : ∀ a ∈ as, a.Coherent
  versions : u.versions = as.map Aggregate.staged
  events : u.events = as.flatMap Aggregate.changes

namespace Ledger

theorem foldl_write (as : List (Aggregate σ)) (l : Ledger σ) :
    as.foldl write l = { l with
      versions := (as.map Aggregate.staged).foldl (fun v s => v.set s.aggregateId s.next) l.versions
      events := l.events ++ as.flatMap Aggregate.changes } := by
  induction as generalizing l with
  | nil => simp
  | cons a as ih => simp [ih, write, Aggregate.staged]

theorem events_record (ts : List (Uuid × Uuid)) (l : Ledger σ) :
    (ts.foldl (fun l t => l.record t.1 t.2) l).events = l.events := by
  induction ts generalizing l with
  | nil => rfl
  | cons t ts ih => exact ih _

theorem events_absorb (l : Ledger σ) (u : UnitOfWork σ) :
    (l.absorb u).events = l.events ++ u.events := by
  unfold absorb
  split <;> exact events_record ..

section
variable {l : Ledger σ} {u : UnitOfWork σ} {as : List (Aggregate σ)} (hs : u.Stages as)
include hs

theorem events_absorb_stages : (l.absorb u).events = (as.foldl write l).events := by
  rw [events_absorb, hs.events, foldl_write]

theorem versions_absorb_stages : (l.absorb u).versions = (as.foldl write l).versions := by
  rw [versions_absorb, hs.versions, foldl_write]

theorem Dense.absorb_stages (h : l.Dense) (hf : l.versions.Follows u.versions) :
    (l.absorb u).Dense := by
  rw [hs.versions] at hf
  exact (h.foldl_write hs.coherent hf).congr (events_absorb_stages hs) (versions_absorb_stages hs)

variable (hu : u.Fits l)
include hu

theorem base_of_stages : ∀ a ∈ as, a.baseVersion = l.version a.id := by
  intro a ha
  have hm : a.staged ∈ u.versions := hs.versions ▸ List.mem_map_of_mem ha
  exact (hu.current _ hm).symm

/-- What is broken stays so: an update that would mend the row writes the next version again. -/
theorem Broken.absorb_stages {id : Uuid} (h : l.Broken id (l.version id)) :
    (l.absorb u).Broken id ((l.absorb u).version id) := by
  have hw := (h.foldl_write hs.coherent (base_of_stages hs hu)).congr
    (events_absorb_stages hs) (versions_absorb_stages hs)
  exact hw.here

theorem broken_absorb_stages (hf : ¬l.versions.Follows u.versions) :
    ∃ id, (l.absorb u).Broken id ((l.absorb u).version id) := by
  have hb : ∀ s ∈ u.versions, s.base = l.version s.aggregateId := fun s hm => (hu.current s hm).symm
  rw [Versions.follows_iff hb, not_and_or] at hf
  have hp := hf.resolve_left fun hn => hn fun s _ => rfl
  rw [hs.versions] at hp
  obtain ⟨id, hw⟩ := broken_foldl_write hs.coherent (base_of_stages hs hu) (l := l) hp
  exact ⟨id, (hw.congr (events_absorb_stages hs) (versions_absorb_stages hs)).here⟩

end
end Ledger

namespace UnitOfWork
variable {u v : UnitOfWork σ} {as : List (Aggregate σ)}

theorem stages_nil : ({} : UnitOfWork σ).Stages [] := ⟨by simp, rfl, rfl⟩

theorem Stages.congr (h : u.Stages as) (hv : v.versions = u.versions) (he : v.events = u.events) :
    v.Stages as := ⟨h.coherent, hv.trans h.versions, he.trans h.events⟩

theorem Stages.stage (h : u.Stages as) (s : Store σ) (t : Uuid) {a : Aggregate σ}
    (ha : a.Coherent) (x : Model.Snapshot σ) : ∃ bs, (s.stage u t a x).2.1.Stages bs := by
  unfold Store.stage
  split
  · exact ⟨as, h⟩
  · split
    · refine ⟨as ++ [a], fun b hb => ?_, ?_, ?_⟩
      · rcases List.mem_append.mp hb with hb | hb
        · exact h.coherent b hb
        · rw [List.mem_singleton.mp hb]
          exact ha
      · simp [h.versions, Aggregate.staged]
      · simp [h.events]
    · exact ⟨as, h⟩

theorem Stages.readCheckpoint (h : u.Stages as) (s : Store σ) :
    (s.readCheckpoint u).2.1.Stages as := by
  rcases s.readCheckpoint_cases u with ⟨found, -, he⟩ | ⟨held, he⟩ <;>
    · rw [he]
      exact h.congr rfl rfl

theorem Stages.moveCheckpoint (h : u.Stages as) (s : Store σ) (c : Checkpoint) :
    (s.moveCheckpoint u c).2.1.Stages as := by
  rcases s.moveCheckpoint_cases u c with ⟨x, -, he⟩ | ⟨held, he⟩ <;>
    · rw [he]
      exact h.congr rfl rfl

end UnitOfWork

/-! ### Runs -/

namespace Clients
variable {ι : Type} [DecidableEq ι]

def commits (p : Clients ι σ) : Call ι σ → List (Ledger σ × UnitOfWork σ)
  | .commit i =>
    match p.units i with
    | none => []
    | some u => if (p.store.commit u).1 = .ok () then [(p.store.ledger, u)] else []
  | _ => []

def durable (p : Clients ι σ) : List (Call ι σ) → List (Ledger σ × UnitOfWork σ)
  | [] => []
  | x :: calls => p.commits x ++ durable (p.act x) calls

/-- What open units of work have staged are coherent aggregates, based on what is durable. -/
structure Drafting (p : Clients ι σ) : Prop where
  sound : p.Sound
  stages : ∀ i, ∀ u ∈ p.units i, ∃ as, u.Stages as

/-- A call is to update with an aggregate that was loaded and changed, if it is to update at all. -/
def Call.Drafts : Call ι σ → Prop
  | .stage _ _ a _ => a.Draft
  | _ => True

omit [DecidableEq ι] in
theorem drafting_start (l : Ledger σ) (failing : List Operation) :
    (start l failing : Clients ι σ).Drafting := ⟨sound_start l failing, nofun⟩

section
variable {p : Clients ι σ}

theorem stages_goOn (h : ∀ i, ∀ u ∈ p.units i, ∃ as, u.Stages as) (i : ι)
    {f : UnitOfWork σ → Store σ × Option (UnitOfWork σ)}
    (hf : ∀ u as, u.Stages as → ∀ v ∈ (f u).2, ∃ bs, v.Stages bs) :
    ∀ j, ∀ u ∈ (p.goOn i f).units j, ∃ as, u.Stages as := by
  intro j u hu
  cases hi : p.units i with
  | none =>
    simp only [goOn, hi] at hu
    exact h j u hu
  | some v =>
    simp only [goOn, hi] at hu
    by_cases hj : j = i
    · subst hj
      obtain ⟨as, hs⟩ := h j v hi
      exact hf v as hs u (by simpa using hu)
    · exact h j u (by simpa [hj] using hu)

theorem Drafting.act (h : p.Drafting) {x : Call ι σ} (hx : x.Drafts) : (p.act x).Drafting := by
  refine ⟨h.sound.act x, ?_⟩
  cases x with
  | begin i =>
    intro j u hu
    cases hi : p.units i with
    | some v =>
      simp only [Clients.act, hi] at hu
      exact h.stages j u hu
    | none =>
      cases hb : p.store.begin with
      | error y =>
        simp only [Clients.act, hi, hb] at hu
        exact h.stages j u hu
      | ok v =>
        have hv : v = {} := by
          simp only [Store.begin] at hb
          split at hb <;> simp_all
        simp only [Clients.act, hi, hb] at hu
        by_cases hj : j = i
        · subst hj
          obtain rfl : v = u := by simpa using hu
          exact ⟨[], hv ▸ UnitOfWork.stages_nil⟩
        · exact h.stages j u (by simpa [hj] using hu)
  | readSnapshot | readEvents | readRange => exact h.stages
  | stage i t a y =>
    refine stages_goOn h.stages i fun u as hs v hv => ?_
    cases hv
    exact hs.stage p.store t hx.coherent y
  | readCheckpoint i =>
    refine stages_goOn h.stages i fun u as hs v hv => ?_
    cases hv
    exact ⟨as, hs.readCheckpoint p.store⟩
  | moveCheckpoint i c =>
    refine stages_goOn h.stages i fun u as hs v hv => ?_
    cases hv
    exact ⟨as, hs.moveCheckpoint p.store c⟩
  | commit i => exact stages_goOn h.stages i fun _ _ _ => by simp
  | rollback i => exact stages_goOn h.stages i fun _ _ _ => by simp
  | drop i => exact stages_goOn h.stages i fun _ _ _ => by simp
  | fail operations => exact h.stages

theorem ledger_goOn (i : ι) {f : UnitOfWork σ → Store σ × Option (UnitOfWork σ)}
    (hf : ∀ u, (f u).1.ledger = p.store.ledger) : (p.goOn i f).store.ledger = p.store.ledger := by
  cases hi : p.units i with
  | none => simp only [goOn, hi]
  | some u => simpa only [goOn, hi] using hf u

/-- Only a commit that goes through makes anything durable. -/
theorem act_cases (p : Clients ι σ) (x : Call ι σ) :
    (p.commits x = [] ∧ (p.act x).store.ledger = p.store.ledger) ∨
    ∃ i, ∃ u ∈ p.units i, p.commits x = [(p.store.ledger, u)] ∧
      (p.act x).store.ledger = p.store.ledger.absorb u := by
  cases x with
  | begin i =>
    refine .inl ⟨rfl, ?_⟩
    simp only [act]
    split <;> rfl
  | readSnapshot | readEvents | readRange | fail => exact .inl ⟨rfl, rfl⟩
  | stage i t a y => exact .inl ⟨rfl, ledger_goOn i fun u => p.store.stage_ledger u t a y⟩
  | readCheckpoint i =>
    refine .inl ⟨rfl, ledger_goOn i fun u => ?_⟩
    rcases p.store.readCheckpoint_cases u with ⟨found, -, he⟩ | ⟨held, he⟩ <;> simp [he]
  | moveCheckpoint i c =>
    refine .inl ⟨rfl, ledger_goOn i fun u => ?_⟩
    rcases p.store.moveCheckpoint_cases u c with ⟨y, -, he⟩ | ⟨held, he⟩ <;> simp [he]
  | rollback i => exact .inl ⟨rfl, ledger_goOn i fun u => rfl⟩
  | drop i => exact .inl ⟨rfl, ledger_goOn i fun u => rfl⟩
  | commit i =>
    cases hi : p.units i with
    | none => exact .inl ⟨by simp [commits, hi], by simp [act, goOn, hi]⟩
    | some u =>
      rcases p.store.commit_cases u with ⟨y, he⟩ | ⟨-, he⟩
      · exact .inl ⟨by simp [commits, hi, he], by simp [act, goOn, hi, he]⟩
      · exact .inr ⟨i, u, hi, by simp [commits, hi, he], by simp [act, goOn, hi, he]⟩

variable {calls : List (Call ι σ)} (drafts : ∀ x ∈ calls, x.Drafts)
include drafts

theorem Drafting.dense_run (h : p.Drafting) (hd : p.store.ledger.Dense)
    (hf : ∀ d ∈ p.durable calls, d.1.versions.Follows d.2.versions) :
    (p.run calls).store.ledger.Dense := by
  induction calls generalizing p with
  | nil => exact hd
  | cons x calls ih =>
    rw [List.forall_mem_cons] at drafts
    simp only [durable, List.forall_mem_append] at hf
    refine ih drafts.2 (h.act drafts.1) ?_ hf.2
    rcases p.act_cases x with ⟨-, he⟩ | ⟨i, u, hu, hc, he⟩
    · rwa [he]
    · obtain ⟨as, hs⟩ := h.stages i u hu
      rw [he]
      exact hd.absorb_stages hs (hf.1 _ (hc ▸ List.mem_singleton_self _))

theorem Drafting.broken_run (h : p.Drafting) {id : Uuid}
    (hb : p.store.ledger.Broken id (p.store.ledger.version id)) :
    (p.run calls).store.ledger.Broken id ((p.run calls).store.ledger.version id) := by
  induction calls generalizing p with
  | nil => exact hb
  | cons x calls ih =>
    rw [List.forall_mem_cons] at drafts
    refine ih drafts.2 (h.act drafts.1) ?_
    rcases p.act_cases x with ⟨-, he⟩ | ⟨i, u, hu, -, he⟩
    · rwa [he]
    · obtain ⟨as, hs⟩ := h.stages i u hu
      rw [he]
      exact hb.absorb_stages hs (h.sound.fits i u hu)

theorem Drafting.broken_of_durable (h : p.Drafting) {d : Ledger σ × UnitOfWork σ}
    (hd : d ∈ p.durable calls) (hf : ¬d.1.versions.Follows d.2.versions) :
    ∃ id, (p.run calls).store.ledger.Broken id ((p.run calls).store.ledger.version id) := by
  induction calls generalizing p with
  | nil => cases hd
  | cons x calls ih =>
    rw [List.forall_mem_cons] at drafts
    rcases List.mem_append.mp hd with hd | hd
    · rcases p.act_cases x with ⟨hc, -⟩ | ⟨i, u, hu, hc, he⟩
      · rw [hc] at hd
        cases hd
      · rw [hc, List.mem_singleton] at hd
        subst hd
        obtain ⟨as, hs⟩ := h.stages i u hu
        obtain ⟨id, hb⟩ := Ledger.broken_absorb_stages hs (h.sound.fits i u hu) hf
        rw [← he] at hb
        exact ⟨id, (h.act drafts.1).broken_run drafts.2 hb⟩
    · exact ih drafts.2 (h.act drafts.1) hd

end

/-- Whatever units of work do, on a store that was empty at first, with aggregates that were loaded
and changed: the events of every aggregate have distinct versions, the highest of which is the
stored one, if and only if in each unit of work that was committed every update was based on the
version to which its row had been moved by then. The store admits updates by the version that is
durable instead: a unit of work that has a claim on an aggregate may update it as often as it likes
on top of that. -/
theorem upright_iff_of_run (failing : List Operation) (calls : List (Call ι σ))
    (drafts : ∀ x ∈ calls, x.Drafts) :
    let p := (start {} failing).run calls
    (p.store.ledger.Upright ↔
      ∀ d ∈ (start {} failing).durable calls, d.1.versions.Follows d.2.versions) ∧
    ∀ i, ∀ u ∈ p.units i, ∀ t a x, a.id ∈ u.claims →
      (p.store.stage u t a x).1 =
        if .stage ∈ p.store.failing then .error (injectedFailure .stage)
        else if p.store.ledger.version a.id = a.baseVersion then .ok ()
        else .error (.conflict a.id a.baseVersion) := by
  intro p
  have h := drafting_start (σ := σ) (ι := ι) {} failing
  refine ⟨⟨fun hu d hd => ?_, fun hf => ?_⟩, fun i u hu t a x hc => ?_⟩
  · by_contra hf
    obtain ⟨id, hb⟩ := h.broken_of_durable drafts hd hf
    exact hb.not_upright hu
  · exact (h.dense_run drafts Ledger.Dense.empty hf).upright
  · by_cases hs : Operation.stage ∈ p.store.failing
    · simp [Store.stage, Store.check, hs]
    · by_cases hv : p.store.ledger.version a.id = a.baseVersion <;>
        simp [Store.stage, Store.check, Store.admits, hs, hv, hc]

def signedUp (transaction : Nat) : Aggregate User :=
  ((Aggregate.new (.ofNat 1) User.snapshotCap).advanceAll
    [User.fixture (.ofNat 1) (.ofNat transaction) 1 (.credentialsCreated "a@example.com")]).1

theorem draft_signedUp (transaction : Nat) : (signedUp transaction).Draft :=
  .changed (.loaded (s := .empty) (n := 0) rfl) (by simp [User.fixture, Aggregate.new]) rfl

/-- One unit of work updates a user twice, both times on top of nothing. -/
def signingUpTwice : List (Call Unit User) :=
  [.begin (), .stage () (.ofNat 1) (signedUp 1) (signedUp 1).snapshot,
    .stage () (.ofNat 2) (signedUp 2) (signedUp 2).snapshot, .commit ()]

theorem drafts_signingUpTwice : ∀ x ∈ signingUpTwice, x.Drafts := by
  simp [signingUpTwice, Call.Drafts, draft_signedUp]

theorem upright_iff_of_run_signingUpTwice :
    (∀ x ∈ signingUpTwice, x.Drafts) ∧
    (((start {} []).run signingUpTwice).store.ledger.Upright ↔
      ∀ d ∈ (start {} []).durable signingUpTwice, d.1.versions.Follows d.2.versions) :=
  ⟨drafts_signingUpTwice, (upright_iff_of_run [] signingUpTwice drafts_signingUpTwice).1⟩

/-- It is committed all the same, and two events of the user have the same version. -/
theorem same_version_signingUpTwice :
    (∀ x ∈ signingUpTwice, x.Drafts) ∧ ((start {} []).durable signingUpTwice).length = 1 ∧
    (((start {} []).run signingUpTwice).store.ledger.stream (.ofNat 1)).map Event.version =
      [1, 1] ∧
    ¬((start {} []).run signingUpTwice).store.ledger.Upright := by
  have hv : (((start {} []).run signingUpTwice).store.ledger.stream (.ofNat 1)).map
      Event.version = [1, 1] := by decide +kernel
  refine ⟨drafts_signingUpTwice, by decide +kernel, hv, fun hu => ?_⟩
  have hd := hu.distinct (.ofNat 1)
  rw [hv] at hd
  simp at hd

end Clients
end Outbox

import Outbox.Proofs.Lock

/-! Any number of units of work open at once on one store, and whatever is asked of it in any order.
A claim keeps the others off an aggregate from the moment an update of it is accepted; so its version
stays what the update was based on, and the commit cannot find another one there. -/
namespace Outbox
variable {σ : Type} [Model σ]

structure Clients (ι σ : Type) [Model σ] where
  store : Store σ
  units : ι → Option (UnitOfWork σ)

inductive Clients.Call (ι σ : Type) [Model σ]
  | begin (i : ι)
  | readSnapshot (i : ι) (id : Uuid) (before : Option Int)
  | readEvents (i : ι) (id : Uuid) (first : Int) (last : Option Int)
  | readRange (i : ι) (id : Uuid) (r : LogRange)
  | stage (i : ι) (transactionId : Uuid) (a : Aggregate σ) (snapshot : Model.Snapshot σ)
  | readCheckpoint (i : ι)
  | moveCheckpoint (i : ι) (c : Checkpoint)
  | commit (i : ι)
  | rollback (i : ι)
  /-- A unit of work is let go of without a commit or a rollback. -/
  | drop (i : ι)
  /-- From now on these operations fail. -/
  | fail (operations : List Operation)

namespace Clients
variable {ι : Type} [DecidableEq ι]

def start (l : Ledger σ) (failing : List Operation) : Clients ι σ :=
  ⟨{ ledger := l, failing }, fun _ => none⟩

def goOn (p : Clients ι σ) (i : ι) (f : UnitOfWork σ → Store σ × Option (UnitOfWork σ)) :
    Clients ι σ :=
  match p.units i with
  | none => p
  | some u => ⟨(f u).1, Function.update p.units i (f u).2⟩

/-- Does what is asked. A name is free for another unit of work once its own has ended; a read
changes nothing. -/
def act (p : Clients ι σ) : Call ι σ → Clients ι σ
  | .begin i =>
    match p.units i, p.store.begin with
    | none, .ok u => { p with units := Function.update p.units i (some u) }
    | _, _ => p
  | .readSnapshot .. | .readEvents .. | .readRange .. => p
  | .stage i t a x => p.goOn i fun u =>
    match p.store.stage u t a x with | (_, u, s) => (s, some u)
  | .readCheckpoint i => p.goOn i fun u =>
    match p.store.readCheckpoint u with | (_, u, s) => (s, some u)
  | .moveCheckpoint i c => p.goOn i fun u =>
    match p.store.moveCheckpoint u c with | (_, u, s) => (s, some u)
  | .commit i => p.goOn i fun u => ((p.store.commit u).2, none)
  | .rollback i => p.goOn i fun u => ((p.store.rollback u).2, none)
  | .drop i => p.goOn i fun u => (p.store.release u, none)
  | .fail operations => { p with store.failing := operations }

def run (p : Clients ι σ) (calls : List (Call ι σ)) : Clients ι σ := calls.foldl act p

end Clients

/-! ### Claims -/

def UnitOfWork.claimed : Option (UnitOfWork σ) → List Uuid
  | none => []
  | some u => u.claims

theorem UnitOfWork.mem_claimed {u : Option (UnitOfWork σ)} {id : Uuid} :
    id ∈ UnitOfWork.claimed u ↔ ∃ v ∈ u, id ∈ v.claims := by
  cases u <;> simp [UnitOfWork.claimed]

theorem UnitOfWork.holds_iff {u : Option (UnitOfWork σ)} :
    UnitOfWork.holds u = true ↔ ∃ v ∈ u, v.holdsCheckpoint = true := by
  cases u <;> simp [UnitOfWork.holds]

/-- The claims stay where they are, one that was free is taken, or all of one are given back. -/
inductive Store.Grants (s : Store σ) (before : List Uuid) (s' : Store σ) (after : List Uuid) : Prop
  | stays (claimed : s'.claimed = s.claimed) (same : after = before)
  | taken (id : Uuid) (free : id ∉ s.claimed) (claimed : s'.claimed = id :: s.claimed)
    (now : after = before ++ [id])
  | given (claimed : s'.claimed = s.claimed.filter (· ∉ before)) (gone : after = [])

theorem Store.Trades.grants {s s' : Store σ} {u u' : Option (UnitOfWork σ)}
    (h : s.Trades u s' u') : s.Grants (UnitOfWork.claimed u) s' (UnitOfWork.claimed u') := by
  cases h with
  | opens claimed held bare =>
    refine .stays claimed ?_
    cases u' with
    | none => rfl
    | some v => exact (bare v rfl).1
  | keeps claimed held claims holds => exact .stays claimed claims
  | claims id free claimed held claims holds => exact .taken id free claimed claims
  | locks free claimed held claims holds => exact .stays claimed claims
  | releases claimed held => exact .given claimed rfl

/-- What is claimed is claimed by one of those who have claims, and by no other. -/
structure Store.Claimed {ι : Type} (s : Store σ) (claims : ι → List Uuid) : Prop where
  someone : ∀ id ∈ s.claimed, ∃ i, id ∈ claims i
  claimed : ∀ i, ∀ id ∈ claims i, id ∈ s.claimed
  alone : ∀ i j, ∀ id ∈ claims i, id ∈ claims j → i = j

theorem Store.Claimed.update {ι : Type} [DecidableEq ι] {s s' : Store σ} {claims : ι → List Uuid}
    (h : s.Claimed claims) {i : ι} {after : List Uuid} (hg : s.Grants (claims i) s' after) :
    s'.Claimed (Function.update claims i after) := by
  have hi : Function.update claims i after i = after := Function.update_self ..
  have ho {j : ι} (hj : j ≠ i) : Function.update claims i after j = claims j :=
    Function.update_of_ne hj ..
  cases hg with
  | stays claimed same =>
    rw [same, Function.update_eq_self]
    exact ⟨fun id hid => h.someone id (claimed ▸ hid),
      fun j id hid => claimed ▸ h.claimed j id hid, h.alone⟩
  | taken new free claimed now =>
    -- who has a claim now had it before, or has taken the new one
    have hm {j : ι} {id : Uuid} (hid : id ∈ Function.update claims i after j) :
        id ∈ claims j ∨ id = new ∧ j = i := by
      by_cases hj : j = i
      · subst hj
        rw [hi, now] at hid
        simpa using hid
      · exact .inl (ho hj ▸ hid)
    have hk {j : ι} {id : Uuid} (hid : id ∈ claims j) : id ∈ Function.update claims i after j := by
      by_cases hj : j = i
      · subst hj
        simp [now, hid]
      · rwa [ho hj]
    refine ⟨fun id hid => ?_, fun j id hid => ?_, fun j k id hj hk => ?_⟩
    · rcases List.mem_cons.mp (claimed ▸ hid) with rfl | hid
      · exact ⟨i, by simp [now]⟩
      · obtain ⟨j, hj⟩ := h.someone id hid
        exact ⟨j, hk hj⟩
    · rw [claimed]
      rcases hm hid with hid | ⟨rfl, -⟩
      · exact List.mem_cons_of_mem new (h.claimed j id hid)
      · exact List.mem_cons_self
    · rcases hm hj with hj | ⟨rfl, rfl⟩
      · rcases hm hk with hk | ⟨rfl, -⟩
        · exact h.alone j k id hj hk
        · exact absurd (h.claimed j id hj) free
      · rcases hm hk with hk | ⟨-, rfl⟩
        · exact absurd (h.claimed k id hk) free
        · rfl
  | given claimed gone =>
    have hm {j : ι} {id : Uuid} : id ∈ Function.update claims i after j ↔ j ≠ i ∧ id ∈ claims j := by
      by_cases hj : j = i
      · subst hj
        simp [gone]
      · simp [hj]
    refine ⟨fun id hid => ?_, fun j id hid => ?_, fun j k id hj hk => ?_⟩
    · rw [claimed, List.mem_filter] at hid
      obtain ⟨j, hj⟩ := h.someone id hid.1
      refine ⟨j, hm.mpr ⟨?_, hj⟩⟩
      rintro rfl
      simp [hj] at hid
    · obtain ⟨hj, hid⟩ := hm.mp hid
      rw [claimed, List.mem_filter]
      refine ⟨h.claimed j id hid, ?_⟩
      simpa using fun hc => hj (h.alone j i id hid hc)
    · exact h.alone j k id (hm.mp hj).2 (hm.mp hk).2

/-! ### Versions -/

namespace Ledger

theorem versions_record (ts : List (Uuid × Uuid)) (l : Ledger σ) :
    (ts.foldl (fun l t => l.record t.1 t.2) l).versions = l.versions := by
  induction ts generalizing l with
  | nil => rfl
  | cons t ts ih => exact ih _

theorem versions_absorb (l : Ledger σ) (u : UnitOfWork σ) :
    (l.absorb u).versions =
      u.versions.foldl (fun v s => v.set s.aggregateId s.next) l.versions := by
  unfold absorb
  split <;> exact versions_record ..

theorem get?_foldl_set {id : Uuid} (vs : List StagedVersion) (h : ∀ v ∈ vs, v.aggregateId ≠ id)
    (stored : Versions) :
    (vs.foldl (fun v s => v.set s.aggregateId s.next) stored).get? id = stored.get? id := by
  induction vs generalizing stored with
  | nil => rfl
  | cons v vs ih =>
    have hv : id ≠ v.aggregateId := (h v List.mem_cons_self).symm
    rw [List.foldl_cons, ih fun w hw => h w (List.mem_cons_of_mem v hw)]
    simp [hv]

/-- A commit leaves the versions of the aggregates alone that it has not staged. -/
theorem version_absorb {l : Ledger σ} {u : UnitOfWork σ} {id : Uuid}
    (h : ∀ v ∈ u.versions, v.aggregateId ≠ id) : (l.absorb u).version id = l.version id := by
  rw [version, versions_absorb, get?_foldl_set _ h, version]

end Ledger

/-- A unit of work has staged exactly the aggregates it claims, each on top of its stored version. -/
structure UnitOfWork.Fits (u : UnitOfWork σ) (l : Ledger σ) : Prop where
  claims : ∀ id, id ∈ u.claims ↔ ∃ v ∈ u.versions, v.aggregateId = id
  current : ∀ v ∈ u.versions, l.version v.aggregateId = v.base

/-- What fits what is durable is committed unless the commit is made to fail. -/
theorem UnitOfWork.Fits.commit {u : UnitOfWork σ} {s : Store σ} (h : u.Fits s.ledger) :
    (s.commit u).1 = s.check .commit := by
  have ho : s.ledger.outdated u = none := by
    refine List.find?_eq_none.mpr fun v hv => ?_
    simp [h.current v hv]
  cases hc : s.check .commit <;> simp [Store.commit, hc, ho]

/-- An update is accepted exactly if it gets staged: what an open unit of work has staged are the
updates of it that were accepted. -/
theorem Store.versions_stage (s : Store σ) (u : UnitOfWork σ) (t : Uuid) (a : Aggregate σ)
    (x : Model.Snapshot σ) :
    (s.stage u t a x).2.1.versions =
      u.versions ++ if (s.stage u t a x).1 = .ok () then [⟨a.id, a.baseVersion, a.version⟩]
        else [] := by
  unfold stage
  split
  · simp
  · split <;> simp

namespace UnitOfWork.Fits
variable {u v : UnitOfWork σ} {s : Store σ}

theorem congr {l : Ledger σ} (h : u.Fits l) (hc : v.claims = u.claims)
    (hv : v.versions = u.versions) : v.Fits l := by
  constructor
  · rw [hc, hv]
    exact h.claims
  · rw [hv]
    exact h.current

theorem stage (h : u.Fits s.ledger) (t : Uuid) (a : Aggregate σ) (x : Model.Snapshot σ) :
    (s.stage u t a x).2.1.Fits s.ledger := by
  unfold Store.stage
  split
  · exact h
  · split
    · next admitted =>
      have hv : s.ledger.version a.id = a.baseVersion := by
        simp only [Store.admits, Bool.and_eq_true, beq_iff_eq] at admitted
        exact admitted.1
      refine ⟨fun id => ?_, fun w hw => ?_⟩
      · by_cases hu : a.id ∈ u.claims
        · have hid : id = a.id → ∃ w ∈ u.versions, w.aggregateId = id := by
            rintro rfl
            exact (h.claims a.id).mp hu
          simp only [List.contains_iff_mem, hu, if_true, h.claims, List.mem_append,
            List.mem_singleton]
          constructor
          · rintro ⟨w, hw, rfl⟩
            exact ⟨w, .inl hw, rfl⟩
          · rintro ⟨w, hw | rfl, rfl⟩
            · exact ⟨w, hw, rfl⟩
            · exact hid rfl
        · simp only [List.contains_iff_mem, hu, if_false, h.claims, List.mem_append,
            List.mem_singleton]
          constructor
          · rintro (⟨w, hw, rfl⟩ | rfl)
            · exact ⟨w, .inl hw, rfl⟩
            · exact ⟨_, .inr rfl, rfl⟩
          · rintro ⟨w, hw | rfl, rfl⟩
            · exact .inl ⟨w, hw, rfl⟩
            · exact .inr rfl
      · rcases List.mem_append.mp hw with hw | hw
        · exact h.current w hw
        · rw [List.mem_singleton.mp hw]
          exact hv
    · exact h

end UnitOfWork.Fits

/-- What becomes of what is staged: whoever fitted what is durable still does, or its commit has
made that durable. -/
inductive Store.Settles (s : Store σ) (u : Option (UnitOfWork σ)) (s' : Store σ)
    (u' : Option (UnitOfWork σ)) : Prop
  | stays (ledger : s'.ledger = s.ledger)
    (fits : (∀ v ∈ u, v.Fits s.ledger) → ∀ v ∈ u', v.Fits s.ledger)
  | commits (v : UnitOfWork σ) (here : v ∈ u) (ledger : s'.ledger = s.ledger.absorb v)
    (gone : u' = none)

namespace Store
variable (s : Store σ) (u : UnitOfWork σ)

theorem settles_stage (t : Uuid) (a : Aggregate σ) (x : Model.Snapshot σ) :
    s.Settles (some u) (s.stage u t a x).2.2 (some (s.stage u t a x).2.1) := by
  refine .stays (s.stage_ledger u t a x) fun hu v hv => ?_
  cases hv
  exact (hu u rfl).stage t a x

theorem settles_readCheckpoint :
    s.Settles (some u) (s.readCheckpoint u).2.2 (some (s.readCheckpoint u).2.1) := by
  rcases s.readCheckpoint_cases u with ⟨found, -, he⟩ | ⟨held, he⟩
  · rw [he]
    exact .stays rfl id
  · rw [he]
    refine .stays rfl fun hu v hv => ?_
    cases hv
    exact (hu u rfl).congr rfl rfl

theorem settles_moveCheckpoint (c : Checkpoint) :
    s.Settles (some u) (s.moveCheckpoint u c).2.2 (some (s.moveCheckpoint u c).2.1) := by
  rcases s.moveCheckpoint_cases u c with ⟨x, -, he⟩ | ⟨held, he⟩
  · rw [he]
    exact .stays rfl id
  · rw [he]
    refine .stays rfl fun hu v hv => ?_
    cases hv
    exact (hu u rfl).congr rfl rfl

theorem settles_commit : s.Settles (some u) (s.commit u).2 none := by
  rcases s.commit_cases u with ⟨x, he⟩ | ⟨-, he⟩
  · rw [he]
    exact .stays rfl (by simp)
  · rw [he]
    exact .commits u rfl rfl rfl

theorem trades_commit : s.Trades (some u) (s.commit u).2 none := by
  rcases s.commit_cases u with ⟨x, he⟩ | ⟨-, he⟩ <;>
    · rw [he]
      exact .releases rfl rfl

end Store

namespace Clients
variable {ι : Type}

/-- Claims and the lock are with open units of work, and these fit what is durable. -/
structure Sound (p : Clients ι σ) : Prop where
  claimed : p.store.Claimed fun i => UnitOfWork.claimed (p.units i)
  guarded : p.store.Guarded fun i => UnitOfWork.holds (p.units i)
  fits : ∀ i, ∀ u ∈ p.units i, u.Fits p.store.ledger

theorem sound_start (l : Ledger σ) (failing : List Operation) :
    (start l failing : Clients ι σ).Sound where
  claimed := ⟨nofun, nofun, nofun⟩
  guarded := ⟨nofun, nofun, nofun⟩
  fits := nofun

variable [DecidableEq ι] {p : Clients ι σ}

theorem Sound.update (h : p.Sound) {i : ι} {s' : Store σ} {u' : Option (UnitOfWork σ)}
    (ht : p.store.Trades (p.units i) s' u') (hs : p.store.Settles (p.units i) s' u') :
    (⟨s', Function.update p.units i u'⟩ : Clients ι σ).Sound where
  claimed := by
    have he : (fun j => UnitOfWork.claimed (Function.update p.units i u' j)) =
        Function.update (fun j => UnitOfWork.claimed (p.units j)) i (UnitOfWork.claimed u') :=
      funext fun j => Function.apply_update (fun _ => UnitOfWork.claimed) p.units i u' j
    simp only [he]
    exact h.claimed.update ht.grants
  guarded := by
    have he : (fun j => UnitOfWork.holds (Function.update p.units i u' j)) =
        Function.update (fun j => UnitOfWork.holds (p.units j)) i (UnitOfWork.holds u') :=
      funext fun j => Function.apply_update (fun _ => UnitOfWork.holds) p.units i u' j
    simp only [he]
    exact h.guarded.update ht.hands
  fits j u hu := by
    cases hs with
    | stays ledger fits =>
      simp only [ledger]
      by_cases hj : j = i
      · subst hj
        exact fits (h.fits j) u (by simpa using hu)
      · exact h.fits j u (by simpa [hj] using hu)
    | commits v here ledger gone =>
      simp only [ledger]
      by_cases hj : j = i
      · subst hj
        simp [gone] at hu
      · have hu : u ∈ p.units j := by simpa [hj] using hu
        have hf := h.fits j u hu
        refine ⟨hf.claims, fun w hw => ?_⟩
        rw [Ledger.version_absorb, hf.current w hw]
        -- both would have a claim on it
        intro x hx he
        have hxi : w.aggregateId ∈ v.claims := ((h.fits i v here).claims _).mpr ⟨x, hx, he⟩
        have hwj : w.aggregateId ∈ u.claims := (hf.claims _).mpr ⟨w, hw, rfl⟩
        exact hj (h.claimed.alone j i w.aggregateId (UnitOfWork.mem_claimed.mpr ⟨u, hu, hwj⟩)
          (UnitOfWork.mem_claimed.mpr ⟨v, here, hxi⟩))

theorem Sound.goOn (h : p.Sound) (i : ι) {f : UnitOfWork σ → Store σ × Option (UnitOfWork σ)}
    (ht : ∀ u, p.store.Trades (some u) (f u).1 (f u).2)
    (hs : ∀ u, p.store.Settles (some u) (f u).1 (f u).2) : (p.goOn i f).Sound := by
  cases hu : p.units i with
  | none => simpa only [Clients.goOn, hu] using h
  | some u =>
    have hn := h.update (i := i) (hu.symm ▸ ht u) (hu.symm ▸ hs u)
    simpa only [Clients.goOn, hu] using hn

theorem Sound.act (h : p.Sound) (x : Call ι σ) : (p.act x).Sound := by
  cases x with
  | begin i =>
    cases hu : p.units i with
    | some u => simpa only [Clients.act, hu] using h
    | none =>
      cases hb : p.store.begin with
      | error x => simpa only [Clients.act, hu, hb] using h
      | ok u =>
        have he : u = {} := by
          simp only [Store.begin] at hb
          split at hb <;> simp_all
        subst he
        have ht : p.store.Trades (p.units i) p.store (some {}) :=
          hu.symm ▸ .opens rfl rfl (by simp)
        have hn := h.update ht
          (.stays rfl fun _ v hv => by cases hv; exact ⟨by simp, by simp⟩)
        simpa only [Clients.act, hu, hb] using hn
  | readSnapshot | readEvents | readRange => exact h
  | stage i t a x =>
    exact h.goOn i (p.store.trades_stage · t a x) (p.store.settles_stage · t a x)
  | readCheckpoint i => exact h.goOn i p.store.trades_readCheckpoint p.store.settles_readCheckpoint
  | moveCheckpoint i c =>
    exact h.goOn i (p.store.trades_moveCheckpoint · c) (p.store.settles_moveCheckpoint · c)
  | commit i => exact h.goOn i p.store.trades_commit p.store.settles_commit
  | rollback i =>
    exact h.goOn i (fun _ => .releases rfl rfl) fun _ => .stays rfl (by simp)
  | drop i => exact h.goOn i (fun _ => .releases rfl rfl) fun _ => .stays rfl (by simp)
  | fail operations =>
    exact ⟨⟨h.claimed.someone, h.claimed.claimed, h.claimed.alone⟩,
      ⟨h.guarded.someone, h.guarded.locked, h.guarded.alone⟩, h.fits⟩

theorem Sound.run (h : p.Sound) (calls : List (Call ι σ)) : (p.run calls).Sound := by
  induction calls generalizing p with
  | nil => exact h
  | cons x calls ih => exact ih (h.act x)

/-- Whatever is asked of a store, by as many as one likes and in whatever order, and whatever of it
fails: no two open units of work have a claim on the same aggregate, something is claimed exactly
if some open unit of work has had an update accepted, no two of them hold the checkpoint, and each
version that one has staged is based on the stored one. So no commit finds a conflict, and where no
unit of work is open, nothing is held. -/
theorem exclusive_of_run (l : Ledger σ) (failing : List Operation) (calls : List (Call ι σ)) :
    let p := (start l failing).run calls
    (∀ i j, ∀ u ∈ p.units i, ∀ v ∈ p.units j, ∀ id ∈ u.claims, id ∈ v.claims → i = j) ∧
    (p.store.claimed ≠ [] ↔ ∃ i, ∃ u ∈ p.units i, u.versions ≠ []) ∧
    (∀ i j, ∀ u ∈ p.units i, ∀ v ∈ p.units j,
      u.holdsCheckpoint = true → v.holdsCheckpoint = true → i = j) ∧
    (∀ i, ∀ u ∈ p.units i, ∀ v ∈ u.versions, p.store.ledger.version v.aggregateId = v.base) ∧
    (∀ i, ∀ u ∈ p.units i, (p.store.commit u).1 = p.store.check .commit ∧
      ∀ id base, (p.store.commit u).1 ≠ .error (.conflict id base)) ∧
    ((∀ i, p.units i = none) → p.store.claimed = [] ∧ p.store.checkpointHeld = false) := by
  intro p
  have h : p.Sound := (sound_start l failing).run calls
  refine ⟨fun i j u hu v hv id hi hj => ?_, ⟨fun hc => ?_, ?_⟩, fun i j u hu v hv hi hj => ?_,
    fun i u hu => (h.fits i u hu).current, fun i u hu => ?_, fun hn => ⟨?_, ?_⟩⟩
  · exact h.claimed.alone i j id (UnitOfWork.mem_claimed.mpr ⟨u, hu, hi⟩)
      (UnitOfWork.mem_claimed.mpr ⟨v, hv, hj⟩)
  · obtain ⟨id, hid⟩ := List.exists_mem_of_ne_nil _ hc
    obtain ⟨i, hi⟩ := h.claimed.someone id hid
    obtain ⟨u, hu, hc⟩ := UnitOfWork.mem_claimed.mp hi
    obtain ⟨v, hv, -⟩ := ((h.fits i u hu).claims id).mp hc
    exact ⟨i, u, hu, List.ne_nil_of_mem hv⟩
  · rintro ⟨i, u, hu, hv⟩
    obtain ⟨v, hv⟩ := List.exists_mem_of_ne_nil _ hv
    have hc := ((h.fits i u hu).claims v.aggregateId).mpr ⟨v, hv, rfl⟩
    exact List.ne_nil_of_mem
      (h.claimed.claimed i v.aggregateId (UnitOfWork.mem_claimed.mpr ⟨u, hu, hc⟩))
  · exact h.guarded.alone i j (UnitOfWork.holds_iff.mpr ⟨u, hu, hi⟩)
      (UnitOfWork.holds_iff.mpr ⟨v, hv, hj⟩)
  · have hc := (h.fits i u hu).commit
    refine ⟨hc, fun id base => ?_⟩
    rw [hc, Store.check]
    split <;> simp [injectedFailure]
  · refine List.eq_nil_iff_forall_not_mem.mpr fun id hid => ?_
    obtain ⟨i, hi⟩ := h.claimed.someone id hid
    simp [hn i, UnitOfWork.claimed] at hi
  · by_contra hh
    obtain ⟨i, hi⟩ := h.guarded.someone (by simpa using hh)
    simp [hn i, UnitOfWork.holds] at hi

def draft (id : Nat) (version : Int) : Aggregate User := { Aggregate.new (.ofNat id) 5 with version }

/-- One updates an aggregate twice while another is kept off it and commits an update of another
aggregate instead. -/
def contending : List (Call Bool User) :=
  [.begin false, .begin true, .stage false (.ofNat 1) (draft 1 1) (draft 1 1).snapshot,
    .stage true (.ofNat 2) (draft 1 1) (draft 1 1).snapshot,
    .stage true (.ofNat 2) (draft 2 1) (draft 2 1).snapshot, .readCheckpoint true,
    .stage false (.ofNat 1) (draft 1 2) (draft 1 2).snapshot, .commit true]

theorem exclusive_of_run_contending :
    let p : Clients Bool User := (start {} []).run contending
    p.store.claimed = [.ofNat 1] ∧ p.units true = none ∧ p.store.ledger.version (.ofNat 2) = 1 ∧
      ∃ u ∈ p.units false, u.versions.length = 2 ∧ (p.store.commit u).1 = .ok () := by
  intro p
  obtain ⟨-, -, -, -, hc, -⟩ := exclusive_of_run {} [] contending
  have hu : ∃ u, p.units false = some u ∧ u.versions.length = 2 := ⟨_, rfl, rfl⟩
  obtain ⟨u, hu, hv⟩ := hu
  exact ⟨by decide +kernel, rfl, by decide +kernel, u, hu, hv, (hc false u hu).1⟩

end Clients
end Outbox

import Outbox.Proofs.Stream

/-! Loading an aggregate: a snapshot, then the events after it. What loading can lead to is said of
the ledger alone, whichever snapshot is found and however much later the events are read. -/
namespace Outbox
variable {σ : Type} [Model σ]

/-- The state after events, one after another, unless one of them is refused. -/
def Model.replay (s : σ) : List (EventOf σ) → Except Error σ
  | [] => .ok s
  | e :: es =>
    match Model.apply s e with
    | .error x => .error x
    | .ok s => replay s es

theorem Model.replay_append (s : σ) (es fs : List (EventOf σ)) :
    Model.replay s (es ++ fs) =
      match Model.replay s es with
      | .error x => .error x
      | .ok s => Model.replay s fs := by
  induction es generalizing s with
  | nil => rfl
  | cons e es ih =>
    cases h : Model.apply s e with
    | error x => simp [Model.replay, h]
    | ok s => simp [Model.replay, h, ih]

theorem Model.replay_append_of_eq_ok {s t : σ} {es fs : List (EventOf σ)}
    (h : Model.replay s es = .ok t) : Model.replay s (es ++ fs) = Model.replay t fs := by
  rw [Model.replay_append, h]

namespace Aggregate

def loaded (id : Uuid) (cap n : Int) (s : σ) : Aggregate σ :=
  { id, cap, version := n, baseVersion := n, state := s }

@[simp] theorem loaded_id (id : Uuid) (cap n : Int) (s : σ) : (loaded id cap n s).id = id := rfl

@[simp] theorem loaded_version (id : Uuid) (cap n : Int) (s : σ) :
    (loaded id cap n s).version = n := rfl

theorem new_eq_loaded (id : Uuid) (cap : Int) :
    (new id cap : Aggregate σ) = loaded id cap 0 Model.initial := rfl

theorem resume_loaded {id : Uuid} {cap n : Int} {s : σ} {x : SnapshotOf σ} {a : Aggregate σ}
    (h : (loaded id cap n s).resume (some x) = .ok a) :
    n < x.version ∧ ∃ t, Model.restore s x.payload = .ok t ∧ a = loaded id cap x.version t := by
  by_cases hv : x.version ≤ n
  · simp [resume, restore, loaded, hv] at h
  · cases ht : Model.restore s x.payload with
    | error y => simp [resume, restore, loaded, hv, ht] at h
    | ok t =>
      refine ⟨by omega, t, rfl, ?_⟩
      simpa [resume, restore, loaded, hv, ht] using h.symm

theorem build_loaded (id : Uuid) (cap : Int) (s : σ) {n : Int} {es : List (EventOf σ)}
    (h : Event.Numbered n es) :
    (∀ t, Model.replay s es = .ok t →
      (loaded id cap n s).build es = (loaded id cap (n + es.length) t, .ok ())) ∧
    ∀ x, Model.replay s es = .error x → ∃ a, (loaded id cap n s).build es = (a, .error x) := by
  induction es generalizing n s with
  | nil => simp [Model.replay, build, feed]
  | cons e es ih =>
    obtain ⟨he, hes⟩ := h
    have hv : ¬ e.version ≤ n := by omega
    have hl : n + 1 + (es.length : Int) = n + (es.length + 1 : Nat) := by omega
    cases ha : Model.apply s e with
    | error x =>
      have hr : (loaded id cap n s).replay e = .error x := by simp [replay, loaded, hv, ha]
      simp [Model.replay, ha, build, feed, hr]
    | ok t =>
      have hr : (loaded id cap n s).replay e = .ok (loaded id cap (n + 1) t) := by
        have hn : ¬ n + 1 ≤ n := by omega
        simp only [replay, loaded, he, ha, if_neg hn]
      have hb : (loaded id cap n s).build (e :: es) = (loaded id cap (n + 1) t).build es := by
        simp only [build, feed, hr]
      rw [hb, List.length_cons, ← hl]
      simpa [Model.replay, ha] using ih (s := t) hes

theorem build_loaded_eq_ok {id : Uuid} {cap n : Int} {s : σ} {es : List (EventOf σ)}
    {a : Aggregate σ} (h : Event.Numbered n es)
    (hb : (loaded id cap n s).build es = (a, .ok ())) :
    ∃ t, Model.replay s es = .ok t ∧ a = loaded id cap (n + es.length) t := by
  obtain ⟨hok, herr⟩ := build_loaded id cap s h
  cases hr : Model.replay s es with
  | error x =>
    obtain ⟨b, hx⟩ := herr x hr
    rw [hb] at hx
    simp at hx
  | ok t =>
    have ht := hok t hr
    rw [hb] at ht
    exact ⟨t, rfl, (Prod.mk.inj ht).1⟩

theorem advanceAll_numbered {a : Aggregate σ} {es : List (EventOf σ)}
    (h : Event.Numbered a.version es) :
    (∀ t, Model.replay a.state es = .ok t →
      a.advanceAll es =
        ({ a with version := a.version + es.length, changes := a.changes ++ es, state := t },
          .ok ())) ∧
    ∀ x, Model.replay a.state es = .error x → ∃ b, a.advanceAll es = (b, .error x) := by
  induction es generalizing a with
  | nil => simp [Model.replay, advanceAll, feed]
  | cons e es ih =>
    obtain ⟨he, hes⟩ := h
    cases ha : Model.apply a.state e with
    | error x =>
      have hr : a.advance e = .error x := by simp [advance, he, ha]
      simp [Model.replay, ha, advanceAll, feed, hr]
    | ok t =>
      have hr : a.advance e =
          .ok { a with state := t, version := e.version, changes := a.changes ++ [e] } := by
        simp [advance, he, ha]
      have hb : a.advanceAll (e :: es) =
          { a with state := t, version := e.version, changes := a.changes ++ [e] }.advanceAll
            es := by
        simp only [advanceAll, feed, hr]
      have hi := ih (a := { a with state := t, version := e.version, changes := a.changes ++ [e] })
        (by simpa [he] using hes)
      have hl : e.version + (es.length : Int) = a.version + (es.length + 1 : Nat) := by omega
      rw [hb, List.length_cons, ← hl]
      simpa [Model.replay, ha] using hi

theorem advanceAll_eq_ok {a b : Aggregate σ} {es : List (EventOf σ)}
    (h : Event.Numbered a.version es) (hb : a.advanceAll es = (b, .ok ())) :
    ∃ t, Model.replay a.state es = .ok t ∧
      b = { a with version := a.version + es.length, changes := a.changes ++ es, state := t } := by
  obtain ⟨hok, herr⟩ := advanceAll_numbered h
  cases hr : Model.replay a.state es with
  | error x =>
    obtain ⟨c, hx⟩ := herr x hr
    rw [hb] at hx
    simp at hx
  | ok t =>
    have ht := hok t hr
    rw [hb] at ht
    exact ⟨t, rfl, (Prod.mk.inj ht).1⟩

/-- What loading makes of an aggregate, however far it gets: it stands where it was, or at a version
that was just loaded, and its changes stay with it. -/
structure Reloads (a b : Aggregate σ) : Prop where
  id : b.id = a.id
  changes : b.changes = a.changes
  version : b.baseVersion = b.version ∨ b.baseVersion = a.baseVersion ∧ b.version = a.version

section
variable {a b c : Aggregate σ}

theorem Reloads.refl (a : Aggregate σ) : a.Reloads a := ⟨rfl, rfl, .inr ⟨rfl, rfl⟩⟩

theorem Reloads.resume (h : a.Reloads b) {found : Option (SnapshotOf σ)}
    (hc : b.resume found = .ok c) : a.Reloads c := by
  cases found with
  | none =>
    cases hc
    exact h
  | some x =>
    simp only [Aggregate.resume, restore] at hc
    split at hc
    · cases hc
    · split at hc
      · cases hc
      · cases hc
        exact ⟨h.id, h.changes, .inl rfl⟩

theorem Reloads.replay (h : a.Reloads b) {e : EventOf σ} (hc : b.replay e = .ok c) :
    a.Reloads c := by
  simp only [Aggregate.replay] at hc
  split at hc
  · cases hc
  · split at hc
    · cases hc
    · cases hc
      exact ⟨h.id, h.changes, .inl rfl⟩

theorem Reloads.build (h : a.Reloads b) {es : List (EventOf σ)} {r : Except Error Unit}
    (hc : b.build es = (c, r)) : a.Reloads c := by
  induction es generalizing b with
  | nil =>
    cases hc
    exact h
  | cons e es ih =>
    cases hr : b.replay e with
    | error x =>
      simp only [Aggregate.build, feed, hr] at hc
      cases hc
      exact h
    | ok d =>
      simp only [Aggregate.build, feed, hr] at hc
      exact ih (h.replay hr) hc

end

theorem lt_of_snapshotDue {a : Aggregate σ} (h : a.snapshotDue = true) :
    a.baseVersion < a.version := by
  simp only [snapshotDue, Bool.and_eq_true, decide_eq_true_eq] at h
  by_contra hv
  have ht := Int.tdiv_le_tdiv h.1 (Int.not_lt.mp hv)
  omega

/-- A snapshot is due once a multiple of the cap is reached that was not before. -/
theorem snapshotDue_iff {a : Aggregate σ} (hb : 0 ≤ a.baseVersion)
    (hv : a.baseVersion ≤ a.version) :
    a.snapshotDue = true ↔
      0 < a.cap ∧ ∃ k : Int, a.baseVersion < k * a.cap ∧ k * a.cap ≤ a.version := by
  simp only [snapshotDue, Bool.and_eq_true, decide_eq_true_eq, Int.tdiv_eq_ediv_of_nonneg hb,
    Int.tdiv_eq_ediv_of_nonneg (Int.le_trans hb hv)]
  refine and_congr_right fun hc => ⟨fun h => ?_, ?_⟩
  · exact ⟨a.version / a.cap, (Int.ediv_lt_iff_lt_mul hc).mp h,
      Int.ediv_mul_le _ (Int.ne_of_gt hc)⟩
  · rintro ⟨k, hl, hu⟩
    exact Int.lt_of_lt_of_le ((Int.ediv_lt_iff_lt_mul hc).mpr hl)
      ((Int.le_ediv_iff_mul_le hc).mpr hu)

end Aggregate

namespace Ledger

/-- Nothing durable is taken back. -/
structure Grows (l m : Ledger σ) : Prop where
  events : l.events <+: m.events
  snapshots : l.snapshots <+: m.snapshots
  log : l.log <+: m.log

theorem Grows.refl (l : Ledger σ) : l.Grows l :=
  ⟨List.prefix_refl _, List.prefix_refl _, List.prefix_refl _⟩

theorem Grows.trans {l m n : Ledger σ} (h : l.Grows m) (k : m.Grows n) : l.Grows n :=
  ⟨h.events.trans k.events, h.snapshots.trans k.snapshots, h.log.trans k.log⟩

theorem Grows.stream {l m : Ledger σ} (h : l.Grows m) (id : Uuid) : l.stream id <+: m.stream id :=
  h.events.filter _

theorem Grows.length_stream {l m : Ledger σ} (h : l.Grows m) (id : Uuid) :
    (l.stream id).length ≤ (m.stream id).length := (h.stream id).length_le

theorem Grows.take_stream {l m : Ledger σ} (h : l.Grows m) (id : Uuid) {n : Nat}
    (hn : n ≤ (l.stream id).length) : (m.stream id).take n = (l.stream id).take n := by
  obtain ⟨es, he⟩ := h.stream id
  rw [← he, List.take_append_of_le_length hn]

theorem Grows.drop_stream {l m : Ledger σ} (h : l.Grows m) (id : Uuid) (n : Nat) :
    (l.stream id).drop n <+: (m.stream id).drop n := by
  obtain ⟨es, he⟩ := h.stream id
  rw [← he, List.drop_append]
  exact List.prefix_append _ _

theorem Grows.getElem?_stream {l m : Ledger σ} (h : l.Grows m) {id : Uuid} {n : Nat}
    {e : EventOf σ} (he : (l.stream id)[n]? = some e) : (m.stream id)[n]? = some e := by
  obtain ⟨es, hs⟩ := h.stream id
  rw [← hs, List.getElem?_append_left (List.getElem?_eq_some_iff.mp he).1, he]

theorem grows_absorb_writing (l : Ledger σ) (t : Uuid) (a : Aggregate σ) :
    l.Grows (l.absorb (.writing t a)) :=
  ⟨List.prefix_append _ _, List.prefix_append _ _, List.prefix_append _ _⟩

theorem grows_absorb_readOnly (l : Ledger σ) {u : UnitOfWork σ} (h : u.ReadOnly) :
    l.Grows (l.absorb u) := by
  rw [absorb_readOnly l h]
  exact ⟨List.prefix_refl _, List.prefix_refl _, List.prefix_refl _⟩

/-- The states in which an aggregate can be loaded, each with the version it then has. -/
inductive CanLoad (l : Ledger σ) (id : Uuid) : Nat → σ → Prop
  | fresh : CanLoad l id 0 Model.initial
  | snapshot {x : SnapshotOf σ} {n : Nat} {s : σ} (stored : x ∈ l.snapshots)
      (own : x.aggregateId = id) (version : x.version = n)
      (restored : Model.restore Model.initial x.payload = .ok s) : CanLoad l id n s
  | event {n : Nat} {e : EventOf σ} {s t : σ} (before : CanLoad l id n s)
      (next : (l.stream id)[n]? = some e) (applied : Model.apply s e = .ok t) :
    CanLoad l id (n + 1) t

theorem CanLoad.mono {l m : Ledger σ} (h : l.Grows m) {id : Uuid} {n : Nat} {s : σ}
    (hl : l.CanLoad id n s) : m.CanLoad id n s := by
  induction hl with
  | fresh => exact .fresh
  | snapshot hx ho hv hr => exact .snapshot (h.snapshots.subset hx) ho hv hr
  | event _ hn ha ih => exact .event ih (h.getElem?_stream hn) ha

theorem CanLoad.replay {l : Ledger σ} {id : Uuid} {n : Nat} {s t : σ} {es : List (EventOf σ)}
    (h : l.CanLoad id n s) (hp : es <+: (l.stream id).drop n) (hr : Model.replay s es = .ok t) :
    l.CanLoad id (n + es.length) t := by
  induction es generalizing n s with
  | nil =>
    cases hr
    exact h
  | cons e es ih =>
    obtain ⟨fs, hf⟩ := hp
    cases ha : Model.apply s e with
    | error x => simp [Model.replay, ha] at hr
    | ok u =>
      have hn : (l.stream id)[n]? = some e := by
        rw [← Nat.add_zero n, ← List.getElem?_drop, ← hf]
        rfl
      have hd : es <+: (l.stream id).drop (n + 1) := by
        rw [← List.drop_drop, ← hf]
        exact List.prefix_append es fs
      have hi := ih (.event h hn ha) hd (by simpa [Model.replay, ha] using hr)
      rwa [List.length_cons, Nat.add_comm es.length, ← Nat.add_assoc]

/-- What every run keeps true of what is durable: streams are dense, a snapshot keeps a state that
can be loaded at its version, and the places of the log count from 1. -/
structure Sound (l : Ledger σ) : Prop extends l.Dense where
  snapshot : ∀ x ∈ l.snapshots, ∃ (n : Nat) (s : σ), x.version = n ∧ 1 ≤ n ∧
    n ≤ (l.stream x.aggregateId).length ∧ l.CanLoad x.aggregateId n s ∧
    x.payload = Model.snapshot s
  place : ∀ (k : Nat) (t : Transaction), l.log[k]? = some t → t.sequence = k + 1

theorem Sound.empty : ({} : Ledger σ).Sound where
  toDense := Dense.empty
  snapshot _ h := nomatch h
  place _ _ h := nomatch h

theorem Sound.nextSequence {l : Ledger σ} (h : l.Sound) : l.nextSequence = l.log.length + 1 := by
  cases hl : l.log.getLast? with
  | none =>
    rw [List.getLast?_eq_none_iff] at hl
    simp [Ledger.nextSequence, hl]
  | some t =>
    rw [List.getLast?_eq_getElem?] at hl
    have hp := h.place _ t hl
    have hk : l.log.length - 1 < l.log.length := (List.getElem?_eq_some_iff.mp hl).1
    simp only [Ledger.nextSequence, List.getLast?_eq_getElem?, hl, hp]
    omega

theorem Sound.le_length {l : Ledger σ} (h : l.Sound) {id : Uuid} {n : Nat} {s : σ}
    (hl : l.CanLoad id n s) : n ≤ (l.stream id).length := by
  cases hl with
  | fresh => exact Nat.zero_le _
  | @snapshot x _ _ hx ho hv _ =>
    obtain ⟨k, _, hk, _, hle, _⟩ := h.snapshot x hx
    have hn : k = n := by omega
    rwa [hn, ho] at hle
  | event _ hn _ => exact (List.getElem?_eq_some_iff.mp hn).1

theorem Sound.resume {l : Ledger σ} (h : l.Sound) {id : Uuid} {cap : Int} {a : Aggregate σ}
    {found : Option (SnapshotOf σ)}
    (hf : ∀ x, found = some x → x ∈ l.snapshots ∧ x.aggregateId = id)
    (ha : (Aggregate.loaded id cap 0 Model.initial).resume found = .ok a) :
    ∃ n s, l.CanLoad id n s ∧ a = .loaded id cap n s := by
  cases found with
  | none =>
    cases ha
    exact ⟨0, Model.initial, .fresh, rfl⟩
  | some x =>
    obtain ⟨hx, ho⟩ := hf x rfl
    obtain ⟨_, t, hr, rfl⟩ := Aggregate.resume_loaded ha
    obtain ⟨n, _, hv, _⟩ := h.snapshot x hx
    exact ⟨n, t, .snapshot hx ho hv hr, by rw [hv]⟩

theorem Sound.numbered_of_prefix {l : Ledger σ} (h : l.Sound) {id : Uuid} {n : Nat} {s : σ}
    {es : List (EventOf σ)} (hl : l.CanLoad id n s) (hp : es <+: (l.stream id).drop n) :
    Event.Numbered n es := by
  have hn := (h.numbered id).drop (h.le_length hl)
  obtain ⟨fs, hf⟩ := hp
  rw [← hf, Event.numbered_append, Int.zero_add] at hn
  exact hn.1

theorem Sound.build {l : Ledger σ} (h : l.Sound) {id : Uuid} {cap : Int} {n : Nat} {s : σ}
    {es : List (EventOf σ)} {a : Aggregate σ} (hl : l.CanLoad id n s)
    (hp : es <+: (l.stream id).drop n) (hb : (Aggregate.loaded id cap n s).build es = (a, .ok ())) :
    ∃ t, l.CanLoad id (n + es.length) t ∧
      a = .loaded id cap (n + es.length : Nat) t := by
  obtain ⟨t, ht, rfl⟩ := Aggregate.build_loaded_eq_ok (h.numbered_of_prefix hl hp) hb
  exact ⟨t, hl.replay hp ht, by rw [Int.natCast_add]⟩

theorem Sound.absorb_readOnly {l : Ledger σ} (h : l.Sound) {u : UnitOfWork σ} (hu : u.ReadOnly) :
    (l.absorb u).Sound := by
  have hg := grows_absorb_readOnly l hu
  rw [Ledger.absorb_readOnly l hu] at hg ⊢
  refine ⟨⟨h.numbered, h.version⟩, fun x hx => ?_, h.place⟩
  obtain ⟨n, s, hv, h1, hn, hs, hp⟩ := h.snapshot x hx
  exact ⟨n, s, hv, h1, hn, hs.mono hg, hp⟩

end Ledger
end Outbox

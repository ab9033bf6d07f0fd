import Outbox.Proofs.Counting

/-! The books that an aggregate keeps. It is given stored events, snapshots and new events, of which
it accepts some; whatever it is given, its versions, its changes and its state are told by what it
has accepted, as long as nothing is loaded over changes. -/
namespace Outbox

open Text.IntegerKind (signed64 unsigned32)

namespace Aggregate

/-- What an aggregate accepts or refuses as a whole. -/
inductive Piece
  | stored (e : EventOf User)
  | snapshot (version : Int) (s : UserSnapshot)
  | change (e : EventOf User)

inductive Input
  | stored (es : List (EventOf User))
  | snapshot (version : Int) (s : UserSnapshot)
  | change (e : EventOf User)
  | changes (es : List (EventOf User))

namespace Piece

def isLoaded : Piece → Bool
  | change _ => false
  | _ => true

def change? : Piece → Option (EventOf User)
  | change e => some e
  | _ => none

/-- Its version has 64 bits, and it is no new event that follows the greatest version with the
least. -/
def Bounded : Piece → Prop
  | stored e => e.version ≤ signed64.above
  | snapshot version _ => version ≤ signed64.above
  | change e => e.version ≠ signed64.least

instance : DecidablePred Bounded
  | stored e => inferInstanceAs (Decidable (e.version ≤ signed64.above))
  | snapshot version _ => inferInstanceAs (Decidable (version ≤ signed64.above))
  | change e => inferInstanceAs (Decidable (e.version ≠ signed64.least))

end Piece

namespace Input

def isLoaded : Input → Bool
  | stored _ | snapshot .. => true
  | change _ | changes _ => false

def pieces : Input → List Piece
  | stored es => es.map .stored
  | snapshot version s => [.snapshot version s]
  | change e => [.change e]
  | changes es => es.map .change

theorem isLoaded_of_mem_pieces {x : Input} {p : Piece} (h : p ∈ x.pieces) :
    p.isLoaded = x.isLoaded := by
  cases x with
  | stored es | changes es =>
    obtain ⟨e, -, rfl⟩ := List.mem_map.mp h
    rfl
  | snapshot | change =>
    obtain rfl := List.mem_singleton.mp h
    rfl

end Input

def attempt (a : Aggregate User) : Except Halt (Aggregate User) → Aggregate User × Except Halt Unit
  | .ok b => (b, .ok ())
  | .error x => (a, .error x)

/-- What was loaded last: a snapshot, if there was one, and the stored events after it. -/
structure Basis where
  snapshot : Option UserSnapshot := none
  events : List (EventOf User) := []

namespace Basis

def add (b : Basis) : Piece → Basis
  | .stored e => { b with events := b.events ++ [e] }
  | .snapshot _ s => ⟨some s, []⟩
  | .change _ => b

def of (ps : List Piece) : Basis := ps.foldl add {}

theorem of_concat (ps : List Piece) (p : Piece) : of (ps ++ [p]) = (of ps).add p := by
  simp [of, List.foldl_append]

/-- The state that the events go on from: the one that the snapshot restores, or the initial one. -/
def Opens (b : Basis) (s : User) : Prop :=
  match b.snapshot with
  | none => s = Model.initial
  | some x => ∃ t : User, Model.restore t x = .ok s

end Basis
end Aggregate

open Aggregate (Piece Input Basis)

namespace Overflow

def take (o : Overflow) (a : Aggregate User) : Piece → Except Halt (Aggregate User)
  | .stored e => o.replay a e
  | .snapshot version s => o.restore a version s
  | .change e => o.advance a e

def receive (o : Overflow) (a : Aggregate User) : Input → Aggregate User × Except Halt Unit
  | .stored es => o.build a es
  | .snapshot version s => a.attempt (o.restore a version s)
  | .change e => a.attempt (o.advance a e)
  | .changes es => o.advanceAll a es

def receiveAll (o : Overflow) (a : Aggregate User) (xs : List Input) : Aggregate User :=
  xs.foldl (fun a x => (o.receive a x).1) a

/-- Takes one input after another until one is refused. -/
def receiveUntil (o : Overflow) :
    Aggregate User → List Input → Aggregate User × Except Halt Unit
  | a, [] => (a, .ok ())
  | a, x :: xs =>
    match o.receive a x with
    | (b, .error y) => (b, .error y)
    | (b, .ok ()) => receiveUntil o b xs

/-- Nothing is loaded once there are changes. -/
def Orderly (o : Overflow) : Aggregate User → List Input → Prop
  | _, [] => True
  | a, x :: xs => (x.isLoaded = true → a.changes = []) ∧ Orderly o (o.receive a x).1 xs

inductive Accepts (o : Overflow) : Aggregate User → List Piece → Aggregate User → Prop
  | nil (a : Aggregate User) : Accepts o a [] a
  | cons {a b c : Aggregate User} {p : Piece} {ps : List Piece} (first : o.take a p = .ok b)
    (rest : Accepts o b ps c) : Accepts o a (p :: ps) c

/-- What pieces, one after another, leave and report: all are accepted, or those before the first
that is refused, with its error. -/
inductive Stops (o : Overflow) (a : Aggregate User) (ps : List Piece) :
    Aggregate User × Except Halt Unit → Prop
  | all {b : Aggregate User} (accepted : o.Accepts a ps b) : Stops o a ps (b, .ok ())
  | first {b : Aggregate User} {before after : List Piece} {p : Piece} {x : Halt}
    (pieces : ps = before ++ p :: after) (accepted : o.Accepts a before b)
    (refused : o.take b p = .error x) : Stops o a ps (b, .error x)

def takeAll (o : Overflow) : Aggregate User → List Piece → Aggregate User × Except Halt Unit
  | a, [] => (a, .ok ())
  | a, p :: ps =>
    match o.take a p with
    | .error x => (a, .error x)
    | .ok b => takeAll o b ps

theorem takeAll_append (o : Overflow) (a : Aggregate User) (ps qs : List Piece) :
    o.takeAll a (ps ++ qs) =
      match o.takeAll a ps with
      | (b, .error x) => (b, .error x)
      | (b, .ok ()) => o.takeAll b qs := by
  induction ps generalizing a with
  | nil => rfl
  | cons p ps ih =>
    cases h : o.take a p with
    | error x => simp [takeAll, h]
    | ok b => simp [takeAll, h, ih]

theorem feed_eq_takeAll {o : Overflow}
    {act : Aggregate User → EventOf User → Except Halt (Aggregate User)}
    (piece : EventOf User → Piece) (h : ∀ a e, o.take a (piece e) = act a e)
    (a : Aggregate User) (es : List (EventOf User)) :
    Aggregate.feed act a es = o.takeAll a (es.map piece) := by
  induction es generalizing a with
  | nil => rfl
  | cons e es ih =>
    cases he : act a e with
    | error x => simp [Aggregate.feed, takeAll, h, he]
    | ok b => simp [Aggregate.feed, takeAll, h, he, ih]

/-- What an input leads to is told by its pieces alone. -/
theorem receive_eq_takeAll (o : Overflow) (a : Aggregate User) (x : Input) :
    o.receive a x = o.takeAll a x.pieces := by
  have one (p : Piece) : a.attempt (o.take a p) = o.takeAll a [p] := by
    cases h : o.take a p <;> simp [Aggregate.attempt, takeAll, h]
  cases x with
  | stored es => exact feed_eq_takeAll .stored (fun _ _ => rfl) a es
  | snapshot version s => exact one (.snapshot version s)
  | change e => exact one (.change e)
  | changes es => exact feed_eq_takeAll .change (fun _ _ => rfl) a es

/-- However pieces are dealt out to inputs, they lead to the same. -/
theorem receiveUntil_eq_takeAll (o : Overflow) (a : Aggregate User) (xs : List Input) :
    o.receiveUntil a xs = o.takeAll a (xs.flatMap Input.pieces) := by
  induction xs generalizing a with
  | nil => rfl
  | cons x xs ih =>
    rw [List.flatMap_cons, takeAll_append, receiveUntil, receive_eq_takeAll]
    rcases o.takeAll a x.pieces with ⟨b, y | _⟩
    · rfl
    · exact ih b

theorem stops_takeAll (o : Overflow) (a : Aggregate User) (ps : List Piece) :
    o.Stops a ps (o.takeAll a ps) := by
  induction ps generalizing a with
  | nil => exact .all (.nil a)
  | cons p ps ih =>
    cases h : o.take a p with
    | error x =>
      simp only [takeAll, h]
      exact .first (List.nil_append _).symm (.nil a) h
    | ok b =>
      simp only [takeAll, h]
      have hb := ih b
      generalize o.takeAll b ps = r at hb
      cases hb with
      | all accepted => exact .all (.cons h accepted)
      | first pieces accepted refused =>
        exact .first (congrArg (p :: ·) pieces) (.cons h accepted) refused

/-! ### What was accepted -/

/-- The pieces that are accepted before the first that is refused. -/
def accepted (o : Overflow) : Aggregate User → List Piece → List Piece
  | _, [] => []
  | a, p :: ps =>
    match o.take a p with
    | .error _ => []
    | .ok b => p :: accepted o b ps

def acceptedOf (o : Overflow) : Aggregate User → List Input → List Piece
  | _, [] => []
  | a, x :: xs => o.accepted a x.pieces ++ acceptedOf o (o.receive a x).1 xs

theorem accepts_accepted (o : Overflow) (a : Aggregate User) (ps : List Piece) :
    o.Accepts a (o.accepted a ps) (o.takeAll a ps).1 := by
  induction ps generalizing a with
  | nil => exact .nil a
  | cons p ps ih =>
    cases h : o.take a p with
    | error x =>
      simp only [accepted, takeAll, h]
      exact .nil a
    | ok b =>
      simp only [accepted, takeAll, h]
      exact .cons h (ih b)

theorem accepted_prefix (o : Overflow) (a : Aggregate User) (ps : List Piece) :
    o.accepted a ps <+: ps := by
  induction ps generalizing a with
  | nil => exact List.prefix_refl _
  | cons p ps ih =>
    cases h : o.take a p with
    | error x => simp [accepted, h]
    | ok b =>
      simp only [accepted, h]
      exact (List.prefix_cons_inj p).mpr (ih b)

/-- The books of an aggregate that has accepted pieces: where its versions stand, that its changes
are those accepted, numbered from the base version on, and that its state is what was loaded with
the changes replayed on it. -/
structure Keeps (o : Overflow) (a : Aggregate User) (ps : List Piece) : Prop where
  nonneg : 0 ≤ a.baseVersion
  version : a.version = a.baseVersion + a.changes.length
  numbered : Event.Numbered a.baseVersion a.changes
  changes : a.changes = ps.filterMap Piece.change?
  state : ∃ s, (Basis.of ps).Opens s ∧
    o.applyAll s ((Basis.of ps).events ++ a.changes) = .ok a.state
  -- what is counted one by one stays within 64 bits, unless it wraps
  bounded : o = wraps → a.version ≤ signed64.above

theorem keeps_new (o : Overflow) (id : Uuid) (cap : Int) : o.Keeps (.new id cap) [] :=
  ⟨Int.le_refl _, rfl, trivial, rfl, ⟨_, rfl, rfl⟩, fun _ => Int.natCast_nonneg _⟩

section
variable {o : Overflow} {a b : Aggregate User} {ps qs : List Piece} {p : Piece}

theorem replay_eq_ok_iff {e : EventOf User} :
    o.replay a e = .ok b ↔ a.version < e.version ∧ ∃ s, o.apply a.state e = .ok s ∧
      b = { a with state := s, version := e.version, baseVersion := e.version } := by
  by_cases hv : e.version ≤ a.version
  · simp [replay, hv, Int.not_lt.mpr hv]
  · cases hs : o.apply a.state e <;>
      simp [replay, hv, Int.not_le.mp hv, hs, eq_comm]

theorem restore_eq_ok_iff {version : Int} {x : UserSnapshot} :
    o.restore a version x = .ok b ↔ a.version < version ∧ ∃ s, Model.restore a.state x = .ok s ∧
      b = { a with state := s, version, baseVersion := version } := by
  by_cases hv : version ≤ a.version
  · simp [restore, hv, Int.not_lt.mpr hv]
  · cases hs : Model.restore a.state x <;>
      simp [restore, Aggregate.restore, Except.mapError, hv, Int.not_le.mp hv, hs, eq_comm]

theorem advance_eq_ok_iff {e : EventOf User} :
    o.advance a e = .ok b ↔ o.add signed64 a.version 1 = some e.version ∧
      ∃ s, o.apply a.state e = .ok s ∧
        b = { a with state := s, version := e.version, changes := a.changes ++ [e] } := by
  by_cases hv : o.add signed64 a.version 1 = some e.version
  · cases hs : o.apply a.state e <;> simp [advance, hv, hs, eq_comm]
  · simp [advance, hv]

/-- What is counted is the next number, unless that is too much for its bits. -/
theorem next_eq_of_bounded {v n : Int} (h : o.add signed64 v 1 = some n)
    (bounded : o = wraps → 0 ≤ v ∧ v ≤ signed64.above ∧ n ≠ signed64.least) : n = v + 1 := by
  cases o with
  | panics =>
    obtain ⟨-, rfl⟩ : signed64.holds (v + 1) = true ∧ v + 1 = n := by simpa [add] using h
    rfl
  | wraps =>
    obtain ⟨hv, hle, hn⟩ := bounded rfl
    obtain rfl : signed64.wrap (v + 1) = n := Option.some.inj h
    have hl : signed64.least ≤ 0 := by decide
    rcases Int.lt_or_eq_of_le hle with hlt | rfl
    · exact Text.IntegerKind.wrap_of_holds (Text.IntegerKind.holds_iff.mpr ⟨by omega, by omega⟩)
    · exact absurd (by decide) hn

/-- A program panics only where there is no number left for the next version or sign-in. -/
theorem take_eq_panic (h : o.take a p = .error .panic) :
    o = panics ∧ (signed64.holds (a.version + 1) = false ∨
      unsigned32.holds ((a.state.loginCount : Int) + 1) = false) := by
  have uncounted {v : Int} (hr : o.refusal a v = .panic) :
      o = panics ∧ signed64.holds (a.version + 1) = false := by
    unfold refusal at hr
    split at hr
    · next full => exact add_eq_none_iff.mp full
    · cases hr
  have unapplied {e : EventOf User} (ha : o.apply a.state e = .error .panic) :
      o = panics ∧ unsigned32.holds ((a.state.loginCount : Int) + 1) = false := by
    rcases apply_eq_error ha with ⟨detail, hd⟩ | ⟨-, panics, -, full⟩
    · cases hd
    · exact ⟨panics, full⟩
  cases p with
  | stored e =>
    simp only [take, replay] at h
    split at h
    · exact (uncounted (Except.error.inj h)).imp_right .inl
    · split at h
      · next x refused =>
        obtain rfl : x = .panic := Except.error.inj h
        exact (unapplied refused).imp_right .inr
      · cases h
  | snapshot version x =>
    simp only [take, restore] at h
    split at h
    · exact (uncounted (Except.error.inj h)).imp_right .inl
    · cases hr : a.restore version x <;> rw [hr] at h <;> cases h
  | change e =>
    simp only [take, advance] at h
    split at h
    · split at h
      · next x refused =>
        obtain rfl : x = .panic := Except.error.inj h
        exact (unapplied refused).imp_right .inr
      · cases h
    · exact (uncounted (Except.error.inj h)).imp_right .inl

theorem own_of_take (h : o.take a p = .ok b) : b.id = a.id ∧ b.cap = a.cap := by
  cases p with
  | stored e =>
    obtain ⟨-, s, -, rfl⟩ := replay_eq_ok_iff.mp h
    exact ⟨rfl, rfl⟩
  | snapshot version x =>
    obtain ⟨-, s, -, rfl⟩ := restore_eq_ok_iff.mp h
    exact ⟨rfl, rfl⟩
  | change e =>
    obtain ⟨-, s, -, rfl⟩ := advance_eq_ok_iff.mp h
    exact ⟨rfl, rfl⟩

theorem changes_of_take (h : o.take a p = .ok b) (loaded : p.isLoaded = true) :
    b.changes = a.changes := by
  cases p with
  | stored e =>
    obtain ⟨-, s, -, rfl⟩ := replay_eq_ok_iff.mp h
    rfl
  | snapshot version x =>
    obtain ⟨-, s, -, rfl⟩ := restore_eq_ok_iff.mp h
    rfl
  | change e => cases loaded

/-- A piece that is accepted is entered in the books. -/
theorem Keeps.take (h : o.Keeps a ps) (level : p.isLoaded = true → a.changes = [])
    (bounded : o = wraps → p.Bounded) (hb : o.take a p = .ok b) : o.Keeps b (ps ++ [p]) := by
  obtain ⟨hn, hv, hnum, hc, ⟨s₀, ho, hs⟩, hw⟩ := h
  cases p with
  | stored e =>
    obtain ⟨hlt, s, ha, rfl⟩ := replay_eq_ok_iff.mp hb
    have hnil : a.changes = [] := level rfl
    have hpos : 0 ≤ e.version := by omega
    rw [hnil, List.append_nil] at hs
    refine ⟨hpos, by simp [hnil], by simp [hnil, Event.Numbered], ?_, ⟨s₀, ?_, ?_⟩, bounded⟩
    · simpa [List.filterMap_cons, Piece.change?] using hc
    · rw [Basis.of_concat]
      exact ho
    · simp [Basis.of_concat, Basis.add, hnil, applyAll_append_of_eq_ok hs, applyAll, ha]
  | snapshot version x =>
    obtain ⟨hlt, s, ha, rfl⟩ := restore_eq_ok_iff.mp hb
    have hnil : a.changes = [] := level rfl
    have hpos : 0 ≤ version := by omega
    refine ⟨hpos, by simp [hnil], by simp [hnil, Event.Numbered], ?_, ⟨s, ?_, ?_⟩, bounded⟩
    · simpa [List.filterMap_cons, Piece.change?] using hc
    · rw [Basis.of_concat]
      exact ⟨a.state, ha⟩
    · simp [Basis.of_concat, Basis.add, hnil, applyAll]
  | change e =>
    obtain ⟨counted, s, ha, rfl⟩ := advance_eq_ok_iff.mp hb
    have hnext : e.version = a.version + 1 :=
      next_eq_of_bounded counted fun w => ⟨by omega, hw w, bounded w⟩
    refine ⟨hn, ?_, ?_, ?_, ⟨s₀, ?_, ?_⟩, fun _ => ?_⟩
    · simp only [hnext, hv, List.length_append, List.length_singleton]
      omega
    · exact Event.numbered_append.mpr ⟨hnum, by rw [hnext, hv], trivial⟩
    · simp [Piece.change?, hc]
    · rw [Basis.of_concat]
      exact ho
    · rw [Basis.of_concat]
      simp only [Basis.add]
      rw [← List.append_assoc, applyAll_append_of_eq_ok hs]
      simp [applyAll, ha]
    · exact (Text.IntegerKind.holds_iff.mp (holds_add counted)).2

theorem Keeps.accepts (h : o.Keeps a ps) (hb : o.Accepts a qs b) {loaded : Bool}
    (kind : ∀ q ∈ qs, q.isLoaded = loaded) (level : loaded = true → a.changes = [])
    (bounded : o = wraps → ∀ q ∈ qs, q.Bounded) : o.Keeps b (ps ++ qs) := by
  induction hb generalizing ps with
  | nil a => rwa [List.append_nil]
  | cons first rest ih =>
    have hp := kind _ List.mem_cons_self
    rw [List.append_cons]
    refine ih (h.take (fun hl => level (hp ▸ hl)) (fun w => bounded w _ List.mem_cons_self) first)
      (fun q hq => kind q (List.mem_cons_of_mem _ hq)) (fun hl => ?_)
      fun w q hq => bounded w q (List.mem_cons_of_mem _ hq)
    rw [changes_of_take first (hp.trans hl)]
    exact level hl

theorem Keeps.receive (h : o.Keeps a ps) {x : Input} (level : x.isLoaded = true → a.changes = [])
    (bounded : o = wraps → ∀ q ∈ o.accepted a x.pieces, q.Bounded) :
    o.Keeps (o.receive a x).1 (ps ++ o.accepted a x.pieces) := by
  rw [receive_eq_takeAll]
  refine h.accepts (o.accepts_accepted a x.pieces) (fun q hq => ?_) level bounded
  exact Input.isLoaded_of_mem_pieces ((o.accepted_prefix a x.pieces).subset hq)

theorem Keeps.receiveAll (h : o.Keeps a ps) {xs : List Input} (orderly : o.Orderly a xs)
    (bounded : o = wraps → ∀ q ∈ o.acceptedOf a xs, q.Bounded) :
    o.Keeps (o.receiveAll a xs) (ps ++ o.acceptedOf a xs) := by
  induction xs generalizing a ps with
  | nil => rwa [acceptedOf, List.append_nil]
  | cons x xs ih =>
    rw [acceptedOf, ← List.append_assoc]
    exact ih (h.receive orderly.1 fun w q hq => bounded w q (List.mem_append_left _ hq)) orderly.2
      fun w q hq => bounded w q (List.mem_append_right _ hq)

theorem own_of_accepts (h : o.Accepts a ps b) : b.id = a.id ∧ b.cap = a.cap := by
  induction h with
  | nil a => exact ⟨rfl, rfl⟩
  | cons first rest ih =>
    obtain ⟨hi, hc⟩ := own_of_take first
    exact ⟨ih.1.trans hi, ih.2.trans hc⟩

theorem own_receiveAll (o : Overflow) (a : Aggregate User) (xs : List Input) :
    (o.receiveAll a xs).id = a.id ∧ (o.receiveAll a xs).cap = a.cap := by
  induction xs generalizing a with
  | nil => exact ⟨rfl, rfl⟩
  | cons x xs ih =>
    have hx := own_of_accepts (o.accepts_accepted a x.pieces)
    rw [← receive_eq_takeAll] at hx
    exact ⟨(ih _).1.trans hx.1, (ih _).2.trans hx.2⟩

end
end Overflow

/-- A user is restored and taken on, then changed, each time with something among it that is
refused. -/
def Aggregate.mixedInputs : List Input :=
  let event (version : Int) (payload : UserEvent) : EventOf User :=
    User.fixture (.ofNat 1) (.ofNat 1) version payload
  [.stored [event 1 .emailConfirmed],
    .snapshot 3 ⟨some "a@example.com", true, 4294967295, none⟩,
    .snapshot 2 ⟨none, false, 0, none⟩,
    .stored [event 5 (.userAuthenticated "phone"), event 5 .emailConfirmed,
      event 6 .emailConfirmed],
    .changes [event 6 (.userAuthenticated "laptop"), event 8 .emailConfirmed],
    .change (event (-9223372036854775808) .emailConfirmed),
    .changes [event 7 .emailConfirmed, event 8 .emailConfirmed, event 9 .emailConfirmed,
      event 10 (.userAuthenticated "phone")]]

-- a program that panics at the greatest version has accepted what came before
example :
    let event (version : Int) : EventOf User := User.fixture .nil .nil version .emailConfirmed
    let a := Overflow.panics.receiveAll (User.new .nil)
      [.snapshot 9223372036854775806 ⟨some "a@example.com", false, 0, none⟩]
    let r := Overflow.panics.receive a
      (.changes [event 9223372036854775807, event (-9223372036854775808)])
    (r.1.baseVersion, r.1.version) = (9223372036854775806, 9223372036854775807) ∧
      r.2 = .error .panic := by
  decide +kernel

end Outbox

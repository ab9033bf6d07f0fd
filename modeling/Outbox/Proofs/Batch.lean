import Outbox.Proofs.Counting
import Outbox.Proofs.Snapshots

/-! The batch that is published for a list of events: what other systems are told of each of them,
in the state right after it. An event that cannot be told keeps the whole batch back. -/
namespace Outbox

open Text.IntegerKind (signed64 unsigned32)

namespace Overflow

/-- What is told of the event at a place of a list: it carries the next version after those before
it, and the state that it leads to has a form for it. -/
def Tells (o : Overflow) (a : Aggregate User) (es : List (EventOf User)) (k : Nat)
    (i : IntegrationOf User) : Prop :=
  ∃ e s payload, es[k]? = some e ∧ o.add signed64 a.version (k + 1) = some e.version ∧
    o.applyAll a.state (es.take (k + 1)) = .ok s ∧
    Model.integration s e.eventType = .ok payload ∧ i = ⟨a.id, e.eventType, payload⟩

/-- Why nothing is told of the event at a place of a list, whatever those before it lead to: its
version cannot be counted, it carries another one, it is refused, or else the state that it leads to
has no form for it. -/
inductive Refuses (o : Overflow) (a : Aggregate User) (es : List (EventOf User)) (k : Nat) :
    Halt → Prop
  | uncounted (e : EventOf User) (here : es[k]? = some e)
    (full : o.add signed64 a.version (k + 1) = none) : Refuses o a es k .panic
  | version (e : EventOf User) (next : Int) (here : es[k]? = some e)
    (counted : o.add signed64 a.version (k + 1) = some next) (gap : e.version ≠ next) :
    Refuses o a es k (.error (.invalidVersion a.id next e.version))
  | application (e : EventOf User) (s : User) (x : Halt) (here : es[k]? = some e)
    (next : o.add signed64 a.version (k + 1) = some e.version)
    (before : o.applyAll a.state (es.take k) = .ok s) (refused : o.apply s e = .error x) :
    Refuses o a es k x
  | form (e : EventOf User) (s : User) (x : Error) (here : es[k]? = some e)
    (next : o.add signed64 a.version (k + 1) = some e.version)
    (after : o.applyAll a.state (es.take (k + 1)) = .ok s)
    (untold : Model.integration s e.eventType = .error x) : Refuses o a es k (.error x)

/-- The events carry the versions after that of the aggregate, happen one after another, and each
has a form in the state that it leads to. -/
structure CanTell (o : Overflow) (a : Aggregate User) (es : List (EventOf User)) : Prop where
  versions : ∀ (k : Nat) e, es[k]? = some e → o.add signed64 a.version (k + 1) = some e.version
  happen : ∃ s, o.applyAll a.state es = .ok s
  forms : ∀ (k : Nat) e s, es[k]? = some e → o.applyAll a.state (es.take (k + 1)) = .ok s →
    ∃ payload, Model.integration s e.eventType = .ok payload

section
variable {o : Overflow} {a b : Aggregate User} {e : EventOf User} {es : List (EventOf User)}
  {k : Nat}

/-- The first version is counted, and the others from there. -/
theorem add_next (h : o.add signed64 a.version 1 = some b.version) (k : Nat) :
    o.add signed64 a.version ((k + 1 : Nat) + 1) = o.add signed64 b.version (k + 1) := by
  rw [add_add h]
  congr 1
  omega

theorem applyAll_take_cons (h : o.apply a.state e = .ok b.state) (k : Nat) :
    o.applyAll a.state ((e :: es).take (k + 1)) = o.applyAll b.state (es.take k) := by
  simp [applyAll, h]

theorem Tells.cons (h : o.apply a.state e = .ok b.state)
    (next : o.add signed64 a.version 1 = some b.version) (id : b.id = a.id)
    {i : IntegrationOf User} (told : o.Tells b es k i) : o.Tells a (e :: es) (k + 1) i := by
  obtain ⟨f, s, payload, here, hv, hs, hi, rfl⟩ := told
  exact ⟨f, s, payload, here, (add_next next k).trans hv, (applyAll_take_cons h _).trans hs, hi,
    by rw [id]⟩

theorem Refuses.cons (h : o.apply a.state e = .ok b.state)
    (next : o.add signed64 a.version 1 = some b.version) (id : b.id = a.id) {x : Halt}
    (refused : o.Refuses b es k x) : o.Refuses a (e :: es) (k + 1) x := by
  cases refused with
  | uncounted f here full => exact .uncounted f here ((add_next next k).trans full)
  | version f v here counted gap =>
    rw [id]
    exact .version f v here ((add_next next k).trans counted) gap
  | application f s x here hv before refused =>
    exact .application f s x here ((add_next next k).trans hv)
      ((applyAll_take_cons h _).trans before) refused
  | form f s x here hv after untold =>
    exact .form f s x here ((add_next next k).trans hv) ((applyAll_take_cons h _).trans after)
      untold

theorem Refuses.lt_length {x : Halt} (h : o.Refuses a es k x) : k < es.length := by
  cases h with
  | uncounted e here | version e v here | application e s x here | form e s x here =>
    exact (List.getElem?_eq_some_iff.mp here).1

theorem Refuses.not_tells {x : Halt} (h : o.Refuses a es k x) (i : IntegrationOf User) :
    ¬ o.Tells a es k i := by
  rintro ⟨f, t, payload, here', hv, ht, hi, -⟩
  cases h with
  | uncounted e here full => cases full.symm.trans hv
  | version e next here counted gap =>
    cases here.symm.trans here'
    exact gap (Option.some.inj (hv.symm.trans counted))
  | application e s x here next before refused =>
    cases here.symm.trans here'
    rw [List.take_add_one, here, applyAll_append_of_eq_ok before] at ht
    simp [applyAll, refused] at ht
  | form e s x here next after untold =>
    cases here.symm.trans here'
    cases after.symm.trans ht
    cases untold.symm.trans hi

/-- Of every event something is told, if and only if all can be told. -/
theorem canTell_iff : o.CanTell a es ↔ ∀ k < es.length, ∃ i, o.Tells a es k i := by
  constructor
  · intro h k hk
    have here : es[k]? = some es[k] := List.getElem?_eq_getElem hk
    obtain ⟨t, ht⟩ := h.happen
    rw [← List.take_append_drop (k + 1) es] at ht
    obtain ⟨s, hs⟩ := applyAll_prefix ht
    obtain ⟨payload, hi⟩ := h.forms k _ s here hs
    exact ⟨_, es[k], s, payload, here, h.versions k _ here, hs, hi, rfl⟩
  · intro h
    have told {k : Nat} {e : EventOf User} (here : es[k]? = some e) : ∃ i, o.Tells a es k i :=
      h k (List.getElem?_eq_some_iff.mp here).1
    refine ⟨fun k e here => ?_, ?_, fun k e s here hs => ?_⟩
    · obtain ⟨_, f, _, _, here', hv, -⟩ := told here
      cases here.symm.trans here'
      exact hv
    · -- the last event has all the others before it
      rcases Nat.eq_zero_or_pos es.length with h0 | h1
      · exact ⟨a.state, by rw [List.length_eq_zero_iff.mp h0]; rfl⟩
      · obtain ⟨_, _, s, _, -, -, hs, -⟩ := h (es.length - 1) (by omega)
        rw [List.take_of_length_le (by omega)] at hs
        exact ⟨s, hs⟩
    · obtain ⟨_, f, t, payload, here', -, ht, hi, -⟩ := told here
      cases here.symm.trans here'
      cases hs.symm.trans ht
      exact ⟨payload, hi⟩

end

/-- Something is told of every event of a list, or else the first of which nothing is told is what
ends it. -/
theorem announce_cases (o : Overflow) (a : Aggregate User) (es : List (EventOf User)) :
    (∃ b batch, o.announce a es = (b, .ok batch) ∧ batch.length = es.length ∧
      ∀ k i, batch[k]? = some i → o.Tells a es k i) ∨
    ∃ b k x, o.announce a es = (b, .error x) ∧ (∀ j < k, ∃ i, o.Tells a es j i) ∧
      o.Refuses a es k x := by
  induction es generalizing a with
  | nil => exact .inl ⟨a, [], rfl, rfl, by simp⟩
  | cons e es ih =>
    have zero (x : Halt) {b : Aggregate User} (ha : o.announce a (e :: es) = (b, .error x))
        (hr : o.Refuses a (e :: es) 0 x) : ∃ b k x, o.announce a (e :: es) = (b, .error x) ∧
          (∀ j < k, ∃ i, o.Tells a (e :: es) j i) ∧ o.Refuses a (e :: es) k x :=
      ⟨b, 0, x, ha, by simp, hr⟩
    rcases o.advance_cases a e with
      ⟨hn, ha⟩ | ⟨next, hn, hv, ha⟩ | ⟨x, hn, hx, ha⟩ | ⟨s, hn, hs, ha⟩
    · exact .inr (zero .panic (b := a) (by simp [announce, ha]) (.uncounted e rfl hn))
    · exact .inr (zero _ (b := a) (by simp [announce, ha]) (.version e next rfl hn hv))
    · exact .inr (zero x (b := a) (by simp [announce, ha]) (.application e a.state x rfl hn rfl hx))
    · generalize hb : ({ a with state := s, version := e.version, changes := a.changes ++ [e] } :
        Aggregate User) = b at ha
      have hs : o.apply a.state e = .ok b.state := by rw [hs, ← hb]
      have hnb : o.add signed64 a.version 1 = some b.version := by rw [hn, ← hb]
      have hid : b.id = a.id := by rw [← hb]
      have hr₁ : o.applyAll a.state ((e :: es).take 1) = .ok b.state := applyAll_take_cons hs 0
      cases hi : Model.integration b.state e.eventType with
      | error x =>
        exact .inr (zero (.error x) (b := b)
          (by simp [announce, ha, Aggregate.integrationEvent, hi])
          (.form e b.state x rfl hn hr₁ hi))
      | ok payload =>
        have first : o.Tells a (e :: es) 0 ⟨b.id, e.eventType, payload⟩ :=
          ⟨e, b.state, payload, rfl, hn, hr₁, hi, by rw [hid]⟩
        rcases ih b with ⟨c, batch, hc, hlen, told⟩ | ⟨c, k, x, hc, before, hr⟩
        · refine .inl ⟨c, ⟨b.id, e.eventType, payload⟩ :: batch,
            by simp [announce, ha, Aggregate.integrationEvent, hi, hc], by simp [hlen], ?_⟩
          rintro (_ | k) i hk
          · cases hk
            exact first
          · exact (told k i hk).cons hs hnb hid
        · refine .inr ⟨c, k + 1, x,
            by simp [announce, ha, Aggregate.integrationEvent, hi, hc], ?_, hr.cons hs hnb hid⟩
          rintro (_ | j) hj
          · exact ⟨_, first⟩
          · obtain ⟨i, ht⟩ := before j (by omega)
            exact ⟨i, ht.cons hs hnb hid⟩

end Overflow

namespace User

/-- Why an event of a type has no form. -/
def untold (eventType : String) : Error :=
  if UserEvent.isKnownType eventType then unregistered eventType else unknownType eventType

theorem untold_eq_conversion (eventType : String) :
    ∃ detail, untold eventType = .conversion detail := by
  unfold untold
  split
  · exact ⟨_, rfl⟩
  · exact ⟨_, rfl⟩

/-- A user has no form for an event of an unknown type, nor for any event before registering. -/
theorem integration_eq_error_iff {u : User} {eventType : String} {x : Error} :
    (Model.integration u eventType : Except Error UserIntegration) = .error x ↔
      (UserEvent.isKnownType eventType = false ∨ u.email = none) ∧ x = untold eventType := by
  change u.integration eventType = .error x ↔ _
  unfold User.integration untold
  cases hk : UserEvent.isKnownType eventType with
  | false => simp [eq_comm]
  | true => cases he : u.email <;> simp [eq_comm]

end User

/-- At a place of a list there is no number left for the version, or for a sign-in. -/
inductive Overflow.Exhausts (a : Aggregate User) (es : List (EventOf User)) (k : Nat) : Prop
  | version (full : signed64.holds (a.version + (k + 1)) = false)
  | signIn (e : EventOf User) (s : User) (device : String) (here : es[k]? = some e)
    (before : panics.applyAll a.state (es.take k) = .ok s)
    (signsIn : e.payload = .userAuthenticated device)
    (full : unsigned32.holds ((s.loginCount : Int) + 1) = false)

/-- Whatever is refused of a user carries a version that does not come next, or cannot be
converted; else the program has run out of numbers, and panics at that. -/
theorem Overflow.Refuses.user {o : Overflow} {a : Aggregate User} {es : List (EventOf User)}
    {k : Nat} {x : Halt} (h : o.Refuses a es k x) :
    (∃ e next, es[k]? = some e ∧ o.add signed64 a.version (k + 1) = some next ∧
      e.version ≠ next ∧ x = .error (.invalidVersion a.id next e.version)) ∨
    (∃ detail, x = .error (.conversion detail)) ∨
    x = .panic ∧ o = .panics ∧ Exhausts a es k := by
  cases h with
  | uncounted e here full =>
    obtain ⟨panics, full⟩ := add_eq_none_iff.mp full
    exact .inr (.inr ⟨rfl, panics, .version full⟩)
  | version e next here counted gap => exact .inl ⟨e, next, here, counted, gap, rfl⟩
  | application e s x here next before refused =>
    rcases apply_eq_error refused with converts | ⟨rfl, rfl, ⟨device, signsIn⟩, full⟩
    · exact .inr (.inl converts)
    · exact .inr (.inr ⟨rfl, rfl, .signIn e s device here before signsIn full⟩)
  | form e s x here next after untold =>
    obtain ⟨-, rfl⟩ := User.integration_eq_error_iff.mp untold
    obtain ⟨detail, hd⟩ := User.untold_eq_conversion e.eventType
    exact .inr (.inl ⟨detail, congrArg Halt.error hd⟩)

-- an event that a user refuses is not converted, be its type known or not
example (o : Overflow) : (o.announce (User.new .nil)
    [{ User.fixture .nil .nil 1 .emailConfirmed with eventType := "user.deleted" }]).2 =
      .error (.error (User.neverRegistered .nil)) := by
  cases o <;> rfl

/-! ### What is asked of the broker -/

section
variable {σ α : Type} [Model σ]

/-- The broker is asked to publish a batch and nothing else: what its answer to that is decides all,
and makes a difference. -/
structure Asks (came : (List (IntegrationOf σ) → Except Error Unit) → α)
    (batch : List (IntegrationOf σ)) : Prop where
  once : ∀ publish publish', publish batch = publish' batch → came publish = came publish'
  heeded : ∃ publish publish', came publish ≠ came publish'

/-- The broker is not asked for anything: how it would answer makes no difference. -/
def Unasked (came : (List (IntegrationOf σ) → Except Error Unit) → α) : Prop :=
  ∀ publish publish', came publish = came publish'

variable {came : (List (IntegrationOf σ) → Except Error Unit) → α}
  {batch batch' : List (IntegrationOf σ)}

theorem Asks.not_unasked (h : Asks came batch) : ¬ Unasked came := by
  obtain ⟨publish, publish', hne⟩ := h.heeded
  exact fun hu => hne (hu publish publish')

/-- No broker is asked to publish two different batches. -/
theorem Asks.unique (h : Asks came batch) (h' : Asks came batch') : batch = batch' := by
  classical
  by_contra hne
  refine h.not_unasked fun publish publish' => ?_
  -- a broker that answers the one batch as the first does and the other as the second does
  let mixed := fun b => if b = batch then publish b else publish' b
  calc came publish = came mixed := h.once _ _ (if_pos rfl).symm
    _ = came publish' := h'.once _ _ (if_neg (Ne.symm hne))

end

namespace Overflow
variable {o : Overflow} {save : UserProjection → Except Error Unit} {w : World User}
  {a b : Aggregate User} {es : List (EventOf User)}

theorem publishEvents_of_error {x : Halt} (h : o.announce a es = (b, .error x))
    (peers : Peers User) : o.publishEvents peers w a es = (w, b, .error x) := by
  simp only [publishEvents, h]

theorem publishEvents_of_ok {batch : List (IntegrationOf User)}
    (h : o.announce a es = (b, .ok batch)) (some : batch ≠ []) (peers : Peers User) :
    o.publishEvents peers w a es =
      match peers.publish batch with
      | .error x => (w, b, .error (.error x))
      | .ok () =>
        ({ w with batches := w.batches ++ [batch] }.say (.publishedEvents b.id batch.length),
          b, .ok batch.length) := by
  cases batch with
  | nil => exact absurd rfl some
  | cons i is =>
    simp only [publishEvents, h, World.publish]
    cases peers.publish (i :: is) <;> rfl

theorem asks_publishEvents {batch : List (IntegrationOf User)}
    (h : o.announce a es = (b, .ok batch)) (some : batch ≠ []) :
    Asks (fun publish => o.publishEvents ⟨publish, save⟩ w a es) batch := by
  refine ⟨fun publish publish' hp => ?_, fun _ => .ok (), fun _ => .error (.publish ""), ?_⟩
  · simp only [publishEvents_of_ok h some, hp]
  · simp [publishEvents_of_ok h some]

theorem unasked_publishEvents {x : Halt} (h : o.announce a es = (b, .error x)) :
    Unasked fun publish => o.publishEvents ⟨publish, save⟩ w a es :=
  fun publish publish' => by simp only [publishEvents_of_error h]

end Overflow

-- after the greatest version there is none, unless the program goes on with the least
example :
    let a := { User.new .nil with version := 9223372036854775807 }
    let e := User.fixture .nil .nil (-9223372036854775808) (.credentialsCreated "a@example.com")
    (Overflow.panics.announce a [e]).2 = .error .panic ∧
      ((Overflow.wraps.announce a [e]).2.toOption.map List.length) = some 1 :=
  ⟨rfl, rfl⟩

end Outbox

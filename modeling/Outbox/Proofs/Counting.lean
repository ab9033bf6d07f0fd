import Outbox.Proofs.Races
import Outbox.User.Overflow

/-! Counting with numbers that come to an end. As long as there is room for what is counted, a user
who is counted goes on as one without any end of numbers; and where there is none, it is known what
goes wrong. -/
namespace Outbox.Overflow

open Text.IntegerKind (signed64 unsigned32)

/-- The state after events, one after another, unless one is refused or cannot be counted. -/
def applyAll (o : Overflow) : User → List (EventOf User) → Except Halt User
  | u, [] => .ok u
  | u, e :: es =>
    match o.apply u e with
    | .error h => .error h
    | .ok v => applyAll o v es

section
variable {o : Overflow} {u v : User} {e : EventOf User} {es fs : List (EventOf User)}

theorem applyAll_append (o : Overflow) (u : User) (es fs : List (EventOf User)) :
    o.applyAll u (es ++ fs) =
      match o.applyAll u es with
      | .error h => .error h
      | .ok v => o.applyAll v fs := by
  induction es generalizing u with
  | nil => rfl
  | cons e es ih => cases he : o.apply u e <;> simp [applyAll, he, ih]

theorem applyAll_append_of_eq_ok (h : o.applyAll u es = .ok v) :
    o.applyAll u (es ++ fs) = o.applyAll v fs := by
  rw [applyAll_append, h]

theorem applyAll_prefix (h : o.applyAll u (es ++ fs) = .ok v) : ∃ t, o.applyAll u es = .ok t := by
  rw [applyAll_append] at h
  cases ht : o.applyAll u es with
  | error x => simp [ht] at h
  | ok t => exact ⟨t, rfl⟩

/-- A user refuses an event as one that cannot be converted; only a sign-in can be one too many. -/
theorem apply_eq_error {x : Halt} (h : o.apply u e = .error x) :
    (∃ detail, x = .error (.conversion detail)) ∨
      x = .panic ∧ o = .panics ∧ (∃ device, e.payload = .userAuthenticated device) ∧
        unsigned32.holds ((u.loginCount : Int) + 1) = false := by
  unfold Overflow.apply at h
  split at h
  · next device signsIn =>
    split at h
    · next full =>
      cases h
      obtain ⟨panics, full⟩ := add_eq_none_iff.mp full
      exact .inr ⟨rfl, panics, ⟨device, signsIn⟩, full⟩
    · cases h
  · change (Model.apply u e).mapError Halt.error = .error x at h
    cases hu : Model.apply u e with
    | error y =>
      rw [hu] at h
      cases h
      obtain ⟨detail, rfl⟩ := ConvertingModel.apply hu
      exact .inl ⟨detail, rfl⟩
    | ok t =>
      rw [hu] at h
      cases h

end

/-- An event happens, or it carries another version than the one that is counted, or it is refused
by the user, or there is no such version to be counted. -/
theorem advance_cases (o : Overflow) (a : Aggregate User) (e : EventOf User) :
    (o.add signed64 a.version 1 = none ∧ o.advance a e = .error .panic) ∨
    (∃ next, o.add signed64 a.version 1 = some next ∧ e.version ≠ next ∧
      o.advance a e = .error (.error (.invalidVersion a.id next e.version))) ∨
    (∃ x, o.add signed64 a.version 1 = some e.version ∧ o.apply a.state e = .error x ∧
      o.advance a e = .error x) ∨
    ∃ s, o.add signed64 a.version 1 = some e.version ∧ o.apply a.state e = .ok s ∧
      o.advance a e =
        .ok { a with state := s, version := e.version, changes := a.changes ++ [e] } := by
  cases hn : o.add signed64 a.version 1 with
  | none => exact .inl ⟨rfl, by simp [advance, refusal, hn]⟩
  | some next =>
    by_cases hv : next = e.version
    · subst hv
      cases ha : o.apply a.state e with
      | error x => exact .inr (.inr (.inl ⟨x, rfl, rfl, by simp [advance, hn, ha]⟩))
      | ok s => exact .inr (.inr (.inr ⟨s, rfl, rfl, by simp [advance, hn, ha]⟩))
    · exact .inr (.inl ⟨next, rfl, Ne.symm hv, by simp [advance, refusal, hn, hv]⟩)

/-! ### Room for what is counted -/

/-- So many more events can be counted, whatever they are. -/
structure HasRoom (a : Aggregate User) (n : Nat) : Prop where
  least : signed64.least ≤ a.version
  versions : a.version + n ≤ signed64.above
  signIns : a.state.loginCount + n ≤ unsigned32.above

section
variable {a b : Aggregate User} {e : EventOf User} {n : Nat}

theorem HasRoom.holds_version (h : HasRoom a (n + 1)) : signed64.holds (a.version + 1) = true := by
  have hl := h.least
  have hv := h.versions
  exact Text.IntegerKind.holds_iff.mpr ⟨by omega, by omega⟩

theorem HasRoom.holds_signIn (h : HasRoom a (n + 1)) :
    unsigned32.holds ((a.state.loginCount : Int) + 1) = true := by
  have hl : unsigned32.least = 0 := rfl
  have hs := h.signIns
  exact Text.IntegerKind.holds_iff.mpr ⟨by omega, by omega⟩

theorem HasRoom.apply (h : HasRoom a (n + 1)) (o : Overflow) (e : EventOf User) :
    o.apply a.state e = (Model.apply a.state e).mapError .error := by
  unfold Overflow.apply
  split
  · next device he =>
    rw [o.add_of_holds h.holds_signIn]
    simp [Model.apply, User.apply, he, Except.mapError]
  · rfl

theorem HasRoom.refusal (h : HasRoom a (n + 1)) (o : Overflow) (actual : Int) :
    o.refusal a actual = .error (a.invalidVersion actual) := by
  simp only [Overflow.refusal, o.add_of_holds h.holds_version, Aggregate.invalidVersion]

theorem HasRoom.advance (h : HasRoom a (n + 1)) (o : Overflow) (e : EventOf User) :
    o.advance a e = (a.advance e).mapError .error := by
  simp only [Overflow.advance, Aggregate.advance, o.add_of_holds h.holds_version, h.refusal o,
    h.apply o, Option.some.injEq, eq_comm (a := e.version)]
  split
  · cases Model.apply a.state e <;> rfl
  · rfl

theorem loginCount_of_apply {u v : User} {e : EventOf User} (h : Model.apply u e = .ok v) :
    v.loginCount ≤ u.loginCount + 1 := by
  change u.apply e = .ok v at h
  unfold User.apply at h
  split at h
  · cases h
    exact Nat.le_succ _
  · split at h
    · cases h
    · cases h
      exact Nat.le_succ _
  · cases h
    exact Nat.le_refl _

/-- An event takes up the room for one. -/
theorem HasRoom.next (h : HasRoom a (n + 1)) (hb : a.advance e = .ok b) : HasRoom b n := by
  have hl := h.least
  have hv := h.versions
  have hs := h.signIns
  unfold Aggregate.advance at hb
  split at hb
  · next next =>
    split at hb
    · cases hb
    · next s happens =>
      have hc := loginCount_of_apply happens
      cases hb
      exact ⟨by simp only [next]; omega, by simp only [next]; omega, by simp only; omega⟩
  · cases hb

theorem HasRoom.announce {es : List (EventOf User)} (h : HasRoom a es.length) (o : Overflow) :
    o.announce a es = ((a.announce es).1, (a.announce es).2.mapError .error) := by
  induction es generalizing a with
  | nil => rfl
  | cons e es ih =>
    have ha := HasRoom.advance h o e
    cases hb : a.advance e with
    | error x => simp [Overflow.announce, Aggregate.announce, ha, hb, Except.mapError]
    | ok b =>
      have hes := ih (h.next hb)
      cases hi : b.integrationEvent e.eventType with
      | error x => simp [Overflow.announce, Aggregate.announce, ha, hb, hi, Except.mapError]
      | ok i =>
        simp only [Overflow.announce, Aggregate.announce, ha, hb, hi, hes, Except.mapError]
        rcases b.announce es with ⟨c, x | is⟩ <;> rfl

theorem HasRoom.publishEvents {es : List (EventOf User)} (h : HasRoom a es.length) (o : Overflow)
    (peers : Peers User) (w : World User) :
    o.publishEvents peers w a es =
      let (w', b, r) := w.publishEvents peers a es
      (w', b, r.mapError .error) := by
  simp only [Overflow.publishEvents, World.publishEvents, h.announce o]
  rcases a.announce es with ⟨c, x | _ | ⟨i, is⟩⟩
  · rfl
  · rfl
  · simp only [Except.mapError]
    cases w.publish peers (i :: is) with
    | mk r w' => cases r <;> rfl

end
end Outbox.Overflow

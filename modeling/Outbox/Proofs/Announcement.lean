import Outbox.Notification
import Outbox.Proofs.Records
import Outbox.Proofs.Rendering

/-! What a payload announces. Whatever the text, it is read as exactly the transaction whose parts
it writes, or it is refused as a notification; and what is sent for a transaction announces that
one. -/
namespace Outbox.Notification

open Json

/-- A payload announces a transaction: it writes a record of three texts, which write the two
identifiers and the place in the log, and the place is an integer of 64 bits. -/
structure Announces (payload : String) (t : Transaction) : Prop where
  record : ∃ j id aggregateId sequence, Json.Writes payload.toList (.padded j) ∧
    Fields fieldNames j [ofString id, ofString aggregateId, ofString sequence] ∧
    Uuid.Writes id.toList t.id ∧ Uuid.Writes aggregateId.toList t.aggregateId ∧
    Text.Writes sequence.toList t.sequence
  least : -9223372036854775808 ≤ t.sequence
  greatest : t.sequence ≤ 9223372036854775807

theorem ofJson?_eq_some_iff {j : Json} {n : Notification} :
    ofJson? j = some n ↔ ∃ id aggregateId,
      Fields fieldNames j [ofString id, ofString aggregateId, ofString n.sequence] ∧
      Uuid.Writes id.toList n.id ∧ Uuid.Writes aggregateId.toList n.aggregateId := by
  constructor
  · intro h
    unfold ofJson? at h
    split at h
    · next a b c hf =>
      simp only [Option.bind_eq_bind, Option.bind_eq_some_iff, Option.pure_def, Option.some.injEq,
        uuid?_eq_some_iff, string?_eq_some_iff] at h
      obtain ⟨u, ⟨id, rfl, hu⟩, v, ⟨aggregateId, rfl, hv⟩, s, rfl, rfl⟩ := h
      exact ⟨id, aggregateId, fields?_eq_some_iff.mp hf, hu, hv⟩
    · cases h
  · rintro ⟨id, aggregateId, hf, hu, hv⟩
    have hu' := uuid?_eq_some_iff.mpr ⟨id, rfl, hu⟩
    have hv' := uuid?_eq_some_iff.mpr ⟨aggregateId, rfl, hv⟩
    have hf' := fields?_eq_some_iff.mpr hf
    simp only [List.map_cons, List.map_nil] at hf'
    simp only [ofJson?, hf', hu', hv', string?_eq_some_iff.mpr rfl, Option.bind_eq_bind,
      Option.bind_some, Option.pure_def]

theorem decode?_eq_some_iff {payload : String} {n : Notification} :
    (Document.decode? payload : Option Notification) = some n ↔
      ∃ j, Json.Writes payload.toList (.padded j) ∧ ofJson? j = some n := by
  simp only [Document.decode?, Option.bind_eq_some_iff, Json.ofText?, read?_eq_some_iff]
  rfl

/-- The transaction that a payload is read as is the one that it announces. -/
theorem decode_eq_ok_iff {payload : String} {t : Transaction} :
    decode payload = .ok t ↔ Announces payload t := by
  constructor
  · intro h
    unfold decode at h
    split at h
    · cases h
    · next n hn =>
      split at h
      · cases h
      · next i hi =>
        obtain ⟨j, hj, hn⟩ := decode?_eq_some_iff.mp hn
        obtain ⟨id, aggregateId, hf, hu, hv⟩ := ofJson?_eq_some_iff.mp hn
        obtain ⟨hw, hk, -⟩ := Text.readInteger_eq_ok_iff.mp hi
        obtain ⟨least, greatest⟩ := Text.IntegerKind.holds_signed64_iff.mp hk
        cases h
        exact ⟨⟨j, id, aggregateId, n.sequence, hj, hf, hu, hv, hw⟩, least, greatest⟩
  · rintro ⟨⟨j, id, aggregateId, sequence, hj, hf, hu, hv, hw⟩, least, greatest⟩
    have hn : (Document.decode? payload : Option Notification) =
        some ⟨t.id, t.aggregateId, sequence⟩ :=
      decode?_eq_some_iff.mpr ⟨j, hj, ofJson?_eq_some_iff.mpr ⟨id, aggregateId, hf, hu, hv⟩⟩
    have hi : Text.readInteger .signed64 sequence.toList = .ok t.sequence :=
      Text.readInteger_eq_ok_iff.mpr
        ⟨hw, Text.IntegerKind.holds_signed64_iff.mpr ⟨least, greatest⟩, nofun⟩
    simp only [decode, hn, hi]

theorem fields_toJson (n : Notification) :
    Fields fieldNames n.toJson [ofUuid n.id, ofUuid n.aggregateId, ofString n.sequence] :=
  @fields_record [("id", _), ("aggregate_id", _), ("sequence_id", _)]
    (show fieldNames.Nodup by decide)

theorem announces_encode {t : Transaction} (least : -9223372036854775808 ≤ t.sequence)
    (greatest : t.sequence ≤ 9223372036854775807) : Announces (ofTransaction t).encode t := by
  refine ⟨⟨(ofTransaction t).toJson, t.id.text, t.aggregateId.text,
    String.ofList (Text.decimal t.sequence), ?_, ?_, ?_, ?_, ?_⟩, least, greatest⟩
  · exact read?_eq_some_iff.mp (ofText?_render _)
  · exact fields_toJson _
  · rw [Uuid.text, String.toList_ofList]
    exact t.id.writes_chars
  · rw [Uuid.text, String.toList_ofList]
    exact t.aggregateId.writes_chars
  · rw [String.toList_ofList]
    exact Text.writes_decimal t.sequence

theorem decode_cases (payload : String) :
    (∃ t, decode payload = .ok t) ∨ ∃ words, decode payload = .error (.notification words) := by
  unfold decode
  split
  · exact .inr ⟨_, rfl⟩
  · split
    · exact .inr ⟨_, rfl⟩
    · exact .inl ⟨_, rfl⟩

/-- What is sent for a transaction is read as that transaction, wherever in the log it is within 64
bits. And every payload is read as a transaction if and only if it announces this one; else it is
refused as a notification. -/
theorem decode_spec :
    (∀ t : Transaction, -9223372036854775808 ≤ t.sequence → t.sequence ≤ 9223372036854775807 →
      decode (ofTransaction t).encode = .ok t) ∧
    ∀ payload, (∀ t, decode payload = .ok t ↔ Announces payload t) ∧
      ((∃ t, decode payload = .ok t) ∨ ∃ words, decode payload = .error (.notification words)) := by
  refine ⟨fun t least greatest => ?_, fun payload => ⟨fun t => decode_eq_ok_iff, ?_⟩⟩
  · exact decode_eq_ok_iff.mpr (announces_encode least greatest)
  · exact decode_cases payload

theorem decode_spec_ends :
    (-9223372036854775808 : Int) ≤ 9223372036854775807 ∧
    decode (ofTransaction ⟨.nil, .ofNat 1, -9223372036854775808⟩).encode =
      .ok ⟨.nil, .ofNat 1, -9223372036854775808⟩ ∧
    decode (ofTransaction ⟨.nil, .ofNat 1, 9223372036854775807⟩).encode =
      .ok ⟨.nil, .ofNat 1, 9223372036854775807⟩ :=
  ⟨by decide, decode_spec.1 _ (by decide) (by decide), decode_spec.1 _ (by decide) (by decide)⟩

end Outbox.Notification

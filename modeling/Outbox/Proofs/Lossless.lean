import Outbox.Proofs.Instant
import Outbox.Proofs.Records
import Outbox.Proofs.Rendering
import Outbox.User.Document

/-! What is stored and sent loses nothing: its text is read as a document of the same type, and as
the same one. The text of any document is read as that document, so that each type has to do with
documents only: a value is read from its own document, wherever in a text that stands. -/
namespace Outbox

namespace Json

open Text (IntegerKind)

@[simp] theorem string?_ofString (s : String) : (ofString s).string? = some s := rfl

@[simp] theorem uuid?_ofUuid (u : Uuid) : (ofUuid u).uuid? = some u := by
  rw [ofUuid, uuid?, string?_ofString, Option.bind_some, Uuid.ofText?_text]

@[simp] theorem timestamp?_ofTimestamp (t : Timestamp) : (ofTimestamp t).timestamp? = some t := by
  rw [ofTimestamp, timestamp?, string?_ofString, Option.bind_some, Timestamp.ofText?_text]

@[simp] theorem stringOrNull?_ofString? (s : Option String) :
    (ofString? s).stringOrNull? = some s := by
  cases s <;> rfl

theorem integer?_ofInt {k : IntegerKind} {i : Int} (h : k.holds i = true) :
    (ofInt i).integer? k = some i := if_pos h

theorem fields?_record {names : List String} {fs : List (String × Json)}
    (named : fs.map Prod.fst = names) (distinct : names.Nodup) :
    (record fs).fields? names = some (fs.map fun f => some f.2) := by
  subst named
  rw [fields?_eq_some_iff.mpr (fields_record distinct), List.map_map]
  rfl

end Json

namespace Document
variable {α : Type} [Document α]

def Lossless (x : α) : Prop := ∀ around, ofJson? around (toJson x) = some x

theorem Lossless.decode? {x : α} (h : Lossless x) : Document.decode? (encode x) = some x := by
  rw [Document.decode?, encode, Json.ofText?_render]
  exact h 0

end Document

open Json
open Document (Lossless)
open Text.IntegerKind (signed64 unsigned32)

namespace UserEvent

theorem onlyString?_record (name s : String) :
    onlyString? name (record [(name, ofString s)]) = some s := by
  simp [onlyString?, record, members?, distinct, member?]

/-- An event is read from its type and its data, in the order in which they are written. -/
theorem ofJson?_record (around : Nat) (type : String) (data : Json) :
    ofJson? around (record [("type", ofString type), ("data", data)]) =
      ofData? type (some data) := by
  have ht : typeName? (ofString type) = some type := rfl
  simp [ofJson?, record, distinct, member?, dataFirst, ht]

theorem lossless (e : UserEvent) : Lossless e := by
  intro around
  cases e with
  | emailConfirmed => rfl
  | credentialsCreated email =>
    refine (ofJson?_record ..).trans ?_
    simp [ofData?, onlyString?_record]
  | userAuthenticated device =>
    refine (ofJson?_record ..).trans ?_
    simp [ofData?, onlyString?_record]

end UserEvent

theorem UserSnapshot.lossless {s : UserSnapshot} (count : unsigned32.holds s.loginCount = true) :
    Lossless s := by
  intro around
  have hf : (toJson s).fields? fieldNames = some _ := fields?_record rfl (by decide)
  change ofJson? (toJson s) = some s
  simp [ofJson?, hf, optional?, bool?, integer?_ofInt count]

section
variable {P : Type} [Document P]

theorem Event.lossless {e : Event P} (version : signed64.holds e.version = true)
    (payload : Lossless e.payload) : Lossless e := by
  intro around
  have hf : (toJson e).fields? fieldNames = some _ := fields?_record rfl (by decide)
  change ofJson? around (toJson e) = some e
  simp [ofJson?, hf, integer?_ofInt version, payload (around + 1)]

theorem IntegrationEvent.lossless {e : IntegrationEvent P} (payload : Lossless e.payload) :
    Lossless e := by
  intro around
  have hf : (toJson e).fields? fieldNames = some _ := fields?_record rfl (by decide)
  change ofJson? around (toJson e) = some e
  simp [ofJson?, hf, payload (around + 1)]

theorem Snapshot.lossless {s : Snapshot P} (version : signed64.holds s.version = true)
    (payload : Lossless s.payload) : Lossless s := by
  intro around
  have hf : (toJson s).fields? fieldNames = some _ := fields?_record rfl (by decide)
  change ofJson? around (toJson s) = some s
  simp [ofJson?, hf, integer?_ofInt version, payload (around + 1)]

end

theorem Transaction.lossless {t : Transaction} (sequence : signed64.holds t.sequence = true) :
    Lossless t := by
  intro around
  have hf : (toJson t).fields? fieldNames = some _ := fields?_record rfl (by decide)
  change ofJson? (toJson t) = some t
  simp [ofJson?, hf, integer?_ofInt sequence]

theorem Checkpoint.lossless {c : Checkpoint} (last : signed64.holds c.last = true) :
    Lossless c := by
  intro around
  have hf : (toJson c).fields? fieldNames = some _ := fields?_record rfl (by decide)
  change ofJson? (toJson c) = some c
  simp [ofJson?, hf, integer?_ofInt last]

namespace Document

/-- Whatever is stored or sent is read again as it was: users' events and snapshots, by themselves
and in what is stored or sent of them, places in the log and how far it is relayed, with any
integers that 64 bits, or 32 without a sign, hold. -/
theorem decode?_encode :
    (∀ e : UserEvent, decode? (encode e) = some e) ∧
    (∀ s : UserSnapshot, unsigned32.holds s.loginCount = true → decode? (encode s) = some s) ∧
    (∀ e : Event UserEvent, signed64.holds e.version = true → decode? (encode e) = some e) ∧
    (∀ e : IntegrationEvent UserEvent, decode? (encode e) = some e) ∧
    (∀ s : Snapshot UserSnapshot, signed64.holds s.version = true →
      unsigned32.holds s.payload.loginCount = true → decode? (encode s) = some s) ∧
    (∀ t : Transaction, signed64.holds t.sequence = true → decode? (encode t) = some t) ∧
    ∀ c : Checkpoint, signed64.holds c.last = true → decode? (encode c) = some c :=
  ⟨fun e => e.lossless.decode?, fun _ hc => (UserSnapshot.lossless hc).decode?,
    fun e hv => (Event.lossless hv e.payload.lossless).decode?,
    fun e => (IntegrationEvent.lossless e.payload.lossless).decode?,
    fun _ hv hc => (Snapshot.lossless hv (UserSnapshot.lossless hc)).decode?,
    fun _ hs => (Transaction.lossless hs).decode?,
    fun _ hl => (Checkpoint.lossless hl).decode?⟩

/-- The greatest count, the least version and both ends of the log, with a text of characters that
are not written as they are, at a leap second. -/
theorem decode?_encode_ends :
    let user : UserSnapshot := ⟨none, true, 4294967295, some "\x00\"\\é"⟩
    let leap : Timestamp := ⟨⟨2016, 12, 31⟩, ⟨23, 59, 60, 123456789⟩, by decide, by decide⟩
    let event : Event UserEvent :=
      ⟨.nil, .ofNat 1, "", -9223372036854775808, "\n", .emailConfirmed, leap⟩
    let snapshot : Snapshot UserSnapshot := ⟨.nil, 9223372036854775807, user⟩
    let transaction : Transaction := ⟨.ofNat 1, .nil, -9223372036854775808⟩
    let checkpoint : Checkpoint := ⟨9223372036854775807⟩
    unsigned32.holds 4294967295 = true ∧ signed64.holds (-9223372036854775808) = true ∧
    signed64.holds 9223372036854775807 = true ∧
    decode? (encode user) = some user ∧ decode? (encode event) = some event ∧
    decode? (encode snapshot) = some snapshot ∧
    decode? (encode transaction) = some transaction ∧
    decode? (encode checkpoint) = some checkpoint := by
  intro user leap event snapshot transaction checkpoint
  have count : unsigned32.holds 4294967295 = true := by decide
  have least : signed64.holds (-9223372036854775808) = true := by decide
  have greatest : signed64.holds 9223372036854775807 = true := by decide
  obtain ⟨-, hu, he, -, hs, ht, hc⟩ := decode?_encode
  exact ⟨count, least, greatest, hu user count, he event least, hs snapshot greatest count,
    ht transaction least, hc checkpoint greatest⟩

end Document
end Outbox

import Outbox.Config
import Outbox.Proofs.Decimal

/-! The settings and the variables that they are read from. Reading goes well exactly if every
variable can be taken for a setting, and then the settings are those that the variables give;
otherwise the first variable that cannot is told of. Settings that were read are read again from the
variables that they are written to. -/
namespace Outbox

namespace Text

/-- A text counts to a number: digits that write it, after a plus sign or not. -/
inductive Counts : List Char → Nat → Prop
  | plain {cs : List Char} (digits : IsNumeral cs) : Counts cs (Nat.ofDigitChars 10 cs 0)
  | plus {cs : List Char} (digits : IsNumeral cs) : Counts ('+' :: cs) (Nat.ofDigitChars 10 cs 0)

theorem IsNumeral.head?_ne {cs : List Char} (h : IsNumeral cs) : cs.head? ≠ some '-' := by
  intro hh
  exact absurd (h.2 '-' (List.mem_of_mem_head? (Option.mem_def.mpr hh))) (by decide)

theorem counts_iff {cs : List Char} {n : Nat} :
    Counts cs n ↔ Writes cs n ∧ cs.head? ≠ some '-' := by
  constructor
  · intro h
    cases h with
    | plain digits => exact ⟨.plain digits, digits.head?_ne⟩
    | plus digits => exact ⟨.plus digits, by simp⟩
  · rintro ⟨h, hh⟩
    generalize hi : (n : Int) = i at h
    cases h with
    | plain digits =>
      obtain rfl := Int.ofNat_inj.mp hi
      exact .plain digits
    | plus digits =>
      obtain rfl := Int.ofNat_inj.mp hi
      exact .plus digits
    | minus digits => exact absurd rfl hh

theorem Writes.head?_ne {cs : List Char} {i : Int} (h : Writes cs i) (hi : 0 < i) :
    cs.head? ≠ some '-' := by
  cases h with
  | plain digits => exact digits.head?_ne
  | plus digits => simp
  | minus digits => omega

/-- What is read as a number counts to it, unless it is a zero with a minus sign. -/
theorem readInteger_eq_ok_natCast_iff {k : IntegerKind} {cs : List Char} {n : Nat}
    (h : k.below = none ∨ 0 < n) :
    readInteger k cs = .ok (n : Int) ↔ Counts cs n ∧ n ≤ k.above := by
  rw [readInteger_eq_ok_iff, counts_iff, k.holds_natCast]
  constructor
  · rintro ⟨hw, hn, hh⟩
    refine ⟨⟨hw, ?_⟩, hn⟩
    rcases h with hb | hp
    · exact hh hb
    · exact hw.head?_ne (Int.natCast_pos.mpr hp)
  · rintro ⟨⟨hw, hh⟩, hn⟩
    exact ⟨hw, hn, fun _ => hh⟩

end Text

namespace Config

def Present (value : Option String) (s : String) : Prop :=
  value = some s ∧ Text.allBlank s.toList = false

/-- The numbers that a setting can be, and the one that it is where its variable is missing. -/
structure Scale where
  least : Nat
  greatest : Nat
  default : Nat

namespace Scale

def snapshotCap : Scale := ⟨1, 2 ^ 63 - 1, defaultSnapshotCap⟩
def shutdownSeconds : Scale := ⟨0, 2 ^ 64 - 1, defaultShutdownSeconds⟩
def maxConnections : Scale := ⟨1, 2 ^ 32 - 1, defaultMaxConnections⟩

end Scale

/-- A variable gives a number: the default where it is missing, otherwise the one of the scale that
its value counts to, apart from blanks around it. -/
inductive Gives (lookup : String → Option String) (v : Variable) (s : Scale) : Nat → Prop
  | missing (absent : lookup v.name = none) : Gives lookup v s s.default
  | written {value : String} {n : Nat} (present : lookup v.name = some value)
    (counts : Text.Counts (Text.trim value.toList) n) (least : s.least ≤ n)
    (greatest : n ≤ s.greatest) : Gives lookup v s n

def Sets (lookup : String → Option String) (c : Config) : Variable → Prop
  | .databaseUrl => Present (lookup Variable.databaseUrl.name) c.databaseUrl
  | .channel =>
    Present (lookup Variable.channel.name) c.channel ∨
      (∀ s, ¬ Present (lookup Variable.channel.name) s) ∧ c.channel = defaultChannel
  | .snapshotCap => Gives lookup .snapshotCap .snapshotCap c.snapshotCap
  | .shutdownSeconds => Gives lookup .shutdownSeconds .shutdownSeconds c.shutdownSeconds
  | .maxConnections => Gives lookup .maxConnections .maxConnections c.maxConnections

def Admits (lookup : String → Option String) (v : Variable) : Prop := ∃ c, Sets lookup c v

theorem nonBlank?_eq_some_iff {value : Option String} {s : String} :
    nonBlank? value = some s ↔ Present value s := by
  simp [nonBlank?, Present, Option.filter_eq_some_iff]

theorem nonBlank?_eq_none_iff {value : Option String} :
    nonBlank? value = none ↔ ∀ s, ¬ Present value s := by
  simp only [Option.eq_none_iff_forall_ne_some, ne_eq, nonBlank?_eq_some_iff]

section
variable {lookup : String → Option String} {v : Variable} {k : Text.IntegerKind} {d : Nat}

theorem blames_of_integer {f : Fault} (h : integer lookup v k d = .error f) : f.blames = v := by
  unfold integer at h
  split at h
  · cases h
  · split at h <;> cases h
    rfl

theorem integer_nonneg (hk : k.below = none) {i : Int} (h : integer lookup v k d = .ok i) :
    0 ≤ i := by
  unfold integer at h
  split at h
  · cases h
    omega
  · split at h
    · cases h
    · next hr =>
      cases h
      have hh := (Text.readInteger_eq_ok_iff.mp hr).2.1
      refine Int.not_lt.mp fun hi => ?_
      simp [Text.IntegerKind.holds, hi, hk] at hh

/-- A variable gives exactly the number that is read, if it is not below the least. -/
theorem gives_iff {least n : Nat} (hk : k.below = none ∨ 0 < least) (hl : least ≤ d) :
    Gives lookup v ⟨least, k.above, d⟩ n ↔ least ≤ n ∧ integer lookup v k d = .ok (n : Int) := by
  have hr {value : String} (hv : lookup v.name = some value) :
      integer lookup v k d = .ok (n : Int) ↔
        Text.readInteger k (Text.trim value.toList) = .ok (n : Int) := by
    cases ht : Text.readInteger k (Text.trim value.toList) <;> simp [integer, hv, ht]
  have hp (hn : least ≤ n) : k.below = none ∨ 0 < n := hk.imp_right fun h => Nat.lt_of_lt_of_le h hn
  constructor
  · intro h
    cases h with
    | missing absent => exact ⟨hl, by simp [integer, absent]⟩
    | written present counts least greatest =>
      refine ⟨least, (hr present).mpr ?_⟩
      exact (Text.readInteger_eq_ok_natCast_iff (hp least)).mpr ⟨counts, greatest⟩
  · rintro ⟨hn, hi⟩
    cases hv : lookup v.name with
    | none =>
      have hd : (d : Int) = n := by simpa only [integer, hv, Except.ok.injEq] using hi
      obtain rfl := Int.ofNat_inj.mp hd
      exact .missing hv
    | some value =>
      obtain ⟨counts, greatest⟩ :=
        (Text.readInteger_eq_ok_natCast_iff (hp hn)).mp ((hr hv).mp hi)
      exact .written hv counts hn greatest

end

section
variable {lookup : String → Option String} {n : Nat}

theorem gives_snapshotCap :
    Gives lookup .snapshotCap .snapshotCap n ↔
      1 ≤ n ∧ integer lookup .snapshotCap .signed64 defaultSnapshotCap = .ok (n : Int) :=
  gives_iff (k := .signed64) (.inr (by decide)) (by decide)

theorem gives_shutdownSeconds :
    Gives lookup .shutdownSeconds .shutdownSeconds n ↔
      integer lookup .shutdownSeconds .unsigned64 defaultShutdownSeconds = .ok (n : Int) :=
  (gives_iff (k := .unsigned64) (.inl rfl) (by decide)).trans (by simp)

theorem gives_maxConnections :
    Gives lookup .maxConnections .maxConnections n ↔
      1 ≤ n ∧ integer lookup .maxConnections .unsigned32 defaultMaxConnections = .ok (n : Int) :=
  gives_iff (k := .unsigned32) (.inl rfl) (by decide)

end

/-- The end of a reading: settings that every variable gives, or a fault of the first variable that
cannot be taken for one. -/
inductive Ends (lookup : String → Option String) : Except Fault Config → Prop
  | settled {c : Config} (sets : ∀ v, Sets lookup c v) : Ends lookup (.ok c)
  | refused {f : Fault} {v : Variable} {before after : List Variable} (blames : f.blames = v)
      (order : Variable.all = before ++ v :: after) (admitted : ∀ u ∈ before, Admits lookup u)
      (unfit : ¬ Admits lookup v) : Ends lookup (.error f)

section
variable {lookup : String → Option String} {url : String}
  (hu : nonBlank? (lookup Variable.databaseUrl.name) = some url)
include hu

theorem admits_databaseUrl : Admits lookup .databaseUrl :=
  ⟨⟨url, "", 0, 0, 0⟩, nonBlank?_eq_some_iff.mp hu⟩

end

theorem sets_channel (lookup : String → Option String) :
    Present (lookup Variable.channel.name)
        ((nonBlank? (lookup Variable.channel.name)).getD defaultChannel) ∨
      (∀ s, ¬ Present (lookup Variable.channel.name) s) ∧
        (nonBlank? (lookup Variable.channel.name)).getD defaultChannel = defaultChannel := by
  cases hc : nonBlank? (lookup Variable.channel.name) with
  | none => exact .inr ⟨nonBlank?_eq_none_iff.mp hc, rfl⟩
  | some channel => exact .inl (nonBlank?_eq_some_iff.mp hc)

theorem admits_channel (lookup : String → Option String) : Admits lookup .channel :=
  ⟨⟨"", _, 0, 0, 0⟩, sets_channel lookup⟩

theorem admits_concat {lookup : String → Option String} {before : List Variable} {v : Variable}
    (h : ∀ u ∈ before, Admits lookup u) (hv : Admits lookup v) :
    ∀ u ∈ before ++ [v], Admits lookup u :=
  List.forall_mem_append.mpr ⟨h, List.forall_mem_singleton.mpr hv⟩

theorem ends_read (lookup : String → Option String) : Ends lookup (read lookup) := by
  unfold read
  split
  · next hu =>
    have first : Variable.all = [] ++ .databaseUrl :: Variable.all.tail := rfl
    refine .refused rfl first nofun fun ⟨c, hc⟩ => ?_
    exact nonBlank?_eq_none_iff.mp hu _ hc
  next url hu =>
  have before : ∀ u ∈ [Variable.databaseUrl, .channel], Admits lookup u := by
    simp [admits_databaseUrl hu, admits_channel]
  split
  · next f hf =>
    refine .refused (blames_of_integer hf) rfl before fun ⟨c, hc⟩ => ?_
    cases hf.symm.trans (gives_snapshotCap.mp hc).2
  next cap hcap =>
  split
  · next hle =>
    refine .refused rfl rfl before fun ⟨c, hc⟩ => ?_
    obtain ⟨hl, hn⟩ := gives_snapshotCap.mp hc
    cases hcap.symm.trans hn
    omega
  next hpos =>
  obtain ⟨cap, rfl⟩ := Int.eq_ofNat_of_zero_le (a := cap) (by omega)
  have givesCap := gives_snapshotCap.mpr ⟨by omega, hcap⟩
  have before := admits_concat (v := .snapshotCap) before ⟨⟨"", "", cap, 0, 0⟩, givesCap⟩
  split
  · next f hf =>
    refine .refused (blames_of_integer hf) rfl before fun ⟨c, hc⟩ => ?_
    cases hf.symm.trans (gives_shutdownSeconds.mp hc)
  next seconds hseconds =>
  obtain ⟨seconds, rfl⟩ := Int.eq_ofNat_of_zero_le (integer_nonneg rfl hseconds)
  have givesSeconds := gives_shutdownSeconds.mpr hseconds
  have before := admits_concat (v := .shutdownSeconds) before
    ⟨⟨"", "", 0, seconds, 0⟩, givesSeconds⟩
  split
  · next f hf =>
    refine .refused (blames_of_integer hf) rfl before fun ⟨c, hc⟩ => ?_
    cases hf.symm.trans (gives_maxConnections.mp hc).2
  next connections hconnections =>
  split
  · next hzero =>
    refine .refused rfl rfl before fun ⟨c, hc⟩ => ?_
    obtain ⟨hl, hn⟩ := gives_maxConnections.mp hc
    cases hconnections.symm.trans hn
    omega
  next hzero =>
  obtain ⟨connections, rfl⟩ := Int.eq_ofNat_of_zero_le (integer_nonneg rfl hconnections)
  refine .settled fun v => ?_
  cases v with
  | databaseUrl => exact nonBlank?_eq_some_iff.mp hu
  | channel => exact sets_channel lookup
  | snapshotCap => exact givesCap
  | shutdownSeconds => exact givesSeconds
  | maxConnections =>
    have hpos : connections ≠ 0 := fun h => hzero (congrArg Int.ofNat h)
    exact gives_maxConnections.mpr ⟨Nat.pos_of_ne_zero hpos, hconnections⟩

theorem Sets.unique {lookup : String → Option String} {c d : Config} (hc : ∀ v, Sets lookup c v)
    (hd : ∀ v, Sets lookup d v) : c = d := by
  have url : c.databaseUrl = d.databaseUrl :=
    Option.some.inj ((hc .databaseUrl).1.symm.trans (hd .databaseUrl).1)
  have channel : c.channel = d.channel := by
    rcases hc .channel with hc | ⟨nc, hc⟩ <;> rcases hd .channel with hd | ⟨nd, hd⟩
    · exact Option.some.inj (hc.1.symm.trans hd.1)
    · exact absurd hc (nd _)
    · exact absurd hd (nc _)
    · exact hc.trans hd.symm
  have cap : c.snapshotCap = d.snapshotCap :=
    Int.ofNat_inj.mp (Except.ok.inj ((gives_snapshotCap.mp (hc .snapshotCap)).2.symm.trans
      (gives_snapshotCap.mp (hd .snapshotCap)).2))
  have seconds : c.shutdownSeconds = d.shutdownSeconds :=
    Int.ofNat_inj.mp (Except.ok.inj ((gives_shutdownSeconds.mp (hc .shutdownSeconds)).symm.trans
      (gives_shutdownSeconds.mp (hd .shutdownSeconds))))
  have connections : c.maxConnections = d.maxConnections :=
    Int.ofNat_inj.mp (Except.ok.inj ((gives_maxConnections.mp (hc .maxConnections)).2.symm.trans
      (gives_maxConnections.mp (hd .maxConnections)).2))
  cases c
  cases d
  simp_all

theorem read_eq_ok_iff {lookup : String → Option String} {c : Config} :
    read lookup = .ok c ↔ ∀ v, Sets lookup c v := by
  have he := ends_read lookup
  generalize read lookup = r at he
  cases he with
  | settled sets =>
    refine ⟨fun h => ?_, fun h => congrArg Except.ok (Sets.unique sets h)⟩
    cases h
    exact sets
  | refused _ _ _ unfit => exact ⟨nofun, fun h => absurd ⟨c, h _⟩ unfit⟩

/-! ### Written out -/

theorem write_name (c : Config) (v : Variable) : c.write v.name = some (c.value v) := by
  cases v <;> rfl

theorem counts_decimal (n : Nat) : Text.Counts (Text.trim (Text.decimal n)) n := by
  have hd := Text.isNumeral_toDigits n
  have hn : Text.decimal n = Nat.toDigits 10 n := by
    rw [Text.decimal, if_neg (by omega), Int.natAbs_natCast]
  have hc := Text.Counts.plain hd
  rwa [Nat.ofDigitChars_ten_toDigits, ← hn, ← Text.trim_of_forall fun c hc =>
    Text.isBlank_of_isDigit (hd.2 c (hn ▸ hc))] at hc

theorem Gives.write {lookup : String → Option String} {v : Variable} {s : Scale} {n : Nat}
    (h : Gives lookup v s n) (fits : s.least ≤ s.default ∧ s.default ≤ s.greatest) {c : Config}
    (hv : c.value v = String.ofList (Text.decimal n)) : Gives c.write v s n := by
  have hs := c.write_name v
  have hc : Text.Counts (Text.trim (c.value v).toList) n := by
    rw [hv, String.toList_ofList]
    exact counts_decimal n
  cases h with
  | missing => exact .written hs hc fits.1 fits.2
  | written _ _ least greatest => exact .written hs hc least greatest

theorem Sets.write {lookup : String → Option String} {c : Config} (h : ∀ v, Sets lookup c v)
    (v : Variable) : Sets c.write c v := by
  cases v with
  | databaseUrl => exact ⟨c.write_name .databaseUrl, (h .databaseUrl).2⟩
  | channel =>
    refine .inl ⟨c.write_name .channel, ?_⟩
    rcases h .channel with hc | ⟨-, hc⟩
    · exact hc.2
    · rw [hc]
      decide
  | snapshotCap => exact Gives.write (h .snapshotCap) (by decide) rfl
  | shutdownSeconds => exact Gives.write (h .shutdownSeconds) (by decide) rfl
  | maxConnections => exact Gives.write (h .maxConnections) (by decide) rfl

theorem Fault.name_prefix_message (f : Fault) : f.blames.name.toList <+: f.message.toList := by
  cases f <;>
  · simp only [message, blames, String.toList_append, List.append_assoc]
    exact List.prefix_append ..

/-- Whatever the variables hold: settings are read exactly if every variable can be taken for one,
as that of the channel always can, and then those are read that the variables give, which are read
again from the variables that they are written to; otherwise the first variable that cannot be is
told of. -/
theorem read_of_variables (lookup : String → Option String) :
    (∀ c, read lookup = .ok c ↔ ∀ v, Sets lookup c v) ∧
      ((∃ c, read lookup = .ok c) ↔ ∀ v, Admits lookup v) ∧ Admits lookup .channel ∧
      (∀ c, read lookup = .ok c → read c.write = .ok c) ∧
      ∀ f, read lookup = .error f →
        f.toError = .configuration f.message ∧ f.blames.name.toList <+: f.message.toList ∧
        ∃ before after, Variable.all = before ++ f.blames :: after ∧
          (∀ v ∈ before, Admits lookup v) ∧ ¬ Admits lookup f.blames := by
  have he := ends_read lookup
  refine ⟨fun c => read_eq_ok_iff, ⟨fun ⟨c, hc⟩ v => ⟨c, read_eq_ok_iff.mp hc v⟩, fun h => ?_⟩,
    admits_channel lookup, fun c hc => read_eq_ok_iff.mpr (Sets.write (read_eq_ok_iff.mp hc)),
    fun f hf => ⟨rfl, f.name_prefix_message, ?_⟩⟩
  · generalize read lookup = r at he
    cases he with
    | settled => exact ⟨_, rfl⟩
    | refused _ _ _ unfit => exact absurd (h _) unfit
  · rw [hf] at he
    cases he with
    | refused blames order admitted unfit =>
      subst blames
      exact ⟨_, _, order, admitted, unfit⟩

end Config
end Outbox

import Outbox.Proofs.Alone
import Outbox.Proofs.Footprint

/-! What a consumer takes in: it takes the answers of its source one after another, and the round
for one notification is over before it takes the next answer. What it reports is how many answers it
has taken and how many rounds have moved the checkpoint, and what is durable is what the rounds that
are over have left. -/
namespace Outbox
variable {σ : Type} [Model σ]

/-- A round that is over: its transaction, what it ended with, and whether it moved the
checkpoint. -/
structure Settlement where
  transaction : Transaction
  result : Except Error RoundOutcome
  moved : Bool

namespace Settlement

/-- The checkpoint moves if the round ends having relayed, and then to the place of its transaction;
otherwise it stays. -/
def Fits (s : Settlement) : Prop :=
  if s.moved then ∃ n, s.result = .ok (.relayed n s.transaction.sequence)
  else ∀ o, s.result = .ok o → o.advanced = false

theorem Fits.relayed_count {s : Settlement} (h : s.Fits) (r : Report) :
    (r.count s.result.toOption).relayed = r.relayed + s.moved.toNat := by
  rcases s with ⟨t, result, _ | _⟩
  · rcases result with x | o
    · rfl
    · have ho : o.advanced = false := by simpa [Fits] using h
      simp [Except.toOption, Report.count, ho]
  · obtain ⟨n, rfl⟩ : ∃ n, result = .ok (.relayed n t.sequence) := by simpa [Fits] using h
    rfl

end Settlement

/-- What can be seen of a consumer, and of whoever runs it. -/
inductive Mark
  /-- The consumer is told to stop. -/
  | told
  /-- An answer of the source is taken. -/
  | took (answer : Received)
  | settled (s : Settlement)

namespace Mark

def answer? : Mark → Option Received
  | took x => some x
  | _ => none

def settlement? : Mark → Option Settlement
  | settled s => some s
  | _ => none

end Mark

def taken (h : List Mark) : List Received := h.filterMap Mark.answer?

def settlements (h : List Mark) : List Settlement := h.filterMap Mark.settlement?

def Received.transaction? : Received → Option Transaction
  | .ok t => t
  | .error _ => none

def Received.isEnd : Received → Bool
  | .ok none => true
  | _ => false

/-- Where a consumer stands with its source. -/
inductive Standing
  | ready
  | busy (t : Transaction)
  | closed

def Standing.pending : Standing → List Transaction
  | busy t => [t]
  | _ => []

theorem Standing.length_pending_le (s : Standing) : s.pending.length ≤ 1 := by
  cases s <;> simp [pending]

/-- An answer is taken only while no round is on its way, and none is taken after the end of the
source. -/
inductive OneByOne : Standing → List Mark → Prop
  | start : OneByOne .ready []
  | told {s : Standing} {h : List Mark} (before : OneByOne s h) : OneByOne s (h ++ [.told])
  | takes {h : List Mark} (t : Transaction) (before : OneByOne .ready h) :
    OneByOne (.busy t) (h ++ [.took (.ok (some t))])
  | misses {h : List Mark} (x : Error) (before : OneByOne .ready h) :
    OneByOne .ready (h ++ [.took (.error x)])
  | closes {h : List Mark} (before : OneByOne .ready h) : OneByOne .closed (h ++ [.took (.ok none)])
  | settles {h : List Mark} (s : Settlement) (before : OneByOne (.busy s.transaction) h) :
    OneByOne .ready (h ++ [.settled s])

section
variable (h k : List Mark)

@[simp] theorem taken_append : taken (h ++ k) = taken h ++ taken k := List.filterMap_append ..

@[simp] theorem settlements_append : settlements (h ++ k) = settlements h ++ settlements k :=
  List.filterMap_append ..

@[simp] theorem taken_nil : taken [] = [] := rfl
@[simp] theorem taken_told : taken [.told] = [] := rfl
@[simp] theorem taken_took (x : Received) : taken [.took x] = [x] := rfl
@[simp] theorem taken_settled (s : Settlement) : taken [.settled s] = [] := rfl
@[simp] theorem settlements_nil : settlements [] = [] := rfl
@[simp] theorem settlements_told : settlements [.told] = [] := rfl
@[simp] theorem settlements_took (x : Received) : settlements [.took x] = [] := rfl
@[simp] theorem settlements_settled (s : Settlement) : settlements [.settled s] = [s] := rfl

end

/-- The notifications that were taken are those whose rounds are over, in their order, and at most
one more. -/
theorem OneByOne.notified {s : Standing} {h : List Mark} (ho : OneByOne s h) :
    (taken h).filterMap Received.transaction? =
      (settlements h).map Settlement.transaction ++ s.pending := by
  induction ho with
  | start => rfl
  | told _ ih => simpa using ih
  | takes t _ ih => simpa [Received.transaction?, Standing.pending] using ih
  | misses x _ ih => simpa [List.filterMap, Received.transaction?, Standing.pending] using ih
  | closes _ ih => simpa [List.filterMap, Received.transaction?, Standing.pending] using ih
  | settles s _ ih => simpa [Standing.pending] using ih

namespace Source

def answers (s : Source) : List Received :=
  s.arrivals.map Arrival.result ++ if s.closes then [.ok none] else []

def next? (s : Source) : Option (Received × Source) :=
  match s.arrivals with
  | x :: xs => some (x.result, { s with arrivals := xs })
  | [] => if s.closes then some (.ok none, s) else none

theorem answers_of_next? {s rest : Source} {x : Received} (h : s.next? = some (x, rest)) :
    s.answers = x :: rest.answers ∨ x = .ok none ∧ s.answers = [x] := by
  rcases s with ⟨_ | ⟨y, ys⟩, closes⟩
  · cases closes with
    | false => cases h
    | true =>
      cases h
      exact .inr ⟨rfl, rfl⟩
  · cases h
    exact .inl rfl

end Source

namespace Round

/-- As far as the round goes, the checkpoint is still behind its transaction. -/
def Ahead (l : Ledger σ) (r : Round σ) : Prop :=
  match r.stage with
  | .sawCheckpoint _ found => ∀ c, found = .ok (some c) → c = l.checkpoint
  | .sawUnhandled .. | .sawSnapshot .. | .sawHistory .. | .publishing .. | .published ..
  | .moved .. => l.checkpoint.last < r.transaction.sequence
  | _ => True

section
variable {peers : Peers σ} {w w' : World σ} {r r' : Round σ}

theorem Ahead.move (h : r.Ahead w.store.ledger) (hm : Move peers w r w' r') :
    r'.Ahead w.store.ledger := by
  cases hm with
  | idle => exact h
  | refused | opens | commits | leaves => trivial
  | locks u here =>
    intro c hc
    rcases w.store.readCheckpoint_cases u with ⟨found, hf, he⟩ | ⟨held, he⟩
    · rw [he] at hc
      exact absurd hc (hf c)
    · rw [he] at hc
      cases hc
      rfl
  | collects u c here ahead =>
    rw [Ahead, here] at h
    have hc := h c rfl
    simpa [Ahead, LogRange.isEmpty, range, hc] using ahead
  | moves u published ns here =>
    rcases here with ⟨here, -⟩ | ⟨a, here⟩ <;>
    · rw [Ahead, here] at h
      exact h
  | seeks u e es here | recalls u es first a b found here
  | announces u es first a b c found batch n here | replays u es hs a b c batch n here
  | publishes u a batch here =>
    rw [Ahead, here] at h
    exact h

theorem Move.further (hm : Move peers w r w' r') (going : r.stage.rank ≠ 0)
    (still : ∀ result, r'.stage ≠ .ended result) : r'.stage.rank ≠ 0 := by
  cases hm with
  | idle => exact going
  | refused | commits | leaves => exact absurd rfl (still _)
  | opens | locks | collects | seeks | recalls | announces | replays | publishes | moves =>
    simp [Stage.rank]

/-- What a step of a round that nobody interferes with makes durable: nothing, or it ends having
relayed, and the checkpoint moves on to its transaction. -/
theorem Ahead.ledger (h : r.Ahead w.store.ledger) (hc : r.Carries) (going : r.stage.rank ≠ 0)
    (hm : Move peers w r w' r') :
    (w'.store.ledger = w.store.ledger ∧ ∀ n c, r'.stage ≠ .ended (.ok (.relayed n c))) ∨
      ∃ n, r'.stage = .ended (.ok (.relayed n r.transaction.sequence)) ∧
        w.store.ledger.checkpoint.last < r.transaction.sequence ∧
        w'.store.ledger = w.store.ledger.relayed (.ok (.relayed n r.transaction.sequence)) := by
  rcases hc.ledger hm with ⟨hl, hn⟩ | ⟨n, -, hr, hl⟩
  · refine .inl ⟨hl, fun n c he => going ?_⟩
    rw [← hn n c he, he]
    rfl
  · refine .inr ⟨n, hr, ?_, hl⟩
    cases hm with
    | idle => exact absurd (hr ▸ rfl) going
    | commits u published n here =>
      rw [Ahead, here] at h
      exact h
    | leaves u result ns here still =>
      cases hr
      exact absurd (still _ rfl) (by simp [RoundOutcome.advanced])
    | refused | opens | locks | collects | seeks | recalls | announces | replays | publishes
    | moves => cases hr

end

end Round

namespace Consumer

/-- What can be seen of a step of the consumer: that it has taken the next answer, if it has asked
for one, or that its round is over, if it is. -/
def marks (peers : Peers σ) (told : Bool) (w : World σ) (k : Consumer σ) : List Mark :=
  match k.stage with
  | .relaying r =>
    match (r.step peers w).2.stage with
    | .ended result =>
      [.settled ⟨r.transaction, result,
        (r.step peers w).1.store.ledger.checkpoint != w.store.ledger.checkpoint⟩]
    | _ => []
  | _ =>
    if (k.step peers told w).2.calls = k.calls then []
    else (k.source.next?.map fun x => Mark.took x.1).toList

/-- What a step of the consumer comes to, with what can be seen of it. -/
inductive Works (peers : Peers σ) (told : Bool) (w : World σ) (k : Consumer σ) :
    World σ → Consumer σ → List Mark → Prop
  | idles (still : ∀ r, k.stage ≠ .relaying r) : Works peers told w k w k []
  | stops {w' : World σ} (here : k.stage = .polling) (asked : told = true)
      (store : w'.store = w.store) :
    Works peers told w k w' { k with stage := .stopped } []
  | takes (t : Transaction) (rest : Source) (here : k.stage = .polling) (free : told = false)
      (next : k.source.next? = some (.ok (some t), rest)) :
    Works peers told w k w
      { k with
        source := rest
        calls := k.calls + 1
        stage := .relaying { transaction := t, provider := k.provider } }
      [.took (.ok (some t))]
  | misses {w' : World σ} (x : Error) (rest : Source) (here : k.stage = .polling)
      (free : told = false) (next : k.source.next? = some (.error x, rest))
      (store : w'.store = w.store) :
    Works peers told w k w'
      { k with
        source := rest
        calls := k.calls + 1
        report := { k.report with failed := k.report.failed + 1 } }
      [.took (.error x)]
  | closes {w' : World σ} (rest : Source) (here : k.stage = .polling) (free : told = false)
      (next : k.source.next? = some (.ok none, rest)) (store : w'.store = w.store) :
    Works peers told w k w' { k with source := rest, calls := k.calls + 1, stage := .stopped }
      [.took (.ok none)]
  | goes (r : Round σ) (here : k.stage = .relaying r)
      (going : ∀ result, (r.step peers w).2.stage ≠ .ended result) :
    Works peers told w k (r.step peers w).1 { k with stage := .relaying (r.step peers w).2 } []
  | settles {w' : World σ} (r : Round σ) (result : Except Error RoundOutcome)
      (here : k.stage = .relaying r) (ended : (r.step peers w).2.stage = .ended result)
      (store : w'.store = (r.step peers w).1.store) :
    Works peers told w k w'
      { k with report := k.report.count result.toOption, stage := .polling }
      [.settled ⟨r.transaction, result,
        (r.step peers w).1.store.ledger.checkpoint != w.store.ledger.checkpoint⟩]

section
variable {peers : Peers σ} {told : Bool} {w w' : World σ} {k k' : Consumer σ} {ms : List Mark}

/-- A consumer that is told to stop takes nothing. -/
theorem Works.answer?_eq_none (hw : Works peers true w k w' k' ms) :
    ∀ m ∈ ms, m.answer? = none := by
  cases hw with
  | takes _ _ _ free | misses _ _ _ free | closes _ _ free => cases free
  | idles | stops | goes => simp
  | settles => simp [Mark.answer?]

theorem Works.over (hw : Works peers told w k w' k' ms) (going : k.isOver = false) :
    k'.stage = .stopped ∨ k'.isOver = false := by
  cases hw with
  | idles => exact .inr going
  | stops | closes => exact .inl rfl
  | misses _ _ here => exact .inr (by rw [isOver, here])
  | takes | goes | settles => exact .inr rfl

theorem Works.told_notMem (hw : Works peers told w k w' k' ms) : .told ∉ ms := by
  cases hw <;> simp

end

theorem account_settles (w : World σ) (k : Consumer σ) (t : Transaction)
    (result : Except Error RoundOutcome) :
    (k.account w t result).1.store = w.store ∧
      (k.account w t result).2 =
        { k with report := k.report.count result.toOption, stage := .polling } := by
  cases result with
  | error x => exact ⟨rfl, rfl⟩
  | ok o => cases ho : o.advanced <;> simp [account, outcome, ho, Except.toOption]

theorem step_works (peers : Peers σ) (told : Bool) (w : World σ) (k : Consumer σ) :
    Works peers told w k (k.step peers told w).1 (k.step peers told w).2
      (k.marks peers told w) := by
  cases hs : k.stage with
  | polling =>
    cases told with
    | true =>
      have hm : k.marks peers true w = [] := by simp [marks, hs, step, stop]
      rw [hm]
      simp only [step, hs, if_true]
      exact .stops hs rfl rfl
    | false =>
      cases ha : k.source.arrivals with
      | nil =>
        cases hc : k.source.closes with
        | false =>
          simp only [marks, step, hs, ha, hc, Bool.false_eq_true, if_false, if_true]
          exact .idles (by simp [hs])
        | true =>
          have hn : k.source.next? = some (.ok none, k.source) := by
            simp only [Source.next?, ha, hc, if_true]
          simp only [marks, step, hs, ha, hc, hn, Bool.false_eq_true, if_false, if_true, receive,
            stop, Nat.add_eq_left, Nat.one_ne_zero]
          exact .closes k.source hs rfl hn rfl
      | cons x xs =>
        have hn : k.source.next? = some (x.result, { k.source with arrivals := xs }) := by
          simp only [Source.next?, ha]
        have hm : k.marks peers false w = [.took x.result] := by
          rcases hr : x.result with y | _ | t <;>
            simp [marks, step, hs, ha, hn, hr, receive, stop]
        rw [hm]
        rcases hr : x.result with y | _ | t
        all_goals
          rw [hr] at hn
          simp only [step, hs, ha, hr, Bool.false_eq_true, if_false, receive, stop]
        · have hm : Works peers false w k _ _ _ :=
            .misses y _ hs rfl hn (World.say_store w (.notReceived y))
          simpa only [hs] using hm
        · exact .closes _ hs rfl hn rfl
        · exact .takes t _ hs rfl hn
  | relaying r =>
    by_cases ho : ∃ result, (r.step peers w).2.stage = .ended result
    · obtain ⟨result, ho⟩ := ho
      obtain ⟨hw, hk⟩ :=
        account_settles (r.step peers w).1 k (r.step peers w).2.transaction result
      simp only [marks, step, hs, ho, hk]
      exact .settles r result hs ho hw
    · have hg (result : Except Error RoundOutcome) : (r.step peers w).2.stage ≠ .ended result :=
        fun he => ho ⟨result, he⟩
      have hm : Works peers told w k _ _ _ := .goes r hs hg
      cases he : (r.step peers w).2.stage <;> simp_all [step, marks]
  | stopped =>
    simp only [marks, step, hs, if_true]
    exact .idles (by simp [hs])
  | crashed =>
    simp only [marks, step, hs, if_true]
    exact .idles (by simp [hs])

/-- What rounds have made of a ledger, and how many of them have moved the checkpoint. -/
structure Made (l₀ l : Ledger σ) (relayed : Nat) (done : List Settlement) : Prop where
  fits : ∀ x ∈ done, x.Fits
  ledger : l = done.foldl (fun l x => l.relayed x.result) l₀
  relayed : relayed = done.countP Settlement.moved

theorem Made.settle {l₀ l l' : Ledger σ} {report : Report} {done : List Settlement}
    (h : Made l₀ l report.relayed done) {s : Settlement} (fits : s.Fits)
    (ledger : l' = l.relayed s.result) :
    Made l₀ l' (report.count s.result.toOption).relayed (done ++ [s]) where
  fits := by simpa [or_imp, forall_and] using ⟨h.fits, fits⟩
  ledger := by simp [ledger, ← h.ledger]
  relayed := by
    rw [fits.relayed_count, h.relayed, List.countP_append, List.countP_singleton]
    cases s.moved <;> rfl

/-- What a consumer, that nobody interferes with, has taken and what has come of it since it began
with a source, on a ledger. -/
structure Tallies (l₀ : Ledger σ) (source : Source) (l : Ledger σ) (k : Consumer σ) (s : Standing)
    (h : List Mark) : Prop where
  oneByOne : OneByOne s h
  stands : match k.stage with
    | .polling => s = .ready
    | .relaying r => s = .busy r.transaction ∧ r.Carries ∧ r.Ahead l ∧ r.stage.rank ≠ 0
    | .stopped => s = .closed ∨ s = .ready ∧ .told ∈ h
    | .crashed => s ≠ .closed
  answers : s ≠ .closed → taken h ++ k.source.answers = source.answers
  inOrder : taken h <+: source.answers
  made : Made l₀ l k.report.relayed (settlements h)
  total : k.report.total + s.pending.length = (taken h).countP (!Received.isEnd ·)

theorem tallies_start (l : Ledger σ) (provider : Uuid → Aggregate σ) (source : Source) :
    Tallies l source l { provider, source } .ready [] where
  oneByOne := .start
  stands := rfl
  answers _ := rfl
  inOrder := List.nil_prefix
  made := ⟨by simp, rfl, rfl⟩
  total := rfl

/-- What the end of a round, that nobody interferes with, makes durable. -/
theorem fits_of_ended {peers : Peers σ} {w : World σ} {r : Round σ}
    {result : Except Error RoundOutcome} (hc : r.Carries) (ha : r.Ahead w.store.ledger)
    (going : r.stage.rank ≠ 0) (ended : (r.step peers w).2.stage = .ended result) :
    Settlement.Fits ⟨r.transaction, result,
        (r.step peers w).1.store.ledger.checkpoint != w.store.ledger.checkpoint⟩ ∧
      (r.step peers w).1.store.ledger = w.store.ledger.relayed result := by
  rcases ha.ledger hc going (r.step_move peers w) with ⟨hl, hn⟩ | ⟨n, he, hlt, hl⟩
  · have hr (n : Nat) (c : Int) : result ≠ .ok (.relayed n c) := fun h => hn n c (h ▸ ended)
    rw [hl]
    constructor
    · simp only [Settlement.Fits, bne_self_eq_false, Bool.false_eq_true, if_false]
      rintro (_ | _ | _) rfl
      · exact absurd rfl (hr _ _)
      · rfl
      · rfl
    · rcases result with x | _ | _ | _
      · rfl
      · exact absurd rfl (hr _ _)
      · rfl
      · rfl
  · obtain rfl : result = .ok (.relayed n r.transaction.sequence) := by simpa [he] using ended.symm
    refine ⟨?_, hl⟩
    have hm : w.store.ledger.checkpoint ≠ ⟨r.transaction.sequence⟩ := fun h => by
      rw [h] at hlt
      exact Int.lt_irrefl _ hlt
    simp [Settlement.Fits, hl, Ledger.relayed, hm.symm]

section
variable {l₀ : Ledger σ} {source : Source} {w : World σ} {k : Consumer σ} {s : Standing}
  {h : List Mark}

theorem Tallies.took (ht : Tallies l₀ source w.store.ledger k .ready h) {x : Received}
    {rest : Source} (next : k.source.next? = some (x, rest)) :
    taken (h ++ [.took x]) <+: source.answers ∧
      (x ≠ .ok none → taken (h ++ [.took x]) ++ rest.answers = source.answers) := by
  have ha := ht.answers nofun
  simp only [taken_append, taken_took, List.append_assoc, List.singleton_append]
  rw [← ha]
  rcases Source.answers_of_next? next with hx | ⟨rfl, hx⟩ <;> rw [hx]
  · exact ⟨⟨rest.answers, by simp⟩, fun _ => rfl⟩
  · exact ⟨List.prefix_refl _, fun hn => absurd rfl hn⟩

theorem Tallies.step {peers : Peers σ} {told : Bool} {w' : World σ} {k' : Consumer σ}
    {ms : List Mark} (ht : Tallies l₀ source w.store.ledger k s h)
    (hw : Works peers told w k w' k' ms) (asked : told = true → .told ∈ h) :
    ∃ s', Tallies l₀ source w'.store.ledger k' s' (h ++ ms) := by
  have hs := ht.stands
  cases hw with
  | idles => exact ⟨s, by simpa using ht⟩
  | stops here yes store =>
    rw [here] at hs
    subst hs
    rw [store, List.append_nil]
    exact ⟨.ready, { ht with stands := .inr ⟨rfl, asked yes⟩ }⟩
  | takes t rest here free next =>
    rw [here] at hs
    subst hs
    obtain ⟨hi, ha⟩ := ht.took next
    refine ⟨.busy t, .takes t ht.oneByOne, ⟨rfl, ?_, trivial, by simp [Round.Stage.rank]⟩,
      fun _ => ha (by simp), hi, ?_, ?_⟩
    · exact Round.carries_of_stage (Round.reads_of_waiting rfl) (by simp)
    · simpa using ht.made
    · have hn := ht.total
      simpa [Standing.pending, Received.isEnd] using hn
  | misses x rest here free next store =>
    rw [here] at hs
    subst hs
    obtain ⟨hi, ha⟩ := ht.took next
    refine ⟨.ready, .misses x ht.oneByOne, by rw [here], fun _ => ha (by simp), hi, ?_, ?_⟩
    · simpa [store] using ht.made
    · have hn := ht.total
      simp [Standing.pending, Received.isEnd, Report.total] at hn ⊢
      omega
  | closes rest here free next store =>
    rw [here] at hs
    subst hs
    refine ⟨.closed, .closes ht.oneByOne, .inl rfl, fun hn => absurd rfl hn, (ht.took next).1, ?_,
      ?_⟩
    · simpa [store] using ht.made
    · have hn := ht.total
      simpa [Standing.pending, Received.isEnd] using hn
  | goes r here going =>
    rw [here] at hs
    obtain ⟨rfl, hc, ha, hr⟩ := hs
    have hm := r.step_move peers w
    rcases ha.ledger hc hr hm with ⟨hl, -⟩ | ⟨n, he, -⟩
    · rw [hl, List.append_nil]
      exact ⟨_, { ht with
        stands := ⟨congrArg Standing.busy hm.transaction.symm, hc.move hm, ha.move hm,
          hm.further hr going⟩ }⟩
    · exact absurd he (going _)
  | settles r result here ended store =>
    rw [here] at hs
    obtain ⟨rfl, hc, ha, hr⟩ := hs
    obtain ⟨hf, hl⟩ := fits_of_ended hc ha hr ended
    refine ⟨.ready, .settles _ ht.oneByOne, rfl, fun _ => ?_, ?_, ?_, ?_⟩
    · simpa using ht.answers (by simp)
    · simpa using ht.inOrder
    · rw [settlements_append]
      exact ht.made.settle hf (store ▸ hl)
    · have hn := ht.total
      simpa [Standing.pending] using hn

theorem Tallies.told {l : Ledger σ} (ht : Tallies l₀ source l k s h) :
    Tallies l₀ source l k s (h ++ [.told]) := by
  obtain ⟨oneByOne, stands, answers, inOrder, made, total⟩ := ht
  refine ⟨.told oneByOne, ?_, by simpa using answers, by simpa using inOrder, by simpa using made,
    by simpa using total⟩
  cases hk : k.stage with
  | stopped =>
    rw [hk] at stands
    exact stands.imp_right (And.imp_right (List.mem_append_left _))
  | polling | relaying | crashed => rwa [hk] at stands

/-- A consumer that is given up leaves its round as if nothing had been done for it. -/
theorem Tallies.abort (ht : Tallies l₀ source w.store.ledger k s h) (going : k.isOver = false) :
    (k.abort w).2.stage = .crashed ∧
      Tallies l₀ source (k.abort w).1.store.ledger (k.abort w).2 s h := by
  have hs := ht.stands
  cases hk : k.stage with
  | polling =>
    rw [hk] at hs
    have he : k.abort w = (w, { k with stage := .crashed }) := by simp only [Consumer.abort, hk]
    rw [he]
    obtain rfl : s = .ready := hs
    exact ⟨rfl, { ht with stands := by simp }⟩
  | relaying r =>
    rw [hk] at hs
    have he : k.abort w = ((r.cancel w).1, { k with stage := .crashed }) := by
      simp only [Consumer.abort, hk]
    rw [he, r.cancel_ledger]
    obtain ⟨rfl, -⟩ := hs
    exact ⟨rfl, { ht with stands := by simp }⟩
  | stopped => simp [isOver, hk] at going
  | crashed => simp [isOver, hk] at going

end
end Consumer
end Outbox

import Outbox.Proofs.Atomic

/-! What is saved to the read model. It is saved before the commit and not together with it, so it
stays there if the commit fails or is not waited for; if neither happens, a request has saved its
projection exactly if it has been committed. -/
namespace Outbox
variable {σ : Type} [Model σ]

namespace Handling

/-- Why a step does not commit a handling that has its projection saved: the commit fails. -/
def lapse (w : World σ) (h : Handling σ) : List (Option Error) :=
  match h.stage with
  | .saved u (.ok _) => ((Error.of? (w.store.commit u).1).map some).toList
  | _ => []

/-- Why a handling that is given up once its projection is saved is not committed: no error. -/
def waiver (h : Handling σ) : List (Option Error) :=
  match h.stage with
  | .saved _ (.ok _) => [none]
  | _ => []

/-- Only the save itself adds to the read model. -/
theorem Move.saved {peers : Peers σ} {w w' : World σ} {h h' : Handling σ}
    (hm : Move peers w h w' h') (hn : ∀ u, h.stage ≠ .staged u (.ok ())) : w'.saved = w.saved := by
  cases hm with
  | saves u here => exact absurd here (hn u)
  | _ => rfl

theorem saved_cancel (w : World σ) (h : Handling σ) : (h.cancel w).1.saved = w.saved := by
  rcases h.cancel_cases w with ⟨-, he⟩ | ⟨-, he⟩ | ⟨u, -, he⟩ <;> rw [he]

theorem conclude_commit (w : World σ) (h : Handling σ) (u : UnitOfWork σ) (o : Receipt) :
    (h.conclude w u (.ok o)).2.stage = .ended ((w.store.commit u).1.map fun _ => o) := by
  simp only [conclude, Store.conclude]
  rcases hc : w.store.commit u with ⟨x | _, s⟩ <;> simp [Except.map]

/-- What a request has saved, by how far its handling is, and what has kept it from its commit. -/
def Saved (r : Request σ) (l : Ledger σ) (a : Aggregate σ) (saves : List (Model.Projection σ))
    (lapses : List (Option Error)) : Stage σ → Prop
  | .saved _ (.ok _) => saves = [a.projection] ∧ lapses = []
  | .ended (.ok o) =>
    lapses = [] ∧ ∃ n s, r.Writes l n s ∧ o = r.receipt n ∧ saves = [(r.outcome n s).projection]
  | .ended (.error x) => saves = [] ∧ lapses = [] ∨
    lapses = [some x] ∧ ∃ n s, r.Writes l n s ∧ saves = [(r.outcome n s).projection]
  | .cancelled => saves = [] ∧ lapses = [] ∨
    lapses = [none] ∧ ∃ n s, r.Writes l n s ∧ saves = [(r.outcome n s).projection]
  | _ => saves = [] ∧ lapses = []

section
variable {r : Request σ} {l : Ledger σ} {a : Aggregate σ} {saves : List (Model.Projection σ)}
  {lapses : List (Option Error)} {stage : Stage σ}

theorem Saved.mono {m : Ledger σ} (h : l.Grows m) (hs : Saved r l a saves lapses stage) :
    Saved r m a saves lapses stage := by
  rcases stage with _ | _ | _ | _ | _ | ⟨_, _ | _⟩ | (_ | _) | _
  case ended.ok o =>
    obtain ⟨hl, n, s, hw, hn⟩ := hs
    exact ⟨hl, n, s, hw.mono h, hn⟩
  case ended.error x =>
    obtain hn | ⟨hl, n, s, hw, hn⟩ := hs
    · exact .inl hn
    · exact .inr ⟨hl, n, s, hw.mono h, hn⟩
  case cancelled =>
    obtain hn | ⟨hl, n, s, hw, hn⟩ := hs
    · exact .inl hn
    · exact .inr ⟨hl, n, s, hw.mono h, hn⟩
  all_goals exact hs

theorem Saved.nothing (hs : Saved r l a saves lapses stage) (going : stage.rank ≠ 0)
    (hn : ∀ u, stage ≠ .saved u (.ok ())) : saves = [] ∧ lapses = [] := by
  rcases stage with _ | _ | _ | _ | _ | ⟨u, _ | _⟩ | (_ | _) | _
  case saved.ok => exact absurd rfl (hn u)
  case ended.ok | ended.error | cancelled => exact absurd rfl going
  all_goals exact hs

variable {w : World σ} {h : Handling σ}

theorem Move.saved_nothing {peers : Peers σ} {w' : World σ} {h' : Handling σ}
    (hm : Move peers w h w' h') (going : h.stage.rank ≠ 0)
    (hs : ∀ u, h.stage ≠ .staged u (.ok ())) (hc : ∀ u, h.stage ≠ .saved u (.ok ())) :
    Saved r l h'.aggregate [] [] h'.stage := by
  cases hm with
  | idle ended => exact absurd ended going
  | refused | fails => exact .inl ⟨rfl, rfl⟩
  | opens | looks | resumes | stages => exact ⟨rfl, rfl⟩
  | saves u here => exact absurd here (hs u)
  | commits u n here => exact absurd here (hc u)

theorem lapse_eq_nil (hn : ∀ u, h.stage ≠ .saved u (.ok ())) : h.lapse w = [] := by
  unfold lapse
  split
  · next u _ hs => exact absurd hs (hn u)
  · rfl

theorem waiver_eq_nil (hn : ∀ u, h.stage ≠ .saved u (.ok ())) : h.waiver = [] := by
  unfold waiver
  split
  · next u _ hs => exact absurd hs (hn u)
  · rfl

theorem Saved.save {u : UnitOfWork σ} (here : h.stage = .staged u (.ok ())) (peers : Peers σ)
    (hs : Saved r l h.aggregate saves lapses h.stage) :
    Saved r l (h.step peers w).2.aggregate
      (saves ++ (h.step peers w).1.saved.drop w.saved.length) (lapses ++ h.lapse w)
      (h.step peers w).2.stage := by
  obtain ⟨rfl, rfl⟩ := hs.nothing (by simp [here, Stage.rank]) (by simp [here])
  rw [lapse_eq_nil (by simp [here])]
  simp only [step, here, World.save]
  cases peers.save h.aggregate.projection with
  | error x => simp [Saved]
  | ok _ => simp [Saved]

theorem Saved.commit {u : UnitOfWork σ} (here : h.stage = .saved u (.ok ())) (peers : Peers σ)
    (hk : r.Knows l h) (hs : Saved r l h.aggregate saves lapses h.stage) :
    Saved r l (h.step peers w).2.aggregate
      (saves ++ (h.step peers w).1.saved.drop w.saved.length) (lapses ++ h.lapse w)
      (h.step peers w).2.stage := by
  obtain ⟨-, ht, -, hh⟩ := hk
  rw [here] at hh hs
  obtain ⟨n, s, hw, ha, -⟩ := hh
  obtain ⟨rfl, rfl⟩ := hs
  have he : h.step peers w = h.conclude w u (.ok (r.receipt n)) := by
    simp only [step, here, ha, ht]
    rfl
  have hd : (h.step peers w).1.saved = w.saved :=
    (h.step_move peers w).saved (by simp [here])
  have hl : h.lapse w = ((Error.of? (w.store.commit u).1).map some).toList := by
    simp only [lapse, here]
  rw [hd, List.drop_length, List.append_nil, List.nil_append, hl, he, h.conclude_commit, ha]
  cases (w.store.commit u).1 with
  | error x => exact .inr ⟨rfl, n, s, hw, rfl⟩
  | ok _ => exact ⟨rfl, n, s, hw, rfl, rfl⟩

theorem Saved.step (hk : r.Knows l h) (hs : Saved r l h.aggregate saves lapses h.stage)
    (peers : Peers σ) :
    Saved r l (h.step peers w).2.aggregate
      (saves ++ (h.step peers w).1.saved.drop w.saved.length) (lapses ++ h.lapse w)
      (h.step peers w).2.stage := by
  by_cases staged : ∃ u, h.stage = .staged u (.ok ())
  · obtain ⟨u, here⟩ := staged
    exact hs.save here peers
  by_cases saved : ∃ u, h.stage = .saved u (.ok ())
  · obtain ⟨u, here⟩ := saved
    exact hs.commit here peers hk
  have hn (u : UnitOfWork σ) : h.stage ≠ .staged u (.ok ()) := fun he => staged ⟨u, he⟩
  have hc (u : UnitOfWork σ) : h.stage ≠ .saved u (.ok ()) := fun he => saved ⟨u, he⟩
  rw [(h.step_move peers w).saved hn, List.drop_length, List.append_nil, lapse_eq_nil hc,
    List.append_nil]
  by_cases ended : h.stage.rank = 0
  · rwa [step_of_rank_eq_zero ended]
  · obtain ⟨rfl, rfl⟩ := hs.nothing ended hc
    exact (h.step_move peers w).saved_nothing ended hn hc

theorem Saved.cancel (hk : r.Knows l h) (hs : Saved r l h.aggregate saves lapses h.stage) :
    Saved r l (h.cancel w).2.aggregate saves (lapses ++ h.waiver) (h.cancel w).2.stage := by
  by_cases saved : ∃ u, h.stage = .saved u (.ok ())
  · obtain ⟨u, here⟩ := saved
    have hh := hk.holds
    rw [here] at hh hs
    obtain ⟨n, s, hw, ha, -⟩ := hh
    obtain ⟨rfl, rfl⟩ := hs
    simp only [Handling.cancel, waiver, here, Stage.unit?, ha]
    exact .inr ⟨rfl, n, s, hw, rfl⟩
  · have hc (u : UnitOfWork σ) : h.stage ≠ .saved u (.ok ()) := fun he => saved ⟨u, he⟩
    rw [waiver_eq_nil hc, List.append_nil]
    rcases h.cancel_cases w with ⟨-, he⟩ | ⟨hw, he⟩ | ⟨u, hu, he⟩
    · rwa [he]
    · rw [he]
      exact .inl (hs.nothing (by simp [hw, Stage.rank]) hc)
    · rw [he]
      exact .inl (hs.nothing (by cases hd : h.stage <;> simp_all [Stage.rank, Stage.unit?]) hc)

theorem Saved.one (hh : r.Holds l a stage) (hs : Saved r l a saves lapses stage) :
    saves = [] ∨ ∃ n s, r.Writes l n s ∧ saves = [(r.outcome n s).projection] := by
  rcases stage with _ | _ | _ | _ | _ | ⟨u, _ | _⟩ | (_ | _) | _
  case saved.ok =>
    obtain ⟨n, s, hw, rfl, -⟩ := hh
    exact .inr ⟨n, s, hw, hs.1⟩
  case ended.ok =>
    obtain ⟨-, n, s, hw, -, hn⟩ := hs
    exact .inr ⟨n, s, hw, hn⟩
  case ended.error | cancelled => exact hs.imp And.left And.right
  all_goals exact .inl hs.1

theorem Saved.receipt {o : Receipt} (hs : Saved r l a saves lapses h.stage)
    (ho : h.receipt? = some o) :
    ∃ n s, r.Writes l n s ∧ o = r.receipt n ∧ saves = [(r.outcome n s).projection] := by
  cases hd : h.stage with
  | ended result =>
    rw [hd] at hs
    cases result with
    | error x => simp [receipt?, hd] at ho
    | ok o' =>
      obtain rfl : o' = o := by simpa [receipt?, hd] using ho
      exact hs.2
  | _ => simp [receipt?, hd] at ho

/-- Once a handling is over, what it has saved tells whether it has gone well, unless its commit
was kept from it. -/
theorem Saved.over (hs : Saved r l a saves lapses h.stage) (ended : h.stage.rank = 0) :
    (saves ≠ [] ↔ h.receipt?.isSome = true) ↔ lapses = [] := by
  cases hd : h.stage with
  | ended result =>
    rw [hd] at hs
    cases result with
    | error x =>
      obtain ⟨rfl, rfl⟩ | ⟨rfl, n, s, -, rfl⟩ := hs <;> simp [receipt?, hd]
    | ok o =>
      obtain ⟨rfl, n, s, -, -, rfl⟩ := hs
      simp [receipt?, hd]
  | cancelled =>
    rw [hd] at hs
    obtain ⟨rfl, rfl⟩ | ⟨rfl, n, s, -, rfl⟩ := hs <;> simp [receipt?, hd]
  | _ => simp [hd, Stage.rank] at ended

end
end Handling

namespace Pool
variable {ι : Type} [DecidableEq ι]

def saves (i : ι) (p : Pool ι σ) (x : Action ι σ) : List (Model.Projection σ) :=
  if x.isBy i then (p.act x).world.saved.drop p.world.saved.length else []

/-- What keeps a handling from its commit once its projection is saved: that the commit fails, or,
with no error, that the handling is given up. -/
def lapses (i : ι) (p : Pool ι σ) (x : Action ι σ) : List (Option Error) :=
  match p.agents i, x with
  | .task (.handling h), .step j _ _ => if j = i then h.lapse p.world else []
  | .task (.handling h), .cancel j => if j = i then h.waiver else []
  | _, _ => []

section
variable {p : Pool ι σ} {i : ι}

theorem saves_eq_nil {x : Action ι σ} (hx : x.isBy i = false) : p.saves i x = [] := by
  simp [saves, hx]

theorem lapses_eq_nil {x : Action ι σ} (hx : x.isBy i = false) : p.lapses i x = [] := by
  unfold lapses
  split <;> simp_all [Action.isBy]

variable {h : Handling σ} (here : p.agents i = .task (.handling h))
include here

theorem saves_step (peers : Peers σ) (told : Bool) :
    p.saves i (.step i peers told) = (h.step peers p.world).1.saved.drop p.world.saved.length := by
  simp only [saves, Action.isBy, decide_true, if_true, world_step_task here]
  rfl

theorem saves_cancel : p.saves i (.cancel i) = [] := by
  have hs : (Task.cancel p.world (.handling h)).1.saved = p.world.saved := h.saved_cancel p.world
  simp only [saves, Action.isBy, decide_true, if_true, world_cancel_task here, hs,
    List.drop_length]

theorem lapses_step (peers : Peers σ) (told : Bool) :
    p.lapses i (.step i peers told) = h.lapse p.world := by
  simp [lapses, here]

theorem lapses_cancel : p.lapses i (.cancel i) = h.waiver := by
  simp [lapses, here]

end

/-- The handling of a request after a run, with what it has saved and what has kept it from its
commit. -/
structure Saves (p₀ : Pool ι σ) (i : ι) (r : Request σ) (acts : List (Action ι σ))
    (h : Handling σ) : Prop where
  here : (p₀.run acts).agents i = .task (.handling h)
  saved : Handling.Saved r (p₀.run acts).ledger h.aggregate (record (saves i) p₀ acts)
    (record (lapses i) p₀ acts) h.stage

section
variable {p₀ : Pool ι σ} {i : ι} {r : Request σ} {acts : List (Action ι σ)} {h : Handling σ}

theorem saves_nil (called : p₀.agents i = (Call.request r).agent) : Saves p₀ i r [] r.handling :=
  ⟨called, rfl, rfl⟩

theorem Saves.other (hh : Saves p₀ i r acts h) {x : Action ι σ} (hx : x.isBy i = false)
    (grows : (p₀.run acts).ledger.Grows ((p₀.run acts).act x).ledger) :
    Saves p₀ i r (acts ++ [x]) h where
  here := by
    rw [run_append]
    exact agents_act_of_not_isBy hh.here hx
  saved := by
    rw [record_concat, record_concat, saves_eq_nil hx, lapses_eq_nil hx, List.append_nil,
      List.append_nil, run_append]
    exact hh.saved.mono grows

theorem Saves.step (hh : Saves p₀ i r acts h) (hk : r.Knows (p₀.run acts).ledger h)
    (peers : Peers σ) (told : Bool)
    (grows : (p₀.run acts).ledger.Grows ((p₀.run acts).act (.step i peers told)).ledger) :
    Saves p₀ i r (acts ++ [.step i peers told]) (h.step peers (p₀.run acts).world).2 where
  here := by
    rw [run_append]
    exact agents_step_task hh.here peers told
  saved := by
    rw [record_concat, record_concat, saves_step hh.here, lapses_step hh.here, run_append]
    exact (hh.saved.step hk peers).mono grows

theorem Saves.cancel (hh : Saves p₀ i r acts h) (hk : r.Knows (p₀.run acts).ledger h)
    (grows : (p₀.run acts).ledger.Grows ((p₀.run acts).act (.cancel i)).ledger) :
    Saves p₀ i r (acts ++ [.cancel i]) (h.cancel (p₀.run acts).world).2 where
  here := by
    rw [run_append]
    exact agents_cancel_task hh.here
  saved := by
    rw [record_concat, record_concat, saves_cancel hh.here, lapses_cancel hh.here, run_append,
      List.append_nil]
    exact (hh.saved.cancel hk).mono grows

end

theorem saves_run {calls : ι → Call σ} {i : ι} {r : Request σ} (called : calls i = .request r)
    (acts : List (Action ι σ)) : ∃ h, Saves (start {} calls) i r acts h := by
  have hi : (start {} calls).agents i = .task (.handling r.handling) := by
    simp only [start, called, Call.agent]
  obtain ⟨h, -, hh⟩ := handling_run hi (saves_nil hi)
    (fun acts _ x _ hh hx => hh.other hx (grows_run calls acts x))
    (fun acts _ peers told here hh =>
      hh.step (knows_run called here) peers told (grows_run calls acts _))
    (fun acts _ here hh => hh.cancel (knows_run called here) (grows_run calls acts _)) acts
  exact ⟨h, hh⟩

/-- Something that the handling did has made something durable exactly if it has its receipt. -/
theorem Handles.changes_iff {p₀ : Pool ι σ} {i : ι} {r : Request σ} {acts : List (Action ι σ)}
    {h : Handling σ} (hh : Handles p₀ i r acts h) :
    (∃ d ∈ record (deeds i) p₀ acts, d.2.ledger ≠ d.1.ledger) ↔ h.receipt?.isSome = true := by
  cases ho : h.receipt? with
  | none =>
    refine ⟨fun ⟨d, hd, hn⟩ => absurd (hh.untouched ho d hd) hn, nofun⟩
  | some o =>
    obtain ⟨-, earlier, d, later, he, hc, -⟩ := hh.done o ho
    refine ⟨fun _ => rfl, fun _ => ⟨d, ?_, fun hn => ?_⟩⟩
    · rw [he]
      exact List.mem_append_right _ List.mem_cons_self
    · have hl := congrArg List.length hc.log
      rw [hn, List.length_append] at hl
      simp at hl

/-- Whatever the store is made to fail at, whatever the read model answers and whatever goes on
beside it: a request saves nothing or the one projection of a version and a state that it can lead
to, and if it is committed, then of those that it is committed with; and once it is over, it has
saved a projection if and only if it has been committed, just unless its commit has failed, or it
was given up, after the projection was saved. -/
theorem saved_iff_of_run {calls : ι → Call σ} {i : ι} {r : Request σ}
    (called : calls i = .request r) (acts : List (Action ι σ)) :
    let p := (start {} calls).run acts
    let deeds := record (deeds i) (start {} calls) acts
    let saves := record (saves i) (start {} calls) acts
    ∃ h, p.agents i = .task (.handling h) ∧
      (saves = [] ∨ ∃ n s, r.Writes p.ledger n s ∧ saves = [(r.outcome n s).projection]) ∧
      (∀ o, h.receipt? = some o →
        ∃ n s, r.Writes p.ledger n s ∧ o = r.receipt n ∧ saves = [(r.outcome n s).projection]) ∧
      (h.stage.rank = 0 →
        ((saves ≠ [] ↔ ∃ d ∈ deeds, d.2.ledger ≠ d.1.ledger) ↔
          record (lapses i) (start {} calls) acts = [])) := by
  obtain ⟨h, hh⟩ := saves_run called acts
  obtain ⟨g, hg⟩ := handles_run called acts
  cases hh.here.symm.trans hg.here
  have hk := knows_run called hh.here
  refine ⟨h, hh.here, hh.saved.one hk.holds, fun o ho => hh.saved.receipt ho, fun ended => ?_⟩
  rw [hg.changes_iff]
  exact hh.saved.over ended

def commitFailing : List (Action Unit User) := .fail [.commit] :: List.replicate 6 (.go ())

/-- A user signs up while nothing can be committed: the projection has been saved by then. -/
theorem saved_iff_of_run_commitFailing :
    (fun _ : Unit => Call.request (.ofUser 1 1 (User.signUp "a@example.com"))) () =
      Call.request (.ofUser 1 1 (User.signUp "a@example.com")) ∧
    record (lapses ()) signingUp commitFailing = [some (injectedFailure .commit)] ∧
    ¬(record (saves ()) signingUp commitFailing ≠ [] ↔
      ∃ d ∈ record (deeds ()) signingUp commitFailing, d.2.ledger ≠ d.1.ledger) := by
  obtain ⟨h, here, -, -, hi⟩ := @saved_iff_of_run User _ Unit _
    (fun _ => .request (.ofUser 1 1 (User.signUp "a@example.com"))) () _ rfl commitFailing
  have hq : ∃ q, (signingUp.run commitFailing).agents () = .task (.handling q) ∧
      q.stage.rank = 0 := ⟨_, rfl, rfl⟩
  obtain ⟨q, hq, ended⟩ := hq
  cases here.symm.trans hq
  have hl : record (lapses ()) signingUp commitFailing = [some (injectedFailure .commit)] := rfl
  refine ⟨rfl, hl, fun he => ?_⟩
  have hn := (hi ended).mp he
  exact absurd (hl.symm.trans hn) (List.cons_ne_nil _ _)

/-- The read model then shows a version of the user that nothing durable has. -/
theorem saved_not_committed_commitFailing :
    ((signingUp.run commitFailing).agents ()).receipt? = none ∧
      (signingUp.run commitFailing).world.saved =
        [⟨.ofNat 1, 2, some "a@example.com", true, 0⟩] ∧
      (signingUp.run commitFailing).ledger.events = [] ∧
      (signingUp.run commitFailing).ledger.log = [] ∧
      (signingUp.run commitFailing).ledger.version (.ofNat 1) = 0 :=
  ⟨rfl, rfl, rfl, rfl, rfl⟩

end Pool
end Outbox

import Mathlib.Logic.Function.Basic
import Mathlib.Data.List.Induction
import Outbox.Relay.Consumer
import Outbox.Schedule
import Outbox.User

/-! Runs: handlings of commands, rounds of the relay and consumers side by side on one world, in any
order of steps, any of which may be given up and any operation of the store made to fail. -/
namespace Outbox

/-- The wish to have a command handled on an aggregate to which nothing has happened yet. -/
structure Request (σ : Type) [Model σ] where
  command : Command (Model.Payload σ)
  aggregateId : Uuid
  cap : Int
  transactionId : Uuid
  createdAt : Timestamp

inductive Agent (σ : Type) [Model σ]
  | task (t : Task σ)
  | consumer (k : Consumer σ)

inductive Call (σ : Type) [Model σ]
  | request (r : Request σ)
  | relay (t : Transaction) (provider : Uuid → Aggregate σ)
  | consume (provider : Uuid → Aggregate σ) (source : Source)

inductive Action (ι σ : Type) [Model σ]
  /-- An agent goes on by a step; a consumer may be told to stop. -/
  | step (i : ι) (peers : Peers σ) (told : Bool)
  /-- An agent is given up. -/
  | cancel (i : ι)
  /-- An agent is notified of the transaction at a place of the log, counted from 0. -/
  | notify (i : ι) (place : Nat)
  /-- From now on these operations of the store fail. -/
  | fail (operations : List Operation)

section
variable {σ : Type} [Model σ]

def Request.handling (r : Request σ) : Handling σ where
  command := r.command
  transactionId := r.transactionId
  createdAt := r.createdAt
  aggregate := Aggregate.new r.aggregateId r.cap

def Handling.receipt? (h : Handling σ) : Option Receipt :=
  match h.stage with
  | .ended (.ok o) => some o
  | _ => none

theorem Handling.receipt?_cancel (w : World σ) (h : Handling σ) :
    (h.cancel w).2.receipt? = h.receipt? := by
  cases hs : h.stage <;> simp [cancel, hs, receipt?, Stage.unit?]

/-- The request of a user, under a transaction, both with a number for an identifier. -/
def Request.ofUser (user transaction : Nat) (command : Command UserEvent) : Request User where
  command := command
  aggregateId := .ofNat user
  cap := User.snapshotCap
  transactionId := .ofNat transaction
  createdAt := User.fixedTime

/-- An agent goes on while all it asks of others is accepted. -/
def Action.go {ι : Type} (i : ι) : Action ι σ := .step i .accepting false

namespace Agent

def step (peers : Peers σ) (told : Bool) (w : World σ) : Agent σ → World σ × Agent σ
  | task t => match t.step peers w with | (w, t) => (w, task t)
  | consumer k => match k.step peers told w with | (w, k) => (w, consumer k)

def cancel (w : World σ) : Agent σ → World σ × Agent σ
  | task t => match t.cancel w with | (w, t) => (w, task t)
  | consumer k => match k.abort w with | (w, k) => (w, consumer k)

def notify (t : Transaction) : Agent σ → Agent σ
  | task t => task t
  | consumer k => consumer { k with
      source := { k.source with arrivals := k.source.arrivals ++ [⟨0, .ok (some t)⟩] } }

def receipt? : Agent σ → Option Receipt
  | task (.handling h) => h.receipt?
  | _ => none

@[simp] theorem receipt?_notify (t : Transaction) (a : Agent σ) :
    (a.notify t).receipt? = a.receipt? := by
  cases a <;> rfl

end Agent

def Call.agent : Call σ → Agent σ
  | request r => .task (.handling r.handling)
  | relay t provider => .task (.round { transaction := t, provider })
  | consume provider source => .consumer { provider, source }

end

structure Pool (ι σ : Type) [Model σ] where
  world : World σ
  agents : ι → Agent σ

namespace Pool
variable {ι σ : Type} [Model σ] [DecidableEq ι]

def start (w : World σ) (calls : ι → Call σ) : Pool ι σ := ⟨w, fun i => (calls i).agent⟩

def ledger (p : Pool ι σ) : Ledger σ := p.world.store.ledger

def act (p : Pool ι σ) : Action ι σ → Pool ι σ
  | .step i peers told =>
    let r := (p.agents i).step peers told p.world
    ⟨r.1, Function.update p.agents i r.2⟩
  | .cancel i =>
    let r := (p.agents i).cancel p.world
    ⟨r.1, Function.update p.agents i r.2⟩
  | .notify i place =>
    match p.ledger.log[place]? with
    | some t => { p with agents := Function.update p.agents i ((p.agents i).notify t) }
    | none => p
  | .fail operations => { p with world.store.failing := operations }

section
variable {p : Pool ι σ} {i : ι}

theorem act_step_handling {h : Handling σ} (hi : p.agents i = .task (.handling h)) (peers : Peers σ)
    (told : Bool) :
    p.act (.step i peers told) =
      ⟨(h.step peers p.world).1,
        Function.update p.agents i (.task (.handling (h.step peers p.world).2))⟩ := by
  simp only [act, hi]
  rfl

theorem act_step_consumer {k : Consumer σ} (hi : p.agents i = .consumer k) (peers : Peers σ)
    (told : Bool) :
    p.act (.step i peers told) =
      ⟨(k.step peers told p.world).1,
        Function.update p.agents i (.consumer (k.step peers told p.world).2)⟩ := by
  simp only [act, hi]
  rfl

theorem act_cancel_handling {h : Handling σ} (hi : p.agents i = .task (.handling h)) :
    p.act (.cancel i) =
      ⟨(h.cancel p.world).1,
        Function.update p.agents i (.task (.handling (h.cancel p.world).2))⟩ := by
  simp only [act, hi]
  rfl

end

def run (p : Pool ι σ) (acts : List (Action ι σ)) : Pool ι σ := acts.foldl act p

@[simp] theorem run_nil (p : Pool ι σ) : p.run [] = p := rfl

@[simp] theorem run_cons (p : Pool ι σ) (x : Action ι σ) (acts : List (Action ι σ)) :
    p.run (x :: acts) = (p.act x).run acts := rfl

@[simp] theorem run_append (p : Pool ι σ) (acts more : List (Action ι σ)) :
    p.run (acts ++ more) = (p.run acts).run more := by
  simp [run, List.foldl_append]

/-- What a run leaves behind if each action leaves something behind. -/
def record {β : Type} (mark : Pool ι σ → Action ι σ → List β) :
    Pool ι σ → List (Action ι σ) → List β
  | _, [] => []
  | p, x :: acts => mark p x ++ record mark (p.act x) acts

theorem record_append {β : Type} (mark : Pool ι σ → Action ι σ → List β) (p : Pool ι σ)
    (acts more : List (Action ι σ)) :
    record mark p (acts ++ more) = record mark p acts ++ record mark (p.run acts) more := by
  induction acts generalizing p with
  | nil => rfl
  | cons x acts ih => simp [record, ih]

theorem record_concat {β : Type} (mark : Pool ι σ → Action ι σ → List β) (p : Pool ι σ)
    (acts : List (Action ι σ)) (x : Action ι σ) :
    record mark p (acts ++ [x]) = record mark p acts ++ mark (p.run acts) x := by
  simp [record_append, record]

def signingUp : Pool Unit User :=
  start {} fun _ => .request (.ofUser 1 1 (User.signUp "a@example.com"))

def signedUp : Pool Unit User := signingUp.run (List.replicate 6 (.go ()))

end Pool
end Outbox

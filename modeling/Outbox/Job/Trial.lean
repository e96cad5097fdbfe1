import Outbox.Job.Basic

/-! # A job on its own

Executes a plan once, away from any worker: `Plan.run` follows the plan with a given answer for
each of the things that it asks. In a `Trial` the connection's answer depends on the request alone,
and one thing happens whenever the listener is told of an upload. -/
namespace Outbox
set_option autoImplicit false

/-- Answers for what a plan asks. -/
structure Surroundings (σ : Type) where
  report : Progress → σ → σ
  canceled : σ → Bool
  send : Request → σ → Outcome × σ

def Plan.run {σ : Type} (env : Surroundings σ) : Plan → σ → Outcome × σ
  | .finish o, s => (o, s)
  | .report p rest, s => rest.run env (env.report p s)
  | .poll rest, s => (rest (env.canceled s)).run env s
  | .send r rest, s => (rest (env.send r s).1).run env (env.send r s).2

structure Trial where
  handles : Handles
  job : JobState
  /-- What the listener was told, last first. -/
  reported : List Progress := []
  /-- What the connection was handed, last first. -/
  sent : List Request := []

namespace Trial

/-- What a job that looks at its handle finds. -/
def isCanceled (t : Trial) : Bool := t.job.isCanceled t.handles

def tell (t : Trial) (p : Progress) : Trial := { t with reported := p :: t.reported }

def hand (t : Trial) (r : Request) : Trial := { t with sent := r :: t.sent }

def surroundings (reply : Request → Outcome) (onUpload : Trial → Trial) : Surroundings Trial where
  report p t :=
    match p with
    | .upload _ => onUpload (t.tell p)
    | .download _ => t.tell p
  canceled := isCanceled
  send r t := (reply r, t.hand r)

/-- Every request is answered alike, and an upload touches nothing but the handles. -/
def execute (plan : Plan) (reply : Outcome) (onUpload : Handles → Handles) (handles : Handles)
    (job : JobState) : Outcome × Trial :=
  plan.run (surroundings (fun _ => reply) fun t => { t with handles := onUpload t.handles })
    { handles, job }

end Trial

end Outbox

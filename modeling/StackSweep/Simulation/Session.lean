import StackSweep.Simulation.Party

/-!
# Sessions

A session builds threads and sweeps and then carries out operations one after another. Each step
shows the reply, the lines logged meanwhile, and how every sweep and every thread stands.
-/

namespace StackSweep.Simulation

/-- How a sweep stands. -/
structure SweepView where
  thread : Nat
  kind : KindId
  /-- Left out if looking at the epoch would change it. -/
  phase : Option Phase
  published : Published

/-- What a step of a session shows. -/
structure StepView where
  reply : Reply
  /-- The replies to the parties that came in meanwhile. -/
  told : List Reply
  lines : List String
  sweeps : List SweepView
  threads : List Thread

namespace Theatre

/-- The sweeps by thread and, for each thread, in order of installation. -/
def views (w : Theatre) : List SweepView :=
  w.rest.rosters.zipIdx.flatMap fun (r, t) =>
    r.members.map fun (k, i) =>
      let s := w.sweep i
      ⟨t, k, if w.epochs.isScript then none else some (s.phase (w.epochs.read k).1), s.published⟩

/-- Carries out one operation, and afterwards what waited for it. -/
def perform (w : Theatre) (op : Op) : StepView × Theatre :=
  let hosting := w.hosting
  let (reply, w) :=
    match op.begun w with
    | (.replied r, w) => (r, w)
    | (.job j, w) => j.finish hosting patience w
  let w := settle hosting patience w
  let told := w.rest.told.map (·.getD .unfinished)
  let (lines, w) := takeLines { w with rest := { w.rest with told := [] } }
  (⟨reply, told, lines, w.views, w.threads⟩, w)

/-- Carries out operations one after another. -/
def performAll (w : Theatre) : List Op → List StepView
  | [] => []
  | op :: ops =>
    let (v, w) := w.perform op
    v :: performAll w ops

end Theatre

/-- Installs sweeps one after another. -/
def installAll (w : Theatre) : List (Nat × Spec) → List Reply × Theatre
  | [] => ([], w)
  | (t, s) :: specs =>
    let (r, w) := s.install t (w.focusOn t)
    let (rs, w) := installAll w specs
    (r :: rs, w)

/-- The replies to the building of the sweeps, and the steps. -/
def session (threads : List Thread) (epochs : Authority) (specs : List (Nat × Spec))
    (ops : List Op) : List Reply × List StepView :=
  let (built, w) := installAll (Theatre.ofThreads threads epochs) specs
  (built, Theatre.performAll w ops)

end StackSweep.Simulation

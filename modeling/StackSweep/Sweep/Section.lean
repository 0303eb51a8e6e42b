import StackSweep.Sweep.Stage

/-!
# Locked sections

A turn, move by move: what one party does from taking the lock of a sweep to giving it back. A move
opens the bracket of a pass, hands a frame to the processor, or closes the bracket and does what
comes after the pass. The lock of one sweep does not keep anyone from the others of the thread, so
that between two moves of a section other sections may move. With nobody else around the moves make
up the turn.

`Section.move` goes through `start_iteration_impl`, `advance_one`, `drain_to_completion` and `drain`
from one `ProcessingMark` to the next and, in `process_one_step` and `drain_batch`, from one
`process` to the next.
-/

namespace StackSweep

variable {ς ε : Type}

namespace Walk

/-- What a pass still has to know of the frames behind it. -/
inductive Gait
  /-- It ends behind the first barrier frame. The last frame processed has this position, if there
  was one. -/
  | step (last : Position)
  /-- It ends when `interval` barrier frames have been processed, of which `seen` already have. -/
  | batch (interval seen : Nat)
deriving DecidableEq, Repr

/-- A step or a batch whose bracket is open. -/
structure Pass (ε : Type) where
  bracket : Bracket
  gait : Gait
  walk : Walk
  /-- How the pass has ended, if it has. -/
  ended : Option (Outcome ε BatchEnd)
deriving DecidableEq, Repr

namespace Pass

/-- Why the frame must not be processed. A step does not ask. -/
def fault? (p : Pass ε) (f : Frame) : Option Fault :=
  match p.gait with
  | .step _ => none
  | .batch .. =>
    if f.position.isInner p.walk.trail.leading then
      some (.insideProcessed f.position p.walk.trail.leading)
    else none

/-- A frame has been processed. -/
def passed (p : Pass ε) (f : Frame) (barrier : Bool) : Pass ε :=
  match p.gait with
  | .step _ =>
    { p with
      gait := .step f.position
      walk := p.walk.advance
      ended := if barrier then some (.ok .interval) else none }
  | .batch interval seen =>
    if barrier then
      { p with
        gait := .batch interval (seen + 1)
        walk := p.walk.advance.record f.position
        ended := if seen + 1 = interval then some (.ok .interval) else none }
    else { p with walk := p.walk.advance }

/-- Hands the next frame to the processor, or notices that there is none to be handed out. -/
def proceed (h : Host ς ε) (sh : Shared) (p : Pass ε) (w : World ς) : Pass ε × World ς :=
  match p.walk.ahead with
  | [] => ({ p with ended := some (.ok .exhausted) }, w)
  | f :: _ =>
    match p.fault? f with
    | some x => ({ p with ended := some (.unwound x) }, w)
    | none =>
      match h.visit ⟨f, p.walk.cursor, sh.context, sh.published⟩ w with
      | (.ok (), w') => (p.passed f (h.hasBarrier f w), w')
      | (.failed e, w') => ({ p with ended := some (.failed e) }, w')
      | (.unwound x, w') => ({ p with ended := some (.unwound x) }, w')

/-- The walk that the pass leaves behind. -/
def left (p : Pass ε) : Walk :=
  match p.gait with
  | .step last => if last.isNone then p.walk else p.walk.record last
  | .batch .. => p.walk

/-- The next move hands a frame to the processor. -/
def isVisiting (p : Pass ε) : Bool :=
  p.ended.isNone && p.walk.ahead.head?.any fun f => (p.fault? f).isNone

end Pass

end Walk

namespace Section

/-- What a section passes over frames for. -/
inductive Work
  /-- The first steps of a campaign, with so many more to take. -/
  | starting (epoch : Epoch) (more : Nat)
  /-- The step of an increment. -/
  | stepping
  /-- A batch of a drain. -/
  | draining
deriving DecidableEq, Repr

inductive Place (ε : Type)
  /-- The bracket of the next pass has not been opened. -/
  | before (walk : Walk)
  | within (pass : Walk.Pass ε)
deriving DecidableEq, Repr

end Section

/-- What the holder of a lock is about to do. -/
structure Section (ε : Type) where
  stage : Stage
  sweep : Sweep
  work : Section.Work
  place : Section.Place ε
deriving DecidableEq, Repr

/-- How far a turn has come. -/
inductive Standing (ε : Type)
  | going (x : Section ε)
  | released (turn : Turn ε) (sweep : Sweep)

namespace Stage

/-- What the visits of a stage are given along. -/
def context : Stage → Option Nat
  | drain context => context
  | resume context => context
  | _ => none

/-- The turn is over. -/
def closed (r : Turn ε × Sweep × World ς) : Standing ε × World ς := (.released r.1 r.2.1, r.2.2)

/-- What becomes of a drain after a batch that ended in this way. -/
def afterBatch (h : Host ς ε) (context : Option Nat) (o : Outcome ε Walk.BatchEnd) (s : Sweep)
    (w : World ς) : Turn ε × Sweep × World ς :=
  match o with
  | .ok .interval =>
    match s.publish h w with
    | (none, s, w) =>
      (.yielded (.resume context), s,
        w.record (.yielding (h.label w) (h.waiters w) h.pacing.framesPerYield))
    | (some x, s, w) => (.finished (.unwound x), s, w)
  | .ok .exhausted => ended (s.conclude h (.ok ()) w)
  | .failed e => ended (s.conclude h (.failed e) w)
  | .unwound x => (.finished (.unwound x), s, w)

/-- The increment or the start that a stage is made of has ended. -/
def wrapUp (h : Host ς ε) (stage : Stage) (r : Outcome ε Unit × Sweep × World ς) :
    Standing ε × World ς :=
  match stage, r with
  | approach f, (.ok (), s, w) => (.released (.onward (secure f)) s, w)
  | drain context, (.ok (), s, w) =>
    match s.walk with
    | none => closed (ended (s.conclude h (.ok ()) w))
    | some k => (.going ⟨drain context, s, .draining, .before k⟩, w.record (.draining (h.label w)))
  | _, r => closed (ended r)

/-- The first steps of a campaign, with so many left to take. -/
def takeSteps (h : Host ς ε) (stage : Stage) (e : Epoch) (k : Walk) (s : Sweep) (w : World ς) :
    Nat → Standing ε × World ς
  | 0 =>
    stage.wrapUp h
      (Sweep.conclude h (.ok ()) { s with walk := some k, epoch := e }
        (w.record (.installed (h.label w) e)))
  | n + 1 => (.going ⟨stage, s, .starting e n, .before k⟩, w)

/-- Starts the current campaign. -/
def beginStart (h : Host ς ε) (stage : Stage) (s : Sweep) (w : World ς) : Standing ε × World ς :=
  let (e, w) := w.readEpoch h.kind
  let w := w.record (.started (h.label w) e)
  if w.thread.hasWalkableStack then
    let (k, w) := w.walkStack .incremental
    stage.takeSteps h e k s w h.pacing.initialFrames
  else stage.wrapUp h (Sweep.conclude h (.ok ()) { s with walk := none, epoch := e } w)

/-- Starts the current campaign unless it has been started. -/
def beginEnsureStarted (h : Host ς ε) (stage : Stage) (s : Sweep) (w : World ς) :
    Standing ε × World ς :=
  let (e, w) := w.readEpoch h.kind
  if s.isStale e then stage.beginStart h s w else stage.wrapUp h (.ok (), s, w)

/-- Makes one increment of progress. -/
def beginIncrement (h : Host ς ε) (stage : Stage) (s : Sweep) (w : World ς) :
    Standing ε × World ς :=
  let (e, w) := w.readEpoch h.kind
  if s.isStale e then stage.beginStart h s w
  else
    match s.walk with
    | none => stage.wrapUp h (.ok (), s, w)
    | some k => (.going ⟨stage, s, .stepping, .before k⟩, w)

/-- Begins a turn. -/
def begin (h : Host ς ε) (stage : Stage) (s : Sweep) (w : World ς) : Standing ε × World ς :=
  match stage with
  | increment | approach _ => stage.beginIncrement h s w
  | start | drain _ => stage.beginEnsureStarted h s w
  | resume _ =>
    match s.walk with
    | none => closed (ended (s.conclude h (.ok ()) w))
    | some k => (.going ⟨stage, s, .draining, .before k⟩, w)
  | secure _ | judge _ | locate => closed (stage.turn h s w)

end Stage

namespace Section

/-- What all visits of the section have in common. -/
def shared (x : Section ε) : Walk.Shared := ⟨x.stage.context, x.sweep.published⟩

/-- How a pass of the section begins. -/
def gait (h : Host ς ε) (x : Section ε) : Walk.Gait :=
  match x.work with
  | .draining => .batch h.pacing.framesPerYield 0
  | _ => .step .none

/-- What comes after a pass that ended in this way and has left this walk. -/
def afterPass (h : Host ς ε) (x : Section ε) (o : Outcome ε Walk.BatchEnd) (k : Walk)
    (w : World ς) : Standing ε × World ς :=
  match x.work with
  | .starting e more =>
    match o with
    | .ok _ => x.stage.takeSteps h e k x.sweep w more
    | .failed err =>
      x.stage.wrapUp h
        (.failed err, { x.sweep with walk := none },
          w.record (.startFailed (h.label w) (h.describe err)))
    | .unwound y => x.stage.wrapUp h (.unwound y, { x.sweep with walk := none }, w)
  | .stepping =>
    x.stage.wrapUp h
      (Sweep.conclude h (o.map fun _ => ()) { x.sweep with walk := some k } w)
  | .draining =>
    Stage.closed (Stage.afterBatch h x.stage.context o { x.sweep with walk := some k } w)

/-- Makes a move. -/
def move (h : Host ς ε) (x : Section ε) (w : World ς) : Standing ε × World ς :=
  match x.place with
  | .before k =>
    let (b, w) := Bracket.enter w
    (.going { x with place := .within ⟨b, x.gait h, k, none⟩ }, w)
  | .within p =>
    match p.ended with
    | none =>
      let (p, w) := p.proceed h x.shared w
      (.going { x with place := .within p }, w)
    | some o => x.afterPass h o p.left (p.bracket.leave w)

/-- The bracket that is open. -/
def bracket? (x : Section ε) : Option Bracket :=
  match x.place with
  | .before _ => none
  | .within p => some p.bracket

/-- The next move hands a frame to the processor. -/
def isVisiting (x : Section ε) : Bool :=
  match x.place with
  | .before _ => false
  | .within p => p.isVisiting

end Section

end StackSweep

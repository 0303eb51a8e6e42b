import StackSweep.Simulation.Scene

/-!
# The simulated processor

Processing a frame logs a line, goes through the actions of the kind in order, and shows the frame
to the context. An action may end it early with an error or by unwinding.

This is the `process` of a `BarrierKind` that follows its script.
-/

namespace StackSweep.Simulation

/-- Whether a frame has a barrier for a kind. -/
def Member.hasBarrier (m : Member) (f : Frame) : Bool := (m.barriers.lookup f.id).getD f.barrier

/-- What surrounds a processor. -/
structure Surroundings where
  /-- Has another party begin an operation. -/
  contend : Op → Theatre → Theatre
  /-- What happens elsewhere while an action is gone through. -/
  pause : Theatre → Theatre
  /-- The processor belongs to a sweep, and not to a walk alone. -/
  ofSweep : Bool

/-- Logs what the processor can see. -/
def logObservation (ofSweep : Bool) (v : Visit) (w : Theatre) : Theatre :=
  let w := w.note ("observe " ++ describeThread w.thread)
  if ofSweep then
    w.note ("observe watermark=" ++ v.published.boundary.text ++ " state=" ++
      Text.decimal v.published.word.raw.toNat)
  else w

/-- Carries out one effect for the kind at place `i`. -/
def Effect.run (s : Surroundings) (i : Nat) (v : Visit) (w : Theatre) :
    Effect → Outcome FrameError Unit × Theatre
  | .fail => (.failed ⟨v.frame.id⟩, w)
  | .unwind => (.unwound (.raised ("processor panicked at frame " ++ Text.decimal v.frame.id)), w)
  | .setPending error => (.ok (), w.modifyThread ({ · with pending := error }))
  | .advance kind =>
    match w.epochs.advance (kind.getD (w.member i).kind) with
    | (.ok _, a) => (.ok (), { w with epochs := a })
    | (.error x, a) => (.unwound x, { w with epochs := a })
  | .assign kind e =>
    (.ok (), { w with epochs := w.epochs.assign (kind.getD (w.member i).kind) e })
  | .setStack stack => (.ok (), w.modifyThread ({ · with stack := stack }))
  | .setBarrier id value =>
    (.ok (), w.modifyMember i fun m => { m with barriers := (id, value) :: m.barriers })
  | .observe => (.ok (), logObservation s.ofSweep v w)
  | .contend op => (.ok (), s.contend op w)

/-- Goes through the actions of the kind at place `i` from the `n`-th on, for at most `fuel` of
them. Actions that the kind is given meanwhile have their turn too. -/
def act (s : Surroundings) (i : Nat) (v : Visit) : (fuel n : Nat) → Theatre →
    Outcome FrameError Unit × Theatre
  | 0, _, w => (.ok (), w)
  | fuel + 1, n, w =>
    let w := s.pause w
    match (w.member i).actions[n]? with
    | none => (.ok (), w)
    | some a =>
      if a.applies v.frame.id then
        let w := w.modifyMember i fun m => { m with actions := m.actions.set n a.used }
        if a.isSkipping then act s i v fuel (n + 1) w
        else
          match a.effect.run s i v w with
          | (.ok (), w) => act s i v fuel (n + 1) w
          | r => r
      else act s i v fuel (n + 1) w

/-- Processes a frame for the kind at place `i`. What its sweep has published is brought up to date
first, for others to read. -/
def process (s : Surroundings) (i : Nat) (v : Visit) (w : Theatre) :
    Outcome FrameError Unit × Theatre :=
  let m := w.member i
  let w := w.note ("process k" ++ m.kind.text ++ " f" ++ Text.decimal v.frame.id ++ " r" ++
    Text.decimal v.registers ++ (if v.context.isSome then " ctx" else ""))
  let w := if s.ofSweep then
      { w with sweeps := w.sweeps.modify i ({ · with published := v.published }) }
    else w
  match act s i v patience 0 w with
  | (.ok (), w) => (.ok (), w.showFrame v.frame.id v.context)
  | r => r

/-- The host of the kind at place `i`. -/
def hostOf (s : Surroundings) (m : Member) (i : Nat) : Host Scene FrameError where
  kind := m.kind
  pacing := m.pacing
  onIteration := m.onIteration
  hasBarrier f w := (Theatre.member w i).hasBarrier f
  process := process s i
  describe := FrameError.message
  waiters w := Theatre.waitersFor w i

end StackSweep.Simulation

import StackSweep.Published
import StackSweep.Walk.Basic

/-!
# Sweeps

A sweep keeps one thread's stack up with the campaigns of one kind. It publishes how far it has
come. The rest is only seen by whoever holds its lock: the walk under way and the campaign that
walk serves, which stays the same while the authority moves on.

`Sweep` is `StackWatermark`: what it publishes, and the iterator and the epoch that its lock guards.
`hasStarted` and `hasCompleted` are `processing_started` and `processing_completed`, `isStale` is
`should_start_iteration`, and `isSafeAt` and `processedBoundary` are what `is_frame_safe` and
`last_processed_boundary` find under the lock.
-/

namespace StackSweep

structure Sweep where
  published : Published
  /-- The walk that the lock guards, finished or not. -/
  walk : Option Walk
  /-- The campaign of the walk. Published words always carry it. -/
  epoch : Epoch
deriving DecidableEq, Repr

namespace Sweep

/-- A sweep with nothing left to do for the campaign `e`. -/
def settled (e : Epoch) : Sweep := ⟨.settled e, none, e⟩

instance : Inhabited Sweep := ⟨settled 0⟩

def phase (s : Sweep) (current : Epoch) : Phase := s.published.word.phase current

/-- Nothing has been published for the campaign `current`. -/
def isStale (s : Sweep) (current : Epoch) : Bool := !s.published.word.isOf current

/-- The campaign `current` has been started for this stack. -/
def hasStarted (s : Sweep) (current : Epoch) : Bool := s.phase current != .stale

/-- The campaign `current` is over for this stack. -/
def hasCompleted (s : Sweep) (current : Epoch) : Bool := s.phase current == .done

/-- Whether a frame whose questions are decided at `p` is safe, as the lock's holder sees it. -/
def isSafeAt (s : Sweep) (current : Epoch) (p : Position) : Bool :=
  if s.isStale current then false
  else if s.published.word.isDone then true
  else
    match s.walk with
    | none => true
    | some k => p.isInner k.trail.leading

/-- The boundary inside which every frame is known to be processed, as the lock's holder sees it.
Missing unless the campaign `current` is under way. -/
def processedBoundary (s : Sweep) (current : Epoch) : Position :=
  if s.isStale current || s.published.word.isDone then .none
  else
    match s.walk with
    | none => .none
    | some k => k.trail.leading

def layout (tid : Nat) (kind : KindId) (s : Sweep) : Text.Layout :=
  .partialRecord "StackWatermark"
    [("tid", .atom (Text.decimal tid)), ("kind", .atom kind.report),
     ("state", s.published.word.layout), ("watermark", .atom s.published.boundary.report)]

theorem isStale_iff_phase {s : Sweep} {current : Epoch} :
    s.isStale current = true ↔ s.phase current = .stale := by
  unfold isStale phase ProgressWord.phase
  cases h : s.published.word.isOf current <;> simp
  split <;> simp

theorem hasStarted_eq_not_isStale (s : Sweep) (current : Epoch) :
    s.hasStarted current = !s.isStale current := by
  unfold hasStarted isStale phase ProgressWord.phase
  cases h : s.published.word.isOf current <;> simp
  split <;> simp

@[simp] theorem phase_settled (e : Epoch) : (settled e).phase e = .done := by
  simp [settled, phase, Published.settled, ProgressWord.phase_pack]

end Sweep

end StackSweep

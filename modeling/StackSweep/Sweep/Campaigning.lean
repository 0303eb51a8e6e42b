import StackSweep.Walk.Pass

/-!
# Moving a sweep on

What the holder of a sweep's lock does with it. A campaign is started by walking the stack anew
and taking the first few steps at once; it is moved on by a step, or by a batch for someone who
wants all of it. Progress is published after the frames that it speaks of have been processed, the
boundary before the word. Nothing is published when an operation unwinds.

`publish` is `update_watermark`, with its two stores in `store` and the announcement of the end in
`storeDone`. `start` is `start_iteration_impl`, `ensureStarted` is the part of
`request_iteration_start` and `drain_to_completion` that asks `should_start_iteration` first, and
`increment` is `advance_one`. `conclude` publishes in the end, as `advance_one` and
`drain_to_completion` do.
-/

namespace StackSweep.Sweep

variable {ς ε : Type}

/-- Publishes a boundary and, after it, the word that goes with it. -/
def store (h : Host ς ε) (boundary : Position) (done : Bool) (s : Sweep) (w : World ς) :
    Sweep × World ς :=
  let word := ProgressWord.pack s.epoch done
  ({ s with published := ⟨boundary, word⟩ },
    (w.record (.boundaryStored (h.label w) boundary)).record (.wordStored (h.label w) word))

/-- Publishes that the campaign is over, and announces it unless that was known. -/
def storeDone (h : Host ς ε) (s : Sweep) (w : World ς) : Sweep × World ς :=
  let (s', w') := s.store h .none true w
  (s', if s.published.word = s'.published.word then w'
    else w'.record (.finished (h.label w) s.epoch))

/-- Publishes where the walk stands: the trailing boundary while frames are left, and the end of
the campaign otherwise. -/
def publish (h : Host ς ε) (s : Sweep) (w : World ς) : Option Fault × Sweep × World ς :=
  match s.walk with
  | some k =>
    if k.hasNext then
      if k.trail.trailing.isNone then (some .noBoundary, s, w)
      else (none, s.store h k.trail.trailing false w)
    else (none, s.storeDone h w)
  | none => (none, s.storeDone h w)

/-- Ends an operation with `o`. Unless it unwinds, where the walk stands is published first. -/
def conclude (h : Host ς ε) (o : Outcome ε Unit) (s : Sweep) (w : World ς) :
    Outcome ε Unit × Sweep × World ς :=
  match o with
  | .unwound x => (.unwound x, s, w)
  | o =>
    match s.publish h w with
    | (none, s, w) => (o, s, w)
    | (some x, s, w) => (.unwound x, s, w)

/-- Starts the current campaign: walks the stack anew and takes the first steps. If they do not
succeed, nothing is published and no walk is kept. A thread without a walkable stack has nothing
to process. -/
def start (h : Host ς ε) (context : Option Nat) (s : Sweep) (w : World ς) :
    Outcome ε Unit × Sweep × World ς :=
  let (e, w) := w.readEpoch h.kind
  let w := w.record (.started (h.label w) e)
  if w.thread.hasWalkableStack then
    let (k, w) := w.walkStack .incremental
    match k.steps h ⟨context, s.published⟩ h.pacing.initialFrames w with
    | (.ok (), k, w) =>
      conclude h (.ok ()) { s with walk := some k, epoch := e }
        (w.record (.installed (h.label w) e))
    | (.failed err, _, w) =>
      (.failed err, { s with walk := none }, w.record (.startFailed (h.label w) (h.describe err)))
    | (.unwound x, _, w) => (.unwound x, { s with walk := none }, w)
  else conclude h (.ok ()) { s with walk := none, epoch := e } w

/-- Starts the current campaign unless it has been started. -/
def ensureStarted (h : Host ς ε) (context : Option Nat) (s : Sweep) (w : World ς) :
    Outcome ε Unit × Sweep × World ς :=
  let (e, w) := w.readEpoch h.kind
  if s.isStale e then s.start h context w else (.ok (), s, w)

/-- One increment of progress: a start if the campaign has changed, else a step of the walk. -/
def increment (h : Host ς ε) (s : Sweep) (w : World ς) : Outcome ε Unit × Sweep × World ς :=
  let (e, w) := w.readEpoch h.kind
  if s.isStale e then s.start h none w
  else
    match s.walk with
    | none => (.ok (), s, w)
    | some k =>
      let (o, k, w) := k.step h ⟨none, s.published⟩ w
      conclude h o { s with walk := some k } w

/-- Whether a frame is safe for the current campaign. -/
def isSafe (h : Host ς ε) (f : Frame) (s : Sweep) (w : World ς) : Bool × World ς :=
  let (e, w) := w.readEpoch h.kind
  (s.isSafeAt e (w.thread.decidingPosition f), w)

/-- The boundary inside which every frame is known to be processed for the current campaign. -/
def lastBoundary (h : Host ς ε) (s : Sweep) (w : World ς) : Position × World ς :=
  let (e, w) := w.readEpoch h.kind
  (s.processedBoundary e, w)

@[simp] theorem published_store (h : Host ς ε) (b : Position) (d : Bool) (s : Sweep) (w : World ς) :
    (s.store h b d w).1.published = ⟨b, .pack s.epoch d⟩ := rfl

@[simp] theorem walk_store (h : Host ς ε) (b : Position) (d : Bool) (s : Sweep) (w : World ς) :
    (s.store h b d w).1.walk = s.walk := rfl

@[simp] theorem published_storeDone (h : Host ς ε) (s : Sweep) (w : World ς) :
    (s.storeDone h w).1.published = .settled s.epoch := rfl

/-- Publishing changes nothing but what is published. -/
theorem publish_keeps (h : Host ς ε) (s : Sweep) (w : World ς) :
    (s.publish h w).2.1.walk = s.walk ∧ (s.publish h w).2.1.epoch = s.epoch := by
  unfold publish
  split
  · split
    · split <;> exact ⟨rfl, rfl⟩
    · exact ⟨rfl, rfl⟩
  · exact ⟨rfl, rfl⟩

end StackSweep.Sweep

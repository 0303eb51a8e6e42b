import Mathlib.Data.List.Chain
import StackSweep.Proofs.Finishing
import StackSweep.Proofs.Increments
import StackSweep.Proofs.Preserving
import StackSweep.Proofs.Scopes

/-!
# Yields of a drain

A drain processes the stack in batches and gives up the lock after each batch that has filled its
interval. As long as the processor does its work, yields come at regular distances, and what others
find then is what has been done: the scopes are closed, and the last barrier but one is published.
If a batch fills its interval at the outermost frame, the drain yields with the campaign over, and
an empty batch follows.
-/

namespace StackSweep

variable {ς ε : Type} {barrier : Frame → Bool} {fs : List Frame}

/-! ## Walks on which nothing has failed -/

theorem Outcome.ok_of_verdict {o : Outcome ε Unit} (processed : o.verdict = .processed) :
    o = .ok () := by
  cases o with
  | ok _ => rfl
  | failed e => cases processed
  | unwound x => cases processed

/-- What ends with visits that all succeeded has succeeded. -/
theorem Host.Ends.ok_of_processed {h : Host ς ε} {o : Outcome ε Unit} {log log' : List Event}
    {vs : List (Visit × Verdict)} (ends : h.Ends log o log') (seen : Visited log vs log')
    (all : ∀ x ∈ vs, x.2 = .processed) : o = .ok () := by
  cases ends with
  | thrived => rfl
  | refused v w seen' _ ho _ asides =>
    have hands := (Hands.of_visited (seen'.trans (h.visited v w))).quiet (.of_visited asides)
    rw [(Hands.of_visited seen).unique hands] at all
    have last := all (v, (h.visit v w).1.verdict) (by simp)
    rw [← ho]
    exact Outcome.ok_of_verdict last

/-- A walk over ascending positions is steady. -/
theorem Walk.Tracks.isSteady {k : Walk} {vs : List (Visit × Verdict)} (tr : k.Tracks fs vs)
    (asc : Ascending fs) : k.IsSteady where
  rising := asc.rising.of_suffix ⟨_, tr.ahead⟩
  clear f hf := by
    have marks := tr.marks asc
    rw [← tr.ahead] at asc
    have beyond : ∀ g ∈ processedIn vs, g.position.addr < f.position.addr :=
      fun g hg => (List.pairwise_append.1 asc.2).2.2 g hg f hf
    exact Nat.le_of_lt (marks.leading_lt (asc.1 f (List.mem_append_right _ hf)) beyond)

namespace Sweep

/-- If every visit of the latest attempt succeeded, its walk stands where a number of steps lead.
There have been two at least. -/
def IsStraight (barrier : Frame → Bool) (birth : Epoch) (s : Sweep) (log : List Event) : Prop :=
  ∀ k fs, s.walk = some k → ∀ a ∈ (attempts birth log).head?, a.snapshot = some fs →
    Ascending fs → (∀ x ∈ a.visits, x.2 = .processed) →
    ∃ m, 2 ≤ m ∧ k = (Walk.stepOver barrier)^[m] (.ofFrames fs)

variable {birth : Epoch} {s s' : Sweep} {log log' : List Event}

theorem isStraight_of_no_walk (none : s.walk = none) : s.IsStraight barrier birth log := by
  intro k fs hk
  rw [none] at hk
  cases hk

/-- What moves the walk on goes some steps further, unless something fails. -/
theorem isStraight_visited {k k' : Walk} {vs : List (Visit × Verdict)}
    (straight : s.IsStraight barrier birth log) (acc : s.Accounted (attempts birth log))
    (hk : s.walk = some k) (seen : Visited log vs log')
    (moved : k.IsSteady → (∀ x ∈ vs, x.2 = .processed) →
      ∃ n, k' = (Walk.stepOver barrier)^[n] k) :
    IsStraight barrier birth { s with walk := some k' } log' := by
  obtain ⟨a, as, fs, has, hs, -, -, tr⟩ := acc.follows.of_walk hk
  rintro _ fs' ⟨⟩ a' ha' hs' asc all
  rw [seen.attempts_eq, has] at ha'
  cases ha'
  cases hs.symm.trans hs'
  have before := straight k fs hk a (by rw [has]; rfl) hs asc fun x hx =>
    all x (List.mem_append_right _ hx)
  obtain ⟨m, two, rfl⟩ := before
  obtain ⟨n, rfl⟩ := moved (tr.isSteady asc) fun x hx => all x (List.mem_append_left _ hx)
  exact ⟨n + m, by omega, (Function.iterate_add_apply _ _ _ _).symm⟩

theorem isStraight_publishes (straight : s.IsStraight barrier birth log)
    (published : s.Publishes log s' log') : s'.IsStraight barrier birth log' := by
  have walk := published.walk_eq
  intro k fs hk a ha hs asc all
  rw [walk] at hk
  rcases published.cases_told birth with ⟨-, rfl⟩ | ⟨b, d, -, -, told⟩
  · exact straight k fs hk a ha hs asc all
  · rw [told] at ha
    obtain ⟨a₀, as, has⟩ := exists_attempts birth log
    rw [has] at ha
    cases ha
    exact straight k fs hk a₀ (by rw [has]; rfl) hs asc all

theorem preserved_isStraight {h : Host ς ε} (fixed : ∀ f w, h.hasBarrier f w = barrier f)
    (hv : h.pacing.Valid) (birth : Epoch) : Preserved h birth (IsStraight barrier birth) where
  read _ straight := straight
  asides straight seen := by
    unfold IsStraight
    rw [seen.attempts_same]
    exact straight
  publishes _ straight published := isStraight_publishes straight published
  step {s k} sh w acc hk straight := by
    have ends := k.step_ends h sh w
    obtain ⟨vs, seen, -⟩ := (k.step_spec h sh w).1
    refine isStraight_visited straight acc hk seen fun _ all => ⟨1, ?_⟩
    exact Walk.step_of_ok fixed sh k w (ends.ok_of_processed seen all)
  batch {s k} sh w acc hk straight := by
    obtain ⟨vs, seen, -⟩ := (k.batch_spec h sh h.pacing.framesPerYield w).1
    refine isStraight_visited straight acc hk seen fun steady all => ⟨h.pacing.framesPerYield, ?_⟩
    have ends := (Walk.batch_isSteady (h := h) sh h.pacing.framesPerYield steady w).1
    have ok := ends.ok_of_processed seen all
    rw [Walk.batch_of_ok fixed sh hv.interval_pos steady (Outcome.verdict_of_map_ok ok)]
  idle _ _ _ := isStraight_of_no_walk rfl
  begun {s k w'} context w _ steps := by
    have passes := firstSteps_passes h context s w
    rw [steps] at passes
    obtain ⟨vs, seen, -⟩ := passes
    have taken := Walk.steps_of_ok fixed ⟨context, s.published⟩ h.pacing.initialFrames
      (.ofFrames w.thread.frames) ((announced h w).walkStack .incremental).2
      (congrArg Prod.fst steps)
    have walk := (congrArg (fun r => r.2.1) steps).symm.trans taken
    rintro _ fs ⟨⟩ a ha hs - -
    rw [attempts, attempts_started seen] at ha
    cases ha
    cases hs
    exact ⟨h.pacing.initialFrames, hv.covers_buffer, walk⟩
  refused _ _ _ _ := isStraight_of_no_walk rfl

/-- If positions ascend along the stack of the walk, the sweep is level. -/
def IsLevelOver (birth : Epoch) (s : Sweep) (log : List Event) : Prop :=
  ∀ k fs, s.walk = some k → latestStack birth log = some fs → Ascending fs → s.IsLevel

theorem isLevelOver_of_no_walk (none : s.walk = none) : s.IsLevelOver birth log := by
  intro k fs hk
  rw [none] at hk
  cases hk

theorem Moves.latestStack_eq (birth : Epoch) (moves : s.Moves log s' log') :
    latestStack birth log' = latestStack birth log := by
  unfold latestStack
  rw [moves.map_attempts_eq (g := Attempt.snapshot) (fun _ _ => rfl) fun _ _ => rfl]

theorem isLevelOver_moves (level : s.IsLevelOver birth log) (moves : s.Moves log s' log') :
    s'.IsLevelOver birth log' := by
  cases hk : s.walk with
  | some k =>
    intro _ fs _ hs asc
    rw [moves.latestStack_eq] at hs
    exact moves.isLevel (level k fs hk hs asc)
  | none =>
    refine isLevelOver_of_no_walk ?_
    cases moves with
    | rest => exact hk
    | settle _ published => exact published.walk_eq.trans hk
    | unwound hk' => cases hk.symm.trans hk'
    | passed hk' => cases hk.symm.trans hk'

theorem isLevelOver_starts {begun : Bool} (starts : s.Starts log begun s' log') :
    s'.IsLevelOver birth log' := by
  cases starts with
  | idle i e l published => exact isLevelOver_of_no_walk published.walk_eq
  | dropped => exact isLevelOver_of_no_walk rfl
  | installed i e l l' tid o fs passes filled published =>
    intro _ fs' _ hs asc
    obtain ⟨vs, seen, -⟩ := passes
    rw [latestStack, published.map_attempts_eq fun _ _ => rfl] at hs
    rw [attempts, attempts_started seen] at hs
    cases hs
    refine published.isLevel (.inr ?_)
    rintro k ⟨⟩ left
    exact (filled asc left).1

theorem isLevelOver_turns (level : s.IsLevelOver birth log) (turned : s.Turns log s' log') :
    s'.IsLevelOver birth log' := by
  have aside {s : Sweep} {log log' : List Event} (level : s.IsLevelOver birth log)
      (asides : Visited log [] log') : s.IsLevelOver birth log' := by
    unfold IsLevelOver latestStack
    rw [asides.attempts_same]
    exact level
  cases turned with
  | looked => exact level
  | resumed moves => exact isLevelOver_moves level moves
  | current i e _ asides moves =>
    have read : s.IsLevelOver birth (.epochRead i e :: log) := level
    exact isLevelOver_moves (aside read asides) moves
  | renewed _ _ _ starts asides moves =>
    exact isLevelOver_moves (aside (isLevelOver_starts starts) asides) moves

/-! ## One batch of a drain -/

variable {h : Host ς ε} {w : World ς} {e : Epoch} {n : Nat}

theorem ensureStarted_of_current (h : Host ς ε) (context : Option Nat)
    (current : s.isStale (w.readEpoch h.kind).1 = false) :
    s.ensureStarted h context w = (.ok (), s, (w.readEpoch h.kind).2) := by
  unfold ensureStarted
  simp only [current, Bool.false_eq_true, if_false]

theorem publish_eq_of_isSound (h : Host ς ε) (w : World ς) (sound : s.IsSound) :
    s.publish h w = (none, { s with published := s.toPublish }, (s.conclude h (.ok ()) w).2.2) := by
  have published := publish_of_isSound (h := h) (w := w) sound
  obtain ⟨-, same⟩ := conclude_of_isSound h w sound
  unfold conclude at same ⊢
  generalize s.publish h w = r at published same ⊢
  obtain ⟨x, s', w'⟩ := r
  cases published
  cases same
  rfl

theorem published_begunOver_congr {e' : Epoch} (same : e'.significant = e.significant)
    (barrier : Frame → Bool) (n : Nat) (fs : List Frame) :
    (begunOver barrier n e' fs).published = (begunOver barrier n e fs).published := by
  simp only [begunOver, Published.settled, ProgressWord.pack_congr same]

/-- A batch that finds its interval full yields, any other ends the drain. Either way the sweep is
left as after so many more steps. -/
theorem drainBatch_of_thrives (fixed : ∀ f w, h.hasBarrier f w = barrier f) (thrives : h.Thrives)
    (hv : h.pacing.Valid) (context : Option Nat) (rising : Rising fs)
    (walk : s.walk = some ((Walk.stepOver barrier)^[n] (.ofFrames fs))) (w : World ς) :
    ∃ vs w', Hands w.log vs w'.log ∧
      processedIn vs = upTo barrier h.pacing.framesPerYield (beyond barrier n fs) ∧
      Stage.drainBatch h context s w =
        (if h.pacing.framesPerYield ≤ (beyond barrier n fs).countP barrier then
          .yielded (.resume context) else .finished (.ok .nothing),
          begunOver barrier (h.pacing.framesPerYield + n) s.epoch fs, w') := by
  obtain ⟨published, _, e⟩ := s
  cases walk
  obtain ⟨steady, -⟩ := Walk.iterate_isSteady barrier (Walk.isSteady_ofFrames rising) n
  have sound := isSound_begunOver barrier e rising
    (Nat.lt_of_lt_of_le hv.interval_pos (Nat.le_add_right h.pacing.framesPerYield n)) published
  have batch := Walk.batch_of_thrives fixed thrives ⟨context, published⟩ hv.interval_pos steady w
  have seen := Walk.batch_visited fixed thrives ⟨context, published⟩ hv.interval_pos steady w
  rw [Walk.ahead_iterate, Walk.ahead_ofFrames] at seen
  rw [← Function.iterate_add_apply, Walk.ahead_iterate, Walk.ahead_ofFrames] at batch
  unfold Stage.drainBatch
  simp only
  generalize Walk.batch h _ _ _ w = r at batch seen ⊢
  obtain ⟨o, k', w'⟩ := r
  obtain ⟨rfl, moved⟩ := Prod.mk.inj batch
  obtain ⟨rfl, -⟩ := Prod.mk.inj moved
  have handed := (Hands.of_visited seen).quiet (hands_conclude h (.ok ())
    ⟨published, some ((Walk.stepOver barrier)^[h.pacing.framesPerYield + n] (.ofFrames fs)), e⟩ w')
  by_cases full : h.pacing.framesPerYield ≤ (beyond barrier n fs).countP barrier
  · have told := publish_eq_of_isSound h w' sound
    simp only [full, if_true, told]
    exact ⟨_, _, handed.cons (e := .yielding _ _ _) trivial, Walk.processedIn_visits _ _ _, rfl⟩
  · obtain ⟨ok, same⟩ := conclude_of_isSound h w' sound
    simp only [full, if_false]
    generalize conclude h (.ok ()) _ w' = r at ok same handed ⊢
    obtain ⟨o, s', w''⟩ := r
    cases ok
    cases same
    exact ⟨_, _, handed, Walk.processedIn_visits _ _ _, rfl⟩

end Sweep

/-! ## What a drain leaves behind -/

/-- If nobody else gets in between, these are the sweep and the world at each yield of a run. -/
def Stage.yields (h : Host ς ε) : Nat → Stage → Sweep → World ς → List (Sweep × World ς)
  | 0, _, _, _ => []
  | fuel + 1, stage, s, w =>
    match stage.turn h s w with
    | (.finished _, _, _) => []
    | (.onward next, s, w) => yields h fuel next s w
    | (.yielded next, s, w) => (s, w) :: yields h fuel next s w

/-- The latest attempt is at this campaign and this stack, and has processed these frames. -/
def Reaches (birth e : Epoch) (fs : List Frame) (log : List Event) (processed : List Frame) :
    Prop :=
  ∃ a ∈ (attempts birth log).head?, a.epoch.significant = e.significant ∧ a.snapshot = some fs ∧
    processedIn a.visits = processed

/-- So many frames with a barrier have been processed between the two worlds. -/
def Crosses (barrier : Frame → Bool) (n : Nat) (w w' : World ς) : Prop :=
  ∃ vs, Hands w.log vs w'.log ∧ (processedIn vs).countP barrier = n

/-- Every scope that was opened between the two worlds has been closed. -/
structure Closes (h : Host ς ε) (w w' : World ς) : Prop where
  marks : ∃ xs : List Enclosure, marks w'.log = marks w.log ++ xs.flatMap Enclosure.marks
  scopes : h.IsBalanced → w'.thread.scopes = w.thread.scopes

theorem Leads.closes {h : Host ς ε} {w w' : World ς} (leads : Leads (fun _ => h) w w') :
    Closes h w w' := by
  obtain ⟨xs, course⟩ := leads
  exact ⟨⟨xs, course.marks_eq⟩, fun balanced => course.scopes_eq fun _ => balanced⟩

/-- A drain yields with its scopes closed, right behind a frame `g` with a barrier. If frames are
left, the last barrier before `g` is published. Otherwise it is published that the campaign is
over. -/
structure Sweep.YieldsAt (h : Host ς ε) (barrier : Frame → Bool) (birth e : Epoch) (since : World ς)
    (fs ys : List Frame) (g : Frame) (rest : List Frame) (s : Sweep) (w : World ς) : Prop where
  closed : Closes h since w
  split : fs = ys ++ g :: rest
  barred : barrier g = true
  reached : Reaches birth e fs w.log (ys ++ [g])
  underway : rest ≠ [] → ∃ qs f, ys.filter barrier = qs ++ [f] ∧
    s.published = ⟨f.position, .pack e false⟩
  finished : rest = [] → s.published = .settled e

/-- From `w` on a drain goes through the whole stack with these yields. Each comes a full interval
after the one before, and what is left after the last is short of an interval. -/
structure DrainsEvenly (h : Host ς ε) (barrier : Frame → Bool) (birth e : Epoch) (since : World ς)
    (fs : List Frame) (w : World ς) (xs : List (Sweep × World ς)) (s' : Sweep) (w' : World ς) :
    Prop where
  spaced : List.IsChain (Crosses barrier h.pacing.framesPerYield) (w :: xs.map Prod.snd)
  short : ∃ m < h.pacing.framesPerYield, Crosses barrier m ((xs.map Prod.snd).getLastD w) w'
  yields : ∀ x ∈ xs, ∃ ys g rest, x.1.YieldsAt h barrier birth e since fs ys g rest x.2
  reached : Reaches birth e fs w'.log fs
  published : s'.published = .settled e

theorem Crosses.after {m : Nat} {w₀ w w' : World ς} (quiet : Hands w₀.log [] w.log)
    (crosses : Crosses barrier m w w') : Crosses barrier m w₀ w' := by
  obtain ⟨vs, hands, count⟩ := crosses
  exact ⟨vs, hands.after quiet, count⟩

/-- It does not matter to the yields what goes on before the first batch. -/
theorem DrainsEvenly.after {h : Host ς ε} {birth e : Epoch} {since w₀ w w' : World ς}
    {xs : List (Sweep × World ς)} {s' : Sweep} (quiet : Hands w₀.log [] w.log)
    (even : DrainsEvenly h barrier birth e since fs w xs s' w') :
    DrainsEvenly h barrier birth e since fs w₀ xs s' w' := by
  obtain ⟨spaced, ⟨m, lt, crosses⟩, yields, reached, published⟩ := even
  refine ⟨spaced.imp_head (.after quiet), ⟨m, lt, ?_⟩, yields, reached, published⟩
  cases xs with
  | nil => exact crosses.after quiet
  | cons x xs =>
    rw [List.map_cons, List.getLastD_cons] at crosses ⊢
    exact crosses

/-! ## Batch after batch -/

namespace Sweep

/-- In the midst of a drain: the walk stands where `n` steps lead, and it is that of the latest
attempt. -/
structure IsDraining (h : Host ς ε) (barrier : Frame → Bool) (birth e : Epoch) (since : World ς)
    (fs : List Frame) (n : Nat) (s : Sweep) (w : World ς) : Prop where
  walk : s.walk = some ((Walk.stepOver barrier)^[n] (.ofFrames fs))
  epoch : s.epoch.significant = e.significant
  accounted : s.Accounted (attempts birth w.log)
  stack : latestStack birth w.log = some fs
  leads : Leads (fun _ => h) since w

namespace IsDraining

variable {h : Host ς ε} {birth e : Epoch} {since w : World ς} {n : Nat} {s : Sweep}

theorem reaches (drains : s.IsDraining h barrier birth e since fs n w) :
    Reaches birth e fs w.log (upTo barrier n fs) := by
  obtain ⟨a, as, fs', has, hs, -, epoch, tr⟩ := drains.accounted.follows.of_walk drains.walk
  have same := drains.stack
  rw [latestStack_eq has, hs] at same
  cases same
  refine ⟨a, by rw [has]; rfl, by rw [← epoch, drains.epoch], hs, ?_⟩
  have split := tr.ahead
  rw [Walk.ahead_iterate, Walk.ahead_ofFrames] at split
  exact List.append_cancel_right (split.trans (upTo_append_beyond barrier fs n).symm)

/-- Where a batch has filled its interval, the drain yields. -/
theorem yieldsAt {d : Epoch}
    (drains : (begunOver barrier n d fs).IsDraining h barrier birth e since fs n w)
    (asc : Ascending fs) (two : 2 ≤ n) (le : n ≤ fs.countP barrier) :
    ∃ ys g rest, (begunOver barrier n d fs).YieldsAt h barrier birth e since fs ys g rest w := by
  obtain ⟨ys, g, rest, nth⟩ := exists_isNth fs (by omega) le
  obtain ⟨crossed, behind⟩ := nth.upTo_eq
  have reached := drains.reaches
  rw [crossed] at reached
  have published := published_begunOver_congr drains.epoch barrier n fs
  refine ⟨ys, g, rest, drains.leads.closes, nth.split, nth.barred, reached, ?_, ?_⟩
  · intro left
    obtain ⟨-, -, qs, f, before, shown⟩ := begunOver_of_left e asc.1 two nth left
    exact ⟨qs, f, before, published.trans shown⟩
  · intro none
    exact published.trans (begunOver_of_done e (behind.trans none)).2.1

section thrives

variable (drains : s.IsDraining h barrier birth e since fs n w)
  (fixed : ∀ f w, h.hasBarrier f w = barrier f) (thrives : h.Thrives) (hv : h.pacing.Valid)
  (context : Option Nat) (asc : Ascending fs)

include drains fixed thrives hv asc

/-- A batch leads as far as so many steps. It ends the drain unless it has filled its interval. -/
theorem drainBatch :
    ∃ w',
      Crosses barrier (min h.pacing.framesPerYield ((beyond barrier n fs).countP barrier)) w w' ∧
      Stage.drainBatch h context s w =
        (if h.pacing.framesPerYield ≤ (beyond barrier n fs).countP barrier then
          .yielded (.resume context) else .finished (.ok .nothing),
          begunOver barrier (h.pacing.framesPerYield + n) s.epoch fs, w') ∧
      (begunOver barrier (h.pacing.framesPerYield + n) s.epoch fs).IsDraining h barrier birth e
        since fs (h.pacing.framesPerYield + n) w' := by
  obtain ⟨vs, w', hands, processed, batch⟩ :=
    drainBatch_of_thrives fixed thrives hv context asc.rising drains.walk w
  have moves := moves_drainBatch h context s w
  have leads := Stage.leads_drainBatch (fun _ => h) 0 context s w
  rw [batch] at moves leads
  refine ⟨w', ⟨vs, hands, ?_⟩, batch, ?_⟩
  · rw [processed, countP_upTo]
  · exact
      { walk := rfl
        epoch := drains.epoch
        accounted := accounted_moves drains.accounted moves
        stack := (moves.latestStack_eq birth).trans drains.stack
        leads := drains.leads.trans leads }

/-- If what is left is short of an interval, the batch takes it all. -/
theorem drainBatch_of_short
    (short : (beyond barrier n fs).countP barrier < h.pacing.framesPerYield) :
    ∃ s' w', Stage.drainBatch h context s w = (.finished (.ok .nothing), s', w') ∧
      DrainsEvenly h barrier birth e since fs w [] s' w' := by
  obtain ⟨w', crosses, batch, next⟩ := drains.drainBatch fixed thrives hv context asc
  rw [if_neg (Nat.not_le.2 short)] at batch
  rw [Nat.min_eq_right (Nat.le_of_lt short)] at crosses
  have done : beyond barrier (h.pacing.framesPerYield + n) fs = [] := by
    by_contra left
    have le := le_countP_of_left fs left
    rw [countP_beyond] at short
    omega
  have all := upTo_append_beyond barrier fs (h.pacing.framesPerYield + n)
  rw [done, List.append_nil] at all
  have reached := next.reaches
  rw [all] at reached
  have published := published_begunOver_congr next.epoch barrier
    (h.pacing.framesPerYield + n) fs
  refine ⟨_, w', batch, ?_⟩
  exact
    { spaced := .singleton w
      short := ⟨_, short, crosses⟩
      yields := fun x hx => absurd hx List.not_mem_nil
      reached := reached
      published := published.trans (begunOver_of_done e done).2.1 }

/-- From here on a drain yields once for each full interval that is left. -/
theorem evenly (two : 2 ≤ n) :
    ∃ xs s' w', xs.length = (beyond barrier n fs).countP barrier / h.pacing.framesPerYield ∧
      DrainsEvenly h barrier birth e since fs w xs s' w' ∧
      ∀ fuel, xs.length < fuel →
        Stage.run h fuel (.resume context) s w = (some (.ok .nothing), s', w') ∧
        Stage.yields h fuel (.resume context) s w = xs := by
  have pos := hv.interval_pos
  generalize hq : (beyond barrier n fs).countP barrier / h.pacing.framesPerYield = q
  induction q generalizing n s w with
  | zero =>
    obtain ⟨s', w', batch, even⟩ := drains.drainBatch_of_short fixed thrives hv context asc
      ((Nat.div_eq_zero_iff_lt pos).1 hq)
    refine ⟨[], s', w', rfl, even, ?_⟩
    intro fuel enough
    obtain ⟨m, rfl⟩ : ∃ m, fuel = m + 1 := ⟨fuel - 1, by simp at enough; omega⟩
    simp only [Stage.run, Stage.yields, Stage.turn, batch, and_self]
  | succ q ih =>
    have full : h.pacing.framesPerYield ≤ (beyond barrier n fs).countP barrier := by
      by_contra short
      rw [Nat.div_eq_of_lt (Nat.not_le.1 short)] at hq
      omega
    obtain ⟨w₁, crosses, batch, next⟩ := drains.drainBatch fixed thrives hv context asc
    rw [if_pos full] at batch
    rw [Nat.min_eq_left full] at crosses
    rw [Nat.div_eq_sub_div pos full] at hq
    rw [countP_beyond] at full hq
    have fewer : (beyond barrier (h.pacing.framesPerYield + n) fs).countP barrier /
        h.pacing.framesPerYield = q := by
      rw [countP_beyond, Nat.add_comm, ← Nat.sub_sub]
      omega
    obtain ⟨xs, s', w', length, even, run⟩ := ih next (by omega) fewer
    have here := next.yieldsAt asc (by omega) (by omega)
    refine ⟨(begunOver barrier (h.pacing.framesPerYield + n) s.epoch fs, w₁) :: xs, s', w',
      congrArg (· + 1) length, ⟨?_, ?_, ?_, even.reached, even.published⟩, ?_⟩
    · exact List.isChain_cons_cons.2 ⟨crosses, even.spaced⟩
    · rw [List.map_cons, List.getLastD_cons]
      exact even.short
    · exact List.forall_mem_cons.2 ⟨here, even.yields⟩
    · intro fuel enough
      obtain ⟨m, rfl⟩ : ∃ m, fuel = m + 1 := ⟨fuel - 1, by omega⟩
      obtain ⟨rest, later⟩ := run m (Nat.lt_of_succ_lt_succ enough)
      simp only [Stage.run, Stage.yields, Stage.turn, batch, rest, later, and_self]

end thrives

end IsDraining

end Sweep

/-! ## Drains from every reachable site -/

namespace Site

/-- The campaign is still to be started, over a stack along which positions ascend, or it is under
way in a walk over such a stack in which nothing has failed. -/
inductive IsUnspoiled (birth e : Epoch) (fs : List Frame) (site : Site ς) : Prop
  | stale : site.sweep.phase e = .stale → site.world.thread.hasWalkableStack = true →
      site.world.thread.frames = fs → Ascending fs → IsUnspoiled birth e fs site
  | underway {k : Walk} {a : Attempt} : site.sweep.phase e = .inProgress →
      site.sweep.walk = some k → a ∈ (attempts birth site.world.log).head? →
      a.snapshot = some fs → Ascending fs → (∀ x ∈ a.visits, x.2 = .processed) →
      IsUnspoiled birth e fs site

variable {h past : Host ς ε} {birth e : Epoch} {site : Site ς}

/-- A start leaves a drain in the midst of the campaign. -/
theorem isDraining_of_stale {s : Sweep} {w : World ς} (acc : s.Accounted (attempts birth w.log))
    (fixed : ∀ f w, h.hasBarrier f w = barrier f) (thrives : h.Thrives) (hv : h.pacing.Valid)
    (finds : h.Finds e w) (context : Option Nat) (stale : s.phase e = .stale)
    (walkable : w.thread.hasWalkableStack = true) (asc : Ascending w.thread.frames) :
    ∃ s₀ w₀, s.ensureStarted h context w = (.ok (), s₀, w₀) ∧
      s₀.IsDraining h barrier birth e w w.thread.frames h.pacing.initialFrames w₀ := by
  have looked : s.isStale (w.readEpoch h.kind).1 = true := by
    rw [finds.current]
    exact Sweep.isStale_iff_phase.2 stale
  have leads := Sweep.leads_ensureStarted (fun _ => h) 0 context s w
  have acc' := Sweep.accounted_turns acc (Sweep.turns_ensureStarted h hv context s w .refl .rest)
  rw [Sweep.ensureStarted_of_stale h context looked] at leads acc' ⊢
  obtain ⟨ok, begun, -⟩ := Sweep.start_of_thrives fixed thrives hv context s
    (w := (w.readEpoch h.kind).2) walkable asc.rising
  obtain ⟨a, made, -, snapshot⟩ := Sweep.attempts_start h context s (w.readEpoch h.kind).2 birth
  have again : h.Finds e (w.readEpoch h.kind).2 := finds.read rfl
  refine ⟨_, _, Prod.ext ok rfl, ?_, ?_, acc', ?_, leads⟩
  · rw [begun]
    rfl
  · rw [begun]
    exact congrArg Epoch.significant again.current
  · rw [latestStack_eq made, snapshot, Sweep.snapshot?]
    exact if_pos walkable

/-- A walk in which nothing has failed stands where steps lead, and the epoch is its own. -/
theorem Reachable.isDraining {k : Walk} {a : Attempt} (r : Reachable past birth site)
    (fixed : ∀ f w, past.hasBarrier f w = barrier f)
    (of : site.sweep.published.word.isOf e = true) (hk : site.sweep.walk = some k)
    (ha : a ∈ (attempts birth site.world.log).head?) (hs : a.snapshot = some fs)
    (asc : Ascending fs) (all : ∀ x ∈ a.visits, x.2 = .processed) :
    ∃ n, 2 ≤ n ∧ site.sweep.IsDraining h barrier birth e site.world fs n site.world := by
  have stack : latestStack birth site.world.log = some fs := by
    obtain ⟨a', as, has⟩ := exists_attempts birth site.world.log
    rw [has] at ha
    cases ha
    rw [latestStack_eq has, hs]
  have level : site.sweep.IsLevelOver birth site.world.log :=
    r.preserved (Sweep.isLevelOver_of_no_walk rfl) Sweep.isLevelOver_turns
  have epoch := ProgressWord.significant_eq (level k fs hk stack asc).word of
  obtain ⟨n, two, rfl⟩ := (r.bears (Sweep.preserved_isStraight fixed r.valid birth)
    (Sweep.isStraight_of_no_walk rfl)) k fs hk a ha hs asc all
  exact ⟨n, two, hk, epoch, r.accounted, stack, .refl _ _⟩

/-- Having seen to it that the campaign has been started, a drain is in the midst of it. -/
theorem IsUnspoiled.isDraining (unspoiled : site.IsUnspoiled birth e fs)
    (r : Reachable past birth site) (fixedPast : ∀ f w, past.hasBarrier f w = barrier f)
    (fixed : ∀ f w, h.hasBarrier f w = barrier f) (thrives : h.Thrives) (hv : h.pacing.Valid)
    (finds : h.Finds e site.world) (context : Option Nat) :
    Ascending fs ∧ ∃ n s w, 2 ≤ n ∧
      site.sweep.ensureStarted h context site.world = (.ok (), s, w) ∧
      s.IsDraining h barrier birth e site.world fs n w := by
  cases unspoiled with
  | stale stale walkable frames asc =>
    subst frames
    obtain ⟨s, w, started, drains⟩ :=
      isDraining_of_stale r.accounted fixed thrives hv finds context stale walkable asc
    exact ⟨asc, _, s, w, hv.covers_buffer, started, drains⟩
  | underway phase hk ha hs asc all =>
    have current : site.sweep.isStale e = false := by
      rw [Bool.eq_false_iff, Ne, Sweep.isStale_iff_phase, phase]
      decide
    have of : site.sweep.published.word.isOf e = true := by simpa [Sweep.isStale] using current
    obtain ⟨n, two, drains⟩ := r.isDraining (h := h) fixedPast of hk ha hs asc all
    refine ⟨asc, n, _, _, two, Sweep.ensureStarted_of_current h context (finds.current ▸ current),
      drains.walk, drains.epoch, drains.accounted, drains.stack, ?_⟩
    exact (plain_readEpoch site.world h.kind).leads

/-- A drain that nobody disturbs, of a campaign in which nothing has failed and nothing fails.
Positions ascend along the stack. After the start, if there has to be one, the drain yields once for
every full interval of barriers among the frames that are left then, and processes no more barriers
than that between two yields. At each yield all scopes are closed, and published is the last barrier
but one that has been processed, or that the campaign is over if no frame is left. In the end all
frames have been processed, and it is published that the campaign is over. -/
theorem yields_of_drain (r : Reachable past birth site)
    (fixedPast : ∀ f w, past.hasBarrier f w = barrier f)
    (fixed : ∀ f w, h.hasBarrier f w = barrier f) (thrives : h.Thrives) (hv : h.pacing.Valid)
    (finds : h.Finds e site.world) (unspoiled : site.IsUnspoiled birth e fs)
    (context : Option Nat) :
    ∃ k₀ s₀ w₀ xs s w,
      site.sweep.ensureStarted h context site.world = (.ok (), s₀, w₀) ∧ s₀.walk = some k₀ ∧
      (∀ fuel, xs.length < fuel →
        (Call.drain context).run h fuel site.sweep site.world = (some (.ok .nothing), s, w) ∧
        Stage.yields h fuel (.drain context) site.sweep site.world = xs) ∧
      xs.length = k₀.ahead.countP barrier / h.pacing.framesPerYield ∧
      DrainsEvenly h barrier birth e site.world fs w₀ xs s w := by
  obtain ⟨asc, n, s₀, w₀, two, started, drains⟩ :=
    unspoiled.isDraining r fixedPast fixed thrives hv finds context
  have told : s₀.IsDraining h barrier birth e site.world fs n
      (w₀.record (.draining (h.label w₀))) := by
    refine ⟨drains.walk, drains.epoch, drains.accounted, drains.stack, ?_⟩
    exact drains.leads.trans (plain_record _ rfl).leads
  obtain ⟨xs, s, w, length, even, run⟩ := told.evenly fixed thrives hv context asc two
  -- The first turn is that of a drain that resumes after the start.
  have turn : Stage.turn h (.drain context) site.sweep site.world =
      Stage.turn h (.resume context) s₀ (w₀.record (.draining (h.label w₀))) := by
    simp only [Stage.turn, Stage.drainFirst, started, drains.walk]
  have quiet : Hands w₀.log [] (w₀.record (.draining (h.label w₀))).log := ⟨[_], rfl, rfl⟩
  refine ⟨_, s₀, w₀, xs, s, w, started, drains.walk, ?_, ?_, even.after quiet⟩
  · intro fuel enough
    obtain ⟨ends, yields⟩ := run fuel enough
    obtain ⟨m, rfl⟩ : ∃ m, fuel = m + 1 := ⟨fuel - 1, by omega⟩
    rw [Stage.run, ← turn] at ends
    rw [Stage.yields, ← turn] at yields
    exact ⟨ends, yields⟩
  · rw [length, Walk.ahead_iterate, Walk.ahead_ofFrames]

/-- After a start with two steps the drain of four frames yields once, at the third. -/
theorem yields_of_fresh :
    ∃ x s w, (∀ fuel, 1 < fuel →
        (Call.drain none).run diligent fuel (fresh.moveOn 1 false).sweep
          (fresh.moveOn 1 false).world = (some (.ok .nothing), s, w) ∧
        Stage.yields diligent fuel (.drain none) (fresh.moveOn 1 false).sweep
          (fresh.moveOn 1 false).world = [x]) ∧
      x.1.published = ⟨⟨20⟩, .pack 1 false⟩ ∧ s.published = .settled 1 := by
  have fixed : ∀ f (w : World Bool), diligent.hasBarrier f w = Frame.barrier f := fun _ _ => rfl
  obtain ⟨k₀, s₀, w₀, xs, s, w, started, walk, run, length, even⟩ := yields_of_drain (e := 1)
    (reachable_fresh.moveOn 1 false) fixed fixed (fun _ _ => rfl) reachable_fresh.valid
    holds_firstCalm.epochs (.stale (by decide +kernel) rfl rfl (by decide +kernel)) none
  have left : ((fresh.moveOn 1 false).sweep.ensureStarted diligent none
      (fresh.moveOn 1 false).world).2.1.walk.map (fun k => k.ahead.countP Frame.barrier) =
      some 1 := by decide +kernel
  rw [started, walk] at left
  have one : k₀.ahead.countP Frame.barrier = 1 := Option.some.inj left
  rw [one] at length
  obtain ⟨x, rfl⟩ := List.length_eq_one_iff.1 length
  have shown : (Stage.yields diligent 2 (.drain none) (fresh.moveOn 1 false).sweep
      (fresh.moveOn 1 false).world).map (fun x => x.1.published) = [⟨⟨20⟩, .pack 1 false⟩] := by
    decide +kernel
  rw [(run 2 (by simp)).2] at shown
  exact ⟨x, s, w, run, List.singleton_injective shown, even.published⟩

end Site

end StackSweep

import Mathlib.Logic.Function.Iterate
import StackSweep.Proofs.Campaigns
import StackSweep.Proofs.Progress
import StackSweep.Proofs.Starting

/-!
# Starts that fail

A start gives up the old walk and may process a few frames before it fails. Still nothing that
anyone can see has changed: what is published stays, the sweep remains stale, and whoever wants
progress next starts over from the innermost frame of the stack as it is then. When a start succeeds
in the end, what it leaves depends on the stack, the barriers and the epoch, and not on what was
tried before.
-/

namespace StackSweep

variable {ς ε : Type}

/-! ## Steps without a processor -/

namespace Walk

/-- Passes frames up to and including the first that has a barrier. Answers the position of the last
one, the cursor and the frames that are left. -/
def framesOver (barrier : Frame → Bool) (last : Position) (cursor : Nat) :
    List Frame → Position × Nat × List Frame
  | [] => (last, cursor, [])
  | f :: rest =>
    if barrier f then (f.position, cursor + 1, rest)
    else framesOver barrier f.position (cursor + 1) rest

/-- Where a step leads if every frame is processed. -/
def stepOver (barrier : Frame → Bool) (k : Walk) : Walk :=
  let (last, cursor, ahead) := framesOver barrier .none k.cursor k.ahead
  let k : Walk := { k with cursor, ahead }
  if last.isNone then k else k.record last

variable {h : Host ς ε} {barrier : Frame → Bool}

theorem stepFrames_of_ok (fixed : ∀ f w, h.hasBarrier f w = barrier f) (sh : Shared)
    (fs : List Frame) : ∀ (last : Position) (cursor : Nat) (w : World ς),
      (stepFrames h sh last cursor fs w).outcome = .ok () →
        ((stepFrames h sh last cursor fs w).last, (stepFrames h sh last cursor fs w).cursor,
          (stepFrames h sh last cursor fs w).ahead) = framesOver barrier last cursor fs := by
  induction fs with
  | nil => exact fun _ _ _ _ => rfl
  | cons f rest ih =>
    intro last cursor w
    unfold stepFrames framesOver
    rw [fixed]
    split
    · split
      · exact fun _ => rfl
      · exact ih f.position (cursor + 1) _
    · nofun
    · nofun

theorem step_of_ok (fixed : ∀ f w, h.hasBarrier f w = barrier f) (sh : Shared) (k : Walk)
    (w : World ς) (ok : (k.step h sh w).1 = .ok ()) :
    (k.step h sh w).2.1 = k.stepOver barrier := by
  have same := stepFrames_of_ok fixed sh k.ahead .none k.cursor (Bracket.enter w).2 ok
  unfold step stepOver
  rw [← same]

/-- Steps that succeed lead where the barriers say, whatever the processor does. -/
theorem steps_of_ok (fixed : ∀ f w, h.hasBarrier f w = barrier f) (sh : Shared) (n : Nat) :
    ∀ (k : Walk) (w : World ς), (steps h sh n k w).1 = .ok () →
      (steps h sh n k w).2.1 = (stepOver barrier)^[n] k := by
  induction n with
  | zero => exact fun _ _ _ => rfl
  | succ n ih =>
    intro k w
    have step := step_of_ok fixed sh k w
    rw [Function.iterate_succ_apply]
    unfold steps
    split <;> rename_i k' w' eq <;> rw [eq] at step
    · rw [← step rfl]
      exact ih k' w'
    · nofun
    · nofun

end Walk

namespace Sweep

/-- A sweep whose campaign `e` has just been started over these frames, with `n` steps. -/
def begunOver (barrier : Frame → Bool) (n : Nat) (e : Epoch) (fs : List Frame) : Sweep :=
  let k := (Walk.stepOver barrier)^[n] (.ofFrames fs)
  ⟨if k.hasNext then ⟨k.trail.trailing, .pack e false⟩ else .settled e, some k, e⟩

/-- A sweep whose campaign `e` has just been started, whether there was a stack or not. -/
def begunWith (barrier : Frame → Bool) (n : Nat) (e : Epoch) : Option (List Frame) → Sweep
  | some fs => begunOver barrier n e fs
  | none => settled e

variable {h : Host ς ε}

/-- A start that succeeds publishes what it leaves behind. -/
theorem publications_of_start_ok (birth : Epoch) {context : Option Nat} {s : Sweep} {w : World ς}
    (ok : (s.start h context w).1 = .ok ()) :
    publications birth (s.start h context w).2.2.log =
      (s.start h context w).2.1.published :: publications birth w.log := by
  cases s.departs h context w with
  | idle _ start =>
    rw [start] at ok ⊢
    obtain ⟨same, told⟩ := conclude_of_ok birth ok
    rw [told, same]
    rfl
  | begun k w' _ steps start =>
    have passes := firstSteps_passes h context s w
    rw [steps] at passes
    obtain ⟨vs, seen, -⟩ := passes
    rw [start] at ok ⊢
    obtain ⟨same, told⟩ := conclude_of_ok birth ok
    rw [told, same]
    exact congrArg _ (seen.publications_eq birth).1
  | refused _ refused ended => exact absurd (ended ▸ ok) refused

/-- What a start that succeeds leaves behind. -/
theorem start_of_ok {barrier : Frame → Bool} (fixed : ∀ f w, h.hasBarrier f w = barrier f)
    {context : Option Nat} {s : Sweep} {w : World ς} (ok : (s.start h context w).1 = .ok ()) :
    (s.start h context w).2.1 =
      begunWith barrier h.pacing.initialFrames (w.readEpoch h.kind).1 (snapshot? w) := by
  cases s.departs h context w with
  | idle walkable start =>
    rw [start] at ok ⊢
    rw [(conclude_of_ok 0 ok).1]
    simp only [snapshot?, walkable, Bool.false_eq_true, if_false]
    rfl
  | begun k w' walkable steps start =>
    have taken := Walk.steps_of_ok fixed ⟨context, s.published⟩ h.pacing.initialFrames
      (.ofFrames w.thread.frames) ((announced h w).walkStack .incremental).2
      (congrArg Prod.fst steps)
    have walk : k =
        (Walk.stepOver barrier)^[h.pacing.initialFrames] (.ofFrames w.thread.frames) :=
      (congrArg (fun r => r.2.1) steps).symm.trans taken
    rw [start] at ok ⊢
    rw [(conclude_of_ok 0 ok).1, walk]
    simp only [snapshot?, walkable, if_true]
    rfl
  | refused _ refused ended => exact absurd (ended ▸ ok) refused

/-! ## Sweeps that are stale -/

section stale

variable {birth : Epoch} {s : Sweep} {w : World ς}

/-- No frame counts as safe before the campaign has been started. -/
theorem isSafe_of_isStale (stale : s.isStale (w.readEpoch h.kind).1 = true) (f : Frame) :
    (s.isSafe h f w).1 = false := by
  show s.isSafeAt (w.readEpoch h.kind).1 _ = false
  unfold isSafeAt
  rw [if_pos stale]

/-- Whoever asks for the campaign to be started finds that this has to be done. -/
theorem request_of_isStale (stale : s.isStale (w.readEpoch h.kind).1 = true) :
    (Call.request.openWith h s.published w).1 = .needs .start := by
  rw [isStale, Bool.not_eq_true'] at stale
  simp only [Call.openWith, stale, Bool.false_eq_true, if_false]

/-- A turn that starts a campaign makes an attempt over the stack as it is at that moment. -/
theorem walks_of_stale (hv : h.pacing.Valid) (acc : s.Accounted (attempts birth w.log))
    {stage : Stage} {context : Option Nat} (starts : stage.context? = some context)
    (stale : s.isStale (w.readEpoch h.kind).1 = true) :
    ∃ a, attempts birth (stage.turn h s w).2.2.log = a :: attempts birth w.log ∧
      a.snapshot = snapshot? w ∧ ∀ fs, a.snapshot = some fs → a.GoesThrough fs := by
  obtain ⟨-, -, log, asides, moves⟩ := turn_of_stale h (w := w) starts stale
  obtain ⟨a, has, -, found⟩ := attempts_start h context s (w.readEpoch h.kind).2 birth
  have after := accounted_turns acc (turns_turn h hv stage s w)
  obtain ⟨a', as, has'⟩ := exists_attempts birth (stage.turn h s w).2.2.log
  have snapshots : (attempts birth (stage.turn h s w).2.2.log).map Attempt.snapshot =
      (attempts birth log).map Attempt.snapshot :=
    moves.map_attempts_eq (fun _ _ => rfl) fun _ _ => rfl
  have tails := moves.tail_attempts_eq birth
  rw [asides.attempts_same, has] at snapshots tails
  rw [has'] at snapshots tails after ⊢
  simp only [List.map_cons, List.cons.injEq, List.tail_cons] at snapshots tails
  refine ⟨a', by rw [tails]; rfl, snapshots.1.trans found, ?_⟩
  intro fs hs
  exact ((after.sound a' List.mem_cons_self).inOrder fs hs).goesThrough

end stale

end Sweep

namespace Site

variable {h : Host ς ε} {birth : Epoch} {site site' : Site ς}

/-! ## Runs in which nothing succeeds -/

/-- What can happen while the sweep is only looked at, apart from this many starts that fail. -/
inductive Futile (h : Host ς ε) (site : Site ς) : Nat → Site ς → Prop
  | here : Futile h site 0 site
  | change {n site'} (w : World ς) : Futile h site n site' → w.log = site'.world.log →
      Futile h site n { site' with world := w }
  | call {n site'} (p : Nat) (c : Call) : Futile h site n site' → site'.pending p = none →
      Futile h site n (site'.call h p c)
  | look {n site'} (p : Nat) (b : Pending) : Futile h site n site' → site'.pending p = some b →
      b.stage.IsLook → Futile h site n (site'.turn h p b)
  | refused {n site'} (p : Nat) (b : Pending) (context : Option Nat) : Futile h site n site' →
      site'.pending p = some b → b.stage.context? = some context →
      site'.sweep.isStale (site'.current h) = true → (site'.launch h context).1 ≠ .ok () →
      Futile h site (n + 1) (site'.turn h p b)

/-- The epochs that were read up to the second site and what is current there, latest first. What is
current at the first site counts as read. -/
def epochsTo (h : Host ς ε) (site site' : Site ς) : List Epoch :=
  site'.current h :: (readingsSince site site' ++ site.current h :: readings site.world.log)

theorem Futile.run {n : Nat} (run : Futile h site n site') :
    Relation.ReflTransGen (Step h) site site' := by
  induction run with
  | here => exact .refl
  | change w _ same ih => exact ih.tail (.change w same)
  | call p c _ free ih => exact ih.tail (.call p c free)
  | look p b _ pending _ ih => exact ih.tail (.turn p b pending)
  | refused p b context _ pending _ _ _ ih => exact ih.tail (.turn p b pending)

theorem Futile.published_eq (birth : Epoch) {n : Nat} (run : Futile h site n site') :
    site'.sweep.published = site.sweep.published ∧
      publications birth site'.world.log = publications birth site.world.log := by
  induction run with
  | here => exact ⟨rfl, rfl⟩
  | change w _ same ih =>
    rw [same]
    exact ih
  | @call n site' p c _ _ ih =>
    refine ⟨ih.1, ?_⟩
    rcases log_call h p c site' with same | same
    · rw [same]
      exact ih.2
    · rw [same]
      exact ih.2
  | @look n site' p b _ _ look ih =>
    rw [sweep_turn, world_turn, Sweep.turn_of_isLook h look]
    exact ih
  | @refused n site' p b context _ _ starts stale failed ih =>
    obtain ⟨-, sweep, world⟩ := turn_of_launch_ne_ok (p := p) starts stale failed
    obtain ⟨published, publications⟩ := Sweep.published_of_start_ne_ok birth failed
    rw [sweep, world]
    exact ⟨published.trans ih.1, publications.trans ih.2⟩

/-- Once another epoch than that of the published word is current, that one is not read again. -/
theorem Reachable.isOf_later (r : Reachable h birth site)
    (stale : site.sweep.isStale (site.current h) = true) {e : Epoch} {later : List Epoch}
    (nr : Epoch.NeverReturn (e :: (later ++ site.current h :: readings site.world.log))) :
    site.sweep.published.word.isOf e = false := by
  have then' : Epoch.NeverReturn (site.current h :: readings site.world.log) :=
    nr.tail.of_suffix (List.suffix_append _ _)
  rw [Sweep.isStale, Bool.not_eq_true'] at stale
  by_contra of
  rw [Bool.not_eq_false] at of
  -- The epoch was read before the current one was.
  have past : e.IsPast (site.current h :: readings site.world.log) := by
    refine ((r.isDated then'.tail).word _ of).isPast ?_
    intro same
    rw [ProgressWord.isOf_congr _ same, of] at stale
    cases stale
  exact (past.of_suffix nr.tail (List.suffix_append later _)).ne_of_neverReturn nr rfl

/-- What has been published is for another campaign than any that is current later. -/
theorem Reachable.isStale_of_published (r : Reachable h birth site)
    (suffix : site.world.log <:+ site'.world.log)
    (published : site'.sweep.published = site.sweep.published)
    (stale : site.sweep.isStale (site.current h) = true)
    (nr : Epoch.NeverReturn (epochsTo h site site')) :
    site'.sweep.isStale (site'.current h) = true := by
  obtain ⟨es, split⟩ := suffix
  rw [epochsTo, readingsSince_eq split.symm] at nr
  rw [Sweep.isStale, published, r.isOf_later stale nr]
  rfl

/-! ## What failed starts leave behind -/

/-- To those who look, the first site has not changed, and who wants progress has to start. -/
structure IsUntouched (h : Host ς ε) (birth : Epoch) (site site' : Site ς) : Prop where
  published : site'.sweep.published = site.sweep.published
  publications : publications birth site'.world.log = publications birth site.world.log
  stale : site'.sweep.isStale (site'.current h) = true
  unsafe_all : ∀ f, (site'.sweep.isSafe h f site'.world).1 = false
  noBoundary : (site'.sweep.lastBoundary h site'.world).1 = .none
  request : (Call.request.openWith h site'.sweep.published site'.world).1 = .needs .start
  secure : ∀ f, ((Stage.secure f).turn h site'.sweep site'.world).1 = .onward (.approach f)

/-- What becomes of a turn that starts the campaign. -/
structure Retries (h : Host ς ε) (birth : Epoch) (site : Site ς) (p : Nat) (b : Pending)
    (context : Option Nat) : Prop where
  /-- The stack is walked anew as it is now, from its innermost frame. -/
  walks : ∃ a, attempts birth (site.turn h p b).world.log = a :: attempts birth site.world.log ∧
    a.snapshot = Sweep.snapshot? site.world ∧ ∀ fs, a.snapshot = some fs → a.GoesThrough fs
  /-- If the first steps do not succeed, the operation ends as the last visit did. -/
  refused : site.world.thread.hasWalkableStack = true → (site.launchSteps h context).1 ≠ .ok () →
    ∃ vs v w, Visited (Sweep.openedLog h (site.world.readEpoch h.kind).2) vs w.log ∧
      (∀ x ∈ vs, x.2 = .processed) ∧ (h.visit v w).1 = (site.launchSteps h context).1 ∧
      (b.stage.turn h site.sweep site.world).1 =
        .finished ((h.visit v w).1.map fun _ => .nothing) ∧
      Visited (h.visit v w).2.log [] (site.turn h p b).world.log
  /-- If the start succeeds, what it leaves and publishes depends on nothing that came before. -/
  succeeded : ∀ barrier : Frame → Bool, (∀ f w, h.hasBarrier f w = barrier f) →
    (site.launch h context).1 = .ok () →
    (site.launch h context).2.1 = .begunWith barrier h.pacing.initialFrames
      ((site.world.readEpoch h.kind).2.readEpoch h.kind).1 (Sweep.snapshot? site.world) ∧
    ((∀ c, b.stage ≠ .drain c) → (site.turn h p b).sweep = (site.launch h context).2.1) ∧
    (site.launch h context).2.1.published :: publications birth site.world.log <:+
      publications birth (site.turn h p b).world.log

theorem Reachable.isUntouched (r : Reachable h birth site)
    (stale : site.sweep.isStale (site.current h) = true) {n : Nat} (run : Futile h site n site')
    (nr : Epoch.NeverReturn (epochsTo h site site')) : site.IsUntouched h birth site' := by
  obtain ⟨published, publications⟩ := run.published_eq birth
  have stale' := r.isStale_of_published (r.suffix run.run) published stale nr
  refine ⟨published, publications, stale', Sweep.isSafe_of_isStale stale', ?_,
    Sweep.request_of_isStale stale', ?_⟩
  · show site'.sweep.processedBoundary (site'.current h) = .none
    unfold Sweep.processedBoundary
    rw [stale']
    rfl
  · intro f
    show (if (site'.sweep.isSafe h f site'.world).1 then _ else _) = Turn.onward (.approach f)
    rw [Sweep.isSafe_of_isStale stale']
    rfl

/-- After any number of starts that failed the sweep is stale for whatever campaign is current by
then, what is published is what was published before, and no frame counts as safe. The next turn
that wants progress walks the stack as it is then, from the innermost frame on. If a first step does
not succeed, the operation ends with that very error, or unwinds as the processor did, and one more
start has failed. If the start succeeds, what it leaves behind is what it would have left without
the others. -/
theorem retries_of_reachable (r : Reachable h birth site)
    (stale : site.sweep.isStale (site.current h) = true) {n : Nat} (run : Futile h site n site')
    (nr : Epoch.NeverReturn (epochsTo h site site')) :
    site.IsUntouched h birth site' ∧
    ∀ p b context, site'.pending p = some b → b.stage.context? = some context →
      site'.Retries h birth p b context ∧
      ((site'.launch h context).1 ≠ .ok () → Futile h site (n + 1) (site'.turn h p b)) := by
  have untouched := r.isUntouched stale run nr
  have stale' := untouched.stale
  refine ⟨untouched, ?_⟩
  intro p b context pending starts
  have r' := r.steps run.run
  refine ⟨⟨Sweep.walks_of_stale r'.valid r'.accounted starts stale', ?_, ?_⟩, ?_⟩
  · intro walkable refused
    obtain ⟨ended, -, asides⟩ := Sweep.start_of_refused
      (w := (site'.world.readEpoch h.kind).2) walkable refused
    have failed : (site'.launch h context).1 ≠ .ok () := fun ok => refused (ended ▸ ok)
    obtain ⟨turn, -, world⟩ := turn_of_launch_ne_ok (p := p) starts stale' failed
    obtain ⟨vs, v, w, seen, all, ho, after⟩ :=
      (Sweep.firstSteps_ends h context site'.sweep (site'.world.readEpoch h.kind).2).last refused
    refine ⟨vs, v, w, seen, all, ho, ?_, ?_⟩
    · rw [turn, ho]
      exact congrArg (fun o => Turn.finished (o.map fun _ => Answer.nothing)) ended
    · rw [world]
      simpa [launch] using after.trans asides
  · intro barrier fixed ok
    obtain ⟨-, alone, log, asides, moves⟩ :=
      Sweep.turn_of_stale h (w := site'.world) starts stale'
    have left := Sweep.start_of_ok fixed ok
    refine ⟨left, ?_, ?_⟩
    · intro other
      rw [sweep_turn, alone other]
      rfl
    · rw [world_turn]
      refine .trans ?_ (publications_suffix birth moves.suffix)
      rw [(asides.publications_eq birth).1, Sweep.publications_of_start_ok birth ok]
      exact List.suffix_refl _
  · exact Futile.refused p b context run pending starts stale'

/-- An increment that was refused at the first frame. -/
def rebuffed : Site Bool := (fresh.moveOn 1 true).stepped

/-- The next increment is about to take its turn, and this time the processor will do its work. -/
def resolved : Site Bool := (rebuffed.moveOn 1 false).call moody 0 .increment

theorem futile_resolved : Futile moody (fresh.moveOn 1 true) 1 resolved := by
  refine .call 0 .increment (.change _ ?_ rfl) rfl
  exact .refused 0 ⟨.increment, _⟩ none (.call 0 .increment .here rfl) rfl rfl (by decide +kernel)
    (by decide +kernel)

/-- The refusal has left no trace, and the start that follows it leaves what it would have left
without it. -/
theorem retries_of_rebuffed :
    resolved.sweep.published = .settled 0 ∧
    resolved.sweep.isStale (resolved.current moody) = true ∧
    (resolved.next 0).sweep = .begunOver Frame.barrier 2 1 fourFrames ∧
    (resolved.next 0).sweep = begun.sweep := by
  have stale :
      (fresh.moveOn 1 true).sweep.isStale ((fresh.moveOn 1 true).current moody) = true := by
    decide +kernel
  obtain ⟨untouched, retries⟩ := retries_of_reachable (reachable_fresh.moveOn 1 true) stale
    futile_resolved (by decide +kernel)
  obtain ⟨left, alone, -⟩ := (retries 0 ⟨.increment, _⟩ none rfl rfl).1.succeeded Frame.barrier
    (fun _ _ => rfl) (by decide +kernel)
  have sweep : (resolved.next 0).sweep = .begunOver Frame.barrier 2 1 fourFrames :=
    (alone nofun).trans left
  refine ⟨untouched.published, untouched.stale, sweep, ?_⟩
  rw [sweep]
  decide +kernel

end Site

end StackSweep

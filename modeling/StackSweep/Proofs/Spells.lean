import StackSweep.Proofs.Backing

/-!
# Starting a campaign once

While the epoch stays what it is, any number of parties may look without the lock whether the
campaign has been started, take the lock, look again, and start it. The stack is walked once for
each start that fails and once more for the one that succeeds. Whoever finds the campaign started,
with the lock or without, finds it started for good: the word that says so was stored after the
first frames had been processed.
-/

namespace StackSweep

variable {ς ε : Type}

/-- A start that a turn has made. -/
structure Launch (ε : Type) where
  /-- There was a stack to walk. -/
  walkable : Bool
  outcome : Outcome ε Unit
deriving DecidableEq, Repr

namespace Site

variable {h : Host ς ε} {birth e : Epoch} {site : Site ς}

/-- The start that the next turn of a call makes, if it makes one. -/
def launchOf? (h : Host ς ε) (b : Pending) (site : Site ς) : Option (Launch ε) :=
  match b.stage.context? with
  | some context =>
    if site.sweep.isStale (site.current h) then
      some ⟨site.world.thread.hasWalkableStack, (site.launch h context).1⟩
    else none
  | none => none

/-- What can happen from a site on, with the starts that are made, latest first. -/
inductive Spell (h : Host ς ε) (site : Site ς) : List (Launch ε) → Site ς → Prop
  | here : Spell h site [] site
  | change {launches site'} (w : World ς) : Spell h site launches site' →
      w.log = site'.world.log → Spell h site launches { site' with world := w }
  | call {launches site'} (p : Nat) (c : Call) : Spell h site launches site' →
      site'.pending p = none → Spell h site launches (site'.call h p c)
  | turn {launches site'} (p : Nat) (b : Pending) : Spell h site launches site' →
      site'.pending p = some b →
      Spell h site ((site'.launchOf? h b).toList ++ launches) (site'.turn h p b)

variable {site' site'' : Site ς} {launches launches' : List (Launch ε)}

theorem Spell.run (spell : Spell h site launches site') :
    Relation.ReflTransGen (Step h) site site' := by
  induction spell with
  | here => exact .refl
  | change w _ same ih => exact ih.tail (.change w same)
  | call p c _ free ih => exact ih.tail (.call p c free)
  | turn p b _ pending ih => exact ih.tail (.turn p b pending)

/-! ## An epoch that stays -/

/-- Whenever the epoch was read between the two sites, it was this one. -/
def Steady (e : Epoch) (site site' : Site ς) : Prop :=
  ∀ d ∈ readingsSince site site', d.significant = e.significant

-- Named, because the epochs are a finite type, and all of them would be gone through otherwise.
instance (e : Epoch) (site site' : Site ς) : Decidable (Steady e site site') :=
  List.decidableBAll (fun d : Epoch => d.significant = e.significant) (readingsSince site site')

theorem Steady.of_split {es : List Event} (steady : Steady e site site')
    (split : site'.world.log = es ++ site.world.log) :
    ∀ d ∈ readings es, d.significant = e.significant := by
  rw [← readingsSince_eq split]
  exact steady

/-- An epoch that stays for a whole run stays for its parts. -/
theorem Steady.parts (steady : Steady e site site'') (first : site.world.log <:+ site'.world.log)
    (then' : site'.world.log <:+ site''.world.log) :
    Steady e site site' ∧ Steady e site' site'' := by
  obtain ⟨es, split⟩ := first
  obtain ⟨es', split'⟩ := then'
  have whole : site''.world.log = (es' ++ es) ++ site.world.log := by
    rw [← split', ← split, List.append_assoc]
  have all := steady.of_split whole
  rw [readings_append] at all
  constructor
  · intro d hd
    rw [readingsSince_eq split.symm] at hd
    exact all d (List.mem_append_right _ hd)
  · intro d hd
    rw [readingsSince_eq split'.symm] at hd
    exact all d (List.mem_append_left _ hd)

/-- What is read first is the epoch that stays. -/
theorem Steady.reading {k : KindId} {d : Epoch} (steady : Steady e site site')
    (read : .epochRead k d :: site.world.log <:+ site'.world.log) :
    d.significant = e.significant := by
  obtain ⟨es, split⟩ := read
  have whole : site'.world.log = (es ++ [.epochRead k d]) ++ site.world.log := by
    rw [← split, List.append_assoc]
    rfl
  have all := steady.of_split whole
  rw [readings_append] at all
  exact all d (List.mem_append_right _ (by simp [readings]))

/-- A start reads the epoch that stays, when its turn begins and once more when it announces itself.
-/
theorem Steady.launch {p : Nat} {b : Pending} {context : Option Nat}
    (steady : Steady e site (site.turn h p b)) (starts : b.stage.context? = some context)
    (stale : site.sweep.isStale (site.current h) = true) :
    (site.current h).significant = e.significant ∧
      ((site.world.readEpoch h.kind).2.readEpoch h.kind).1.significant = e.significant := by
  obtain ⟨-, -, log, asides, moves⟩ := Sweep.turn_of_stale h (w := site.world) starts stale
  have read : (Sweep.announced h (site.world.readEpoch h.kind).2).log <:+
      (site.turn h p b).world.log :=
    (Sweep.announced_suffix h context site.sweep _).trans (asides.suffix.trans moves.suffix)
  obtain ⟨es, split⟩ := read
  have whole : (site.turn h p b).world.log =
      (es ++ [.started (h.label (site.world.readEpoch h.kind).2)
          ((site.world.readEpoch h.kind).2.readEpoch h.kind).1,
        .epochRead h.kind ((site.world.readEpoch h.kind).2.readEpoch h.kind).1,
        .epochRead h.kind (site.current h)]) ++ site.world.log := by
    rw [← split, List.append_assoc]
    rfl
  have all := steady.of_split whole
  rw [readings_append] at all
  exact ⟨all _ (List.mem_append_right _ (by simp [readings])),
    all _ (List.mem_append_right _ (by simp [readings]))⟩

/-! ## Turns while the epoch stays -/

/-- The word in memory speaks of the campaign, and so does the sweep's own epoch. -/
structure IsUnderWay (e : Epoch) (site : Site ς) : Prop where
  word : site.sweep.published.word.isOf e = true
  epoch : site.sweep.epoch.significant = e.significant

theorem glides_of_launchOf?_none {b : Pending} (p : Nat) (none : site.launchOf? h b = none) :
    site.sweep.Glides site.world.log (site.turn h p b).sweep (site.turn h p b).world.log := by
  rw [sweep_turn, world_turn]
  unfold launchOf? at none
  split at none
  · split at none
    · cases none
    · rename_i current
      rw [Bool.not_eq_true] at current
      exact Sweep.glides_of_current h current
  · exact Sweep.glides_of_context_none h ‹_›

theorem exists_of_launchOf? {b : Pending} {l : Launch ε} (found : site.launchOf? h b = some l) :
    ∃ context, b.stage.context? = some context ∧ site.sweep.isStale (site.current h) = true ∧
      l = ⟨site.world.thread.hasWalkableStack, (site.launch h context).1⟩ := by
  unfold launchOf? at found
  split at found
  · split at found
    · cases found
      exact ⟨_, ‹_›, ‹_›, rfl⟩
    · cases found
  · cases found

/-- Gliding publishes nothing for another campaign than the sweep's. -/
theorem level_of_glides {log log' : List Event} {s s' : Sweep} (glides : s.Glides log s' log')
    (level : s.published.word.isOf e = true → s.epoch.significant = e.significant) :
    (s'.published.word.isOf e = true → s'.epoch.significant = e.significant) ∧
      (s.published.word.isOf e = true → s'.published.word.isOf e = true) := by
  obtain ⟨epoch, same | ⟨d, told⟩⟩ := glides.epoch_eq
  · rw [epoch, same]
    exact ⟨level, id⟩
  · rw [epoch, told]
    exact ⟨ProgressWord.isOf_pack.1, fun of => ProgressWord.isOf_pack.2 (level of)⟩

/-- Once the campaign is under way nobody starts it again. -/
theorem IsUnderWay.turn {p : Nat} {b : Pending} (under : site.IsUnderWay e)
    (steady : Steady e site (site.turn h p b)) :
    site.launchOf? h b = none ∧ (site.turn h p b).IsUnderWay e ∧
      walked (site.turn h p b).world.log = walked site.world.log := by
  have none : site.launchOf? h b = none := by
    cases found : site.launchOf? h b with
    | none => rfl
    | some l =>
      obtain ⟨context, starts, stale, -⟩ := exists_of_launchOf? found
      have same := (steady.launch starts stale).1
      rw [Sweep.isStale, ProgressWord.isOf_congr _ same, under.word] at stale
      cases stale
  have glides := glides_of_launchOf?_none p none
  obtain ⟨level, stays⟩ := level_of_glides glides fun _ => under.epoch
  exact ⟨none, ⟨stays under.word, level (stays under.word)⟩, glides.walked_eq⟩

/-- What only depends on the sweep and on the walks there have been, and is kept by every turn while
the epoch stays, holds after a spell if it holds before. -/
theorem Spell.preserved {P : List (Launch ε) → Site ς → Prop} (spell : Spell h site launches site')
    (r : Reachable h birth site) (steady : Steady e site site') (here : P [] site)
    (idle : ∀ {launches x x'}, x'.sweep = x.sweep → walked x'.world.log = walked x.world.log →
      P launches x → P launches x')
    (turn : ∀ {launches x} p b, Steady e x (x.turn h p b) → P launches x →
      P ((x.launchOf? h b).toList ++ launches) (x.turn h p b)) : P launches site' := by
  induction spell with
  | here => exact here
  | @change launches site' w spell same ih =>
    have steady' : Steady e site site' := by
      unfold Steady readingsSince at steady ⊢
      rwa [same] at steady
    have walks : walked w.log = walked site'.world.log := congrArg walked same
    exact idle (x := site') rfl walks (ih steady')
  | @call launches site' p c spell free ih =>
    have step : Step h site' (site'.call h p c) := .call p c free
    have walks : walked (site'.call h p c).world.log = walked site'.world.log := by
      rcases log_call h p c site' with same | same
      · rw [same]
      · rw [same]
        rfl
    obtain ⟨first, -⟩ := steady.parts (r.suffix spell.run) (step.suffix r.valid)
    exact idle (sweep_call ..) walks (ih first)
  | @turn launches site' p b spell pending ih =>
    have step : Step h site' (site'.turn h p b) := .turn p b pending
    obtain ⟨first, then'⟩ := steady.parts (r.suffix spell.run) (step.suffix r.valid)
    exact turn p b then' (ih first)

theorem IsUnderWay.spell (under : site.IsUnderWay e) (r : Reachable h birth site)
    (spell : Spell h site launches site') (steady : Steady e site site') :
    site'.IsUnderWay e ∧ launches = [] ∧ walked site'.world.log = walked site.world.log := by
  refine spell.preserved (P := fun launches x =>
    x.IsUnderWay e ∧ launches = [] ∧ walked x.world.log = walked site.world.log) r steady
    ⟨under, rfl, rfl⟩ ?_ ?_
  · rintro launches x x' sweep walks ⟨⟨word, epoch⟩, none, same⟩
    rw [← sweep] at word epoch
    exact ⟨⟨word, epoch⟩, none, walks.trans same⟩
  · rintro launches x p b now ⟨under', none, same⟩
    obtain ⟨quiet, under'', walks⟩ := under'.turn now
    exact ⟨under'', by rw [quiet, none]; rfl, walks.trans same⟩

/-! ## One walk for each start -/

/-- How often the stack has been walked, and for what. -/
structure Tally (e : Epoch) (site : Site ς) (launches : List (Launch ε)) (site' : Site ς) :
    Prop where
  /-- A word of the campaign is not published for another one than the sweep's own. -/
  level : site'.sweep.published.word.isOf e = true →
    site'.sweep.epoch.significant = e.significant
  walks : (walked site'.world.log).length = (walked site.world.log).length +
    launches.countP (fun l => !l.outcome.isOk) +
    if launches.any fun l => l.walkable && l.outcome.isOk then 1 else 0
  once : launches.countP (·.outcome.isOk) ≤ 1
  started : 0 < launches.countP (·.outcome.isOk) → site'.IsUnderWay e

section tally

variable {p : Nat} {b : Pending}

/-- As long as the sweep is found stale no start has succeeded. -/
theorem Tally.none_succeeded (tally : Tally e site launches site')
    (now : (site'.current h).significant = e.significant)
    (stale : site'.sweep.isStale (site'.current h) = true) :
    site'.sweep.published.word.isOf e = false ∧ launches.countP (·.outcome.isOk) = 0 := by
  have other : site'.sweep.published.word.isOf e = false := by
    rw [← ProgressWord.isOf_congr _ now]
    simpa [Sweep.isStale] using stale
  refine ⟨other, Nat.eq_zero_of_not_pos ?_⟩
  intro some
  have under := (tally.started some).word
  rw [other] at under
  cases under

/-- A start that fails costs a walk and leaves the sweep to the next one. -/
theorem Tally.failed (tally : Tally e site launches site') {context : Option Nat}
    (starts : b.stage.context? = some context)
    (stale : site'.sweep.isStale (site'.current h) = true)
    (steady : Steady e site' (site'.turn h p b)) (failed : (site'.launch h context).1 ≠ .ok ()) :
    Tally e site (⟨site'.world.thread.hasWalkableStack, (site'.launch h context).1⟩ :: launches)
      (site'.turn h p b) := by
  obtain ⟨-, sweep, world⟩ := turn_of_launch_ne_ok (p := p) starts stale failed
  have lost : (site'.launch h context).1.isOk = false := by
    cases ho : (site'.launch h context).1 with
    | ok _ => exact absurd ho failed
    | failed _ => rfl
    | unwound _ => rfl
  obtain ⟨other, none⟩ := tally.none_succeeded (steady.launch starts stale).1 stale
  have found := Sweep.walkable_of_start_ne_ok failed
  have walkable : site'.world.thread.hasWalkableStack = true := found
  have walks : walked (site'.turn h p b).world.log =
      site'.world.thread.frames :: walked site'.world.log := by
    rw [world]
    refine (Sweep.walked_start h context site'.sweep _).trans ?_
    simp only [Sweep.snapshot?, World.thread_readEpoch, walkable, if_true]
    rfl
  have published : (site'.turn h p b).sweep.published = site'.sweep.published := by
    rw [sweep]
    exact (Sweep.published_of_start_ne_ok 0 failed).1
  refine ⟨?_, ?_, ?_, ?_⟩
  · intro of
    rw [published, other] at of
    cases of
  · rw [walks, List.length_cons, tally.walks]
    simp [lost]
    omega
  · rw [List.countP_cons, none]
    simp [lost]
  · rw [List.countP_cons, none]
    simp [lost]

/-- A start that succeeds costs one if there is a stack, and there was none before it. -/
theorem Tally.succeeded (tally : Tally e site launches site') {context : Option Nat}
    (starts : b.stage.context? = some context)
    (stale : site'.sweep.isStale (site'.current h) = true)
    (steady : Steady e site' (site'.turn h p b)) (ok : (site'.launch h context).1 = .ok ()) :
    Tally e site (⟨site'.world.thread.hasWalkableStack, (site'.launch h context).1⟩ :: launches)
      (site'.turn h p b) := by
  obtain ⟨-, -, log, asides, moves⟩ := Sweep.turn_of_stale h (w := site'.world) starts stale
  obtain ⟨now, again⟩ := steady.launch starts stale
  have none := (tally.none_succeeded now stale).2
  have before : launches.any (fun l => l.walkable && l.outcome.isOk) = false := by
    rw [List.any_eq_false]
    intro l hl
    have lost := List.countP_eq_zero.1 none l hl
    simp [lost]
  have walks : walked (site'.turn h p b).world.log =
      (Sweep.snapshot? site'.world).toList ++ walked site'.world.log := by
    rw [world_turn, moves.walked_eq, asides.walked_eq, Sweep.walked_start]
    rfl
  have under : (site'.turn h p b).IsUnderWay e := by
    obtain ⟨epoch, word⟩ := Sweep.word_of_start_ok ok
    have own := (congrArg Epoch.significant epoch).trans again
    rw [ProgressWord.isOf_congr _ again] at word
    obtain ⟨kept, same | ⟨d, told⟩⟩ := moves.epoch_eq
    · exact ⟨(congrArg (·.isOf e) same).trans word, (congrArg _ kept).trans own⟩
    · refine ⟨?_, (congrArg _ kept).trans own⟩
      rw [sweep_turn, told]
      exact ProgressWord.isOf_pack.2 own
  refine ⟨fun _ => under.epoch, ?_, ?_, fun _ => under⟩
  · rw [walks, List.length_append, tally.walks, List.any_cons, before]
    cases walkable : site'.world.thread.hasWalkableStack
    · simp [ok, Outcome.isOk, Sweep.snapshot?, walkable]
    · simp [ok, Outcome.isOk, Sweep.snapshot?, walkable]
      omega
  · rw [List.countP_cons, none]
    simp [ok, Outcome.isOk]

theorem Tally.turn (tally : Tally e site launches site')
    (steady : Steady e site' (site'.turn h p b)) :
    Tally e site ((site'.launchOf? h b).toList ++ launches) (site'.turn h p b) := by
  cases found : site'.launchOf? h b with
  | none =>
    have glides := glides_of_launchOf?_none p found
    obtain ⟨level, stays⟩ := level_of_glides glides tally.level
    refine ⟨level, ?_, tally.once, ?_⟩
    · rw [glides.walked_eq]
      exact tally.walks
    · intro some
      have of := stays (tally.started some).word
      exact ⟨of, level of⟩
  | some l =>
    obtain ⟨context, starts, stale, rfl⟩ := exists_of_launchOf? found
    by_cases ok : (site'.launch h context).1 = .ok ()
    · exact tally.succeeded starts stale steady ok
    · exact tally.failed starts stale steady ok

theorem Tally.idle (tally : Tally e site launches site') (sweep : site''.sweep = site'.sweep)
    (walks : walked site''.world.log = walked site'.world.log) : Tally e site launches site'' := by
  refine ⟨?_, ?_, tally.once, ?_⟩
  · rw [sweep]
    exact tally.level
  · rw [walks]
    exact tally.walks
  · intro some
    obtain ⟨word, epoch⟩ := tally.started some
    rw [← sweep] at word epoch
    exact ⟨word, epoch⟩

end tally

theorem Spell.tally (spell : Spell h site launches site') (r : Reachable h birth site)
    (stale : site.sweep.isStale e = true) (steady : Steady e site site') :
    Tally e site launches site' := by
  refine spell.preserved r steady ⟨?_, rfl, Nat.zero_le 1, nofun⟩
    (fun sweep walks tally => tally.idle sweep walks) (fun p b now tally => tally.turn now)
  intro of
  rw [Sweep.isStale, of] at stale
  cases stale

/-! ## Whoever finds it started -/

/-- A start of the campaign has been published since the site was this one, and before that it had
processed the first frames of its stack. -/
def HasBegun (h : Host ς ε) (birth e : Epoch) (site : Site ς) (log : List Event) : Prop :=
  ∃ l w earlier, ∃ a : Attempt, .wordStored l w :: earlier <:+ log ∧ site.world.log <:+ earlier ∧
    w.isOf e = true ∧ a.Backs h.pacing.initialFrames birth w earlier ∧
    ∃ l', .started l' a.epoch ∈ earlier

/-- If memory holds a word of the campaign at any moment, even in the middle of a turn, then the
campaign has been started by then. -/
theorem Reachable.hasBegun (r : Reachable h birth site) (stale : site.sweep.isStale e = true)
    (r' : Reachable h birth site') {moment : List Event} (since : site.world.log <:+ moment)
    (until' : moment <:+ site'.world.log) (of : (wordIn birth moment).isOf e = true) :
    HasBegun h birth e site moment := by
  rw [Sweep.isStale, Bool.not_eq_true'] at stale
  have changed : wordIn birth site.world.log ≠ wordIn birth moment := by
    intro same
    rw [← same, r.earned.word, stale] at of
    cases of
  rcases (r'.earned.backed.of_suffix until').exists_stored with
    none | ⟨l, earlier, stored, before, a, backs, announced⟩
  · exact absurd (none _ since) changed
  · have first := (before _ since).resolve_right changed
    rcases announced with started | ⟨own, all⟩
    · exact ⟨l, _, earlier, a, stored, first, of, backs, started⟩
    · -- The campaign would be that of the birth, which memory had when the site was this one.
      have same := ProgressWord.significant_eq of backs.word
      obtain ⟨p, mem, word⟩ := wordIn_mem_publications birth site.world.log
      have spoke := all p ((publications_suffix birth first).subset mem)
      rw [word, r.earned.word, ← own, ← ProgressWord.isOf_congr _ same, stale] at spoke
      cases spoke

/-- What holds of a spell that began while nothing was published for the campaign. -/
structure StartsOnce (h : Host ς ε) (birth e : Epoch) (site : Site ς) (launches : List (Launch ε))
    (site' : Site ς) : Prop extends Tally e site launches site' where
  /-- Who finds that the campaign has been started does not walk. -/
  found : ∀ p b, site'.sweep.isStale (site'.current h) = false →
    walked (site'.turn h p b).world.log = walked site'.world.log
  /-- After a start that succeeded nobody starts again. -/
  quiet : 0 < launches.countP (·.outcome.isOk) → ∀ launches' site'',
    Spell h site' launches' site'' → Steady e site' site'' →
    launches' = [] ∧ walked site''.world.log = walked site'.world.log
  /-- Nobody sees a word of the campaign before it has begun. -/
  shown : ∀ moment, site.world.log <:+ moment → moment <:+ site'.world.log →
    (wordIn birth moment).isOf e = true → HasBegun h birth e site moment
  /-- A request that is settled without the lock finds it begun. -/
  settled : ∀ p, (Call.request.openWith h site'.sweep.published site'.world).1 = .settled →
    Steady e site (site'.call h p .request) → HasBegun h birth e site site'.world.log
  /-- A request that has had the lock and ends well leaves it begun. -/
  granted : ∀ p b a, site'.pending p = some b → b.stage = .start →
    (b.stage.turn h site'.sweep site'.world).1 = .finished (.ok a) →
    Steady e site (site'.turn h p b) → HasBegun h birth e site (site'.turn h p b).world.log

/-- A turn for a request that ends well leaves a word of the campaign. -/
theorem word_of_granted {p : Nat} {b : Pending} {a : Answer} (start : b.stage = .start)
    (done : (b.stage.turn h site.sweep site.world).1 = .finished (.ok a))
    (steady : Steady e site (site.turn h p b)) :
    (site.turn h p b).sweep.published.word.isOf e = true := by
  have starts : b.stage.context? = some none := by
    rw [start]
    rfl
  by_cases stale : site.sweep.isStale (site.current h) = true
  · by_cases ok : (site.launch h none).1 = .ok ()
    · have word := (Sweep.word_of_start_ok ok).2
      rw [ProgressWord.isOf_congr _ (steady.launch starts stale).2] at word
      rw [sweep_turn, (Sweep.turn_of_stale h starts stale).2.1 (by simp [start])]
      exact word
    · rw [(turn_of_launch_ne_ok (p := p) starts stale ok).1] at done
      exact absurd (Sweep.ok_of_ended done) ok
  · -- The turn has looked at the epoch and left everything as it was.
    rw [Bool.not_eq_true] at stale
    have turn : b.stage.turn h site.sweep site.world =
        (.finished (.ok .nothing), site.sweep, (site.world.readEpoch h.kind).2) := by
      rw [start]
      show Stage.ended (site.sweep.ensureStarted h none site.world) = _
      unfold Sweep.ensureStarted
      simp only [show site.sweep.isStale (site.world.readEpoch h.kind).1 = false from stale,
        Bool.false_eq_true, if_false]
      rfl
    have same : (site.current h).significant = e.significant := by
      refine steady.reading (k := h.kind) ?_
      rw [world_turn, turn]
      exact List.suffix_refl _
    rw [sweep_turn, turn, ← ProgressWord.isOf_congr _ same]
    simpa [Sweep.isStale] using stale

/-- In any spell that begins while nothing is published for the campaign, and during which the epoch
stays, the stack is walked once for each start that fails and once for the one that succeeds, if
there is a stack then. Who finds the campaign started finds that its first frames have been
processed, and does not walk. -/
theorem startsOnce_of_spell (r : Reachable h birth site) (stale : site.sweep.isStale e = true)
    (spell : Spell h site launches site') (steady : Steady e site site') :
    StartsOnce h birth e site launches site' := by
  have tally := spell.tally r stale steady
  have r' := r.steps spell.run
  have since := r.suffix spell.run
  refine ⟨tally, ?_, ?_, ?_, ?_, ?_⟩
  · intro p b current
    exact (Sweep.glides_of_current h (w := site'.world) current).walked_eq
  · intro some launches' site'' spell' steady'
    exact ((tally.started some).spell r' spell' steady').2
  · intro moment since' until' of
    exact r.hasBegun stale r' since' until' of
  · intro p shortcut steady'
    have same : (site'.current h).significant = e.significant :=
      (steady'.parts since (List.suffix_cons _ _)).2.reading (k := h.kind) (List.suffix_refl _)
    refine r.hasBegun stale r' since (List.suffix_refl _) ?_
    rw [r'.earned.word, ← ProgressWord.isOf_congr _ same]
    by_cases of : site'.sweep.published.word.isOf (site'.current h) = true
    · exact of
    · have missed : (Call.request.openWith h site'.sweep.published site'.world).1 = .needs .start :=
        if_neg of
      rw [missed] at shortcut
      cases shortcut
  · intro p b a pending start done steady'
    have step : Step h site' (site'.turn h p b) := .turn p b pending
    have then' := step.suffix r.valid
    have of := word_of_granted start done (steady'.parts since then').2
    have r'' := r'.step step
    refine r.hasBegun stale r'' (since.trans then') (List.suffix_refl _) ?_
    rw [r''.earned.word]
    exact of

/-- An increment has been refused, and now a request and a drain wait for the lock. -/
def contended : Site Bool :=
  (((fresh.moveOn 1 true).stepped.moveOn 1 false).call moody 1 .request).call moody 0 (.drain none)

/-- The drain gets it first. -/
theorem spell_contended : Spell moody (fresh.moveOn 1 true)
    [⟨true, .ok ()⟩, ⟨true, .failed "refused"⟩] (contended.next 0) := by
  have called :
      Spell moody (fresh.moveOn 1 true) [] ((fresh.moveOn 1 true).call moody 0 .increment) :=
    .call 0 .increment .here rfl
  have refused := called.turn 0 ⟨.increment, _⟩ rfl
  have waiting : Spell moody (fresh.moveOn 1 true) _ contended :=
    .call 0 (.drain none) (.call 1 .request (.change _ refused rfl) rfl) rfl
  exact waiting.turn 0 ⟨.drain none, _⟩ rfl

/-- The stack has been walked twice, once in vain. The request finds the campaign begun when it has
its turn, and so does one that is made afterwards. -/
theorem startsOnce_of_contended :
    (walked (contended.next 0).world.log).length = 2 ∧
    walked ((contended.next 0).next 1).world.log = walked (contended.next 0).world.log ∧
    HasBegun moody 0 1 (fresh.moveOn 1 true) ((contended.next 0).next 1).world.log ∧
    HasBegun moody 0 1 (fresh.moveOn 1 true) (contended.next 0).world.log := by
  have once : StartsOnce moody 0 1 (fresh.moveOn 1 true) _ (contended.next 0) :=
    startsOnce_of_spell (reachable_fresh.moveOn 1 true) (by decide +kernel) spell_contended
      (by decide +kernel)
  refine ⟨once.walks, ?_, ?_, ?_⟩
  · exact once.found 1 ⟨.start, _⟩ (by decide +kernel)
  · exact once.granted 1 ⟨.start, _⟩ .nothing rfl rfl rfl (by decide +kernel)
  · exact once.settled 2 rfl (by decide +kernel)

end Site

end StackSweep

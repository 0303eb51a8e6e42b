import StackSweep.Proofs.Retries
import StackSweep.Proofs.Tandem

/-!
# Campaigns do not depend on what came before

Two sweeps with any pasts whatever that are stale for the same campaign, in worlds in which the
thread and the epochs are the same. If the same is done to both from then on, nobody can tell them
apart: the same frames are processed, every call ends in the same way, and the same is logged. As
soon as one start has succeeded the sweeps are the same altogether.
-/

namespace StackSweep

variable {ς ς' ε : Type}

/-! ## Worlds that resemble each other -/

/-- What a world has beside the thread, the epochs and the log. -/
def World.beside (w : World ς) : List Sweep × List Nat × ς := (w.sweeps, w.held, w.rest)

/-- The thread and the epochs are the same, and the rest corresponds. How often the thread has been
walked and what has been logged does not count. -/
structure World.Resembles (B : List Sweep × List Nat × ς → List Sweep × List Nat × ς' → Prop)
    (w : World ς) (w' : World ς') : Prop where
  thread : ∃ n, w'.thread = { w.thread with walks := n }
  epochs : w'.epochs = w.epochs
  beside : B w.beside w'.beside

/-- The hosts do the same in worlds that resemble each other. Their processors may look at what a
sweep has published, but cannot tell corresponding states. -/
structure Host.ActsAlike (h : Host ς ε) (h' : Host ς' ε)
    (B : List Sweep × List Nat × ς → List Sweep × List Nat × ς' → Prop)
    (P : Published → Published → Prop) : Prop where
  kind : h'.kind = h.kind
  pacing : h'.pacing = h.pacing
  onIteration : h'.onIteration = h.onIteration
  describe : h'.describe = h.describe
  same (p : Published) : P p p
  waiters {w w'} : w.Resembles B w' → h'.waiters w' = h.waiters w
  barrier {w w'} (f : Frame) : w.Resembles B w' → h'.hasBarrier f w' = h.hasBarrier f w
  process {w w' p p'} (f : Frame) (registers : Nat) (context : Option Nat) :
    w.Resembles B w' → P p p' → w.log = [] → w'.log = [] →
    (h'.process ⟨f, registers, context, p'⟩ w').1 = (h.process ⟨f, registers, context, p⟩ w).1 ∧
    (h'.process ⟨f, registers, context, p'⟩ w').2.log =
      (h.process ⟨f, registers, context, p⟩ w).2.log ∧
    (h.process ⟨f, registers, context, p⟩ w).2.Resembles B
      (h'.process ⟨f, registers, context, p'⟩ w').2

/-- The event without what the sweep had published when a frame was handed out. -/
def Event.blank : Event → Event
  | .visit l v inside verdict => .visit l { v with published := default } inside verdict
  | e => e

/-- The same has been added to both logs, but for what was published when frames were handed out. -/
def SameSince (log₀ log₀' log log' : List Event) : Prop :=
  ∃ es es', log = es ++ log₀ ∧ log' = es' ++ log₀' ∧ es'.map Event.blank = es.map Event.blank

namespace SameSince

variable {log₀ log₀' log log' : List Event}

theorem refl (log₀ log₀' : List Event) : SameSince log₀ log₀' log₀ log₀' := ⟨[], [], rfl, rfl, rfl⟩

theorem cons {e e' : Event} (since : SameSince log₀ log₀' log log') (same : e'.blank = e.blank) :
    SameSince log₀ log₀' (e :: log) (e' :: log') := by
  obtain ⟨es, es', rfl, rfl, all⟩ := since
  exact ⟨e :: es, e' :: es', rfl, rfl, by simp [same, all]⟩

theorem append (since : SameSince log₀ log₀' log log') (es : List Event) :
    SameSince log₀ log₀' (es ++ log) (es ++ log') := by
  induction es with
  | nil => exact since
  | cons e es ih => exact ih.cons rfl

end SameSince

/-- The worlds resemble each other, and the same has been logged in both since then. -/
def World.Follows (B : List Sweep × List Nat × ς → List Sweep × List Nat × ς' → Prop)
    (log₀ log₀' : List Event) (w : World ς) (w' : World ς') : Prop :=
  w.Resembles B w' ∧ SameSince log₀ log₀' w.log w'.log

namespace Host.ActsAlike

variable {h : Host ς ε} {h' : Host ς' ε}
  {B : List Sweep × List Nat × ς → List Sweep × List Nat × ς' → Prop}
  {P : Published → Published → Prop}

theorem label {w : World ς} {w' : World ς'} (acts : h.ActsAlike h' B P) (like : w.Resembles B w') :
    h'.label w' = h.label w := by
  obtain ⟨n, thread⟩ := like.thread
  unfold Host.label
  rw [thread, acts.kind]

theorem tallies (acts : h.ActsAlike h' B P) (log₀ log₀' : List Event) :
    h.Tallies h' P (World.Follows B log₀ log₀') where
  kind := acts.kind
  pacing := acts.pacing
  onIteration := acts.onIteration
  describe := acts.describe
  same := acts.same
  tid := by
    rintro w w' ⟨⟨⟨n, thread⟩, -, -⟩, -⟩
    rw [thread]
  record := by
    rintro w w' e ⟨⟨thread, epochs, beside⟩, since⟩
    exact ⟨⟨thread, epochs, beside⟩, since.cons rfl⟩
  yield := by
    rintro w w' n ⟨like, since⟩
    rw [acts.label like, acts.waiters like]
    exact ⟨⟨like.thread, like.epochs, like.beside⟩, since.cons rfl⟩
  enter := by
    rintro w w' ⟨⟨⟨n, thread⟩, epochs, beside⟩, since⟩
    refine ⟨⟨⟨n, ?_⟩, epochs, beside⟩, ?_⟩
    · rw [Bracket.thread_enter, Bracket.thread_enter, thread]
    · rw [Bracket.log_enter, Bracket.log_enter, Bracket.fst_enter, Bracket.fst_enter, thread]
      exact since.append _
  leave := by
    rintro v v' w w' ⟨⟨⟨m, before⟩, -, -⟩, -⟩ ⟨⟨⟨n, thread⟩, epochs, beside⟩, since⟩
    refine ⟨⟨⟨n, ?_⟩, epochs, beside⟩, ?_⟩
    · rw [Bracket.thread_leave, Bracket.thread_leave, Bracket.fst_enter, Bracket.fst_enter, before,
        thread]
    · rw [Bracket.log_leave, Bracket.log_leave, Bracket.fst_enter, Bracket.fst_enter, before,
        thread]
      exact since.append _
  barrier f like := acts.barrier f like.1
  visit := by
    rintro w w' p p' f registers context ⟨like, since⟩ hp
    have inside : World.Resembles B { w with log := [] } { w' with log := [] } :=
      ⟨like.thread, like.epochs, like.beside⟩
    obtain ⟨outcome, log, after⟩ := acts.process f registers context inside hp rfl rfl
    refine ⟨outcome, ⟨after.thread, after.epochs, after.beside⟩, since.cons ?_⟩
    simp only [Event.blank, acts.label like, outcome, log]

theorem concurs (h : Host ς ε) (h' : Host ς' ε)
    (B : List Sweep × List Nat × ς → List Sweep × List Nat × ς' → Prop) (log₀ log₀' : List Event) :
    h.Concurs h' (World.Follows B log₀ log₀') (World.Follows B log₀ log₀') where
  weaken := id
  epoch := by
    rintro w w' ⟨like, -⟩
    unfold World.readEpoch
    rw [like.epochs]
  read := by
    rintro w w' ⟨⟨thread, epochs, beside⟩, since⟩
    unfold World.readEpoch
    rw [epochs]
    exact ⟨⟨thread, rfl, beside⟩, since.cons rfl⟩
  started := by
    rintro w w' l e ⟨⟨thread, epochs, beside⟩, since⟩
    exact ⟨⟨thread, epochs, beside⟩, since.cons rfl⟩
  stack := by
    rintro w w' ⟨⟨⟨n, thread⟩, -, -⟩, -⟩
    rw [thread]
    exact ⟨rfl, rfl⟩
  walk := by
    rintro w w' ⟨⟨⟨n, thread⟩, epochs, beside⟩, since⟩
    refine ⟨⟨⟨n + 1, ?_⟩, epochs, beside⟩, ?_⟩
    · simp only [World.walkStack, World.thread_record, World.thread_setThread, thread]
    · simp only [World.walkStack, World.log_record, World.log_setThread, thread]
      exact since.cons rfl

end Host.ActsAlike

namespace Site

/-! ## The same is done to both -/

/-- What a party may do. -/
inductive Act
  | call (p : Nat) (c : Call)
  | turn (p : Nat)

/-- What a party gets to know. -/
inductive Reply (ε : Type)
  | opened (o : Opening)
  | taken (t : Turn ε)

/-- Whoever is in a call makes no other, and whoever is in none has no turn. -/
def perform (h : Host ς ε) (a : Act) (site : Site ς) : Site ς × Option (Reply ε) :=
  match a with
  | .call p c =>
    match site.pending p with
    | none => (site.call h p c, some (.opened (c.openWith h site.sweep.published site.world).1))
    | some _ => (site, none)
  | .turn p =>
    match site.pending p with
    | none => (site, none)
    | some b => (site.turn h p b, some (.taken (b.stage.turn h site.sweep site.world).1))

/-- The same is done to both sites. The replies stand before what has become of them, latest first.
Nothing says that they are the same. -/
inductive Together (h : Host ς ε) (h' : Host ς' ε)
    (B : List Sweep × List Nat × ς → List Sweep × List Nat × ς' → Prop) (site : Site ς)
    (site' : Site ς') :
    List (Option (Reply ε)) → List (Option (Reply ε)) → Site ς → Site ς' → Prop
  | here : Together h h' B site site' [] [] site site'
  /-- The worlds change, in ways that resemble each other. -/
  | change {rs rs' s s'} (w : World ς) (w' : World ς') : Together h h' B site site' rs rs' s s' →
      w.log = s.world.log → w'.log = s'.world.log → w.Resembles B w' →
      Together h h' B site site' rs rs' { s with world := w } { s' with world := w' }
  | perform {rs rs' s s'} (a : Act) : Together h h' B site site' rs rs' s s' →
      Together h h' B site site' ((s.perform h a).2 :: rs) ((s'.perform h' a).2 :: rs')
        (s.perform h a).1 (s'.perform h' a).1

theorem run_perform (h : Host ς ε) (a : Act) (site : Site ς) :
    Relation.ReflTransGen (Step h) site (site.perform h a).1 := by
  cases a with
  | call p c =>
    cases free : site.pending p with
    | none =>
      simp only [perform, free]
      exact .single (.call p c free)
    | some b =>
      simp only [perform, free]
      exact .refl
  | turn p =>
    cases pending : site.pending p with
    | none =>
      simp only [perform, pending]
      exact .refl
    | some b =>
      simp only [perform, pending]
      exact .single (.turn p b pending)

/-- The sites have the same epoch, and both sweeps are stale for it. Nobody is in a call. -/
structure OnPar (h : Host ς ε) (h' : Host ς' ε)
    (B : List Sweep × List Nat × ς → List Sweep × List Nat × ς' → Prop)
    (P : Published → Published → Prop) (birth birth' : Epoch) (site : Site ς) (site' : Site ς') :
    Prop where
  acts : h.ActsAlike h' B P
  reachable : Reachable h birth site
  reachable' : Reachable h' birth' site'
  world : site.world.Resembles B site'.world
  idle : ∀ p, site.pending p = none
  idle' : ∀ p, site'.pending p = none
  stale : site.sweep.isStale (site.current h) = true
  stale' : site'.sweep.isStale (site'.current h') = true
  told : P site.sweep.published site'.sweep.published

section together

variable {h : Host ς ε} {h' : Host ς' ε}
  {B : List Sweep × List Nat × ς → List Sweep × List Nat × ς' → Prop}
  {P : Published → Published → Prop} {birth birth' : Epoch} {site s : Site ς} {site' s' : Site ς'}
  {rs rs' : List (Option (Reply ε))}

theorem Together.runs (both : Together h h' B site site' rs rs' s s') :
    Relation.ReflTransGen (Step h) site s ∧ Relation.ReflTransGen (Step h') site' s' := by
  induction both with
  | here => exact ⟨.refl, .refl⟩
  | change w w' _ log log' _ ih => exact ⟨ih.1.tail (.change w log), ih.2.tail (.change w' log')⟩
  | perform a _ ih => exact ⟨ih.1.trans (run_perform h a _), ih.2.trans (run_perform h' a _)⟩

/-- The epochs that were read up to the second site, latest first. What is current at the first
counts as read. -/
def epochsSince (h : Host ς ε) (site s : Site ς) : List Epoch :=
  readingsSince site s ++ site.current h :: readings site.world.log

/-- A sweep that is stale at one site has not published any epoch that is read later. -/
theorem Reachable.isOf_of_read (r : Reachable h birth site)
    (stale : site.sweep.isStale (site.current h) = true)
    (nr : Epoch.NeverReturn (epochsSince h site s)) {k : KindId} {e : Epoch} {log : List Event}
    (since : site.world.log <:+ log) (read : .epochRead k e :: log <:+ s.world.log) :
    site.sweep.published.word.isOf e = false := by
  obtain ⟨es, rfl⟩ := since
  obtain ⟨later, split⟩ := read
  have between : readingsSince site s = readings later ++ e :: readings es := by
    have added : s.world.log = (later ++ .epochRead k e :: es) ++ site.world.log := by
      simp [← split]
    simp [readingsSince_eq added, readings_append, readings]
  rw [epochsSince, between, List.append_assoc, List.cons_append] at nr
  exact r.isOf_later stale (nr.of_suffix (List.suffix_append (readings later) _))

theorem epochsSince_suffix (h : Host ς ε) {s₁ : Site ς} (since : site.world.log <:+ s.world.log)
    (later : s.world.log <:+ s₁.world.log) : epochsSince h site s <:+ epochsSince h site s₁ := by
  obtain ⟨es, hs⟩ := since
  obtain ⟨es₁, hs₁⟩ := later
  have added : s₁.world.log = (es₁ ++ es) ++ site.world.log := by simp [hs, hs₁]
  unfold epochsSince
  rw [readingsSince_eq hs.symm, readingsSince_eq added, readings_append, List.append_assoc]
  exact List.suffix_append _ _

/-- A turn that starts the campaign reads the epoch once to see that it has to, and again when it
starts. -/
theorem reads_of_start (h : Host ς ε) {stage : Stage} {c : Option Nat}
    (starts : stage.context? = some c) {s : Sweep} {w : World ς}
    (stale : s.isStale (w.readEpoch h.kind).1 = true) :
    .epochRead h.kind ((w.readEpoch h.kind).2.readEpoch h.kind).1 :: (w.readEpoch h.kind).2.log <:+
      (stage.turn h s w).2.2.log := by
  obtain ⟨-, -, log, asides, moves⟩ := Sweep.turn_of_stale h (w := w) starts stale
  have announced := Sweep.announced_suffix h c s (w.readEpoch h.kind).2
  exact .trans ⟨[_], rfl⟩ (announced.trans (asides.suffix.trans moves.suffix))

/-! ## What stays the same -/

/-- Nothing has been published since, and no drain is about to resume. -/
structure Waits (birth : Epoch) (site s : Site ς) : Prop where
  published : s.sweep.published = site.sweep.published
  told : publications birth s.world.log = publications birth site.world.log
  resumes : ∀ p b, s.pending p = some b → ∀ c, b.stage ≠ .resume c

/-- The second pair of sites has come from the first in the same way. The sweeps are the same by now
unless none of them has published anything since. -/
structure Shadows (h : Host ς ε) (h' : Host ς' ε)
    (B : List Sweep × List Nat × ς → List Sweep × List Nat × ς' → Prop) (birth birth' : Epoch)
    (site s : Site ς) (site' s' : Site ς') : Prop where
  world : s.world.Follows B site.world.log site'.world.log s'.world
  stages : ∀ p, (s'.pending p).map Pending.stage = (s.pending p).map Pending.stage
  sweep : s'.sweep = s.sweep ∨ site.Waits birth s ∧ site'.Waits birth' s'

theorem waits_of_idle (idle : ∀ p, site.pending p = none) : site.Waits birth site := by
  refine ⟨rfl, rfl, ?_⟩
  intro p b hb
  rw [idle p] at hb
  cases hb

theorem Waits.change (waits : site.Waits birth s) {w : World ς} (same : w.log = s.world.log) :
    site.Waits birth { s with world := w } := by
  refine ⟨waits.published, ?_, waits.resumes⟩
  rw [same]
  exact waits.told

/-- A party that is now in another stage, but not about to resume a drain, makes no difference. -/
theorem Waits.assign (waits : site.Waits birth s) {s₁ : Site ς} {p : Nat} {b? : Option Pending}
    (published : s₁.sweep.published = s.sweep.published)
    (told : publications birth s₁.world.log = publications birth s.world.log)
    (next : ∀ b c, b? = some b → b.stage ≠ .resume c)
    (pending : ∀ q, s₁.pending q = if q = p then b? else s.pending q) : site.Waits birth s₁ := by
  refine ⟨published.trans waits.published, told.trans waits.told, ?_⟩
  intro q b hb c
  rw [pending q] at hb
  by_cases hq : q = p
  · rw [if_pos hq] at hb
    exact next b c hb
  · rw [if_neg hq] at hb
    exact waits.resumes q b hb c

/-- No call begins by resuming a drain. -/
theorem openWith_ne_resume (h : Host ς ε) (c : Call) (published : Published) (w : World ς)
    (context : Option Nat) :
    (c.openWith h published w).1.stage? ≠ some (.resume context) := by
  have securing (f? : Option Frame) : (Call.securing f?).stage? ≠ some (.resume context) := by
    cases f? <;> simp [Call.securing, Opening.stage?]
  cases c with
  | request =>
    simp only [Call.openWith]
    split <;> simp [Opening.stage?]
  | iterate f =>
    simp only [Call.openWith]
    split <;> simp [Opening.stage?]
  | beforeUnwind => exact securing _
  | afterUnwind => exact securing _
  | _ => simp [Call.openWith, Opening.stage?]

theorem Waits.call (waits : site.Waits birth s) (h : Host ς ε) (p : Nat) (c : Call) :
    site.Waits birth (s.call h p c) := by
  refine waits.assign (p := p) rfl ?_ ?_ fun q => rfl
  · rcases log_call h p c s with same | same
    · rw [same]
    · rw [same]
      rfl
  · intro b context hb stage
    obtain ⟨stage', opening, rfl⟩ := Option.map_eq_some_iff.1 hb
    exact openWith_ne_resume h c _ _ context (opening.trans (congrArg some stage))

/-- A look is not followed by a drain that resumes. -/
theorem turn_ne_resume (h : Host ς ε) {stage : Stage} (look : stage.IsLook) (s : Sweep)
    (w : World ς) (context : Option Nat) :
    (stage.turn h s w).1.next? ≠ some (.resume context) := by
  cases stage with
  | secure f =>
    simp only [Stage.turn]
    split <;> simp [Turn.next?]
  | judge f => simp [Stage.turn, Turn.next?]
  | locate => simp [Stage.turn, Turn.next?]
  | _ => cases look

theorem Waits.look (waits : site.Waits birth s) (h : Host ς ε) (p : Nat) {b : Pending}
    (look : b.stage.IsLook) : site.Waits birth (s.turn h p b) := by
  have same := Sweep.turn_of_isLook h (s := s.sweep) (w := s.world) look
  refine waits.assign (p := p) ?_ ?_ ?_ fun q => rfl
  · rw [sweep_turn, same]
  · rw [world_turn, same]
    rfl
  · intro b' context hb
    obtain ⟨stage, next, rfl⟩ := Option.map_eq_some_iff.1 hb
    rintro rfl
    exact turn_ne_resume h look s.sweep s.world context next

/-- A start that fails publishes nothing, and its operation is over. -/
theorem Waits.refused (waits : site.Waits birth s) (p : Nat) {b : Pending} {c : Option Nat}
    (starts : b.stage.context? = some c) (stale : s.sweep.isStale (s.current h) = true)
    (failed : (s.launch h c).1 ≠ .ok ()) : site.Waits birth (s.turn h p b) := by
  obtain ⟨turn, sweep, world⟩ := turn_of_launch_ne_ok (p := p) starts stale failed
  obtain ⟨published, publications⟩ := Sweep.published_of_start_ne_ok birth failed
  refine waits.assign (p := p) ?_ ?_ ?_ fun q => rfl
  · rw [sweep]
    exact published
  · rw [world]
    exact publications
  · intro b' context hb
    rw [turn] at hb
    cases hb

theorem Shadows.alike (sh : Shadows h h' B birth birth' site s site' s') {e : Epoch}
    (other : site.sweep.published.word.isOf e = false)
    (other' : site'.sweep.published.word.isOf e = false) : s.sweep.Alike e s'.sweep := by
  rcases sh.sweep with same | ⟨waits, waits'⟩
  · exact .inl same
  · rw [Sweep.Alike, waits.published, waits'.published]
    exact .inr ⟨other, other'⟩

theorem Shadows.current_eq (acts : h.ActsAlike h' B P)
    (sh : Shadows h h' B birth birth' site s site' s') : s'.current h' = s.current h := by
  unfold Site.current
  rw [acts.kind]
  exact (Host.ActsAlike.concurs h h' B site.world.log site'.world.log).epoch sh.world

/-- A start that comes next reads the same epoch. -/
theorem Shadows.next_eq (acts : h.ActsAlike h' B P)
    (sh : Shadows h h' B birth birth' site s site' s') :
    ((s'.world.readEpoch h'.kind).2.readEpoch h'.kind).1 =
      ((s.world.readEpoch h.kind).2.readEpoch h.kind).1 := by
  have conc := Host.ActsAlike.concurs h h' B site.world.log site'.world.log
  rw [acts.kind]
  exact conc.epoch (conc.read sh.world)

theorem Shadows.call (acts : h.ActsAlike h' B P) (sh : Shadows h h' B birth birth' site s site' s')
    (p : Nat) (c : Call) (now : c = .request → s.sweep.Alike (s.current h) s'.sweep) :
    (c.openWith h' s'.sweep.published s'.world).1 = (c.openWith h s.sweep.published s.world).1 ∧
      Shadows h h' B birth birth' site (s.call h p c) site' (s'.call h' p c) := by
  obtain ⟨opening, world⟩ :=
    (acts.tallies _ _).openWith (Host.ActsAlike.concurs h h' B _ _) c sh.world now
  refine ⟨opening, world, ?_, ?_⟩
  · intro q
    simp only [Site.call, pending_assign, opening]
    by_cases hq : q = p
    · simp only [hq, if_true, Option.map_map]
      rfl
    · simp only [hq, if_false]
      exact sh.stages q
  · exact sh.sweep.imp id fun ⟨waits, waits'⟩ => ⟨waits.call h p c, waits'.call h' p c⟩

/-- A stage looks, or starts the campaign if it has to, or goes on with a drain. -/
theorem stage_cases (stage : Stage) :
    stage.IsLook ∨ (∃ c, stage.context? = some c) ∨ ∃ c, stage = .resume c := by
  cases stage <;> simp [Stage.IsLook, Stage.context?]

theorem Shadows.turn (acts : h.ActsAlike h' B P)
    (told : P site.sweep.published site'.sweep.published)
    (sh : Shadows h h' B birth birth' site s site' s') (p : Nat) {b b' : Pending}
    (pending : s.pending p = some b) (stage : b'.stage = b.stage)
    (now : (∀ c, b.stage ≠ .resume c) → s.sweep.Alike (s.current h) s'.sweep)
    (next : ∀ c, b.stage.context? = some c → s.sweep.isStale (s.current h) = true →
      s.sweep.Alike ((s.world.readEpoch h.kind).2.readEpoch h.kind).1 s'.sweep) :
    (b'.stage.turn h' s'.sweep s'.world).1 = (b.stage.turn h s.sweep s.world).1 ∧
      Shadows h h' B birth birth' site (s.turn h p b) site' (s'.turn h' p b') := by
  have tal := acts.tallies site.world.log site'.world.log
  have conc := Host.ActsAlike.concurs h h' B site.world.log site'.world.log
  have hp : P s.sweep.published s'.sweep.published := by
    rcases sh.sweep with same | ⟨waits, waits'⟩
    · rw [same]
      exact acts.same _
    · rw [waits.published, waits'.published]
      exact told
  have resumes (c : Option Nat) (hc : b.stage = .resume c) : s'.sweep = s.sweep := by
    rcases sh.sweep with same | ⟨waits, -⟩
    · exact same
    · exact absurd hc (waits.resumes p b pending c)
  have now' : s.sweep.Alike (s.current h) s'.sweep := by
    by_cases resumed : ∃ c, b.stage = .resume c
    · obtain ⟨c, hc⟩ := resumed
      exact .inl (resumes c hc)
    · exact now (not_exists.1 resumed)
  rw [stage]
  obtain ⟨outcome, world, result⟩ := tal.turn conc b.stage sh.world hp now' next resumes
  refine ⟨outcome, ⟨?_, ?_, ?_⟩⟩
  · rw [world_turn, world_turn, stage]
    exact world
  · intro q
    simp only [Site.turn, pending_assign, stage, outcome]
    by_cases hq : q = p
    · simp only [hq, if_true, Option.map_map]
      rfl
    · simp only [hq, if_false]
      exact sh.stages q
  · rw [sweep_turn, sweep_turn, stage]
    rcases sh.sweep with same | ⟨waits, waits'⟩
    · exact .inl (result (.inl same))
    · rcases stage_cases b.stage with look | ⟨c, starts⟩ | ⟨c, hc⟩
      · exact .inr ⟨waits.look h p look, waits'.look h' p (stage ▸ look)⟩
      · by_cases stale : s.sweep.isStale (s.current h) = true
        · -- Whether the sweeps are the same from now on depends on how the start ends.
          have stale' : s'.sweep.isStale (s'.current h') = true := by
            rw [sh.current_eq acts, now'.isStale]
            exact stale
          have ensured := tal.ensureStarted c conc sh.world hp now' (next c starts)
          by_cases ok : (s.sweep.ensureStarted h c s.world).1 = .ok ()
          · exact .inl (result (.inr ⟨c, starts, ok⟩))
          · have failed : (s.launch h c).1 ≠ .ok () := by
              rwa [Sweep.ensureStarted_of_stale h c stale] at ok
            have failed' : (s'.launch h' c).1 ≠ .ok () := by
              rwa [← ensured.outcome, Sweep.ensureStarted_of_stale h' c stale'] at ok
            exact .inr ⟨waits.refused p starts stale failed,
              waits'.refused p (stage ▸ starts) stale' failed'⟩
        · exact .inl (result (.inl (now'.eq_of_current stale)))
      · exact absurd hc (waits.resumes p b pending c)

/-- A party is in the same stage of its call in both, or in a call in neither. -/
theorem Shadows.pending_cases (sh : Shadows h h' B birth birth' site s site' s') (p : Nat) :
    (s.pending p = none ∧ s'.pending p = none) ∨
      ∃ b b', s.pending p = some b ∧ s'.pending p = some b' ∧ b'.stage = b.stage := by
  have stages := sh.stages p
  cases hb : s.pending p with
  | none =>
    rw [hb] at stages
    exact .inl ⟨rfl, by simpa using stages⟩
  | some b =>
    obtain ⟨b', hb', stage⟩ := Option.map_eq_some_iff.1 (stages.trans (congrArg _ hb))
    exact .inr ⟨b, b', rfl, hb', stage⟩

/-- To whoever reads the epoch on the way to the next sites, the sweeps are alike. -/
theorem Shadows.alike_of_read (par : OnPar h h' B P birth birth' site site')
    (sh : Shadows h h' B birth birth' site s site' s') {s₁ : Site ς} {s₁' : Site ς'}
    (nr : Epoch.NeverReturn (epochsSince h site s₁))
    (nr' : Epoch.NeverReturn (epochsSince h' site' s₁')) {k k' : KindId} {e e' : Epoch}
    {log log' : List Event} (same : e' = e) (since : site.world.log <:+ log)
    (since' : site'.world.log <:+ log') (read : .epochRead k e :: log <:+ s₁.world.log)
    (read' : .epochRead k' e' :: log' <:+ s₁'.world.log) : s.sweep.Alike e s'.sweep := by
  subst same
  exact sh.alike (par.reachable.isOf_of_read par.stale nr since read)
    (par.reachable'.isOf_of_read par.stale' nr' since' read')

/-- So they are to a turn that asks for the epoch, and to the start that it may come to. -/
theorem Shadows.alike_of_turn (par : OnPar h h' B P birth birth' site site')
    (sh : Shadows h h' B birth birth' site s site' s') (since : site.world.log <:+ s.world.log)
    (since' : site'.world.log <:+ s'.world.log) (p : Nat) {b b' : Pending}
    (stage : b'.stage = b.stage) (nr : Epoch.NeverReturn (epochsSince h site (s.turn h p b)))
    (nr' : Epoch.NeverReturn (epochsSince h' site' (s'.turn h' p b'))) :
    ((∀ c, b.stage ≠ .resume c) → s.sweep.Alike (s.current h) s'.sweep) ∧
      ∀ c, b.stage.context? = some c → s.sweep.isStale (s.current h) = true →
        s.sweep.Alike ((s.world.readEpoch h.kind).2.readEpoch h.kind).1 s'.sweep := by
  have now (asks : ∀ c, b.stage ≠ .resume c) : s.sweep.Alike (s.current h) s'.sweep :=
    sh.alike_of_read par nr nr' (sh.current_eq par.acts) since since'
      (Sweep.turn_suffix h asks _ _) (Sweep.turn_suffix h' (stage ▸ asks) _ _)
  refine ⟨now, ?_⟩
  intro c starts due
  have asks (d : Option Nat) (hd : b.stage = .resume d) : False := by
    rw [hd] at starts
    cases starts
  have due' : s'.sweep.isStale (s'.current h') = true := by
    rw [sh.current_eq par.acts, (now asks).isStale]
    exact due
  exact sh.alike_of_read par nr nr' (sh.next_eq par.acts) (since.trans ⟨[_], rfl⟩)
    (since'.trans ⟨[_], rfl⟩) (reads_of_start h starts due)
    (reads_of_start h' (stage ▸ starts) due')

/-- What can be done to one can be done to the other, with the same reply. -/
theorem Shadows.perform (par : OnPar h h' B P birth birth' site site')
    (sh : Shadows h h' B birth birth' site s site' s')
    (run : Relation.ReflTransGen (Step h) site s) (run' : Relation.ReflTransGen (Step h') site' s')
    (a : Act) (nr : Epoch.NeverReturn (epochsSince h site (s.perform h a).1))
    (nr' : Epoch.NeverReturn (epochsSince h' site' (s'.perform h' a).1)) :
    (s'.perform h' a).2 = (s.perform h a).2 ∧
      Shadows h h' B birth birth' site (s.perform h a).1 site' (s'.perform h' a).1 := by
  have since := par.reachable.suffix run
  have since' := par.reachable'.suffix run'
  cases a with
  | call p c =>
    rcases sh.pending_cases p with ⟨free, free'⟩ | ⟨b, b', busy, busy', -⟩
    · simp only [Site.perform, free, free'] at nr nr' ⊢
      have now : c = .request → s.sweep.Alike (s.current h) s'.sweep := by
        rintro rfl
        exact sh.alike_of_read par nr nr' (sh.current_eq par.acts) since since'
          (List.suffix_refl _) (List.suffix_refl _)
      obtain ⟨opening, sh₁⟩ := sh.call par.acts p c now
      rw [opening]
      exact ⟨rfl, sh₁⟩
    · simp only [Site.perform, busy, busy']
      exact ⟨trivial, sh⟩
  | turn p =>
    rcases sh.pending_cases p with ⟨free, free'⟩ | ⟨b, b', busy, busy', stage⟩
    · simp only [Site.perform, free, free']
      exact ⟨trivial, sh⟩
    · simp only [Site.perform, busy, busy'] at nr nr' ⊢
      obtain ⟨now, next⟩ := sh.alike_of_turn par since since' p stage nr nr'
      obtain ⟨outcome, sh₁⟩ := sh.turn par.acts par.told p busy stage now next
      rw [outcome]
      exact ⟨rfl, sh₁⟩

/-- Whatever is done to both, one keeps up with the other. -/
theorem Together.shadows (par : OnPar h h' B P birth birth' site site')
    (both : Together h h' B site site' rs rs' s s')
    (nr : Epoch.NeverReturn (epochsSince h site s))
    (nr' : Epoch.NeverReturn (epochsSince h' site' s')) :
    rs' = rs ∧ Shadows h h' B birth birth' site s site' s' := by
  induction both with
  | here =>
    refine ⟨rfl, ⟨par.world, .refl _ _⟩, ?_, .inr ⟨waits_of_idle par.idle, waits_of_idle par.idle'⟩⟩
    intro p
    rw [par.idle p, par.idle' p]
  | @change rs rs' s s' w w' both log log' like ih =>
    have since : epochsSince h site { s with world := w } = epochsSince h site s := by
      unfold epochsSince readingsSince
      rw [log]
    have since' : epochsSince h' site' { s' with world := w' } = epochsSince h' site' s' := by
      unfold epochsSince readingsSince
      rw [log']
    rw [since] at nr
    rw [since'] at nr'
    obtain ⟨replies, sh⟩ := ih nr nr'
    refine ⟨replies, ⟨like, ?_⟩, sh.stages, sh.sweep.imp id ?_⟩
    · rw [log, log']
      exact sh.world.2
    · exact fun ⟨waits, waits'⟩ => ⟨waits.change log, waits'.change log'⟩
  | @perform rs rs' s s' a both ih =>
    obtain ⟨run, run'⟩ := both.runs
    have later := (par.reachable.steps run).suffix (run_perform h a s)
    have later' := (par.reachable'.steps run').suffix (run_perform h' a s')
    obtain ⟨replies, sh⟩ := ih
      (nr.of_suffix (epochsSince_suffix h (par.reachable.suffix run) later))
      (nr'.of_suffix (epochsSince_suffix h' (par.reachable'.suffix run') later'))
    obtain ⟨reply, sh₁⟩ := sh.perform par run run' a nr nr'
    rw [replies, reply]
    exact ⟨rfl, sh₁⟩

/-- What anyone gets to see of both is the same, and so are the sweeps as soon as something has been
published. -/
structure Indistinct (h : Host ς ε) (h' : Host ς' ε) (birth : Epoch) (site s : Site ς)
    (site' s' : Site ς') : Prop where
  log : SameSince site.world.log site'.world.log s.world.log s'.world.log
  stages : ∀ p, (s'.pending p).map Pending.stage = (s.pending p).map Pending.stage
  phase : s'.sweep.phase (s'.current h') = s.sweep.phase (s.current h)
  safe : ∀ f, (s'.sweep.isSafe h' f s'.world).1 = (s.sweep.isSafe h f s.world).1
  boundary : (s'.sweep.lastBoundary h' s'.world).1 = (s.sweep.lastBoundary h s.world).1
  same : publications birth s.world.log ≠ publications birth site.world.log → s'.sweep = s.sweep
  /-- A start that comes next and succeeds publishes something. -/
  begins : ∀ p b c, s.pending p = some b → b.stage.context? = some c →
    s.sweep.isStale (s.current h) = true → (s.launch h c).1 = .ok () →
    publications birth (s.turn h p b).world.log ≠ publications birth site.world.log

/-- A turn that starts the campaign adds to the publications. -/
theorem told_of_launch_ok (since : site.world.log <:+ s.world.log) (p : Nat) {b : Pending}
    {c : Option Nat} (starts : b.stage.context? = some c)
    (stale : s.sweep.isStale (s.current h) = true) (ok : (s.launch h c).1 = .ok ()) :
    publications birth (s.turn h p b).world.log ≠ publications birth site.world.log := by
  obtain ⟨-, -, log, asides, moves⟩ := Sweep.turn_of_stale h (w := s.world) starts stale
  have started := Sweep.publications_of_start_ok birth ok
  have before := (publications_suffix birth since).length_le
  have after := (publications_suffix birth (asides.suffix.trans moves.suffix)).length_le
  rw [started, List.length_cons] at after
  intro same
  rw [← same, world_turn] at before
  exact absurd after (Nat.not_le_of_lt (Nat.lt_succ_of_le before))

/-- Two sweeps that are stale for the same campaign are moved on in the same way, whatever has been
done to them before. Every call and every turn gets the same reply, the same frames are processed in
the same order, and the same is logged. What can be asked in between, of the phase, of the frames
and of the boundary, has the same answer, and from the first start that succeeds, which publishes,
the sweeps are the same. -/
theorem indistinct_of_together (par : OnPar h h' B P birth birth' site site')
    (both : Together h h' B site site' rs rs' s s')
    (nr : Epoch.NeverReturn (epochsTo h site s))
    (nr' : Epoch.NeverReturn (epochsTo h' site' s')) :
    rs' = rs ∧ Indistinct h h' birth site s site' s' := by
  obtain ⟨replies, sh⟩ := both.shadows par nr.tail nr'.tail
  have tal := par.acts.tallies site.world.log site'.world.log
  have conc := Host.ActsAlike.concurs h h' B site.world.log site'.world.log
  have current := sh.current_eq par.acts
  have now : s.sweep.Alike (s.current h) s'.sweep := by
    refine sh.alike (par.reachable.isOf_later par.stale nr) ?_
    rw [← current]
    exact par.reachable'.isOf_later par.stale' nr'
  have since := par.reachable.suffix both.runs.1
  refine ⟨replies, sh.world.2, sh.stages, ?_, ?_, ?_, ?_,
    fun p b c _ starts stale ok => told_of_launch_ok since p starts stale ok⟩
  · rw [current]
    exact now.phase
  · exact tal.isSafe conc sh.world now
  · exact tal.lastBoundary conc sh.world now
  · intro told
    rcases sh.sweep with same | ⟨waits, -⟩
    · exact same
    · exact absurd waits.told told

end together

/-! ## Two pasts

One sweep has finished the first campaign, the other has failed to start it. -/

/-- The processor of this host looks at nothing but what it has been told. -/
theorem actsAlike_moody :
    moody.ActsAlike moody (fun x x' => x'.2.2 = x.2.2) (fun _ _ => True) where
  kind := rfl
  pacing := rfl
  onIteration := rfl
  describe := rfl
  same _ := trivial
  waiters _ := rfl
  barrier _ _ := rfl
  process := by
    intro w w' p p' f registers context like _ log log'
    have rest : w'.rest = w.rest := like.beside
    refine ⟨?_, log'.trans log.symm, like⟩
    simp only [moody, rest]

/-- An increment of one party leaves the others where they are. -/
theorem pending_stepped (site : Site Bool) {p : Nat} (other : p ≠ 0) :
    site.stepped.pending p = site.pending p := by
  unfold stepped next
  cases hb : (site.call moody 0 .increment).pending 0 <;> simp [Site.call, Site.turn, other]

theorem onPar_rebuffed :
    OnPar moody moody (fun x x' => x'.2.2 = x.2.2) (fun _ _ => True) 0 0
      (completed.moveOn 2 false) (rebuffed.moveOn 2 false) where
  acts := actsAlike_moody
  reachable := reachable_completed.moveOn 2 false
  reachable' := ((reachable_fresh.moveOn 1 true).steps (run_stepped rfl)).moveOn 2 false
  world := ⟨⟨1, by decide +kernel⟩, rfl, rfl⟩
  idle p := by
    by_cases hp : p = 0
    · subst hp
      decide +kernel
    · exact (pending_stepped _ hp).trans ((pending_stepped _ hp).trans (pending_stepped _ hp))
  idle' p := by
    by_cases hp : p = 0
    · subst hp
      decide +kernel
    · exact pending_stepped _ hp
  stale := by decide +kernel
  stale' := by decide +kernel
  told := trivial

/-- The next increment starts the second campaign for both, and then there is no difference. -/
theorem indistinct_of_rebuffed :
    completed.sweep ≠ rebuffed.sweep ∧
    (rebuffed.moveOn 2 false).stepped.sweep = (completed.moveOn 2 false).stepped.sweep := by
  have start : Together moody moody (fun x x' => x'.2.2 = x.2.2) (completed.moveOn 2 false)
      (rebuffed.moveOn 2 false) [] [] (completed.moveOn 2 false) (rebuffed.moveOn 2 false) := .here
  have both := (start.perform (.call 0 .increment)).perform (.turn 0)
  obtain ⟨-, indistinct⟩ := indistinct_of_together onPar_rebuffed both (by decide +kernel)
    (by decide +kernel)
  exact ⟨by decide +kernel, indistinct.same (by decide +kernel)⟩

end Site

end StackSweep

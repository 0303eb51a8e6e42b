import Mathlib.Data.List.Basic
import Mathlib.Data.List.InsertIdx
import StackSweep.Proofs.Overlaps
import StackSweep.Proofs.Splitting

/-!
# Parties on one thread

Any number of parties run errands on the sweeps of one thread, move by move. The lock of a sweep
keeps parties apart that work on the same sweep. Those that work on different sweeps have brackets
open at the same time. To the scopes of the thread such a run does what its brackets do in the order
in which they are opened and closed.
-/

namespace StackSweep

variable {ς ε : Type}

/-- The processor leaves the scopes and the pending error as they are. -/
def Host.IsAloof (h : Host ς ε) : Prop :=
  ∀ v w, (h.process v w).2.thread.scopes = w.thread.scopes

/-! ## What a move does to the scopes -/

/-- Nothing happens to the scopes, and no error is thrown away. -/
structure Quiet (w w' : World ς) : Prop where
  scopes : w'.thread.scopes = w.thread.scopes
  strays : strays w'.log = strays w.log

def Mark.stray? : Mark → Option String
  | .stray e => some e
  | _ => none

/-- The errors thrown away are among the marks of a log. -/
theorem strays_eq_marks (log : List Event) :
    strays log = ((marks log).filterMap Mark.stray?).reverse := by
  induction log with
  | nil => rfl
  | cons e earlier ih =>
    have split : strays (e :: earlier) = (e.mark?.bind Mark.stray?).toList ++ strays earlier := by
      cases e <;> rfl
    rw [split, ih, marks, List.filterMap_append, List.reverse_append]
    cases e.mark? with
    | none => rfl
    | some m => cases m <;> rfl

theorem Plain.quiet {w w' : World ς} (p : Plain w w') : Quiet w w' :=
  ⟨p.scopes, by rw [strays_eq_marks, strays_eq_marks, p.marks]⟩

/-- How the bracket that a party has open, and the world, may change in one move. -/
inductive Touches (w : World ς) : Option Bracket → Option Bracket → World ς → Prop
  | nothing {b w'} : Quiet w w' → Touches w b b w'
  | enter : Touches w none (some (Bracket.enter w).1) (Bracket.enter w).2
  | leave {b w'} : Quiet (b.leave w) w' → Touches w (some b) none w'

/-- The bracket that is open. -/
def Standing.bracket? : Standing ε → Option Bracket
  | .going x => x.bracket?
  | .released _ _ => none

/-- What comes between two brackets of a turn, or after the last. -/
structure IsBetween (w : World ς) (r : Standing ε × World ς) : Prop where
  closed : r.1.bracket? = none
  plain : Plain w r.2

section moves

variable {h : Host ς ε}

theorem IsBetween.after {w w' : World ς} {r : Standing ε × World ς} (b : IsBetween w' r)
    (p : Plain w w') : IsBetween w r :=
  ⟨b.closed, p.trans b.plain⟩

namespace Stage

theorem isBetween_closed (r : Turn ε × Sweep × World ς) : IsBetween r.2.2 (closed r) :=
  ⟨rfl, .refl _⟩

theorem isBetween_wrapUp (h : Host ς ε) (stage : Stage) (r : Outcome ε Unit × Sweep × World ς) :
    IsBetween r.2.2 (stage.wrapUp h r) := by
  unfold wrapUp
  split
  · exact ⟨rfl, .refl _⟩
  · split
    · exact (isBetween_closed _).after (Sweep.plain_conclude _ _ _ _)
    · exact ⟨rfl, plain_record _ rfl⟩
  · exact ⟨rfl, .refl _⟩

theorem isBetween_takeSteps (h : Host ς ε) (stage : Stage) (e : Epoch) (k : Walk) (s : Sweep)
    (w : World ς) (n : Nat) : IsBetween w (stage.takeSteps h e k s w n) := by
  cases n with
  | zero =>
    exact (isBetween_wrapUp h stage _).after
      ((plain_record w rfl).trans (Sweep.plain_conclude _ _ _ _))
  | succ n => exact ⟨rfl, .refl w⟩

theorem isBetween_beginStart (h : Host ς ε) (stage : Stage) (s : Sweep) (w : World ς) :
    IsBetween w (stage.beginStart h s w) := by
  have begun : Plain w ((w.readEpoch h.kind).2.record
      (.started (h.label (w.readEpoch h.kind).2) (w.readEpoch h.kind).1)) :=
    (plain_readEpoch w h.kind).trans (plain_record _ rfl)
  unfold beginStart
  simp only
  split
  · exact (isBetween_takeSteps h stage _ _ _ _ _).after (begun.trans (plain_walkStack _ _))
  · exact (isBetween_wrapUp h stage _).after (begun.trans (Sweep.plain_conclude _ _ _ _))

theorem plain_afterBatch (h : Host ς ε) (context : Option Nat) (o : Outcome ε Walk.BatchEnd)
    (s : Sweep) (w : World ς) : Plain w (afterBatch h context o s w).2.2 := by
  unfold afterBatch
  split
  · have published := Sweep.plain_publish h s w
    split <;> rename_i eq <;> rw [eq] at published
    · exact published.trans (plain_record _ rfl)
    · exact published
  · exact Sweep.plain_conclude _ _ _ _
  · exact Sweep.plain_conclude _ _ _ _
  · exact .refl w

/-- No bracket is open when a turn has begun. -/
theorem isBetween_begin (h : Host ς ε) (stage : Stage) (s : Sweep) (w : World ς) :
    IsBetween w (stage.begin h s w) := by
  have read : Plain w (w.readEpoch h.kind).2 := plain_readEpoch w h.kind
  have increments (stage : Stage) : IsBetween w (stage.beginIncrement h s w) := by
    unfold beginIncrement
    simp only
    split
    · exact (isBetween_beginStart h stage s _).after read
    · split
      · exact (isBetween_wrapUp h stage _).after read
      · exact ⟨rfl, read⟩
  have starts (stage : Stage) : IsBetween w (stage.beginEnsureStarted h s w) := by
    unfold beginEnsureStarted
    simp only
    split
    · exact (isBetween_beginStart h stage s _).after read
    · exact (isBetween_wrapUp h stage _).after read
  cases stage with
  | increment => exact increments .increment
  | approach f => exact increments (.approach f)
  | start => exact starts .start
  | drain context => exact starts (.drain context)
  | resume context =>
    simp only [begin]
    split
    · exact (isBetween_closed _).after (Sweep.plain_conclude _ _ _ _)
    · exact ⟨rfl, .refl w⟩
  | secure f => exact ⟨rfl, read⟩
  | judge f => exact ⟨rfl, read⟩
  | locate => exact ⟨rfl, read⟩

end Stage

theorem quiet_visit (aloof : h.IsAloof) (v : Visit) (w : World ς) : Quiet w (h.visit v w).2 :=
  ⟨aloof v { w with log := [] }, rfl⟩

theorem Walk.Pass.bracket_passed (p : Walk.Pass ε) (f : Frame) (barrier : Bool) :
    (p.passed f barrier).bracket = p.bracket := by
  unfold passed
  split
  · rfl
  · split <;> rfl

theorem Walk.Pass.quiet_proceed (aloof : h.IsAloof) (sh : Walk.Shared) (p : Walk.Pass ε)
    (w : World ς) :
    (p.proceed h sh w).1.bracket = p.bracket ∧ Quiet w (p.proceed h sh w).2 := by
  unfold proceed
  split
  · exact ⟨rfl, rfl, rfl⟩
  · rename_i f _ _
    split
    · exact ⟨rfl, rfl, rfl⟩
    · have visited := quiet_visit aloof ⟨f, p.walk.cursor, sh.context, sh.published⟩ w
      split <;> rename_i eq <;> rw [eq] at visited
      · exact ⟨p.bracket_passed f _, visited⟩
      · exact ⟨rfl, visited⟩
      · exact ⟨rfl, visited⟩

theorem Section.isBetween_afterPass (h : Host ς ε) (x : Section ε) (o : Outcome ε Walk.BatchEnd)
    (k : Walk) (w : World ς) : IsBetween w (x.afterPass h o k w) := by
  unfold afterPass
  split
  · split
    · exact Stage.isBetween_takeSteps h _ _ _ _ _ _
    · exact (Stage.isBetween_wrapUp h _ _).after (plain_record w rfl)
    · exact Stage.isBetween_wrapUp h x.stage (.unwound _, _, w)
  · exact (Stage.isBetween_wrapUp h _ _).after (Sweep.plain_conclude _ _ _ _)
  · exact (Stage.isBetween_closed _).after (Stage.plain_afterBatch h _ _ _ _)

theorem Section.touches_move (aloof : h.IsAloof) (x : Section ε) (w : World ς) :
    Touches w x.bracket? (x.move h w).1.bracket? (x.move h w).2 := by
  obtain ⟨stage, sweep, work, place⟩ := x
  cases place with
  | before k => exact .enter
  | within p =>
    simp only [move]
    split
    · obtain ⟨same, quiet⟩ := p.quiet_proceed aloof (shared ⟨stage, sweep, work, .within p⟩) w
      simp only [bracket?, Standing.bracket?, same]
      exact .nothing quiet
    · rename_i o _
      obtain ⟨closed, plain⟩ := isBetween_afterPass h ⟨stage, sweep, work, .within p⟩ o p.left
        (p.bracket.leave w)
      rw [closed]
      exact .leave plain.quiet

end moves

namespace Strand

/-- The strand that is left after a move of `x`. -/
def Next.strand? (x : Strand ε) : Next ε → Option (Strand ε)
  | .going y => some y
  | .blocked _ => some x
  | .ended _ => none

variable {hosts : Nat → Host ς ε}

theorem touches_carryOn {w : World ς} {before : Option Bracket} {r : Standing ε × World ς}
    (x : Strand ε) (i : Nat) (calls : List (Nat × Call)) (answers : List Answer)
    (moved : Touches w before r.1.bracket? r.2) :
    Touches w before (((carryOn i calls answers r).1.strand? x).bind bracket?)
      (carryOn i calls answers r).2 := by
  obtain ⟨y | ⟨turn, s⟩, w'⟩ := r
  · exact moved
  · have closed : (((carryOn i calls answers (.released turn s, w')).1.strand? x).bind
        bracket?) = none := by
      rcases turn with (_ | _ | _) | _ | _ <;> rfl
    rw [closed]
    cases moved with
    | nothing quiet => exact .nothing ⟨quiet.scopes, quiet.strays⟩
    | leave quiet => exact .leave ⟨quiet.scopes, quiet.strays⟩

/-- In one move a party opens a bracket or closes the one that it has open, or does nothing to the
scopes. -/
theorem touches_move (aloof : ∀ i, (hosts i).IsAloof) (x : Strand ε) (w : World ς) :
    Touches w x.bracket? (((x.move hosts w).1.strand? x).bind bracket?) (x.move hosts w).2 := by
  obtain ⟨_ | ⟨i, y⟩, _ | ⟨j, stage⟩, calls, answers⟩ := x
  · cases calls with
    | nil => exact .nothing ⟨rfl, rfl⟩
    | cons call calls =>
      obtain ⟨i, c⟩ := call
      have plain : Plain w (c.openWith (hosts i) (w.sweeps.getD i default).published w).2 := by
        cases c with
        | request => exact plain_readEpoch w _
        | _ => exact .refl w
      simp only [move]
      split <;> rename_i opened <;> rw [opened] at plain <;> exact .nothing plain.quiet
  · simp only [move]
    split
    · exact .nothing ⟨rfl, rfl⟩
    · obtain ⟨closed, plain⟩ :=
        Stage.isBetween_begin (hosts j) stage (w.sweeps.getD j default) (w.lock j)
      refine touches_carryOn _ j calls answers ?_
      rw [closed]
      exact .nothing ⟨plain.scopes, plain.quiet.strays⟩
  · exact touches_carryOn _ i calls answers (y.touches_move (aloof i) w)
  · exact touches_carryOn _ i calls answers (y.touches_move (aloof i) w)

end Strand

/-! ## Runs -/

/-- What goes on at a thread. -/
structure Bustle (ς ε : Type) where
  world : World ς
  /-- What each party is at, if it is at anything. -/
  strands : Nat → Option (Strand ε)
  /-- The parties that have a bracket open, latest first. -/
  inside : List Nat
  /-- The brackets that have been opened and closed so far, in order. -/
  toggles : List Toggle

namespace Bustle

variable {hosts : Nat → Host ς ε} {w : World ς} {b : Bustle ς ε}

/-- Nobody is at anything. -/
def start (w : World ς) : Bustle ς ε := ⟨w, fun _ => none, [], []⟩

/-- The bracket that a party has open. -/
def bracket? (b : Bustle ς ε) (p : Nat) : Option Bracket := (b.strands p).bind Strand.bracket?

/-- A party is now at this, or at nothing. -/
def assign (p : Nat) (x : Option (Strand ε)) (b : Bustle ς ε) : Bustle ς ε :=
  { b with strands := fun q => if q = p then x else b.strands q }

/-- Takes down what a party did in a move, before and after which it had these brackets open. -/
def note (p : Nat) (before after : Option Bracket) (b : Bustle ς ε) : Bustle ς ε :=
  match before, after with
  | none, some _ => { b with inside := p :: b.inside, toggles := b.toggles ++ [.enter] }
  | some _, none =>
    { b with
      inside := b.inside.erase p
      toggles := b.toggles ++ [.leave (b.inside.idxOf p)] }
  | _, _ => b

/-- A party that is at `x` makes a move. -/
def move (hosts : Nat → Host ς ε) (p : Nat) (x : Strand ε) (b : Bustle ς ε) : Bustle ς ε :=
  let r := x.move hosts b.world
  let y := r.1.strand? x
  ({ b with world := r.2 }.assign p y).note p x.bracket? (y.bind Strand.bracket?)

/-- What can happen next. -/
inductive Step (hosts : Nat → Host ς ε) (b : Bustle ς ε) : Bustle ς ε → Prop
  /-- The world changes, but not the scopes. Nothing is logged. -/
  | change (w : World ς) : w.thread.scopes = b.world.thread.scopes → w.log = b.world.log →
      Step hosts b { b with world := w }
  | join (p : Nat) (errand : Errand) : b.strands p = none →
      Step hosts b (b.assign p (some (.ofErrand errand)))
  | move (p : Nat) (x : Strand ε) : b.strands p = some x → Step hosts b (b.move hosts p x)

/-- What can come about at a thread. -/
inductive Reachable (hosts : Nat → Host ς ε) (w : World ς) : Bustle ς ε → Prop
  | start : Reachable hosts w (start w)
  | step {b b' : Bustle ς ε} : Reachable hosts w b → Step hosts b b' → Reachable hosts w b'

theorem Reachable.steps {b' : Bustle ς ε} (r : Reachable hosts w b)
    (run : Relation.ReflTransGen (Step hosts) b b') : Reachable hosts w b' := by
  induction run with
  | refl => exact r
  | tail _ step ih => exact ih.step step

@[simp] theorem strands_note (p : Nat) (before after : Option Bracket) (b : Bustle ς ε) :
    (b.note p before after).strands = b.strands := by
  unfold note
  split <;> rfl

@[simp] theorem world_note (p : Nat) (before after : Option Bracket) (b : Bustle ς ε) :
    (b.note p before after).world = b.world := by
  unfold note
  split <;> rfl

/-- A party can make the moves that its strand makes alone. -/
theorem reaches_of_moves {p : Nat} {a c : Strand.Next ε × World ς}
    (moves : Relation.ReflTransGen (Strand.Moves hosts) a c) :
    ∀ {b : Bustle ς ε}, b.world = a.2 → (∀ x, a.1 = .going x → b.strands p = some x) →
      ∃ b', Relation.ReflTransGen (Step hosts) b b' ∧ b'.world = c.2 := by
  induction moves using Relation.ReflTransGen.head_induction_on with
  | refl => exact fun world _ => ⟨_, .refl, world⟩
  | head first _ ih =>
    obtain ⟨x, going, moved⟩ := first
    intro b world busy
    rw [← world] at moved
    have step : Step hosts b (b.move hosts p x) := .move p x (busy x going)
    have after : (b.move hosts p x).world = (x.move hosts b.world).2 := by
      rw [move, world_note]
      rfl
    obtain ⟨b', run, world'⟩ := ih (after.trans (congrArg Prod.snd moved)) fun y going' => by
      rw [← moved] at going'
      rw [move, strands_note]
      exact (if_pos rfl).trans (by rw [going']; rfl)
    exact ⟨b', .head step run, world'⟩

/-- What an errand does with nobody else around can come about at a thread. -/
theorem reachable_of_run {fuel : Nat} {errand : Errand} {o : Outcome ε (List Answer)} {w' : World ς}
    (run : errand.run hosts (fun _ w => w) fuel w = (.finished o, w')) :
    ∃ b, Reachable hosts w b ∧ b.world = w' := by
  obtain ⟨b, steps, world⟩ := reaches_of_moves (p := 0)
    (b := (start w).assign 0 (some (.ofErrand errand))) (Strand.moves_run fuel errand w run rfl) rfl
    fun x going => by cases going; rfl
  exact ⟨b, (Reachable.start.step (.join 0 errand rfl)).steps steps, world⟩

/-- Only the bracket of the party that has made a move may have changed. -/
theorem bracket?_note (p : Nat) (y : Option (Strand ε)) (w' : World ς)
    (before after : Option Bracket) (q : Nat) :
    (({ b with world := w' }.assign p y).note p before after).bracket? q =
      if q = p then y.bind Strand.bracket? else b.bracket? q := by
  simp only [bracket?, strands_note, assign]
  split <;> rfl

/-- The brackets of the parties are those that the toggles open and close, and nothing else has
happened to the scopes. -/
structure Follows (w : World ς) (b : Bustle ς ε) : Prop where
  nodup : b.inside.Nodup
  mem : ∀ p, (b.bracket? p).isSome → p ∈ b.inside
  opened : b.inside.map b.bracket? = (Overlap.run b.toggles w).opened.map some
  scopes : b.world.thread.scopes = (Overlap.run b.toggles w).world.thread.scopes
  strays : strays b.world.log = StackSweep.strays (Overlap.run b.toggles w).world.log
  /-- What completes the brackets that are open completes the order. -/
  order : ∀ ts, IsOrder b.inside.length ts → IsOrder 0 (b.toggles ++ ts)

theorem run_append_singleton (ts : List Toggle) (t : Toggle) (w : World ς) :
    Overlap.run (ts ++ [t]) w = (Overlap.run ts w).act t := by
  simp [Overlap.run, List.foldl_append]

theorem scopes_enter_congr {v w : World ς} (same : v.thread.scopes = w.thread.scopes) :
    (Bracket.enter v).1 = (Bracket.enter w).1 ∧
      (Bracket.enter v).2.thread.scopes = (Bracket.enter w).2.thread.scopes := by
  simp only [Thread.scopes, Scopes.mk.injEq] at same
  obtain ⟨suppressed, handles, resources, pending⟩ := same
  simp [Thread.scopes, suppressed, handles, resources, pending]

theorem scopes_leave_congr {v w : World ς} (same : v.thread.scopes = w.thread.scopes)
    (x : Bracket) :
    (x.leave v).thread.scopes = (x.leave w).thread.scopes ∧
      v.thread.pending = w.thread.pending := by
  simp only [Thread.scopes, Scopes.mk.injEq] at same
  obtain ⟨suppressed, handles, resources, pending⟩ := same
  simp [Thread.scopes, handles, resources, pending]

namespace Follows

theorem isSome_of_mem (f : Follows w b) {p : Nat} (inside : p ∈ b.inside) :
    (b.bracket? p).isSome := by
  have listed : b.bracket? p ∈ (Overlap.run b.toggles w).opened.map some :=
    f.opened ▸ List.mem_map_of_mem inside
  obtain ⟨x, -, eq⟩ := List.mem_map.1 listed
  rw [← eq]
  rfl

variable {b' : Bustle ς ε}

/-- The scopes and the strays are all that there is to know of the world. -/
theorem quiet (f : Follows w b) (idle : Quiet b.world b'.world)
    (bracket : b'.bracket? = b.bracket?) (inside : b'.inside = b.inside)
    (toggles : b'.toggles = b.toggles) : Follows w b' where
  nodup := inside ▸ f.nodup
  mem p shown := inside ▸ f.mem p (bracket ▸ shown)
  opened := by rw [inside, bracket, toggles, f.opened]
  scopes := by rw [idle.scopes, toggles, f.scopes]
  strays := by rw [idle.strays, toggles, f.strays]
  order := by rw [inside, toggles]; exact f.order

/-- A party that has no bracket open opens one. -/
theorem enter (f : Follows w b) {p : Nat} (outside : b.bracket? p = none)
    (world : b'.world = (Bracket.enter b.world).2)
    (bracket : ∀ q, b'.bracket? q =
      if q = p then some (Bracket.enter b.world).1 else b.bracket? q)
    (inside : b'.inside = p :: b.inside) (toggles : b'.toggles = b.toggles ++ [.enter]) :
    Follows w b' := by
  have fresh : p ∉ b.inside := by
    intro member
    have := f.isSome_of_mem member
    rw [outside] at this
    cases this
  have kept : b.inside.map b'.bracket? = b.inside.map b.bracket? := by
    refine List.map_congr_left fun q member => ?_
    rw [bracket, if_neg (ne_of_mem_of_not_mem member fresh)]
  obtain ⟨same, scopes⟩ := scopes_enter_congr f.scopes
  constructor
  · rw [inside]
    exact List.nodup_cons.2 ⟨fresh, f.nodup⟩
  · intro q shown
    rw [inside]
    by_cases here : q = p
    · exact here ▸ List.mem_cons_self
    · rw [bracket, if_neg here] at shown
      exact List.mem_cons_of_mem _ (f.mem q shown)
  · rw [inside, List.map_cons, kept, bracket, if_pos rfl, toggles, run_append_singleton, same,
      f.opened]
    rfl
  · rw [world, toggles, run_append_singleton]
    exact scopes
  · rw [world, toggles, run_append_singleton, strays_enter]
    exact f.strays.trans (strays_enter _).symm
  · intro ts rest
    rw [inside] at rest
    rw [toggles, List.append_assoc]
    exact f.order (.enter :: ts) rest

/-- A party closes the bracket that it has open. -/
theorem leave (f : Follows w b) {p : Nat} {x : Bracket} (shown : b.bracket? p = some x)
    (world : Quiet (x.leave b.world) b'.world)
    (bracket : ∀ q, b'.bracket? q = if q = p then none else b.bracket? q)
    (inside : b'.inside = b.inside.erase p)
    (toggles : b'.toggles = b.toggles ++ [.leave (b.inside.idxOf p)]) : Follows w b' := by
  have member : p ∈ b.inside := f.mem p (by rw [shown]; rfl)
  have place : b.inside.idxOf p < b.inside.length := List.idxOf_lt_length_of_mem member
  have found : (Overlap.run b.toggles w).opened[b.inside.idxOf p]? = some x := by
    have listed : (b.inside.map b.bracket?)[b.inside.idxOf p]? = some (some x) := by
      rw [List.getElem?_map, List.getElem?_idxOf member, Option.map_some, shown]
    rw [f.opened, List.getElem?_map, Option.map_eq_some_iff] at listed
    obtain ⟨y, eq, same⟩ := listed
    cases same
    exact eq
  have act : Overlap.run b'.toggles w =
      ⟨(Overlap.run b.toggles w).opened.eraseIdx (b.inside.idxOf p),
        x.leave (Overlap.run b.toggles w).world⟩ := by
    rw [toggles, run_append_singleton, Overlap.act, found]
  have kept : (b.inside.erase p).map b'.bracket? = (b.inside.erase p).map b.bracket? := by
    refine List.map_congr_left fun q inside => ?_
    rw [bracket, if_neg (f.nodup.mem_erase_iff.1 inside).1]
  obtain ⟨scopes, pending⟩ := scopes_leave_congr f.scopes x
  constructor
  · rw [inside]
    exact f.nodup.erase p
  · intro q shown
    rw [inside]
    rw [bracket] at shown
    split at shown
    · cases shown
    · exact f.nodup.mem_erase_iff.2 ⟨‹q ≠ p›, f.mem q shown⟩
  · rw [inside, kept, act, List.erase_eq_eraseIdx_of_idxOf rfl, ← List.eraseIdx_map, f.opened,
      List.eraseIdx_map]
  · rw [world.scopes, act]
    exact scopes
  · rw [world.strays, act, strays_leave, strays_leave, pending, f.strays]
  · intro ts rest
    rw [inside, List.length_erase_of_mem member] at rest
    rw [toggles, List.append_assoc]
    exact f.order (.leave (b.inside.idxOf p) :: ts) ⟨place, rest⟩

/-- A party makes a move. -/
theorem moved (f : Follows w b) {p : Nat} {y : Option (Strand ε)} {w' : World ς}
    (touches : Touches b.world (b.bracket? p) (y.bind Strand.bracket?) w') :
    Follows w (({ b with world := w' }.assign p y).note p (b.bracket? p)
      (y.bind Strand.bracket?)) := by
  have bracket := bracket?_note (b := b) p y w' (b.bracket? p) (y.bind Strand.bracket?)
  generalize before : b.bracket? p = x at touches bracket ⊢
  generalize y.bind Strand.bracket? = z at touches bracket ⊢
  cases touches with
  | nothing quiet =>
    have same : note p x x ({ b with world := w' }.assign p y) =
        { b with world := w' }.assign p y := by cases x <;> rfl
    rw [same] at bracket ⊢
    refine f.quiet quiet (funext fun q => ?_) rfl rfl
    rw [bracket]
    split
    · rw [‹q = p›, before]
    · rfl
  | enter => exact f.enter before rfl bracket rfl rfl
  | leave quiet => exact f.leave before quiet bracket rfl rfl

theorem start (w : World ς) : Follows w (Bustle.start w : Bustle ς ε) where
  nodup := .nil
  mem := nofun
  opened := rfl
  scopes := rfl
  strays := rfl
  order _ rest := rest

end Follows

theorem Reachable.follows (aloof : ∀ i, (hosts i).IsAloof) (r : Reachable hosts w b) :
    Follows w b := by
  induction r with
  | start => exact .start w
  | @step b b' _ step ih =>
    cases step with
    | change v scopes log => exact ih.quiet ⟨scopes, congrArg StackSweep.strays log⟩ rfl rfl rfl
    | join p errand idle =>
      refine ih.quiet ⟨rfl, rfl⟩ (funext fun q => ?_) rfl rfl
      simp only [bracket?, assign]
      split
      · rw [‹q = p›, idle]
        rfl
      · rfl
    | move p x busy =>
      have shown : b.bracket? p = x.bracket? := by rw [bracket?, busy]; rfl
      have touches := x.touches_move aloof b.world
      rw [← shown] at touches
      have moved := ih.moved touches
      rw [shown] at moved
      exact moved

end Bustle

end StackSweep

import StackSweep.Roster
import StackSweep.Sweep.Creation

/-!
# The scopes of the thread

Whatever an operation does to the thread's bookkeeping it does in brackets, one for each step and
one for each batch. A bracket undoes what it did to the thread however its visits end, as long as
the processor closes the scopes that it opens. The pending error is the processor's to set and to
clear: the visits of one bracket see what those before them left, the first of them sees none, and
what the last one leaves is thrown away with a warning.
-/

namespace StackSweep

/-- What a bracket puts aside. -/
structure Scopes where
  suppressed : Bool
  handles : Int
  resources : Int
  pending : Option String
deriving DecidableEq, Repr

def Thread.scopes (t : Thread) : Scopes := ⟨t.suppressed, t.handles, t.resources, t.pending⟩

/-- The processor closes the scopes that it opens, however it ends. It may do as it likes with the
pending error. -/
def Host.IsBalanced {ς ε : Type} (h : Host ς ε) : Prop :=
  ∀ v w, ∃ e, (h.process v w).2.thread.scopes = { w.thread.scopes with pending := e }

/-! ## What the log shows of brackets -/

/-- An entry of the log that has to do with brackets. -/
inductive Mark
  | call (call : ScopeCall)
  | stray (error : String)
  | handled (visit : Visit) (verdict : Verdict)
deriving DecidableEq, Repr

def Event.mark? : Event → Option Mark
  | .scope _ c => some (.call c)
  | .strayError e => some (.stray e)
  | .visit _ v _ d => some (.handled v d)
  | _ => none

/-- The marks of a log, in the order in which they were made. -/
def marks : List Event → List Mark
  | [] => []
  | e :: earlier => marks earlier ++ e.mark?.toList

/-- A visit and the error that was pending around it. -/
structure Handling where
  visit : Visit
  verdict : Verdict
  before : Option String
  after : Option String
deriving DecidableEq, Repr

/-- A bracket that has been closed. -/
structure Enclosure where
  bracket : Bracket
  handlings : List Handling
  /-- The error that was pending when the bracket closed. -/
  stray : Option String
deriving DecidableEq, Repr

def Handling.mark (c : Handling) : Mark := .handled c.visit c.verdict

/-- Each visit begins with the error that the one before it left. -/
def Chained : Option String → List Handling → Option String → Prop
  | p, [], q => p = q
  | p, c :: cs, q => c.before = p ∧ Chained c.after cs q

namespace Enclosure

/-- What the log shows of an enclosure: what opens it, the visits, and what closes it, with a
warning in between if there is a stray error. -/
def marks (x : Enclosure) : List Mark :=
  x.bracket.opening.map .call ++ x.handlings.map Handling.mark ++
    ([.call .exitResources, .call .takeError] ++ (x.stray.map Mark.stray).toList ++
      (x.bracket.preserved.map fun _ => Mark.call .restoreError).toList ++
      [.call .exitHandles, .call (.unsuppress x.bracket.suppressed)])

/-- The bracket remembers the thread as it was. No error is pending at first, and the stray one is
what the visits have left. -/
structure IsProper (x : Enclosure) (t : Scopes) : Prop where
  suppressed : x.bracket.suppressed = t.suppressed
  preserved : x.bracket.preserved = t.pending
  chained : Chained none x.handlings x.stray

end Enclosure

variable {ς ε : Type}

/-- Visits one after another. -/
inductive Handles (h : Host ς ε) : World ς → List Handling → World ς → Prop
  | refl (w : World ς) : Handles h w [] w
  | visit {w cs w'} (v : Visit) : Handles h (h.visit v w).2 cs w' →
      Handles h w (⟨v, (h.visit v w).1.verdict, w.thread.pending, (h.visit v w).2.thread.pending⟩ ::
        cs) w'

/-- A bracket is opened, visits follow, and it is closed. -/
def Encloses (h : Host ς ε) (w : World ς) (x : Enclosure) (w' : World ς) : Prop :=
  x.bracket = (Bracket.enter w).1 ∧ ∃ inner, Handles h (Bracket.enter w).2 x.handlings inner ∧
    x.stray = inner.thread.pending ∧ w' = x.bracket.leave inner

/-- A step or a batch. -/
inductive IsPass (h : Host ς ε) (w : World ς) : World ς → Prop
  | step (sh : Walk.Shared) (k : Walk) : IsPass h w (k.step h sh w).2.2
  | batch (sh : Walk.Shared) (interval : Nat) (k : Walk) : IsPass h w (k.batch h sh interval w).2.2

/-- Nothing happens to the scopes, and the log does not show anything of the kind. -/
structure Plain (w w' : World ς) : Prop where
  scopes : w'.thread.scopes = w.thread.scopes
  marks : marks w'.log = marks w.log

/-- Everything that happens to the scopes of the thread on the way from one world to another happens
in these enclosures, each of which is that of a step or a batch. -/
inductive Course (hosts : Nat → Host ς ε) (w : World ς) : List Enclosure → World ς → Prop
  | refl : Course hosts w [] w
  | plain {xs w₁ w₂} : Course hosts w xs w₁ → Plain w₁ w₂ → Course hosts w xs w₂
  | pass {xs x w₁ w₂} (i : Nat) : Course hosts w xs w₁ → IsPass (hosts i) w₁ w₂ →
      Encloses (hosts i) w₁ x w₂ → Course hosts w (xs ++ [x]) w₂

/-- A course that leaves the scopes as they were and shows in the log, enclosure by enclosure. -/
structure Keeps (hosts : Nat → Host ς ε) (w : World ς) (xs : List Enclosure) (w' : World ς) :
    Prop where
  course : Course hosts w xs w'
  scopes : w'.thread.scopes = w.thread.scopes
  marks : marks w'.log = marks w.log ++ xs.flatMap Enclosure.marks
  proper : ∀ x ∈ xs, x.IsProper w.thread.scopes

/-! ## One enclosure -/

section enclosures

variable {h : Host ς ε} {w w' : World ς} {cs : List Handling} {x : Enclosure}

theorem marks_append_reverse (es log : List Event) :
    marks (es.reverse ++ log) = marks log ++ es.filterMap Event.mark? := by
  induction es generalizing log with
  | nil => simp
  | cons e es ih =>
    rw [List.reverse_cons, List.append_assoc, List.singleton_append, ih, marks]
    cases he : e.mark? <;> simp [he]

theorem marks_enter (w : World ς) :
    marks (Bracket.enter w).2.log =
      marks w.log ++ (Bracket.enter w).1.opening.map Mark.call := by
  rw [Bracket.log_enter, marks_append_reverse]
  rfl

theorem marks_leave (b : Bracket) (w : World ς) :
    marks (b.leave w).log = marks w.log ++
      ([.call .exitResources, .call .takeError] ++ (w.thread.pending.map Mark.stray).toList ++
        (b.preserved.map fun _ => Mark.call .restoreError).toList ++
        [.call .exitHandles, .call (.unsuppress b.suppressed)]) := by
  rw [Bracket.log_leave, marks_append_reverse, Bracket.closing]
  cases w.thread.pending <;> cases b.preserved <;> rfl

theorem Handles.marks_eq (c : Handles h w cs w') :
    marks w'.log = marks w.log ++ cs.map Handling.mark := by
  induction c with
  | refl => simp
  | @visit w cs w' v _ ih =>
    have visited : marks (h.visit v w).2.log =
        marks w.log ++ [.handled v (h.visit v w).1.verdict] := rfl
    rw [ih, visited, List.append_assoc]
    rfl

theorem Handles.chained (c : Handles h w cs w') : Chained w.thread.pending cs w'.thread.pending := by
  induction c with
  | refl => rfl
  | visit v _ ih => exact ⟨rfl, ih⟩

theorem Handles.scopes_eq (balanced : h.IsBalanced) (c : Handles h w cs w') :
    ∃ e, w'.thread.scopes = { w.thread.scopes with pending := e } := by
  induction c with
  | refl => exact ⟨_, rfl⟩
  | @visit w cs w' v _ ih =>
    obtain ⟨e, after⟩ := balanced v { w with log := [] }
    obtain ⟨e', last⟩ := ih
    refine ⟨e', last.trans ?_⟩
    have visited : (h.visit v w).2.thread.scopes = { w.thread.scopes with pending := e } := after
    rw [visited]

theorem Encloses.scopes_eq (balanced : h.IsBalanced) (c : Encloses h w x w') :
    w'.thread.scopes = w.thread.scopes := by
  obtain ⟨opened, inner, handles, -, rfl⟩ := c
  obtain ⟨e, inside⟩ := handles.scopes_eq balanced
  simp only [Thread.scopes, Bracket.thread_enter, Scopes.mk.injEq] at inside
  obtain ⟨-, handles, resources, -⟩ := inside
  simp [Thread.scopes, opened, handles, resources]

theorem Encloses.marks_eq (c : Encloses h w x w') : marks w'.log = marks w.log ++ x.marks := by
  obtain ⟨opened, inner, handles, stray, rfl⟩ := c
  rw [marks_leave, handles.marks_eq, marks_enter, ← stray, ← opened]
  simp only [Enclosure.marks, List.append_assoc]

theorem Encloses.isProper (c : Encloses h w x w') : x.IsProper w.thread.scopes := by
  obtain ⟨opened, inner, handles, stray, -⟩ := c
  refine ⟨by rw [opened]; rfl, by rw [opened]; rfl, ?_⟩
  have chained := handles.chained
  rwa [← stray] at chained

end enclosures

/-! ## Steps and batches -/

namespace Walk

theorem stepFrames_handles (h : Host ς ε) (sh : Shared) (fs : List Frame) :
    ∀ (last : Position) (cursor : Nat) (w : World ς),
      ∃ cs, Handles h w cs (stepFrames h sh last cursor fs w).world := by
  induction fs with
  | nil => exact fun _ _ w => ⟨[], .refl w⟩
  | cons f rest ih =>
    intro last cursor w
    have once : ∃ cs, Handles h w cs (h.visit ⟨f, cursor, sh.context, sh.published⟩ w).2 :=
      ⟨_, .visit _ (.refl _)⟩
    have again (w' : World ς) (eq : (h.visit ⟨f, cursor, sh.context, sh.published⟩ w).2 = w') :
        ∃ cs, Handles h w cs (stepFrames h sh f.position (cursor + 1) rest w').world := by
      subst eq
      obtain ⟨cs, more⟩ := ih f.position (cursor + 1)
        (h.visit ⟨f, cursor, sh.context, sh.published⟩ w).2
      exact ⟨_, .visit _ more⟩
    unfold stepFrames
    split <;> rename_i w' eq <;> rw [eq] at once again
    · split
      · exact once
      · exact again w' rfl
    · exact once
    · exact once

theorem batchFrames_handles (h : Host ς ε) (sh : Shared) (interval : Nat) (fs : List Frame) :
    ∀ (seen cursor : Nat) (t : Trail) (w : World ς),
      ∃ cs, Handles h w cs (batchFrames h sh interval seen cursor t fs w).2.2 := by
  induction fs with
  | nil => exact fun _ _ _ w => ⟨[], .refl w⟩
  | cons f rest ih =>
    intro seen cursor t w
    have once : ∃ cs, Handles h w cs (h.visit ⟨f, cursor, sh.context, sh.published⟩ w).2 :=
      ⟨_, .visit _ (.refl _)⟩
    have again (w' : World ς) (eq : (h.visit ⟨f, cursor, sh.context, sh.published⟩ w).2 = w')
        (seen : Nat) (t : Trail) :
        ∃ cs, Handles h w cs (batchFrames h sh interval seen (cursor + 1) t rest w').2.2 := by
      subst eq
      obtain ⟨cs, more⟩ := ih seen (cursor + 1) t
        (h.visit ⟨f, cursor, sh.context, sh.published⟩ w).2
      exact ⟨_, .visit _ more⟩
    unfold batchFrames
    split
    · exact ⟨[], .refl w⟩
    · split <;> rename_i w' eq <;> rw [eq] at once again
      · split
        · simp only
          split
          · exact once
          · exact again w' rfl _ _
        · exact again w' rfl _ _
      · exact once
      · exact once

end Walk

/-- A step or a batch makes one enclosure. -/
theorem IsPass.encloses {h : Host ς ε} {w w' : World ς} (p : IsPass h w w') :
    ∃ x, Encloses h w x w' := by
  cases p with
  | step sh k =>
    obtain ⟨cs, handles⟩ :=
      Walk.stepFrames_handles h sh k.ahead .none k.cursor (Bracket.enter w).2
    exact ⟨⟨_, cs, _⟩, rfl, _, handles, rfl, rfl⟩
  | batch sh interval k =>
    obtain ⟨cs, handles⟩ :=
      Walk.batchFrames_handles h sh interval k.ahead 0 k.cursor k.trail (Bracket.enter w).2
    exact ⟨⟨_, cs, _⟩, rfl, _, handles, rfl, rfl⟩

/-! ## Courses -/

namespace Plain

variable {w w₁ w₂ : World ς}

theorem refl (w : World ς) : Plain w w := ⟨rfl, rfl⟩

theorem trans (p : Plain w w₁) (q : Plain w₁ w₂) : Plain w w₂ :=
  ⟨q.scopes.trans p.scopes, q.marks.trans p.marks⟩

end Plain

section courses

variable {hosts : Nat → Host ς ε} {w w₁ w₂ : World ς} {xs ys : List Enclosure}

theorem Course.trans (c : Course hosts w xs w₁) (d : Course hosts w₁ ys w₂) :
    Course hosts w (xs ++ ys) w₂ := by
  induction d with
  | refl => rwa [List.append_nil]
  | plain _ plain ih => exact ih.plain plain
  | pass i _ p encloses ih =>
    rw [← List.append_assoc]
    exact ih.pass i p encloses

theorem Course.scopes_eq (balanced : ∀ i, (hosts i).IsBalanced) (c : Course hosts w xs w₁) :
    w₁.thread.scopes = w.thread.scopes := by
  induction c with
  | refl => rfl
  | plain _ plain ih => exact plain.scopes.trans ih
  | pass i _ _ encloses ih => exact (encloses.scopes_eq (balanced i)).trans ih

theorem Course.marks_eq (c : Course hosts w xs w₁) :
    marks w₁.log = marks w.log ++ xs.flatMap Enclosure.marks := by
  induction c with
  | refl => simp
  | plain _ plain ih => exact plain.marks.trans ih
  | pass i _ _ encloses ih =>
    rw [encloses.marks_eq, ih, List.append_assoc, List.flatMap_append]
    simp

theorem Course.isProper (balanced : ∀ i, (hosts i).IsBalanced) (c : Course hosts w xs w₁) :
    ∀ x ∈ xs, x.IsProper w.thread.scopes := by
  induction c with
  | refl => nofun
  | plain _ _ ih => exact ih
  | pass i c _ encloses ih =>
    intro x hx
    rcases List.mem_append.1 hx with hx | hx
    · exact ih x hx
    · rw [List.mem_singleton.1 hx, ← c.scopes_eq balanced]
      exact encloses.isProper

/-- As long as the processors are balanced, a course leaves the scopes as they were. -/
theorem Course.keeps (balanced : ∀ i, (hosts i).IsBalanced) (c : Course hosts w xs w₁) :
    Keeps hosts w xs w₁ :=
  ⟨c, c.scopes_eq balanced, c.marks_eq, c.isProper balanced⟩

/-- There is a course from one world to the other. -/
def Leads (hosts : Nat → Host ς ε) (w w' : World ς) : Prop := ∃ xs, Course hosts w xs w'

theorem Leads.refl (hosts : Nat → Host ς ε) (w : World ς) : Leads hosts w w := ⟨[], .refl⟩

theorem Leads.trans (l : Leads hosts w w₁) (m : Leads hosts w₁ w₂) : Leads hosts w w₂ := by
  obtain ⟨xs, c⟩ := l
  obtain ⟨ys, d⟩ := m
  exact ⟨xs ++ ys, c.trans d⟩

theorem Plain.leads (p : Plain w w₁) : Leads hosts w w₁ := ⟨[], .plain .refl p⟩

theorem IsPass.leads {i : Nat} (p : IsPass (hosts i) w w₁) : Leads hosts w w₁ := by
  obtain ⟨x, encloses⟩ := p.encloses
  exact ⟨[x], .pass i .refl p encloses⟩

end courses

/-! ## What goes on between brackets -/

theorem plain_record (w : World ς) {e : Event} (h : e.mark? = none) : Plain w (w.record e) := by
  refine ⟨rfl, ?_⟩
  rw [World.log_record, marks, h]
  exact List.append_nil _

theorem plain_readEpoch (w : World ς) (k : KindId) : Plain w (w.readEpoch k).2 :=
  ⟨rfl, List.append_nil _⟩

theorem plain_walkStack (w : World ς) (o : WalkOptions) : Plain w (w.walkStack o).2 :=
  ⟨rfl, List.append_nil _⟩

namespace Sweep

theorem plain_store (h : Host ς ε) (b : Position) (d : Bool) (s : Sweep) (w : World ς) :
    Plain w (s.store h b d w).2 :=
  (plain_record w rfl).trans (plain_record _ rfl)

theorem plain_storeDone (h : Host ς ε) (s : Sweep) (w : World ς) :
    Plain w (s.storeDone h w).2 := by
  have stored := plain_store h .none true s w
  unfold storeDone
  simp only
  split
  · exact stored
  · exact stored.trans (plain_record _ rfl)

theorem plain_publish (h : Host ς ε) (s : Sweep) (w : World ς) :
    Plain w (s.publish h w).2.2 := by
  unfold publish
  split
  · split
    · split
      · exact .refl w
      · exact plain_store h _ false s w
    · exact plain_storeDone h s w
  · exact plain_storeDone h s w

theorem plain_conclude (h : Host ς ε) (o : Outcome ε Unit) (s : Sweep) (w : World ς) :
    Plain w (s.conclude h o w).2.2 := by
  have published := plain_publish h s w
  unfold conclude
  split
  · exact .refl w
  · split <;> rename_i eq <;> rw [eq] at published <;> exact published

theorem plain_create (k : KindId) (p : Pacing) (w : World ς) : Plain w (create k p w).2 := by
  unfold create
  split
  · exact .refl w
  · split
    · exact ⟨rfl, List.append_nil _⟩
    · exact ⟨rfl, rfl⟩

/-! ## Operations -/

variable (hosts : Nat → Host ς ε)

theorem leads_steps (i : Nat) (sh : Walk.Shared) (n : Nat) :
    ∀ (k : Walk) (w : World ς), Leads hosts w (Walk.steps (hosts i) sh n k w).2.2 := by
  induction n with
  | zero => exact fun _ w => .refl hosts w
  | succ n ih =>
    intro k w
    have first : Leads hosts w (k.step (hosts i) sh w).2.2 := (IsPass.step sh k).leads
    unfold Walk.steps
    split <;> rename_i k' w' eq <;> rw [eq] at first
    · exact first.trans (ih k' w')
    · exact first
    · exact first

theorem leads_start (i : Nat) (context : Option Nat) (s : Sweep) (w : World ς) :
    Leads hosts w (s.start (hosts i) context w).2.2 := by
  have begun : Leads hosts w ((w.readEpoch (hosts i).kind).2.record
      (.started ((hosts i).label (w.readEpoch (hosts i).kind).2) (w.readEpoch (hosts i).kind).1)) :=
    ((plain_readEpoch w _).trans (plain_record _ rfl)).leads
  unfold start
  simp only
  split
  · refine begun.trans ((plain_walkStack _ .incremental).leads.trans ?_)
    have steps := leads_steps hosts i ⟨context, s.published⟩
      (hosts i).pacing.initialFrames
    generalize World.walkStack _ _ = walked
    have stepped := steps walked.1 walked.2
    split <;> rename_i k w' eq <;> rw [eq] at stepped
    · exact stepped.trans ((plain_record _ rfl).trans (plain_conclude _ _ _ _)).leads
    · exact stepped.trans (plain_record _ rfl).leads
    · exact stepped
  · exact begun.trans (plain_conclude _ _ _ _).leads

theorem leads_ensureStarted (i : Nat) (context : Option Nat) (s : Sweep) (w : World ς) :
    Leads hosts w (s.ensureStarted (hosts i) context w).2.2 := by
  have read : Leads hosts w (w.readEpoch (hosts i).kind).2 := (plain_readEpoch w _).leads
  unfold ensureStarted
  simp only
  split
  · exact read.trans (leads_start hosts i context s _)
  · exact read

theorem leads_increment (i : Nat) (s : Sweep) (w : World ς) :
    Leads hosts w (s.increment (hosts i) w).2.2 := by
  have read : Leads hosts w (w.readEpoch (hosts i).kind).2 := (plain_readEpoch w _).leads
  unfold increment
  simp only
  split
  · exact read.trans (leads_start hosts i none s _)
  · split
    · exact read
    · rename_i k _
      exact read.trans ((IsPass.step ⟨none, s.published⟩ k).leads.trans
        (plain_conclude _ _ _ _).leads)

end Sweep

namespace Stage

variable (hosts : Nat → Host ς ε)

theorem leads_drainBatch (i : Nat) (context : Option Nat) (s : Sweep) (w : World ς) :
    Leads hosts w (drainBatch (hosts i) context s w).2.2 := by
  unfold drainBatch
  split
  · exact (Sweep.plain_conclude _ _ _ _).leads
  · rename_i k hk
    have passed : Leads hosts w
        (k.batch (hosts i) ⟨context, s.published⟩ (hosts i).pacing.framesPerYield w).2.2 :=
      (IsPass.batch _ _ k).leads
    split <;> rename_i k' w' eq <;> rw [eq] at passed
    · have published := Sweep.plain_publish (hosts i) { s with walk := some k' } w'
      split <;> rename_i eq <;> rw [eq] at published
      · exact passed.trans (published.trans (plain_record _ rfl)).leads
      · exact passed.trans published.leads
    · exact passed.trans (Sweep.plain_conclude _ _ _ _).leads
    · exact passed.trans (Sweep.plain_conclude _ _ _ _).leads
    · exact passed

theorem leads_drainFirst (i : Nat) (context : Option Nat) (s : Sweep) (w : World ς) :
    Leads hosts w (drainFirst (hosts i) context s w).2.2 := by
  have started := Sweep.leads_ensureStarted hosts i context s w
  unfold drainFirst
  generalize s.ensureStarted (hosts i) context w = r at started ⊢
  obtain ⟨o, s₁, w₁⟩ := r
  cases o with
  | failed e => exact started
  | unwound x => exact started
  | ok _ =>
    simp only
    split
    · exact started.trans (Sweep.plain_conclude _ _ _ _).leads
    · exact started.trans ((plain_record _ rfl).leads.trans (leads_drainBatch hosts i context s₁ _))

/-- One turn, whatever comes next. -/
theorem leads_turn (i : Nat) (stage : Stage) (s : Sweep) (w : World ς) :
    Leads hosts w (stage.turn (hosts i) s w).2.2 := by
  have read : Leads hosts w (w.readEpoch (hosts i).kind).2 := (plain_readEpoch w _).leads
  cases stage with
  | increment => exact Sweep.leads_increment hosts i s w
  | start => exact Sweep.leads_ensureStarted hosts i none s w
  | drain context => exact leads_drainFirst hosts i context s w
  | resume context => exact leads_drainBatch hosts i context s w
  | secure f => exact read
  | approach f =>
    have stepped := Sweep.leads_increment hosts i s w
    simp only [turn]
    generalize s.increment (hosts i) w = r at stepped ⊢
    obtain ⟨o, s', w'⟩ := r
    cases o <;> exact stepped
  | judge f => exact read
  | locate => exact read

/-- The turns of an operation with nobody else around. -/
theorem leads_run (i fuel : Nat) : ∀ (stage : Stage) (s : Sweep) (w : World ς),
    Leads hosts w (stage.run (hosts i) fuel s w).2.2 := by
  induction fuel with
  | zero => exact fun _ _ w => .refl hosts w
  | succ n ih =>
    intro stage s w
    have turned := leads_turn hosts i stage s w
    unfold run
    split <;> rename_i eq <;> rw [eq] at turned
    · exact turned
    · exact turned.trans (ih _ _ _)
    · exact turned.trans (ih _ _ _)

end Stage

section operations

variable (hosts : Nat → Host ς ε)

theorem Call.leads_openWith (i : Nat) (c : Call) (published : Published) (w : World ς) :
    Leads hosts w (c.openWith (hosts i) published w).2 := by
  cases c with
  | request => exact (plain_readEpoch w _).leads
  | _ => exact .refl hosts w

theorem Call.leads_run (i fuel : Nat) (c : Call) (s : Sweep) (w : World ς) :
    Leads hosts w (c.run (hosts i) fuel s w).2.2 := by
  have opened := c.leads_openWith hosts i s.published w
  unfold run
  split <;> rename_i eq <;> rw [eq] at opened
  · exact opened
  · exact opened.trans (Stage.leads_run hosts i fuel _ _ _)

theorem Errand.leads_takeTurn (i : Nat) (stage : Stage) (w : World ς) :
    Leads hosts w (takeTurn hosts i stage w).2 := by
  have locked : Plain w (w.lock i) := ⟨rfl, rfl⟩
  have turned := Stage.leads_turn hosts i stage (w.sweeps.getD i default) (w.lock i)
  have unlocked (s : Sweep) (w' : World ς) : Plain w' (w'.unlock i s) := ⟨rfl, rfl⟩
  exact locked.leads.trans (turned.trans (unlocked _ _).leads)

/-- Whenever the others have their turn the scopes are as they were when the errand began. -/
theorem Errand.leads_run (balanced : ∀ i, (hosts i).IsBalanced) {t : Scopes}
    {others : Nat → World ς → World ς}
    (hothers : ∀ i w, w.thread.scopes = t → Leads hosts w (others i w)) (fuel : Nat) :
    ∀ (errand : Errand) (w : World ς), w.thread.scopes = t →
      Leads hosts w (errand.run hosts others fuel w).2 := by
  have on {w w' : World ς} (l : Leads hosts w w') (ht : w.thread.scopes = t) :
      w'.thread.scopes = t := by
    obtain ⟨xs, c⟩ := l
    exact (c.scopes_eq balanced).trans ht
  induction fuel with
  | zero =>
    intro errand w _
    unfold run
    exact .refl hosts w
  | succ n ih =>
    rintro ⟨stage, calls, answers⟩ w ht
    cases stage with
    | none =>
      cases calls with
      | nil =>
        unfold run
        exact .refl hosts w
      | cons call calls =>
        obtain ⟨i, c⟩ := call
        have opened := c.leads_openWith hosts i (w.sweeps.getD i default).published w
        unfold run
        split <;> rename_i eq <;> rw [eq] at opened
        · exact opened.trans (ih _ _ (on opened ht))
        · exact opened.trans (ih _ _ (on opened ht))
    | some pending =>
      obtain ⟨i, stage⟩ := pending
      have turned := leads_takeTurn hosts i stage w
      unfold run
      split
      · exact .refl hosts w
      · split <;> rename_i eq <;> rw [eq] at turned
        · exact turned.trans (ih _ _ (on turned ht))
        · exact turned
        · exact turned
        · exact turned.trans (ih _ _ (on turned ht))
        · have yielded := turned.trans (hothers i _ (on turned ht))
          exact yielded.trans (ih _ _ (on yielded ht))

/-- As long as the processors close the scopes that they open, every step and every batch makes one
enclosure, and every turn, every call and every errand makes nothing but such enclosures, at any
time and however it ends. The scopes are as they were after each of them, also where a drain yields,
so that others who work on the same thread there only have to do likewise. -/
theorem keeps_of_isBalanced (balanced : ∀ i, (hosts i).IsBalanced) (w : World ς) :
    (∀ i sh k, ∃ x, Keeps hosts w [x] (Walk.step (hosts i) sh k w).2.2) ∧
    (∀ i sh n k, ∃ x, Keeps hosts w [x] (Walk.batch (hosts i) sh n k w).2.2) ∧
    (∀ i (stage : Stage) s, ∃ xs, Keeps hosts w xs (stage.turn (hosts i) s w).2.2) ∧
    (∀ i fuel (c : Call) s, ∃ xs, Keeps hosts w xs (c.run (hosts i) fuel s w).2.2) ∧
    (∀ fuel (errand : Errand) (others : Nat → World ς → World ς),
      (∀ i w₁, w₁.thread.scopes = w.thread.scopes → Leads hosts w₁ (others i w₁)) →
      ∃ xs, Keeps hosts w xs (errand.run hosts others fuel w).2) ∧
    ∀ k p, Keeps hosts w [] (Sweep.create k p w).2 := by
  have once {i : Nat} {w' : World ς} (p : IsPass (hosts i) w w') : ∃ x, Keeps hosts w [x] w' := by
    obtain ⟨x, encloses⟩ := p.encloses
    exact ⟨x, (Course.pass i .refl p encloses).keeps balanced⟩
  have keeps {w' : World ς} (l : Leads hosts w w') : ∃ xs, Keeps hosts w xs w' := by
    obtain ⟨xs, c⟩ := l
    exact ⟨xs, c.keeps balanced⟩
  refine ⟨?_, ?_, ?_, ?_, ?_, ?_⟩
  · exact fun i sh k => once (.step sh k)
  · exact fun i sh n k => once (.batch sh n k)
  · exact fun i stage s => keeps (Stage.leads_turn hosts i stage s w)
  · exact fun i fuel c s => keeps (Call.leads_run hosts i fuel c s w)
  · intro fuel errand others hothers
    exact keeps (Errand.leads_run hosts balanced hothers fuel errand w rfl)
  · exact fun k p => (Course.plain .refl (Sweep.plain_create k p w)).keeps balanced

end operations

/-! ## An errand to look at -/

/-- A processor that leaves an error pending at one frame and refuses the next. -/
def untidy : Host Unit String where
  kind := ⟨0⟩
  pacing := ⟨2, 1⟩
  onIteration := false
  hasBarrier f _ := f.barrier
  process v w :=
    (if v.frame.id = 2 then .failed "refused" else .ok (),
      { w with thread := { w.thread with
          pending := if v.frame.id = 1 then some "left" else none } })
  describe e := e
  waiters _ := 0

/-- A thread in the middle of something, with two sweeps. -/
def troubled : World Unit where
  thread := ⟨1, some [⟨0, ⟨10⟩, true, false⟩, ⟨1, ⟨20⟩, true, false⟩, ⟨2, ⟨30⟩, true, false⟩], true,
    0, true, 3, 1, some "kept", true⟩
  epochs := .cells [1]
  sweeps := [.settled 0, .settled 0]
  held := []
  log := []
  rest := ()

/-- A drain of both sweeps fails in its third bracket. There is a warning in the second. -/
theorem keeps_of_untidy :
    (∃ xs, Keeps (fun _ => untidy) troubled xs
      ((Errand.broadcast [0, 1] (.drain none)).run (fun _ => untidy) (fun _ w => w) 20
        troubled).2) ∧
    (marks ((Errand.broadcast [0, 1] (.drain none)).run (fun _ => untidy) (fun _ w => w) 20
      troubled).2.log).count (.call (.unsuppress true)) = 3 ∧
    (marks ((Errand.broadcast [0, 1] (.drain none)).run (fun _ => untidy) (fun _ w => w) 20
      troubled).2.log).count (.stray "left") = 1 := by
  have balanced (i : Nat) : untidy.IsBalanced := fun _ _ => ⟨_, rfl⟩
  refine ⟨?_, by decide +kernel, by decide +kernel⟩
  exact (keeps_of_isBalanced (fun _ => untidy) balanced troubled).2.2.2.2.1 20 _ _
    fun _ w _ => .refl _ w

end StackSweep

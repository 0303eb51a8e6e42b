import StackSweep.Proofs.Bustle

/-!
# Every order of brackets

In which order brackets are opened and closed is up to the parties, and every order is possible.
That order alone decides what becomes of the thread's error and suppression.
-/

namespace StackSweep.Bustle

variable {ς ε : Type} {hosts : Nat → Host ς ε} {w : World ς} {b : Bustle ς ε}

theorem assign_assign (p : Nat) (x y : Option (Strand ε)) (b : Bustle ς ε) :
    (b.assign p x).assign p y = b.assign p y := by
  simp only [assign, Bustle.mk.injEq, true_and, and_true]
  funext q
  split <;> rfl

theorem assign_self {p : Nat} {x : Option (Strand ε)} (same : b.strands p = x) :
    b.assign p x = b := by
  have strands : (b.assign p x).strands = b.strands := by
    funext q
    simp only [assign]
    split
    · rw [‹q = p›, same]
    · rfl
  cases b
  simpa [assign] using strands

/-- A party that is at `x` moves on to `y`. -/
theorem Step.assigned {p : Nat} {x y : Strand ε} {w w' : World ς}
    (moved : x.move hosts w = (.going y, w')) :
    Step hosts ({ b with world := w }.assign p (some x))
      (({ b with world := w' }.assign p (some y)).note p x.bracket? y.bracket?) := by
  have eq : ({ b with world := w }.assign p (some x)).move hosts p x =
      ({ b with world := w' }.assign p (some y)).note p x.bracket? y.bracket? := by
    have moved' : x.move hosts ({ b with world := w }.assign p (some x)).world = (.going y, w') :=
      moved
    simp only [Bustle.move, moved']
    exact congrArg (note p _ _) (assign_assign p _ _ { b with world := w' })
  exact eq ▸ .move p x (if_pos rfl)

/-- A move that neither opens nor closes a bracket. -/
def Glides (hosts : Nat → Host ς ε) (a c : Strand ε × World ς) : Prop :=
  a.1.move hosts a.2 = (.going c.1, c.2) ∧ a.1.bracket? = c.1.bracket?

theorem steps_of_glides {p : Nat} {a c : Strand ε × World ς}
    (glides : Relation.ReflTransGen (Glides hosts) a c) :
    Relation.ReflTransGen (Step hosts) ({ b with world := a.2 }.assign p (some a.1))
      ({ b with world := c.2 }.assign p (some c.1)) := by
  refine glides.lift (fun a => { b with world := a.2 }.assign p (some a.1)) ?_
  rintro ⟨x, w⟩ ⟨y, w'⟩ ⟨moved, same⟩
  have step := Step.assigned (b := b) (p := p) moved
  simp only at same
  rw [same] at step
  cases eq : y.bracket? <;> rw [eq] at step <;> exact step

/-- The last frame of a stack. -/
def lastFrame : Frame := ⟨1, ⟨20⟩, true, false⟩

/-- A sweep that has one frame to go. -/
def underWay : Sweep := ⟨⟨⟨10⟩, .pack 0 false⟩, some ⟨1, [lastFrame], ⟨⟨10⟩, .none⟩⟩, 0⟩

/-- A processor that does nothing. -/
def still (i : Nat) : Host Unit String where
  kind := ⟨.ofNat i⟩
  pacing := .standard
  onIteration := true
  hasBarrier f _ := f.barrier
  process _ w := (.ok (), w)
  describe e := e
  waiters _ := 0

theorem isAloof_still (i : Nat) : (still i).IsAloof := fun _ _ => rfl

/-- A thread with these scopes, on which so many sweeps are under way. -/
def crowd (t : Scopes) (n : Nat) : World Unit where
  thread := ⟨1, some [⟨0, ⟨10⟩, true, false⟩, lastFrame], true, n, t.suppressed, t.handles,
    t.resources, t.pending, false⟩
  epochs := .cells []
  sweeps := List.replicate n underWay
  held := []
  log := []
  rest := ()

/-- What a party is at that is about to open a bracket. -/
def entering (p : Nat) : Strand String :=
  ⟨some (p, ⟨.increment, underWay, .stepping, .before ⟨1, [lastFrame], ⟨⟨10⟩, .none⟩⟩⟩),
    ⟨none, [], []⟩⟩

/-- What a party is at whose bracket `x` is open and who has not processed the frame yet. -/
def processing (p : Nat) (x : Bracket) : Strand String :=
  ⟨some (p, ⟨.increment, underWay, .stepping,
    .within ⟨x, .step .none, ⟨1, [lastFrame], ⟨⟨10⟩, .none⟩⟩, none⟩⟩), ⟨none, [], []⟩⟩

/-- Of `n` parties the first `m` have come in, and those that have a bracket open have not processed
the frame yet. -/
structure Manned (n m : Nat) (b : Bustle Unit String) : Prop where
  epochs : b.world.epochs = .cells []
  idle : ∀ p, m ≤ p → b.strands p = none
  free : ∀ p, m ≤ p → p < n → b.world.sweeps[p]? = some underWay ∧ p ∉ b.world.held
  visiting : ∀ p ∈ b.inside, p < m ∧ ∃ x, b.strands p = some (processing p x)

section strands

variable {w : World Unit} {p : Nat}

/-- A party that makes a call comes before a bracket. -/
theorem glides_entering (epochs : w.epochs = .cells []) (sweep : w.sweeps[p]? = some underWay)
    (free : p ∉ w.held) :
    ∃ w', Relation.ReflTransGen (Glides still) (.ofErrand (.ofCalls [(p, .increment)]), w)
        (entering p, w') ∧
      w'.epochs = .cells [] ∧ w'.sweeps = w.sweeps ∧ w'.held = p :: w.held := by
  obtain ⟨thread, _, sweeps, held, log, rest⟩ := w
  cases epochs
  let w : World Unit := ⟨thread, .cells [], sweeps, held, log, rest⟩
  have called : Glides still (.ofErrand (.ofCalls [(p, .increment)]), w)
      (.ofErrand ⟨some (p, .increment), [], []⟩, w) := ⟨rfl, rfl⟩
  have found : w.sweeps.getD p default = underWay := by
    rw [List.getD_eq_getElem?_getD, sweep, Option.getD_some]
  have unheld : w.isHeld p = false := by simpa [World.isHeld] using free
  refine ⟨((w.lock p).readEpoch (still p).kind).2, .head called (.single ⟨?_, rfl⟩), rfl, rfl, rfl⟩
  simp only [Strand.move, Strand.ofErrand, unheld, found]
  rfl

/-- It processes the frame and closes the bracket. -/
theorem glides_processing (x : Bracket) (w : World Unit) :
    ∃ y z w' w'' s, Glides still (processing p x, w) (y, w') ∧ y.bracket? = some x ∧
      y.move still w' = (.going z, w'') ∧ z.bracket? = none ∧
      w''.epochs = w.epochs ∧ w''.sweeps = w.sweeps.set p s ∧ w''.held = w.held.erase p :=
  ⟨_, _, _, _, _, ⟨rfl, rfl⟩, rfl, rfl, rfl, rfl, rfl, rfl⟩

end strands

namespace Manned

variable {n m : Nat} {b : Bustle Unit String}

/-- The next party comes in and opens a bracket. -/
theorem enter (mn : Manned n m b) (room : m < n) :
    ∃ b', Relation.ReflTransGen (Step still) b b' ∧ Manned n (m + 1) b' ∧
      b'.inside = m :: b.inside ∧ b'.toggles = b.toggles ++ [.enter] := by
  obtain ⟨sweep, free⟩ := mn.free m (Nat.le_refl m) room
  obtain ⟨w, glides, epochs, sweeps, held⟩ := glides_entering mn.epochs sweep free
  have joined : Step still b (b.assign m (some (.ofErrand (.ofCalls [(m, .increment)])))) :=
    .join m _ (mn.idle m (Nat.le_refl m))
  have moved : (entering m).move still w =
    (.going (processing m (Bracket.enter w).1), (Bracket.enter w).2) := rfl
  refine ⟨_, .tail (.head joined (steps_of_glides glides)) (.assigned moved), ?_, rfl, rfl⟩
  refine ⟨epochs, ?_, ?_, ?_⟩
  · intro p late
    rw [strands_note]
    exact (if_neg (by omega)).trans (mn.idle p (by omega))
  · intro p late early
    obtain ⟨sweep, free⟩ := mn.free p (by omega) early
    rw [world_note]
    refine ⟨(congrArg (·[p]?) sweeps).trans sweep, ?_⟩
    show p ∉ w.held
    rw [held, List.mem_cons, not_or]
    exact ⟨by omega, free⟩
  · intro p inside
    rw [strands_note]
    rcases List.mem_cons.1 inside with rfl | inside
    · exact ⟨by omega, _, if_pos rfl⟩
    · obtain ⟨early, x, busy⟩ := mn.visiting p inside
      exact ⟨by omega, x, (if_neg (by omega)).trans busy⟩

/-- A party that has a bracket open processes its frame and closes the bracket. -/
theorem leave (mn : Manned n m b) (nodup : b.inside.Nodup) {i : Nat} (hi : i < b.inside.length) :
    ∃ b', Relation.ReflTransGen (Step still) b b' ∧ Manned n m b' ∧
      b'.inside.length = b.inside.length - 1 ∧ b'.toggles = b.toggles ++ [.leave i] := by
  let p := b.inside[i]
  have member : p ∈ b.inside := List.getElem_mem hi
  obtain ⟨early, x, busy⟩ := mn.visiting p member
  obtain ⟨y, z, w', w, s, glides, inside, moved, outside, epochs, sweeps, held⟩ :=
    glides_processing (p := p) x b.world
  have processed := steps_of_glides (b := b) (p := p) (.single glides)
  have closed := Step.assigned (b := b) (p := p) moved
  rw [assign_self busy] at processed
  rw [inside, outside] at closed
  refine ⟨_, processed.tail closed, ?_, List.length_erase_of_mem member, ?_⟩
  · refine ⟨?_, ?_, ?_, ?_⟩
    · rw [world_note]
      exact epochs.trans mn.epochs
    · intro q late
      rw [strands_note]
      exact (if_neg (by omega)).trans (mn.idle q late)
    · intro q late early'
      obtain ⟨sweep, free⟩ := mn.free q late early'
      rw [world_note]
      show w.sweeps[q]? = _ ∧ q ∉ w.held
      rw [sweeps, held, List.getElem?_set_ne (by omega)]
      exact ⟨sweep, fun taken => free (List.mem_of_mem_erase taken)⟩
    · intro q remains
      obtain ⟨apart, remains⟩ := nodup.mem_erase_iff.1 remains
      obtain ⟨early', x', busy'⟩ := mn.visiting q remains
      rw [strands_note]
      exact ⟨early', x', (if_neg apart).trans busy'⟩
  · show b.toggles ++ [.leave (b.inside.idxOf p)] = _
    rw [nodup.idxOf_getElem i hi]

/-- However the brackets are to be opened and closed, the parties can do so. -/
theorem exists_of_order {w : World Unit} (ts : List Toggle) :
    ∀ {m : Nat} {b : Bustle Unit String}, Reachable still w b → Manned n m b →
      IsOrder b.inside.length ts → m + ts.length ≤ n →
        ∃ b', Reachable still w b' ∧ b'.inside = [] ∧ b'.toggles = b.toggles ++ ts := by
  induction ts with
  | nil =>
    intro m b r _ order _
    exact ⟨b, r, List.length_eq_zero_iff.1 order, (List.append_nil _).symm⟩
  | cons toggle ts ih =>
    intro m b r mn order room
    rw [List.length_cons] at room
    obtain ⟨m', b₁, run, manned, rest, room', toggles⟩ : ∃ m' b₁,
        Relation.ReflTransGen (Step still) b b₁ ∧ Manned n m' b₁ ∧
          IsOrder b₁.inside.length ts ∧ m' + ts.length ≤ n ∧
          b₁.toggles = b.toggles ++ [toggle] := by
      cases toggle with
      | enter =>
        obtain ⟨b₁, run, manned, inside, toggles⟩ := mn.enter (by omega)
        exact ⟨m + 1, b₁, run, manned, by rw [inside]; exact order, by omega, toggles⟩
      | leave i =>
        obtain ⟨hi, rest⟩ := order
        obtain ⟨b₁, run, manned, inside, toggles⟩ := mn.leave (r.follows isAloof_still).nodup hi
        exact ⟨m, b₁, run, manned, by rw [inside]; exact rest, by omega, toggles⟩
    obtain ⟨b', r', closed, all⟩ := ih (r.steps run) manned rest room'
    exact ⟨b', r', closed, by rw [all, toggles, List.append_assoc]; rfl⟩

end Manned

theorem manned_start (t : Scopes) (n : Nat) : Manned n 0 (start (crowd t n)) where
  epochs := rfl
  idle _ _ := rfl
  free _ _ h := ⟨List.getElem?_replicate_of_lt h, List.not_mem_nil⟩
  visiting := nofun

/-- A party makes its next move, if it is at anything. -/
def next (b : Bustle Unit String) (p : Nat) : Bustle Unit String :=
  (b.strands p).elim b fun x => b.move still p x

theorem Reachable.next {w : World Unit} {b : Bustle Unit String} (r : Reachable still w b)
    (ps : List Nat) : Reachable still w (ps.foldl Bustle.next b) := by
  induction ps generalizing b with
  | nil => exact r
  | cons p ps ih =>
    refine ih ?_
    unfold Bustle.next
    cases busy : b.strands p with
    | none => exact r
    | some x => exact r.step (.move p x busy)

/-- Two parties are about to make an increment each, on a thread that has an error pending. -/
def together : Bustle Unit String :=
  ((start (crowd ⟨false, 0, 0, some "kept"⟩ 2)).assign 0
    (some (.ofErrand (.ofCalls [(0, .increment)])))).assign 1
      (some (.ofErrand (.ofCalls [(1, .increment)])))

/-- The first party to open a bracket is the first to close it. -/
def crossing : Bustle Unit String := [0, 0, 0, 1, 1, 1, 0, 0, 1, 1].foldl next together

theorem reachable_crossing :
    Reachable still (crowd ⟨false, 0, 0, some "kept"⟩ 2) crossing :=
  ((Reachable.start.step (.join 0 _ rfl)).step (.join 1 _ rfl)).next _

end StackSweep.Bustle

import StackSweep.Proofs.Starting

/-!
# What a published word vouches for

Anyone may read the word in memory at any moment, also in the middle of somebody's turn, and take it
to mean that the campaign has been started. This holds because a start publishes last: whenever a
word was stored, the attempt that stood by then had the word's epoch and had processed the frames
that a start has to pass. None of this depends on where the frames lie or on how epochs follow each
other.
-/

namespace StackSweep

variable {ς ε : Type}

/-! ## Steps pass frames -/

namespace Walk

/-- A step that succeeds passes a frame if there is one. -/
theorem stepFrames_cursor_lt (h : Host ς ε) (sh : Shared) {fs : List Frame} (some : fs ≠ [])
    (last : Position) (cursor : Nat) (w : World ς)
    (ok : (stepFrames h sh last cursor fs w).outcome = .ok ()) :
    cursor < (stepFrames h sh last cursor fs w).cursor := by
  cases fs with
  | nil => exact absurd rfl some
  | cons f rest =>
    unfold stepFrames at ok ⊢
    split at ok
    · split at ok
      · rename_i barrier
        simp only [barrier, if_true]
        omega
      · rename_i barrier
        simp only [barrier]
        obtain ⟨passed, -, moved⟩ :=
          stepFrames_passes h sh f.position (cursor + 1) rest ‹World ς›
        simp only [Bool.false_eq_true, if_false]
        omega
    · cases ok
    · cases ok

/-- A step moves the cursor on by as many frames as it leaves behind, and by at least one if it
succeeds. -/
theorem step_cursor (h : Host ς ε) (sh : Shared) (k : Walk) (w : World ς) :
    k.cursor ≤ (k.step h sh w).2.1.cursor ∧
    (k.step h sh w).2.1.cursor + (k.step h sh w).2.1.ahead.length =
      k.cursor + k.ahead.length ∧
    ((k.step h sh w).1 = .ok () → k.ahead ≠ [] → k.cursor < (k.step h sh w).2.1.cursor) := by
  obtain ⟨passed, split, moved⟩ :=
    stepFrames_passes h sh .none k.cursor k.ahead (Bracket.enter w).2
  have forward (some : k.ahead ≠ []) :=
    stepFrames_cursor_lt h sh some .none k.cursor (Bracket.enter w).2
  unfold step
  simp only
  generalize stepFrames h sh .none k.cursor k.ahead (Bracket.enter w).2 = r
    at split moved forward ⊢
  have length := congrArg List.length split
  rw [List.length_append] at length
  split
  · exact ⟨by simp only; omega, by simp only; omega, fun ok some => forward some ok⟩
  · rw [cursor_record, ahead_record]
    exact ⟨by simp only; omega, by simp only; omega, fun ok some => forward some ok⟩

/-- Steps that succeed pass as many frames as there are steps, or all. -/
theorem steps_cursor (h : Host ς ε) (sh : Shared) (n : Nat) : ∀ (k : Walk) (w : World ς),
    (steps h sh n k w).1 = .ok () →
      k.cursor + min n k.ahead.length ≤ (steps h sh n k w).2.1.cursor := by
  induction n with
  | zero =>
    intro k w _
    simp
  | succ n ih =>
    intro k w
    obtain ⟨le, total, forward⟩ := k.step_cursor h sh w
    unfold steps
    split <;> rename_i k' w' eq <;> rw [eq] at le total forward
    · intro ok
      have rest := ih k' w' ok
      by_cases some : k.ahead = []
      · rw [some]
        simp only [List.length_nil] at le ⊢
        omega
      · have := forward rfl some
        simp only at total this
        omega
    · nofun
    · nofun

end Walk

/-! ## Attempts that cover the first frames -/

/-- The first frames of the stack have been processed, at least that many, or all. -/
def Attempt.Covers (n : Nat) (a : Attempt) : Prop :=
  ∀ fs, a.snapshot = some fs → fs.take n <+: processedIn a.visits

theorem Attempt.Covers.add {n : Nat} {a : Attempt} (c : a.Covers n) (vs : List (Visit × Verdict)) :
    (a.add vs).Covers n := by
  intro fs hs
  show fs.take n <+: processedIn (vs ++ a.visits)
  rw [processedIn_append]
  exact (c fs hs).trans (List.prefix_append _ _)

/-- The first steps of a start that succeed cover as many frames as there are steps. -/
theorem Sweep.covers_firstSteps (h : Host ς ε) (context : Option Nat) (s : Sweep) (w : World ς)
    (ok : (s.firstSteps h context w).1 = .ok ()) {vs : List (Visit × Verdict)}
    (tr : (s.firstSteps h context w).2.1.Tracks w.thread.frames vs) :
    w.thread.frames.take h.pacing.initialFrames <+: processedIn vs := by
  have passed := Walk.steps_cursor h ⟨context, s.published⟩ h.pacing.initialFrames
    (.ofFrames w.thread.frames) ((announced h w).walkStack .incremental).2 ok
  refine List.prefix_of_prefix_length_le (List.take_prefix _ _) tr.inOrder.isPrefix ?_
  rw [List.length_take, ← tr.cursor]
  simpa [Walk.ofFrames, firstSteps] using passed

/-- The attempt stands by the word: it is for the word's campaign and has processed the frames that
a start has to pass. -/
structure Attempt.Backs (n : Nat) (birth : Epoch) (a : Attempt) (w : ProgressWord)
    (log : List Event) : Prop where
  standing : standing (attempts birth log) = some a
  word : w.isOf a.epoch = true
  covers : a.Covers n

/-- A campaign with this epoch has been announced. If not, it is the one of the time when the sweep
was made, and nothing has been published for any other. -/
def Announced (birth e : Epoch) (log : List Event) : Prop :=
  (∃ l, Event.started l e ∈ log) ∨
    e = birth ∧ ∀ p ∈ publications birth log, p.word.isOf birth = true

/-- The entry stores no word. -/
def Event.IsWordless : Event → Prop
  | .wordStored .. => False
  | _ => True

/-- Every word was backed when it was stored. -/
def AlwaysBacked (n : Nat) (birth : Epoch) : List Event → Prop :=
  Throughout fun ev earlier => ∀ l w, ev = .wordStored l w →
    ∃ a : Attempt, a.Backs n birth w earlier ∧ Announced birth a.epoch earlier

section log

variable {n : Nat} {birth e : Epoch} {log log' : List Event} {vs : List (Visit × Verdict)}

theorem Announced.grow (h : Announced birth e log) (suffix : log <:+ log')
    (same : publications birth log' = publications birth log) : Announced birth e log' := by
  rcases h with ⟨l, started⟩ | ⟨own, all⟩
  · exact .inl ⟨l, suffix.subset started⟩
  · exact .inr ⟨own, same ▸ all⟩

theorem adds_isWordless_of_visited (seen : Visited log vs log') :
    Adds Event.IsWordless log log' := by
  refine .of_visited ?_ (fun _ _ _ _ _ => trivial) seen
  intro e aside
  cases e <;> trivial

/-- Only words that are stored need backing. -/
theorem AlwaysBacked.adds (h : AlwaysBacked n birth log) (adds : Adds Event.IsWordless log log') :
    AlwaysBacked n birth log' := by
  refine Throughout.adds h adds ?_
  rintro e earlier wordless l w rfl
  cases wordless

theorem AlwaysBacked.visited (h : AlwaysBacked n birth log) (seen : Visited log vs log') :
    AlwaysBacked n birth log' :=
  h.adds (adds_isWordless_of_visited seen)

theorem AlwaysBacked.grow (es : List Event) (wordless : ∀ e ∈ es, e.IsWordless)
    (h : AlwaysBacked n birth log) : AlwaysBacked n birth (es ++ log) :=
  h.adds ⟨es, rfl, wordless⟩

theorem AlwaysBacked.of_suffix (h : AlwaysBacked n birth log') (suffix : log <:+ log') :
    AlwaysBacked n birth log :=
  Throughout.of_suffix h suffix

/-- The word in memory is that of the last time one was stored, and up to that time memory had what
it had before. Unless none was stored at all. -/
theorem AlwaysBacked.exists_stored : ∀ {log : List Event}, AlwaysBacked n birth log →
    (∀ before, before <:+ log → wordIn birth before = wordIn birth log) ∨
    ∃ l earlier, .wordStored l (wordIn birth log) :: earlier <:+ log ∧
      (∀ before, before <:+ log → before <:+ earlier ∨ wordIn birth before = wordIn birth log) ∧
      ∃ a : Attempt, a.Backs n birth (wordIn birth log) earlier ∧ Announced birth a.epoch earlier
  | [], _ => .inl fun before suffix => by rw [List.suffix_nil.1 suffix]
  | e :: log, ⟨now, past⟩ => by
    have other (same : wordIn birth (e :: log) = wordIn birth log) :
        (∀ before, before <:+ e :: log → wordIn birth before = wordIn birth (e :: log)) ∨
        ∃ l earlier, .wordStored l (wordIn birth (e :: log)) :: earlier <:+ e :: log ∧
          (∀ before, before <:+ e :: log →
            before <:+ earlier ∨ wordIn birth before = wordIn birth (e :: log)) ∧
          ∃ a : Attempt, a.Backs n birth (wordIn birth (e :: log)) earlier ∧
            Announced birth a.epoch earlier := by
      rcases exists_stored past with none | ⟨l, earlier, stored, since, backed⟩
      · left
        intro before suffix
        rcases List.suffix_cons_iff.1 suffix with rfl | suffix
        · rfl
        · rw [none before suffix, same]
      · refine .inr ⟨l, earlier, ?_, ?_, ?_⟩
        · rw [same]
          exact stored.trans (List.suffix_cons _ _)
        · intro before suffix
          rcases List.suffix_cons_iff.1 suffix with rfl | suffix
          · exact .inr rfl
          · rw [same]
            exact since before suffix
        · rw [same]
          exact backed
    cases e with
    | wordStored l w =>
      refine .inr ⟨l, log, List.suffix_refl _, ?_, now l w rfl⟩
      intro before suffix
      rcases List.suffix_cons_iff.1 suffix with rfl | suffix
      · exact .inr rfl
      · exact .inl suffix
    | _ => exact other rfl

end log

namespace Sweep

/-- The sweep publishes what memory holds, its attempts have done what a start has to do, and every
word was stored by one that had. -/
structure Earned (n : Nat) (birth : Epoch) (s : Sweep) (log : List Event) : Prop where
  word : wordIn birth log = s.published.word
  covered : ∀ a ∈ attempts birth log, a.stands = true → a.Covers n
  announced : Announced birth s.epoch log
  backed : AlwaysBacked n birth log

variable {n : Nat} {birth : Epoch} {s s' : Sweep} {log log' : List Event}

theorem earned_settled (n : Nat) (birth : Epoch) (k : KindId) :
    (settled birth).Earned n birth [.epochRead k birth] where
  word := rfl
  covered := by
    rintro a (_ | ⟨_, ⟨⟩⟩) - fs ⟨⟩
  announced := by
    refine .inr ⟨rfl, ?_⟩
    rintro p (_ | ⟨_, ⟨⟩⟩)
    exact ProgressWord.isOf_pack.2 rfl
  backed := ⟨nofun, trivial⟩

theorem earned_read (h : s.Earned n birth log) (i : KindId) (e : Epoch) :
    s.Earned n birth (.epochRead i e :: log) where
  word := h.word
  covered := h.covered
  announced := h.announced.grow (List.suffix_cons _ _) rfl
  backed := ⟨nofun, h.backed⟩

theorem earned_visited (h : s.Earned n birth log) {vs : List (Visit × Verdict)}
    (seen : Visited log vs log') : s.Earned n birth log' where
  word := (seen.publications_eq birth).2.2.trans h.word
  covered := by
    rw [seen.attempts_eq]
    exact forall_mem_modifyHead h.covered fun a covers stands => (covers stands).add vs
  announced := h.announced.grow seen.suffix (seen.publications_eq birth).1
  backed := h.backed.visited seen

theorem earned_walk (h : s.Earned n birth log) (k : Option Walk) :
    Earned n birth { s with walk := k } log :=
  ⟨h.word, h.covered, h.announced, h.backed⟩

/-- Whatever is published carries the epoch of the attempt that stands. -/
theorem earned_publishes (h : s.Earned n birth log) (acc : s.Accounted (attempts birth log))
    (published : s.Publishes log s' log') : s'.Earned n birth log' := by
  obtain ⟨b, hb, he⟩ := acc.follows.standing_eq
  have told (w : ProgressWord) :
      ∀ a ∈ (attempts birth log).modifyHead (.tell w), a.stands = true → a.Covers n :=
    forall_mem_modifyHead h.covered fun _ covers => covers
  have backs (l : Label) (p : Position) (d : Bool) :
      b.Backs n birth (.pack s.epoch d) (.boundaryStored l p :: log) :=
    ⟨hb, ProgressWord.isOf_pack.2 (by rw [he]),
      h.covered b (mem_of_standing hb) (standing_stands hb)⟩
  have stored (l l' : Label) (p : Position) (d : Bool) : AlwaysBacked n birth
      (.wordStored l (.pack s.epoch d) :: .boundaryStored l' p :: log) := by
    refine ⟨?_, nofun, h.backed⟩
    rintro _ _ ⟨⟩
    exact ⟨b, backs l' p d, he ▸ h.announced.grow (List.suffix_cons _ _) rfl⟩
  -- A word with the sweep's own epoch does not speak of any other campaign.
  have announced {log₁ : List Event} {q : Published} {d : Bool} (suffix : log <:+ log₁)
      (same : publications birth log₁ = q :: publications birth log)
      (word : q.word = .pack s.epoch d) : Announced birth s.epoch log₁ := by
    rcases h.announced with ⟨l, started⟩ | ⟨own, all⟩
    · exact .inl ⟨l, suffix.subset started⟩
    · refine .inr ⟨own, ?_⟩
      rw [same]
      refine List.forall_mem_cons.2 ⟨?_, all⟩
      rw [word, own]
      exact ProgressWord.isOf_pack.2 rfl
  cases published with
  | boundary l hk left pos =>
    exact ⟨rfl, told _, announced (d := false) ⟨[_, _], rfl⟩ rfl rfl, stored l l _ false⟩
  | ending l exhausted =>
    split
    · exact ⟨rfl, told _, announced (d := true) ⟨[_, _], rfl⟩ rfl rfl, stored l l _ true⟩
    · exact ⟨rfl, told _, announced (d := true) ⟨[_, _, _], rfl⟩ rfl rfl, nofun, stored l l _ true⟩
  | stuck => exact h

theorem earned_moves (h : s.Earned n birth log) (acc : s.Accounted (attempts birth log))
    (moves : s.Moves log s' log') : s'.Earned n birth log' := by
  cases moves with
  | rest => exact h
  | settle _ published => exact earned_publishes h acc published
  | unwound _ passes =>
    obtain ⟨vs, seen, -⟩ := passes
    exact earned_visited (earned_walk h _) seen
  | passed hk passes published asides =>
    have acc' := accounted_passes acc hk passes
    obtain ⟨vs, seen, -⟩ := passes
    exact earned_visited (earned_publishes (earned_visited (earned_walk h _) seen) acc' published)
      asides

/-- A start publishes last, after its first steps have succeeded. -/
theorem earned_start {h : Host ς ε} (context : Option Nat) {w : World ς}
    (earned : s.Earned h.pacing.initialFrames birth w.log)
    (acc : s.Accounted (attempts birth w.log)) :
    (s.start h context w).2.1.Earned h.pacing.initialFrames birth
      (s.start h context w).2.2.log := by
  have announced {log₁ : List Event} {l : Label}
      (mem : .started l (w.readEpoch h.kind).1 ∈ log₁) :
      Announced birth (w.readEpoch h.kind).1 log₁ :=
    .inl ⟨l, mem⟩
  have opened : AlwaysBacked h.pacing.initialFrames birth (openedLog h w) :=
    earned.backed.grow [_, _, _] (by simp [Event.IsWordless])
  have covered {a : Attempt} (fresh : a.stands = true → a.Covers h.pacing.initialFrames) :
      ∀ b ∈ a :: attempts birth w.log, b.stands = true → b.Covers h.pacing.initialFrames :=
    List.forall_mem_cons.2 ⟨fresh, earned.covered⟩
  have passes := firstSteps_passes h context s w
  cases s.departs h context w with
  | idle walkable start =>
    have begun : Earned h.pacing.initialFrames birth
        { s with walk := none, epoch := (w.readEpoch h.kind).1 } (Sweep.announced h w).log := by
      refine ⟨earned.word, covered ?_, ?_,
        earned.backed.grow [_, _] (by simp [Event.IsWordless])⟩
      · rintro - fs ⟨⟩
      · exact announced (l := h.label w) List.mem_cons_self
    rw [start]
    exact earned_publishes begun (accounted_idle acc h.kind _ (h.label w))
      (publishes_conclude h (o := .ok ()) (by simp) _ _)
  | begun k w' walkable steps start =>
    have covers (vs : List (Visit × Verdict)) (tr : k.Tracks w.thread.frames vs) :=
      s.covers_firstSteps h context w (congrArg Prod.fst steps) (by rwa [steps])
    rw [steps] at passes
    have acc' : Accounted { s with walk := some k, epoch := (w.readEpoch h.kind).1 }
        (attempts birth (w'.record (.installed (h.label w') (w.readEpoch h.kind).1)).log) :=
      accounted_installed acc (passes.imp False.elim)
    obtain ⟨vs, seen, -, led⟩ := passes
    have tr := (led _ [] (Walk.tracks_ofFrames _)).1
    rw [List.append_nil] at tr
    rw [start]
    refine earned_publishes ⟨?_, ?_, ?_, ?_⟩ acc'
      (publishes_conclude h (o := .ok ()) (by simp) _ _)
    · exact (seen.publications_eq birth).2.2.trans earned.word
    · rw [World.log_record, attempts, attempts_started seen]
      refine covered ?_
      rintro - fs ⟨⟩
      exact covers vs tr
    · exact announced (l := h.label w)
        (List.mem_cons_of_mem _ (seen.suffix.subset (by simp [openedLog])))
    · exact (opened.visited seen).grow [_] (by simp [Event.IsWordless])
  | refused _ _ _ dropped asides =>
    obtain ⟨vs, seen, -⟩ := passes
    rw [dropped]
    refine earned_visited ⟨?_, ?_, ?_, opened.visited seen⟩ asides
    · exact (seen.publications_eq birth).2.2.trans earned.word
    · rw [attempts_started seen]
      exact covered fun stands => by cases stands
    · exact earned.announced.grow (.trans ⟨[_, _, _], rfl⟩ seen.suffix)
        (seen.publications_eq birth).1

theorem earned_parts {h : Host ς ε} {w : World ς} (parts : Parts h s w s' log')
    (hv : h.pacing.Valid) (earned : s.Earned h.pacing.initialFrames birth w.log)
    (acc : s.Accounted (attempts birth w.log)) : s'.Earned h.pacing.initialFrames birth log' := by
  cases parts with
  | looked i e => exact earned_read earned i e
  | resumed moves => exact earned_moves earned acc moves
  | ensured context asides moves =>
    have read := earned_read earned h.kind (w.readEpoch h.kind).1
    have acc' : s.Accounted (attempts birth (w.readEpoch h.kind).2.log) := acc
    unfold ensureStarted at asides moves
    by_cases stale : s.isStale (w.readEpoch h.kind).1 = true
    · simp only [stale, if_true] at asides moves
      obtain ⟨begun, starts, -⟩ := starts_start h hv context s (w.readEpoch h.kind).2
      refine earned_moves (earned_visited (earned_start context read acc') asides) ?_ moves
      rw [asides.attempts_same]
      exact accounted_starts acc' starts
    · rw [Bool.not_eq_true] at stale
      simp only [stale, Bool.false_eq_true, if_false] at asides moves
      refine earned_moves (earned_visited read asides) ?_ moves
      rw [asides.attempts_same]
      exact acc'

end Sweep

namespace Site

variable {h : Host ς ε} {birth : Epoch} {site : Site ς}

theorem Reachable.earned (r : Reachable h birth site) :
    site.sweep.Earned h.pacing.initialFrames birth site.world.log := by
  induction r with
  | created empty made =>
    simp only [log_created empty made]
    exact Sweep.earned_settled _ birth h.kind
  | @step site site' r st ih =>
    cases st with
    | change w same =>
      simp only [same]
      exact ih
    | call p c _ =>
      rw [sweep_call]
      rcases log_call h p c site with same | same
      · rw [same]
        exact ih
      · rw [same]
        exact Sweep.earned_read ih _ _
    | turn p b _ =>
      exact Sweep.earned_parts (Sweep.parts_turn h b.stage site.sweep site.world) r.valid ih
        r.accounted

end Site

end StackSweep

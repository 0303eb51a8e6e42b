import StackSweep.Proofs.Turning

/-!
# Walks and attempts

How a sweep and its log belong together, whatever epochs are read and wherever frames lie. The
walk that the lock guards is the walk of the latest attempt, and it has passed exactly the frames
that the log shows as processed for that attempt. If the first steps of the latest attempt did not
succeed there is no walk, and the epoch is still that of the attempt before.
-/

namespace StackSweep

/-- The latest attempt that stands. -/
def standing (as : List Attempt) : Option Attempt := as.find? Attempt.stands

/-- What an attempt tells of itself fits together. -/
structure Attempt.IsSound (a : Attempt) : Prop where
  inOrder : ∀ fs, a.snapshot = some fs → InOrder fs a.visits
  installed : a.installed = true → a.snapshot ≠ none
  published : a.published = true → a.stands = true

/-- What the latest attempt is to the sweep. -/
inductive Sweep.Follows (s : Sweep) : List Attempt → Prop
  /-- There was no stack to walk. -/
  | idle {a : Attempt} {as} : a.snapshot = none → a.installed = false → s.walk = none →
      s.epoch = a.epoch → Follows s (a :: as)
  | walking {a : Attempt} {as k fs} : a.snapshot = some fs → a.installed = true →
      s.walk = some k → s.epoch = a.epoch → k.Tracks fs a.visits → Follows s (a :: as)
  /-- The first steps did not succeed. -/
  | failed {a b : Attempt} {as fs} : a.snapshot = some fs → a.installed = false →
      s.walk = none → standing as = some b → s.epoch = b.epoch → Follows s (a :: as)

/-- The attempts account for the walk and the epoch of the sweep. -/
structure Sweep.Accounted (s : Sweep) (as : List Attempt) : Prop where
  follows : s.Follows as
  sound : ∀ a ∈ as, a.IsSound

section attempts

variable {a : Attempt} {as : List Attempt}

theorem standing_cons_of_stands (h : a.stands = true) : standing (a :: as) = some a := by
  simp [standing, h]

theorem standing_cons_of_not_stands (h : a.stands = false) :
    standing (a :: as) = standing as := by
  simp [standing, h]

theorem standing_stands (h : standing as = some a) : a.stands = true :=
  List.find?_some h

theorem mem_of_standing (h : standing as = some a) : a ∈ as :=
  List.mem_of_find?_eq_some h

theorem Attempt.IsSound.tell (h : a.IsSound) (w : ProgressWord) : (a.tell w).IsSound where
  inOrder := h.inOrder
  installed := h.installed
  published hp := by
    rcases Bool.or_eq_true_iff.1 hp with hp | hp
    · exact h.published hp
    · exact (Bool.and_eq_true_iff.1 hp).1

/-- The epoch of a sweep is that of the attempt that stands. -/
theorem Sweep.Follows.standing_eq {s : Sweep} (h : s.Follows as) :
    ∃ b, standing as = some b ∧ s.epoch = b.epoch := by
  cases h with
  | idle hs _ _ he => exact ⟨_, standing_cons_of_stands (by simp [Attempt.stands, hs]), he⟩
  | walking _ hi _ he _ => exact ⟨_, standing_cons_of_stands (by simp [Attempt.stands, hi]), he⟩
  | failed hs hi _ hb he =>
    exact ⟨_, (standing_cons_of_not_stands (by simp [Attempt.stands, hs, hi])).trans hb, he⟩

theorem Sweep.Follows.epoch_of_stands {s : Sweep} (h : s.Follows (a :: as))
    (ha : a.stands = true) : s.epoch = a.epoch := by
  obtain ⟨b, hb, he⟩ := h.standing_eq
  rw [standing_cons_of_stands ha] at hb
  cases hb
  exact he

/-- A word with the sweep's epoch tells of the latest attempt if that stands. -/
theorem Sweep.Follows.published_tell {s : Sweep} (h : s.Follows (a :: as))
    (ha : a.stands = true) (done : Bool) : (a.tell (.pack s.epoch done)).published = true := by
  have same : (ProgressWord.pack s.epoch done).isOf a.epoch = true := by
    rw [h.epoch_of_stands ha]
    exact ProgressWord.isOf_pack.2 rfl
  simp [Attempt.tell, same, ha]

/-- The latest attempt is the one whose walk is in place. -/
theorem Sweep.Follows.of_walk {s : Sweep} {k : Walk} (h : s.Follows as)
    (hk : s.walk = some k) : ∃ a rest fs, as = a :: rest ∧ a.snapshot = some fs ∧
      a.installed = true ∧ s.epoch = a.epoch ∧ k.Tracks fs a.visits := by
  cases h with
  | idle _ _ hw _ => rw [hw] at hk; cases hk
  | walking hs hi hw he tr =>
    cases hw.symm.trans hk
    exact ⟨_, _, _, rfl, hs, hi, he, tr⟩
  | failed _ _ hw _ => rw [hw] at hk; cases hk

/-- A walk that was put in place for the latest attempt is there. -/
theorem Sweep.Follows.walk_of_installed {s : Sweep} {fs : List Frame} (h : s.Follows (a :: as))
    (installed : a.installed = true) (hs : a.snapshot = some fs) :
    ∃ k, s.walk = some k ∧ k.Tracks fs a.visits := by
  cases h with
  | idle _ hi _ _ => rw [installed] at hi; cases hi
  | walking hs' _ hk _ tr =>
    cases hs.symm.trans hs'
    exact ⟨_, hk, tr⟩
  | failed _ hi _ _ _ => rw [installed] at hi; cases hi

end attempts

namespace Sweep

variable {birth : Epoch} {s s' : Sweep} {log log' : List Event}

theorem accounted_settled (birth : Epoch) : (settled birth).Accounted [.ofBirth birth] := by
  refine ⟨.idle rfl rfl rfl rfl, ?_⟩
  rintro a (_ | ⟨_, ⟨⟩⟩)
  exact ⟨nofun, nofun, fun _ => rfl⟩

/-! ## One change at a time -/

/-- What publishing changes. -/
theorem Publishes.cases_told (birth : Epoch) (h : s.Publishes log s' log') :
    (s' = s ∧ log' = log) ∨ ∃ b d, s' = { s with published := ⟨b, .pack s.epoch d⟩ } ∧
      readings log' = readings log ∧
        attempts birth log' = (attempts birth log).modifyHead (.tell (.pack s.epoch d)) := by
  cases h with
  | boundary l hk left pos => exact .inr ⟨_, _, rfl, rfl, rfl⟩
  | ending l hk =>
    refine .inr ⟨_, _, rfl, ?_⟩
    split <;> exact ⟨rfl, rfl⟩
  | stuck => exact .inl ⟨rfl, rfl⟩

theorem Publishes.walk_eq (h : s.Publishes log s' log') : s'.walk = s.walk := by
  rcases h.cases_told 0 with ⟨rfl, -⟩ | ⟨b, d, rfl, -, -⟩
  · rfl
  · rfl

section same

variable {β : Type} {g : Attempt → β}

/-- Whatever of an attempt neither visits nor words change. -/
theorem Publishes.map_attempts_eq (told : ∀ w a, g (a.tell w) = g a)
    (h : s.Publishes log s' log') : (attempts birth log').map g = (attempts birth log).map g := by
  rcases h.cases_told birth with ⟨-, rfl⟩ | ⟨b, d, -, -, same⟩
  · rfl
  · rw [same]
    exact map_modifyHead (told _) _

theorem Moves.map_attempts_eq (added : ∀ vs a, g (a.add vs) = g a)
    (told : ∀ w a, g (a.tell w) = g a) (h : s.Moves log s' log') :
    (attempts birth log').map g = (attempts birth log).map g := by
  cases h with
  | rest => rfl
  | settle _ published => exact published.map_attempts_eq told
  | unwound _ passes =>
    obtain ⟨vs, seen, -⟩ := passes
    exact seen.map_attempts_eq added
  | passed _ passes published asides =>
    obtain ⟨vs, seen, -⟩ := passes
    rw [asides.map_attempts_eq added, published.map_attempts_eq told, seen.map_attempts_eq added]

end same

theorem Follows.tell {as : List Attempt} (h : s.Follows as) (p : Published)
    (w : ProgressWord) : Follows { s with published := p } (as.modifyHead (.tell w)) := by
  cases h with
  | idle hs hi hw he => exact .idle hs hi hw he
  | walking hs hi hw he tr => exact .walking hs hi hw he tr
  | failed hs hi hw hb he => exact .failed hs hi hw hb he

theorem accounted_publishes (acc : s.Accounted (attempts birth log)) (h : s.Publishes log s' log') :
    s'.Accounted (attempts birth log') := by
  rcases h.cases_told birth with ⟨rfl, rfl⟩ | ⟨b, d, rfl, -, ha⟩
  · exact acc
  · rw [ha]
    exact ⟨acc.follows.tell _ _, forall_mem_modifyHead acc.sound fun a ha => ha.tell _⟩

theorem accounted_passes {k k' : Walk} {unwound : Prop} (acc : s.Accounted (attempts birth log))
    (hk : s.walk = some k) (h : k.Passes log unwound k' log') :
    Accounted { s with walk := some k' } (attempts birth log') := by
  obtain ⟨a, as, fs, ha, hs, hi, he, tr⟩ := acc.follows.of_walk hk
  obtain ⟨vs, seen, -, led⟩ := h
  have tr' := (led fs a.visits tr).1
  have sound := acc.sound
  rw [ha] at sound
  rw [seen.attempts_eq, ha]
  refine ⟨.walking hs hi rfl he tr', ?_⟩
  intro b hb
  rcases List.mem_cons.1 hb with rfl | hb
  · refine ⟨?_, fun _ => by simp [Attempt.add, hs], (sound a (by simp)).published⟩
    intro fs' hs'
    cases hs.symm.trans hs'
    exact tr'.inOrder
  · exact sound b (List.mem_cons_of_mem _ hb)

theorem accounted_moves (acc : s.Accounted (attempts birth log)) (h : s.Moves log s' log') :
    s'.Accounted (attempts birth log') := by
  cases h with
  | rest => exact acc
  | settle _ published => exact accounted_publishes acc published
  | unwound hk passes => exact accounted_passes acc hk passes
  | passed hk passes published asides =>
    rw [asides.attempts_same]
    exact accounted_publishes (accounted_passes acc hk passes) published

/-- A start that finds no stack to walk, before it publishes. -/
theorem accounted_idle (acc : s.Accounted (attempts birth log)) (i : KindId) (e : Epoch)
    (l : Label) : Accounted { s with walk := none, epoch := e }
      (attempts birth (.started l e :: .epochRead i e :: log)) := by
  refine ⟨.idle rfl rfl rfl rfl, ?_⟩
  rintro a (_ | ⟨_, ha⟩)
  · exact ⟨nofun, nofun, nofun⟩
  · exact acc.sound a ha

theorem sound_started {vs : List (Visit × Verdict)} {fs : List Frame} {k : Walk}
    (acc : s.Accounted (attempts birth log)) (tr : k.Tracks fs vs) (e : Epoch) (installed : Bool) :
    ∀ a ∈ ⟨e, some fs, vs, installed, false⟩ :: attempts birth log, a.IsSound := by
  rintro a (_ | ⟨_, ha⟩)
  · refine ⟨?_, nofun, nofun⟩
    intro fs' hs
    cases hs
    exact tr.inOrder
  · exact acc.sound a ha

theorem attempts_started {i : KindId} {e : Epoch} {l : Label} {tid : Nat} {o : WalkOptions}
    {fs : List Frame} {vs : List (Visit × Verdict)} {log₁ : List Event}
    (seen : Visited (.walk tid o fs :: .started l e :: .epochRead i e :: log) vs log₁) :
    attempts birth log₁ = ⟨e, some fs, vs, false, false⟩ :: attempts birth log := by
  rw [seen.attempts_eq]
  simp [attempts, Attempt.add]

/-- A start whose first steps succeeded, before it publishes. -/
theorem accounted_installed {k : Walk} {i : KindId} {e : Epoch} {l l' : Label} {tid : Nat}
    {o : WalkOptions} {fs : List Frame} {log₁ : List Event}
    (acc : s.Accounted (attempts birth log))
    (passes : (Walk.ofFrames fs).Passes (.walk tid o fs :: .started l e :: .epochRead i e :: log)
      False k log₁) :
    Accounted { s with walk := some k, epoch := e } (attempts birth (.installed l' e :: log₁)) := by
  obtain ⟨vs, seen, -, led⟩ := passes
  have tr := (led fs [] (Walk.tracks_ofFrames fs)).1
  rw [List.append_nil] at tr
  rw [attempts, attempts_started seen]
  exact ⟨.walking rfl rfl rfl rfl tr, sound_started acc tr e true⟩

theorem accounted_starts {begun : Bool} (acc : s.Accounted (attempts birth log))
    (h : s.Starts log begun s' log') : s'.Accounted (attempts birth log') := by
  cases h with
  | idle i e l published => exact accounted_publishes (accounted_idle acc i e l) published
  | dropped i e l tid o fs passes asides =>
    obtain ⟨vs, seen, -, led⟩ := passes
    have tr := (led fs [] (Walk.tracks_ofFrames fs)).1
    rw [List.append_nil] at tr
    obtain ⟨b, hb, he⟩ := acc.follows.standing_eq
    rw [asides.attempts_same, attempts_started seen]
    exact ⟨.failed rfl rfl rfl hb he, sound_started acc tr e false⟩
  | installed i e l l' tid o fs passes filled published =>
    exact accounted_publishes (accounted_installed acc passes) published

theorem accounted_turns (acc : s.Accounted (attempts birth log)) (h : s.Turns log s' log') :
    s'.Accounted (attempts birth log') := by
  cases h with
  | looked => exact acc
  | resumed moves => exact accounted_moves acc moves
  | current i e _ asides moves =>
    refine accounted_moves ?_ moves
    rw [asides.attempts_same]
    exact acc
  | renewed i e _ starts asides moves =>
    have read : s.Accounted (attempts birth (.epochRead i e :: log)) := acc
    refine accounted_moves ?_ moves
    rw [asides.attempts_same]
    exact accounted_starts read starts

end Sweep

end StackSweep

import StackSweep.Proofs.Safety

/-!
# Progress

A campaign only moves on. What is published for it never takes anything back, and a frame that is
safe for it stays safe until the authority names another campaign.
-/

namespace StackSweep

theorem Epoch.IsPast.of_suffix {e : Epoch} {rs rs' : List Epoch} (h : e.IsPast rs)
    (nr : Epoch.NeverReturn rs') (suffix : rs <:+ rs') : e.IsPast rs' := by
  obtain ⟨es, rfl⟩ := suffix
  induction es with
  | nil => exact h
  | cons r es ih => exact (ih nr.tail).cons nr

namespace Sweep

variable {birth e : Epoch} {p : Position} {s s' : Sweep} {log log' : List Event}

/-- Publishing keeps a frame safe that lies inside the leading boundary. -/
theorem Publishes.isSafeAt (h : s.Publishes log s' log')
    (same : s.epoch.significant = e.significant)
    (inside : ∀ k, s.walk = some k → k.ahead ≠ [] → p.addr < k.trail.leading.addr)
    (safe : s.isSafeAt e p = true) : s'.isSafeAt e p = true := by
  have of (d : Bool) : (ProgressWord.pack s.epoch d).isOf e = true := ProgressWord.isOf_pack.2 same
  cases h with
  | @boundary k l hk left pos =>
    refine isSafeAt_iff.2 ⟨of false, .inr ?_⟩
    intro k' hk'
    cases hk.symm.trans hk'
    exact inside k hk left
  | ending l exhausted =>
    exact isSafeAt_iff.2 ⟨of true, .inl (ProgressWord.isDone_pack _ _)⟩
  | stuck => exact safe

/-- The leading boundary only moves outwards, so that whatever lies inside it stays there. -/
theorem isSafeAt_moves (known : s.Known birth log) (safe : s.isSafeAt e p = true)
    (moves : s.Moves log s' log') : s'.isSafeAt e p = true := by
  obtain ⟨ord, acc, -, kept, -⟩ := known
  obtain ⟨of, decided⟩ := isSafeAt_iff.1 safe
  have same : s.epoch.significant = e.significant := ProgressWord.significant_eq kept.word of
  have outwards {k k' : Walk} {log₁ : List Event} {unwound : Prop} (hk : s.walk = some k)
      (passes : k.Passes log unwound k' log₁) :
      k.trail.leading.addr ≤ k'.trail.leading.addr := by
    obtain ⟨a, as, fs, has, hs, -, -, tr⟩ := acc.follows.of_walk hk
    have asc : Ascending fs := ord.of_snapshot (has ▸ List.mem_cons_self) hs
    obtain ⟨vs, -, -, led⟩ := passes
    exact ((led fs a.visits tr).2 asc).1.2
  have moved {k k' : Walk} {log₁ : List Event} {unwound : Prop} (hk : s.walk = some k)
      (passes : k.Passes log unwound k' log₁) :
      isSafeAt { s with walk := some k' } e p = true := by
    refine isSafeAt_iff.2 ⟨of, ?_⟩
    rcases decided with done | inside
    · exact .inl done
    · right
      intro k'' hk''
      cases hk''
      exact Nat.lt_of_lt_of_le (inside k hk) (outwards hk passes)
  cases moves with
  | rest => exact safe
  | settle hw published => exact published.isSafeAt same (by simp [hw]) safe
  | unwound hk passes => exact moved hk passes
  | @passed k k' _ _ _ _ hk passes published asides =>
    refine published.isSafeAt same ?_ (moved hk passes)
    intro k'' hk'' left
    cases hk''
    obtain ⟨a, as, fs, has, hs, -, -, tr⟩ := acc.follows.of_walk hk
    have notDone := (kept.underWay k hk (passes.ahead_ne_nil tr left)).notDone
    rcases decided with done | inside
    · simp [notDone] at done
    · exact Nat.lt_of_lt_of_le (inside k hk) (outwards hk passes)

/-- No turn makes a safe frame unsafe unless another epoch has been read by its end. -/
theorem isSafeAt_turns (known : s.Known birth log) (ord : Orderly log')
    (current : ¬ e.IsPast (readings log')) (safe : s.isSafeAt e p = true)
    (turns : s.Turns log s' log') : s'.isSafeAt e p = true := by
  refine turns.preserves (P := fun s _ => s.isSafeAt e p = true) known ord safe ?_ ?_ ?_ ?_
  · exact fun _ => safe
  · exact fun safe _ => safe
  · -- The word is of the epoch that the frame is safe for, and another one has been read.
    intro i r begun s₁ log₁ stale starts suffix
    have of := (isSafeAt_iff.1 safe).1
    have past : e.IsPast (r :: readings log) := by
      refine (known.dated.word e of).isPast ?_
      intro same
      have := s.published.word.isOf_congr same
      simp [isStale, this, of] at stale
    refine absurd (past.of_suffix ord.neverReturn ?_) current
    exact readings_suffix (starts.suffix.trans suffix)
  · exact fun safe known₁ moves => isSafeAt_moves known₁ safe moves

end Sweep

namespace Site

variable {ς ε : Type} {h : Host ς ε} {birth : Epoch} {site before : Site ς}

theorem Reachable.isSafeAt_run (r : Reachable h birth before)
    (run : Relation.ReflTransGen (Step h) before site) (ord : Orderly site.world.log) {e : Epoch}
    {p : Position} (current : ¬ e.IsPast (readings site.world.log))
    (safe : before.sweep.isSafeAt e p = true) : site.sweep.isSafeAt e p = true := by
  induction run with
  | refl => exact safe
  | @tail middle site run st ih =>
    have r' := r.steps run
    have suffix := st.suffix r'.valid
    have ord' := ord.of_suffix suffix
    have safe' := ih ord' fun past =>
      current (past.of_suffix ord.neverReturn (readings_suffix suffix))
    rcases st.unchanged_or_turns r'.valid with ⟨same, -⟩ | turns
    · rwa [same]
    · exact Sweep.isSafeAt_turns (r'.known ord') ord current safe' turns

/-- Along the publications, for one campaign the boundary only moves outwards and goes missing no
sooner than the campaign ends, and no campaign follows one that was read after it. As long as an
epoch is current, what is safe stays safe. -/
theorem progress_of_reachable (r : Reachable h birth site) (ord : site.IsOrderly h) :
    (publications birth site.world.log).head? = some site.sweep.published ∧
    (∀ p ∈ publications birth site.world.log, p.boundary = .none ↔ p.word.isDone = true) ∧
    ((publications birth site.world.log).Pairwise fun later earlier =>
      earlier.word.epoch = later.word.epoch → later.Continues earlier) ∧
    ((publications birth site.world.log).Pairwise fun later earlier =>
      later.word.epoch.NotBefore earlier.word.epoch (readings site.world.log)) ∧
    ∀ before, Reachable h birth before → Relation.ReflTransGen (Step h) before site →
      (before.current h).significant = (site.current h).significant →
      ∀ f : Frame, f.trampoline = false → (before.sweep.isSafe h f before.world).1 = true →
        (site.sweep.isSafe h f site.world).1 = true := by
  have latest := (r.known ord.orderly).latest
  refine ⟨latest.latest, latest.consistent, latest.continued, latest.ordered, ?_⟩
  intro before r' run same f hf safe
  rw [isSafe_eq hf] at safe ⊢
  have kept := r'.isSafeAt_run run ord.orderly (ord.not_isPast same) safe
  rw [Sweep.isSafeAt_iff] at kept ⊢
  rwa [site.sweep.published.word.isOf_congr same] at kept

/-- In the run the first boundary lies at the innermost frame and the next one at its caller, and
the innermost frame stays safe. -/
theorem progress_of_advanced :
    (publications 0 advanced.world.log).map (·.boundary.addr) = [20, 10, 0] ∧
    ((publications 0 advanced.world.log).Pairwise fun later earlier =>
      earlier.word.epoch = later.word.epoch → later.Continues earlier) ∧
    (begun.sweep.isSafe moody ⟨0, ⟨10⟩, true, false⟩ begun.world).1 = true ∧
    (advanced.sweep.isSafe moody ⟨0, ⟨10⟩, true, false⟩ advanced.world).1 = true := by
  have ord : advanced.IsOrderly moody := ⟨by decide +kernel, by decide +kernel⟩
  have safe : (begun.sweep.isSafe moody ⟨0, ⟨10⟩, true, false⟩ begun.world).1 = true := by
    decide +kernel
  obtain ⟨-, -, continued, -, stays⟩ := progress_of_reachable reachable_advanced ord
  refine ⟨by decide +kernel, continued, safe, ?_⟩
  exact stays begun reachable_begun (run_stepped rfl) (by decide +kernel) _ rfl safe

end Site

end StackSweep

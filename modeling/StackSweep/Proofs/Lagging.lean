import StackSweep.Proofs.Safety

/-!
# The check without the lock

A caller can ask whether a frame may still need processing without taking the lock. Then only the
published boundary decides, while the holder of the lock decides by the leading boundary of the
walk. What is published lags behind, by one boundary of the trail and by more after a processor has
unwound. So the check without the lock errs on one side only: what it clears is safe, and it sends
to the lock exactly those safe frames that lie between the two boundaries.
-/

namespace StackSweep

namespace Sweep

/-- How the published boundary of a campaign that has been started lies to the leading one. -/
inductive Lags (s : Sweep) : Prop
  /-- The campaign is over, and nothing is published that could lag. -/
  | ended : s.published.word.isDone = true → s.published.boundary = .none → s.Lags
  | behind {k : Walk} : s.walk = some k → s.published.word.isDone = false →
      s.published.boundary ≠ .none → s.published.boundary.addr < k.trail.leading.addr → s.Lags

variable {s : Sweep} {k : Walk} {e : Epoch} {p : Position}

theorem processedBoundary_of_done (done : s.published.word.isDone = true) :
    s.processedBoundary e = .none := by
  simp [processedBoundary, done]

theorem processedBoundary_of_walk (of : s.published.word.isOf e = true)
    (notDone : s.published.word.isDone = false) (hk : s.walk = some k) :
    s.processedBoundary e = k.trail.leading := by
  simp [processedBoundary, isStale, of, notDone, hk]

/-- What the check without the lock clears is safe. -/
theorem Lags.isSafeAt_of_cleared (lags : s.Lags) (of : s.published.word.isOf e = true)
    (cleared : s.published.isAbove p = false) : s.isSafeAt e p = true := by
  refine isSafeAt_iff.2 ⟨of, ?_⟩
  cases lags with
  | ended done _ => exact .inl done
  | behind hk _ found lt =>
    right
    intro k' hk'
    cases hk.symm.trans hk'
    rw [Bool.eq_false_iff, Ne, Published.isAbove_iff] at cleared
    have inside : ¬ s.published.boundary.addr ≤ p.addr := fun le => cleared ⟨found, le⟩
    omega

/-- The two checks differ between the two boundaries and nowhere else. -/
theorem Lags.differ_iff (lags : s.Lags) (of : s.published.word.isOf e = true) :
    s.published.isAbove p = true ∧ s.isSafeAt e p = true ↔
      s.published.boundary.addr ≤ p.addr ∧ p.addr < (s.processedBoundary e).addr := by
  rw [Published.isAbove_iff, isSafeAt_iff]
  cases lags with
  | ended done missing =>
    rw [processedBoundary_of_done done]
    exact iff_of_false (fun h => h.1.1 missing) fun h => Nat.not_lt_zero _ h.2
  | behind hk notDone found _ =>
    rw [processedBoundary_of_walk of notDone hk]
    constructor
    · rintro ⟨⟨-, le⟩, -, done | inside⟩
      · rw [notDone] at done
        cases done
      · exact ⟨le, inside _ hk⟩
    · rintro ⟨le, lt⟩
      refine ⟨⟨found, le⟩, of, .inr ?_⟩
      intro k' hk'
      cases hk.symm.trans hk'
      exact lt

end Sweep

namespace Site

variable {ς ε : Type} {h : Host ς ε} {birth : Epoch} {site : Site ς}

theorem Reachable.lags (r : Reachable h birth site) (ord : site.IsOrderly h)
    (of : site.sweep.published.word.isOf (site.current h) = true) : site.sweep.Lags := by
  have kept := r.kept ord.orderly
  cases done : site.sweep.published.word.isDone with
  | true => exact .ended done (kept.boundary.2 done)
  | false =>
    cases hk : site.sweep.walk with
    | none =>
      -- Without a walk the campaign of the word would be over or past.
      have past := (kept.idle hk).resolve_left (by simp [done])
      exact absurd past (ord.not_isPast (ProgressWord.significant_eq kept.word of))
    | some k =>
      have left : k.ahead ≠ [] := by
        intro exhausted
        rw [kept.exhausted k hk exhausted] at done
        cases done
      obtain ⟨-, le, trailing, leading, -⟩ := kept.underWay k hk left
      obtain ⟨a, as, fs, has, hs, -, -, tr⟩ := r.accounted.follows.of_walk hk
      have asc : Ascending fs := ord.orderly.of_snapshot (has ▸ List.mem_cons_self) hs
      refine .behind hk done ?_ (Nat.lt_of_le_of_lt le ((tr.marks asc).ordered leading).2)
      rw [Ne, kept.boundary, done]
      exact Bool.false_ne_true

/-- Whatever has happened to a campaign that has been started, a frame that lies inside the
published boundary, or for which there is none, is safe. Conversely a safe frame does not pass the
check without the lock exactly if it lies at the published boundary or beyond and inside the one
that the lock guards. It does not matter whether the processor has unwound since the last
publication. -/
theorem lags_of_reachable (r : Reachable h birth site) (ord : site.IsOrderly h)
    (started : site.sweep.phase (site.current h) ≠ .stale) {f : Frame}
    (hf : f.trampoline = false) :
    (site.sweep.published.isAbove f.position = false →
      (site.sweep.isSafe h f site.world).1 = true) ∧
    (site.sweep.published.isAbove f.position = true ∧
        (site.sweep.isSafe h f site.world).1 = true ↔
      site.sweep.published.boundary.addr ≤ f.position.addr ∧
        f.position.addr < (site.sweep.lastBoundary h site.world).1.addr) := by
  have of : site.sweep.published.word.isOf (site.current h) = true := by
    rw [Ne, ← Sweep.isStale_iff_phase] at started
    simpa [Sweep.isStale] using started
  have lags := r.lags ord of
  rw [isSafe_eq hf]
  exact ⟨lags.isSafeAt_of_cleared of, lags.differ_iff of⟩

/-- A processor that gives up at the outermost frame of four. -/
def stumbling : Host Bool String :=
  { moody with
    pacing := ⟨2, 5⟩
    process := fun v w => (if v.frame.id = 3 then .unwound (.raised "gave up") else .ok (), w) }

/-- A drain has unwound in its first batch, after it has passed a barrier frame. -/
def stumbled : Site Bool :=
  let called := (fresh.moveOn 1 false).call stumbling 0 (.drain none)
  called.turn stumbling 0 ⟨.drain none, fresh.world.log⟩

theorem reachable_stumbled : Reachable stumbling 0 stumbled := by
  have made : Reachable stumbling 0 fresh :=
    .created
      (w := .ofThread ⟨1, some fourFrames, true, 0, false, 0, 0, none, false⟩ (.cells [0]) false)
      rfl rfl
  have moved : Reachable stumbling 0 (fresh.moveOn 1 false) := made.step (.change _ rfl)
  exact (moved.step (.call 0 (.drain none) rfl)).step (.turn 0 _ rfl)

/-- The published boundary has stayed at the innermost frame, two frames behind the leading one. The
frame between the two is safe and does not pass the check without the lock. -/
theorem lags_of_stumbled :
    raisedSince stumbled.world.log = true ∧
    stumbled.sweep.published.boundary = ⟨10⟩ ∧
    (stumbled.sweep.lastBoundary stumbling stumbled.world).1 = ⟨30⟩ ∧
    stumbled.sweep.published.isAbove ⟨20⟩ = true ∧
    (stumbled.sweep.isSafe stumbling ⟨1, ⟨20⟩, true, false⟩ stumbled.world).1 = true := by
  have ord : stumbled.IsOrderly stumbling := ⟨by decide +kernel, by decide +kernel⟩
  have started : stumbled.sweep.phase (stumbled.current stumbling) ≠ .stale := by decide +kernel
  have trailing : stumbled.sweep.published.boundary = ⟨10⟩ := by decide +kernel
  have leading : (stumbled.sweep.lastBoundary stumbling stumbled.world).1 = ⟨30⟩ := by
    decide +kernel
  obtain ⟨-, differ⟩ :=
    lags_of_reachable (f := ⟨1, ⟨20⟩, true, false⟩) reachable_stumbled ord started rfl
  rw [trailing, leading] at differ
  obtain ⟨above, safe⟩ := differ.2 (by decide)
  exact ⟨by decide +kernel, trailing, leading, above, safe⟩

end Site

end StackSweep

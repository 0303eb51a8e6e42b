import StackSweep.Proofs.Site

/-!
# Campaigns

However many parties share a sweep, and however their turns fall: no campaign is attempted again
once anything has been published for it, and each walk goes through its stack in order, frame by
frame, with every frame processed once.
-/

namespace StackSweep

/-- How the visits of an attempt go through the stack that it found. -/
structure Attempt.GoesThrough (a : Attempt) (fs : List Frame) : Prop where
  /-- The frames that have been processed are the first ones, each once and in order, and each with
  its own registers. -/
  processed : (a.visits.reverse.filter fun x => x.2 = .processed).map
      (fun x => (x.1.frame, x.1.registers)) = (fs.take (processedIn a.visits).length).zipIdx
  /-- When a visit begins exactly the frames before its own have been processed. -/
  visited : ∀ later v d earlier, a.visits = later ++ (v, d) :: earlier →
    processedIn earlier = fs.take v.registers ∧ fs[v.registers]? = some v.frame
  /-- A frame whose processing did not succeed is the next one to be visited. -/
  retried : ∀ later v' d' v d earlier, a.visits = later ++ (v', d') :: (v, d) :: earlier →
    d ≠ .processed → v'.frame = v.frame ∧ v'.registers = v.registers

theorem InOrder.visited {fs : List Frame} {v : Visit} {d : Verdict}
    {earlier : List (Visit × Verdict)} (h : InOrder fs ((v, d) :: earlier)) :
    processedIn earlier = fs.take v.registers ∧ fs[v.registers]? = some v.frame := by
  obtain ⟨hr, ⟨rest, hp⟩, -⟩ := h
  subst hp
  rw [hr, List.append_assoc]
  constructor
  · rw [List.take_left]
  · rw [List.getElem?_append_right (Nat.le_refl _), Nat.sub_self]
    rfl

theorem InOrder.goesThrough {a : Attempt} {fs : List Frame} (h : InOrder fs a.visits) :
    a.GoesThrough fs where
  processed := by
    rw [processed_visits_eq_zipIdx h, ← List.prefix_iff_eq_take.1 h.isPrefix]
  visited later v d earlier split := by
    rw [split] at h
    exact h.of_append.visited
  retried later v' d' v d earlier split hd := by
    rw [split] at h
    obtain ⟨before, at_v⟩ := h.of_append.2.2.visited
    obtain ⟨before', at_v'⟩ := h.of_append.visited
    have same : v'.registers = v.registers := by
      have hr := h.of_append.1
      have hr' := h.of_append.2.2.1
      simp only [processedIn, hd, if_false] at hr
      exact hr.trans hr'.symm
    rw [same, at_v] at at_v'
    exact ⟨(Option.some.inj at_v').symm, same⟩

namespace Site

variable {ς ε : Type} {h : Host ς ε} {birth : Epoch} {site : Site ς}

/-- Nothing is attempted for an epoch once something has been published for it, so that a walk is
published for it at most once, and on ascending stacks no walk is put in place without being
published. Every walk goes through its stack in order, whatever becomes of it. The one in place has
passed as many frames as its cursor says. -/
theorem goesThrough_of_reachable (r : Reachable h birth site)
    (nr : Epoch.NeverReturn (readings site.world.log)) :
    ((attempts birth site.world.log).Pairwise fun later earlier => earlier.published = true →
      later.epoch.significant ≠ earlier.epoch.significant) ∧
    ((∀ fs ∈ walked site.world.log, Ascending fs) →
      ∀ a ∈ attempts birth site.world.log, a.installed = true → a.published = true) ∧
    (∀ a ∈ attempts birth site.world.log, ∀ fs, a.snapshot = some fs → a.GoesThrough fs) ∧
    ∀ k, site.sweep.walk = some k → ∃ a rest fs, attempts birth site.world.log = a :: rest ∧
      a.installed = true ∧ a.snapshot = some fs ∧ processedIn a.visits = fs.take k.cursor ∧
      k.ahead = fs.drop k.cursor := by
  have acc := r.accounted
  refine ⟨(r.isDated nr).attempts_apart, ?_, ?_, ?_⟩
  · intro asc a ha installed
    exact (r.kept ⟨nr, asc⟩).told a ha (by simp [Attempt.stands, installed])
  · intro a ha fs hs
    exact ((acc.sound a ha).inOrder fs hs).goesThrough
  · intro k hk
    obtain ⟨a, rest, fs, has, hs, hi, -, tr⟩ := acc.follows.of_walk hk
    refine ⟨a, rest, fs, has, hi, hs, ?_, ?_⟩
    · rw [tr.cursor, ← tr.ahead, List.take_left]
    · rw [tr.cursor, ← tr.ahead, List.drop_left]

/-- In the run two walks have gone through the four frames, one of them not even past the first. -/
theorem goesThrough_of_bereft :
    (attempts 0 bereft.world.log).map (fun a => (processedIn a.visits).length) = [0, 3, 0] ∧
    ∀ a ∈ attempts 0 bereft.world.log, ∀ fs, a.snapshot = some fs → a.GoesThrough fs :=
  ⟨by decide +kernel, (goesThrough_of_reachable reachable_bereft (by decide +kernel)).2.2.1⟩

end Site

end StackSweep

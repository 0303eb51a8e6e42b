import StackSweep.Proofs.Progress

/-!
# Reading without the lock

Whoever does not hold the lock reads the word and then the boundary, and anything may happen in
between. Each entry of the log is one moment, so that the two loads fall on any two points of the
log. As long as every attempt stands, neither load promises more than has been processed: a boundary
is only stored once the frames inside it have been processed, and the word that a reader has loaded
before is not of a later campaign than that boundary.
-/

namespace StackSweep

/-- The attempt that stored the boundary that memory holds, as it was then. -/
def boundaryOwner (birth : Epoch) : List Event → Option Attempt
  | [] => none
  | .boundaryStored .. :: earlier => (attempts birth earlier).head?
  | _ :: earlier => boundaryOwner birth earlier

/-- A load of the word and, after it, one of the boundary. -/
structure Glance (log : List Event) where
  atWord : List Event
  atBoundary : List Event
  before : atWord <:+ atBoundary
  within : atBoundary <:+ log

namespace Glance

variable {log : List Event}

def word (birth : Epoch) (g : Glance log) : ProgressWord := wordIn birth g.atWord

def boundary (g : Glance log) : Position := boundaryIn g.atBoundary

end Glance

/-- There is an attempt at the campaign of the word, and all that such attempts found to walk has
been processed. -/
structure IsCleared (w : ProgressWord) (as : List Attempt) : Prop where
  found : ∃ a ∈ as, a.stands = true ∧ w.isOf a.epoch = true
  processed : ∀ a ∈ as, w.isOf a.epoch = true → ∀ fs, a.snapshot = some fs →
    fs ⊆ processedIn a.visits

/-- What memory holds is true. -/
structure Covered (birth : Epoch) (log : List Event) : Prop where
  ended : (wordIn birth log).isDone = true → IsCleared (wordIn birth log) (attempts birth log)
  inside : boundaryIn log ≠ .none → ∃ a fs, boundaryOwner birth log = some a ∧
    a.installed = true ∧ a.snapshot = some fs ∧
    (∀ f ∈ fs, f.position.addr < (boundaryIn log).addr → f ∈ processedIn a.visits) ∧
    ∀ p ∈ publications birth log, a.epoch.NotBefore p.word.epoch (readings log)

/-- What memory held has been true at every moment. -/
def AlwaysCovered (birth : Epoch) (log : List Event) : Prop :=
  ∀ earlier, earlier <:+ log → Covered birth earlier

namespace Event

/-- The entry tells of a change of what memory holds. -/
def isStore : Event → Bool
  | .boundaryStored .. | .wordStored .. => true
  | _ => false

end Event

section log

variable {birth : Epoch} {e : Event} {log log' : List Event} {as : List Attempt} {w : ProgressWord}

theorem IsCleared.modifyHead {f : Attempt → Attempt} (h : IsCleared w as)
    (epoch : ∀ a, (f a).epoch = a.epoch) (stands : ∀ a, a.stands = true → (f a).stands = true)
    (snapshot : ∀ a, (f a).snapshot = a.snapshot)
    (visits : ∀ a, processedIn a.visits ⊆ processedIn (f a).visits) :
    IsCleared w (as.modifyHead f) := by
  cases as with
  | nil => exact h
  | cons b as =>
    obtain ⟨⟨a, ha, hs, of⟩, processed⟩ := h
    refine ⟨?_, ?_⟩
    · rcases List.mem_cons.1 ha with rfl | ha
      · exact ⟨f a, List.mem_cons_self, stands a hs, by rwa [epoch]⟩
      · exact ⟨a, List.mem_cons_of_mem _ ha, hs, of⟩
    · rintro c (_ | ⟨_, hc⟩) of' fs hfs
      · rw [epoch] at of'
        rw [snapshot] at hfs
        exact List.Subset.trans (processed b List.mem_cons_self of' fs hfs) (visits b)
      · exact processed c (List.mem_cons_of_mem _ hc) of' fs hfs

/-- A campaign of another epoch than the word's is attempted. -/
theorem IsCleared.cons {a : Attempt} (h : IsCleared w as) (other : w.isOf a.epoch = false) :
    IsCleared w (a :: as) := by
  obtain ⟨⟨b, hb, hs, of⟩, processed⟩ := h
  refine ⟨⟨b, List.mem_cons_of_mem _ hb, hs, of⟩, ?_⟩
  rintro c (_ | ⟨_, hc⟩) of'
  · rw [other] at of'
    cases of'
  · exact processed c hc of'

/-- Without a store only the attempts can change what is true of memory. -/
theorem Covered.next (h : Covered birth log) (quiet : e.isStore = false)
    (ended : (wordIn birth log).isDone = true →
      IsCleared (wordIn birth log) (attempts birth (e :: log))) : Covered birth (e :: log) := by
  cases e with
  | boundaryStored => cases quiet
  | wordStored => cases quiet
  | epochRead i r =>
    refine ⟨ended, ?_⟩
    intro found
    obtain ⟨a, fs, owner, installed, hs, processed, notBefore⟩ := h.inside found
    exact ⟨a, fs, owner, installed, hs, processed, fun p hp => (notBefore p hp).cons r⟩
  | _ => exact ⟨ended, h.inside⟩

theorem AlwaysCovered.now (h : AlwaysCovered birth log) : Covered birth log :=
  h log (List.suffix_refl log)

theorem AlwaysCovered.cons (h : AlwaysCovered birth log) (now : Covered birth (e :: log)) :
    AlwaysCovered birth (e :: log) := by
  intro earlier suffix
  rcases List.suffix_cons_iff.1 suffix with rfl | suffix
  · exact now
  · exact h earlier suffix

theorem AlwaysCovered.next (h : AlwaysCovered birth log) (quiet : e.isStore = false)
    (same : attempts birth (e :: log) = attempts birth log) : AlwaysCovered birth (e :: log) := by
  refine h.cons (h.now.next quiet ?_)
  rw [same]
  exact h.now.ended

theorem isStore_of_isAside (h : e.isAside = true) : e.isStore = false := by
  cases e <;> simp_all [Event.isAside, Event.isStore]

theorem AlwaysCovered.visited {vs : List (Visit × Verdict)} (h : AlwaysCovered birth log)
    (seen : Visited log vs log') : AlwaysCovered birth log' := by
  induction seen with
  | refl => exact h
  | aside _ aside ih => exact ih.next (isStore_of_isAside aside) (attempts_cons_aside aside)
  | visit l v inside d _ ih =>
    refine ih.cons (ih.now.next rfl ?_)
    intro done
    refine (ih.now.ended done).modifyHead (fun _ => rfl) (fun _ => id) (fun _ => rfl) ?_
    intro a
    simp only [Attempt.add, processedIn_append]
    exact List.subset_append_left _ _

/-- A campaign is announced that is not the word's, and a walk for it may begin. -/
theorem AlwaysCovered.announced {r : Epoch} (h : AlwaysCovered birth log)
    (other : (wordIn birth log).isOf r = false) (i : KindId) (l : Label) :
    AlwaysCovered birth (.started l r :: .epochRead i r :: log) ∧
      ∀ tid o fs, AlwaysCovered birth (.walk tid o fs :: .started l r :: .epochRead i r :: log) := by
  have read : AlwaysCovered birth (.epochRead i r :: log) := h.next rfl rfl
  have started : AlwaysCovered birth (.started l r :: .epochRead i r :: log) :=
    read.cons (read.now.next rfl fun done => (h.now.ended done).cons other)
  refine ⟨started, ?_⟩
  intro tid o fs
  exact started.cons (started.now.next rfl fun done => (h.now.ended done).cons other)

/-- What is put in place stands, and nothing else changes. -/
theorem AlwaysCovered.installed (h : AlwaysCovered birth log) (l : Label) (r : Epoch) :
    AlwaysCovered birth (.installed l r :: log) := by
  refine h.cons (h.now.next rfl ?_)
  intro done
  refine (h.now.ended done).modifyHead (fun _ => rfl) ?_ (fun _ => rfl)
    fun _ => List.Subset.refl _
  intro a _
  simp [Attempt.stands]

theorem alwaysCovered_created (birth : Epoch) (i : KindId) :
    AlwaysCovered birth [.epochRead i birth] := by
  have cleared : IsCleared (.pack birth true) [.ofBirth birth] := by
    refine ⟨⟨_, List.mem_singleton_self _, rfl, ProgressWord.isOf_pack.2 rfl⟩, ?_⟩
    rintro a (_ | ⟨_, ⟨⟩⟩) - fs ⟨⟩
  have empty : AlwaysCovered birth [] := by
    intro earlier suffix
    rw [List.suffix_nil.1 suffix]
    exact ⟨fun _ => cleared, fun found => absurd rfl found⟩
  exact empty.next rfl rfl

/-! ## Which attempts stand -/

theorem forall_stands_of_subset {as' : List Attempt}
    (sub : as.map Attempt.stands ⊆ as'.map Attempt.stands) (h : ∀ a ∈ as', a.stands = true) :
    ∀ a ∈ as, a.stands = true := by
  intro a ha
  obtain ⟨b, hb, same⟩ := List.mem_map.1 (sub (List.mem_map_of_mem ha))
  rw [← same]
  exact h b hb

theorem forall_stands_of_eq {as' : List Attempt}
    (same : as'.map Attempt.stands = as.map Attempt.stands) (h : ∀ a ∈ as', a.stands = true) :
    ∀ a ∈ as, a.stands = true := by
  refine forall_stands_of_subset ?_ h
  rw [same]
  exact List.Subset.refl _

end log

namespace Sweep

variable {birth : Epoch} {s s' : Sweep} {log log' : List Event}

/-- A start adds an attempt, which stands if it succeeds. -/
theorem Starts.stands_eq {begun : Bool} (h : s.Starts log begun s' log') :
    (attempts birth log').map Attempt.stands =
      begun :: (attempts birth log).map Attempt.stands := by
  cases h with
  | idle i e l published =>
    rw [published.map_attempts_eq fun _ _ => rfl]
    rfl
  | dropped i e l tid o fs passes asides =>
    obtain ⟨vs, seen, -⟩ := passes
    rw [asides.attempts_same, attempts_started seen]
    rfl
  | installed i e l l' tid o fs passes filled published =>
    obtain ⟨vs, seen, -⟩ := passes
    rw [published.map_attempts_eq fun _ _ => rfl, attempts, attempts_started seen]
    rfl

/-! ## Along a run -/

/-- Without a frame left, a word that says so is true. -/
theorem Follows.isCleared {as : List Attempt} (f : s.Follows as)
    (exhausted : ∀ k, s.walk = some k → k.ahead = []) (intact : ∀ a ∈ as, a.stands = true)
    (told : ∀ a ∈ as.tail, a.stands = true → a.published = true)
    (apart : as.Pairwise fun later earlier => earlier.published = true →
      later.epoch.significant ≠ earlier.epoch.significant) :
    IsCleared (.pack s.epoch true) as := by
  cases as with
  | nil => cases f
  | cons a as =>
    have stands := intact a List.mem_cons_self
    obtain ⟨b, hb, he, -, atEnd⟩ := f.standing_isOver exhausted (not_orphaned_of_stands stands)
    rw [standing_cons_of_stands stands] at hb
    cases hb
    refine ⟨⟨a, List.mem_cons_self, stands, ?_⟩, ?_⟩
    · rw [he]
      exact ProgressWord.isOf_pack.2 rfl
    · rintro c (_ | ⟨_, hc⟩) of fs hs
      · rcases atEnd with missing | complete
        · rw [missing] at hs
          cases hs
        · rw [Attempt.IsComplete, hs] at complete
          cases complete
          exact List.Subset.refl _
      · -- Nothing is published for two attempts at one campaign.
        have same := ProgressWord.isOf_pack.1 of
        rw [he] at same
        have published := told c hc (intact c (List.mem_cons_of_mem _ hc))
        exact absurd same ((List.pairwise_cons.1 apart).1 c hc published)

/-- Publishing stores what is true, first the boundary and then the word. -/
theorem alwaysCovered_publishes (h : AlwaysCovered birth log)
    (acc : s.Accounted (attempts birth log)) (d : s.IsDated birth log) (ord : Orderly log)
    (intact : ∀ a ∈ attempts birth log, a.stands = true)
    (told : ∀ a ∈ (attempts birth log).tail, a.stands = true → a.published = true)
    (ordered : ∀ p ∈ publications birth log, s.epoch.NotBefore p.word.epoch (readings log))
    (published : s.Publishes log s' log') : AlwaysCovered birth log' := by
  cases published with
  | @boundary k l hk left pos =>
    obtain ⟨a, as, fs, has, hs, installed, he, tr⟩ := acc.follows.of_walk hk
    have asc : Ascending fs := ord.of_snapshot (has ▸ List.mem_cons_self) hs
    have owner : (attempts birth log).head? = some a := by rw [has, List.head?_cons]
    have inside (f : Frame) (hf : f ∈ fs) (lt : f.position.addr < k.trail.trailing.addr) :
        f ∈ processedIn a.visits :=
      tr.mem_processedIn asc (tr.marks asc).trailing hf (Nat.le_of_lt lt)
    rw [he] at ordered
    have stored : AlwaysCovered birth (.boundaryStored l k.trail.trailing :: log) := by
      refine h.cons ⟨h.now.ended, ?_⟩
      intro _
      exact ⟨a, fs, owner, installed, hs, inside, ordered⟩
    refine stored.cons ⟨?_, ?_⟩
    · intro done
      rw [wordIn, ProgressWord.isDone_pack] at done
      cases done
    · intro _
      refine ⟨a, fs, owner, installed, hs, inside, List.forall_mem_cons.2 ⟨?_, ordered⟩⟩
      have own : (ProgressWord.pack s.epoch false).epoch.significant = a.epoch.significant := by
        rw [← ProgressWord.isOf_iff, ← he]
        exact ProgressWord.isOf_pack.2 rfl
      exact (Epoch.NotBefore.refl ((he ▸ d.epoch).congr own.symm)).congr own
  | ending l exhausted =>
    have cleared := acc.follows.isCleared exhausted intact told d.attempts_apart
    have stored : AlwaysCovered birth (.boundaryStored l .none :: log) :=
      h.cons ⟨h.now.ended, fun found => absurd rfl found⟩
    have whole : AlwaysCovered birth
        (.wordStored l (.pack s.epoch true) :: .boundaryStored l .none :: log) := by
      refine stored.cons ⟨?_, fun found => absurd rfl found⟩
      intro _
      exact cleared.modifyHead (fun _ => rfl) (fun _ => id) (fun _ => rfl)
        fun _ => List.Subset.refl _
    split
    · exact whole
    · exact whole.next rfl rfl
  | stuck => exact h

theorem alwaysCovered_moves (h : AlwaysCovered birth log) (known : s.Known birth log)
    (ord : Orderly log') (intact : ∀ a ∈ attempts birth log, a.stands = true)
    (moves : s.Moves log s' log') : AlwaysCovered birth log' := by
  obtain ⟨-, acc, d, kept, latest⟩ := known
  have ordered : ∀ p ∈ publications birth log, s.epoch.NotBefore p.word.epoch (readings log) :=
    fun p hp => (latest.of_mem hp).2.congr (ProgressWord.isOf_iff.1 kept.word)
  cases moves with
  | rest => exact h
  | settle hw published =>
    refine alwaysCovered_publishes h acc d (ord.of_suffix published.suffix) intact ?_ ordered
      published
    exact fun a ha => kept.told a (List.mem_of_mem_tail ha)
  | unwound hk passes =>
    obtain ⟨vs, seen, -⟩ := passes
    exact h.visited seen
  | @passed k k' log₁ _ _ _ hk passes published asides =>
    have acc' := accounted_passes acc hk passes
    obtain ⟨vs, seen, -⟩ := passes
    have ord₁ := ord.of_suffix (published.suffix.trans asides.suffix)
    have d' : IsDated birth { s with walk := some k' } log₁ :=
      isDated_visited (isDated_walk d _) seen
    refine (alwaysCovered_publishes (h.visited seen) acc' d' ord₁ ?_ ?_ ?_ published).visited asides
    · rw [seen.attempts_eq]
      exact forall_mem_modifyHead intact fun _ => id
    · obtain ⟨a, as, has⟩ := exists_attempts birth log
      have told := kept.told
      rw [has] at told
      rw [seen.attempts_eq, has]
      exact fun b hb => told b (List.mem_cons_of_mem _ hb)
    · rw [(seen.publications_eq birth).1, seen.readings_eq]
      exact ordered

/-- A start, after another epoch than that of the published word has been read. -/
theorem alwaysCovered_starts {begun : Bool} {i : KindId} {r : Epoch} (h : AlwaysCovered birth log)
    (known : s.Known birth log) (ord : Orderly log')
    (intact : ∀ a ∈ attempts birth log', a.stands = true) (stale : s.isStale r = true)
    (starts : s.Starts (.epochRead i r :: log) begun s' log') : AlwaysCovered birth log' := by
  have read : AlwaysCovered birth (.epochRead i r :: log) := h.next rfl rfl
  obtain ⟨ord₁, acc, d, kept, latest⟩ := known.read (ord.of_suffix starts.suffix)
  have of : s.published.word.isOf r = false := by simpa [isStale] using stale
  have past := known.latest.past_of_stale ord₁.neverReturn of
  have dated := known.dated.past_of_stale ord₁.neverReturn of
  have other {e : Epoch} (nr : Epoch.NeverReturn (e :: r :: readings log)) :
      (wordIn birth log).isOf e = false := by
    rw [known.latest.word, Bool.eq_false_iff, Ne, ProgressWord.isOf_iff]
    exact fun same => (past _ latest.mem).ne_of_neverReturn nr same.symm
  have ordered {e : Epoch} (nr : Epoch.NeverReturn (e :: r :: readings log)) :
      ∀ p ∈ publications birth log, e.NotBefore p.word.epoch (e :: r :: readings log) :=
    fun p hp => Epoch.notBefore_head nr ((past p hp).1.cons e)
  cases starts with
  | idle i e l published =>
    have ord' := ord.of_suffix published.suffix
    have nr : Epoch.NeverReturn (e :: r :: readings log) := ord'.neverReturn
    have intact' := forall_stands_of_eq (published.map_attempts_eq fun _ _ => rfl) intact
    exact alwaysCovered_publishes (read.announced (other nr) i l).1 (accounted_idle acc i e l)
      (isDated_idle d dated nr) ord' intact' kept.told (ordered nr) published
  | dropped i e l tid o fs passes asides =>
    obtain ⟨vs, seen, -⟩ := passes
    rw [asides.attempts_same, attempts_started seen] at intact
    cases intact _ List.mem_cons_self
  | @installed k log₁ _ _ i e l l' tid o fs passes filled published =>
    have acc' : Accounted _ (attempts birth (.installed l' e :: log₁)) :=
      accounted_installed acc passes
    have ord' := ord.of_suffix published.suffix
    obtain ⟨vs, seen, -⟩ := passes
    have same : readings (.installed l' e :: log₁) = e :: r :: readings log := seen.readings_eq
    have nr : Epoch.NeverReturn (e :: r :: readings log) := same ▸ ord'.neverReturn
    have intact' := forall_stands_of_eq (published.map_attempts_eq fun _ _ => rfl) intact
    have walked := ((read.announced (other nr) i l).2 tid o fs).visited seen
    refine alwaysCovered_publishes (walked.installed l' e) acc' (isDated_installed d dated nr seen)
      ord' intact' ?_ ?_ published
    · rw [attempts, attempts_started seen]
      exact kept.told
    · have same' : publications birth (.installed l' e :: log₁) = publications birth log :=
        (seen.publications_eq birth).1
      rw [same, same']
      exact ordered nr

/-- Memory stays covered as long as the attempts stand. -/
theorem alwaysCovered_turns
    (h : (∀ a ∈ attempts birth log, a.stands = true) → AlwaysCovered birth log)
    (known : s.Known birth log) (ord : Orderly log') (turns : s.Turns log s' log') :
    (∀ a ∈ attempts birth log', a.stands = true) → AlwaysCovered birth log' := by
  refine turns.preserves known ord h ?_ ?_ ?_ ?_
    (P := fun _ log => (∀ a ∈ attempts birth log, a.stands = true) → AlwaysCovered birth log)
  · exact fun _ intact => (h intact).next rfl rfl
  · intro s₁ log₁ log₂ covered asides intact
    rw [asides.attempts_same] at intact
    exact (covered intact).visited asides
  · intro i e begun s₁ log₁ stale starts suffix intact
    have intact' := forall_stands_of_subset (starts.stands_eq ▸ List.subset_cons_self _ _) intact
    exact alwaysCovered_starts (h intact') known (ord.of_suffix suffix) intact stale starts
  · intro s₁ log₁ covered known₁ moves intact
    have intact' := forall_stands_of_eq (moves.map_attempts_eq (fun _ _ => rfl) fun _ _ => rfl) intact
    exact alwaysCovered_moves (covered intact') known₁ ord intact' moves

end Sweep

namespace Site

variable {ς ε : Type} {h : Host ς ε} {birth : Epoch} {site : Site ς}

/-- What readers may rely on as long as every start succeeds. A word that says that its campaign is
over is right when it is loaded, also for the epoch at which the sweep was made. A boundary was
stored by a walk for the campaign of the word that was loaded before it, or for a later one, and
that walk had processed every frame inside the boundary. -/
theorem covered_of_reachable (r : Reachable h birth site) (ord : Orderly site.world.log)
    (intact : ∀ a ∈ attempts birth site.world.log, a.stands = true) :
    site.sweep.published = ⟨boundaryIn site.world.log, wordIn birth site.world.log⟩ ∧
    ∀ g : Glance site.world.log,
      ((g.word birth).isDone = true → IsCleared (g.word birth) (attempts birth g.atWord)) ∧
      (g.boundary ≠ .none → ∃ a fs, boundaryOwner birth g.atBoundary = some a ∧
        a.installed = true ∧ a.snapshot = some fs ∧
        a.epoch.NotBefore (g.word birth).epoch (readings g.atBoundary) ∧
        ∀ f ∈ fs, f.position.addr < g.boundary.addr → f ∈ processedIn a.visits) := by
  obtain ⟨known, covered⟩ := r.preserved_known (P := fun _ log =>
    (∀ a ∈ attempts birth log, a.stands = true) → AlwaysCovered birth log)
    (fun _ => alwaysCovered_created birth h.kind) Sweep.alwaysCovered_turns ord
  refine ⟨?_, ?_⟩
  · rw [known.latest.boundary, known.latest.word]
  · intro g
    refine ⟨(covered intact _ (g.before.trans g.within)).ended, ?_⟩
    intro found
    obtain ⟨a, fs, owner, installed, hs, processed, notBefore⟩ :=
      (covered intact _ g.within).inside found
    obtain ⟨p, hp, same⟩ := wordIn_mem_publications birth g.atWord
    have later := notBefore p ((publications_suffix birth g.before).subset hp)
    rw [same] at later
    exact ⟨a, fs, owner, installed, hs, later, processed⟩

/-- In the run a reader loads the first word, and the boundary only after the next step. -/
theorem covered_of_completed :
    ∃ g : Glance completed.world.log, g.word 0 = .pack 1 false ∧ g.boundary = ⟨20⟩ ∧
      ∃ a fs, boundaryOwner 0 g.atBoundary = some a ∧ a.snapshot = some fs ∧
        ∀ f ∈ fs, f.position.addr < 20 → f ∈ processedIn a.visits := by
  have ord : Orderly completed.world.log := ⟨by decide +kernel, by decide +kernel⟩
  have intact : ∀ a ∈ attempts 0 completed.world.log, a.stands = true := by decide +kernel
  let g : Glance completed.world.log :=
    ⟨begun.world.log, advanced.world.log, reachable_begun.suffix (run_stepped rfl),
      reachable_advanced.suffix (run_stepped rfl)⟩
  have boundary : g.boundary = ⟨20⟩ := by decide +kernel
  obtain ⟨a, fs, owner, -, hs, -, processed⟩ :=
    ((covered_of_reachable reachable_completed ord intact).2 g).2 (by decide +kernel)
  rw [boundary] at processed
  exact ⟨g, by decide +kernel, boundary, a, fs, owner, hs, processed⟩

end Site

end StackSweep

import StackSweep.Proofs.Preserving
import StackSweep.Proofs.Spells

/-!
# The end of a campaign

That a campaign is over may be published many times, by every step and drain that finds nothing left
to do. It is announced once, by the first publication that says so, when everything that belongs to
the campaign has been visited. From then on, as long as the epoch stays, nobody processes a frame,
walks the stack or changes what is published, and every call succeeds.
-/

namespace StackSweep

variable {ς ε : Type}

/-- The epochs whose campaigns were announced to be over, latest first. -/
def finishes : List Event → List Epoch
  | [] => []
  | .finished _ e :: earlier => e :: finishes earlier
  | _ :: earlier => finishes earlier

/-- A word has been published that says that the campaign is over. -/
def Ended (birth e : Epoch) (log : List Event) : Prop :=
  ∃ p ∈ publications birth log, p.word = .pack e true

/-- The entry comes in time. The end of a campaign is announced by the first publication that says
so, and nothing is visited for a campaign after its end. -/
def Event.IsTimely (birth : Epoch) (ev : Event) (earlier : List Event) : Prop :=
  match ev with
  | .finished l e => ∃ before,
      earlier = .wordStored l (.pack e true) :: .boundaryStored l .none :: before ∧
        ¬ Ended birth e before
  | .visit .. => ∀ a ∈ (attempts birth earlier).head?, ¬ Ended birth a.epoch earlier
  | _ => True

namespace ProgressWord

theorem pack_congr {d e : Epoch} (same : d.significant = e.significant) (done : Bool) :
    pack d done = pack e done := by
  unfold pack
  rw [same]

theorem significant_of_pack_eq {d e : Epoch} {done done' : Bool}
    (same : pack d done = pack e done') : d.significant = e.significant := by
  rw [← epoch_pack d done, same, epoch_pack]

/-- A word is the epoch that it speaks of and its done bit, and nothing else. -/
theorem eq_pack {w : ProgressWord} {e : Epoch} (of : w.isOf e = true) : w = pack e w.isDone := by
  have half : w.raw.toNat / 2 = e.toNat % 2147483648 := by
    have := congrArg UInt32.toNat (beq_iff_eq.1 of)
    rwa [epoch, UInt32.toNat_div, toNat_significant] at this
  have bit : w.isDone.toNat = w.raw.toNat % 2 := by
    unfold isDone
    rcases Nat.mod_two_eq_zero_or_one w.raw.toNat with even | odd
    · have : w.raw % 2 = 0 := UInt32.toNat_inj.1 (by simpa [UInt32.toNat_mod] using even)
      simp [this, even]
    · have : w.raw % 2 = 1 := UInt32.toNat_inj.1 (by simpa [UInt32.toNat_mod] using odd)
      simp [this, odd]
  have raw : w.raw = (pack e w.isDone).raw := by
    apply UInt32.toNat_inj.1
    rw [toNat_raw_pack]
    omega
  cases w
  exact congrArg mk raw

end ProgressWord

section log

variable {birth d e : Epoch} {log log' : List Event} {vs : List (Visit × Verdict)}

theorem Ended.congr (h : Ended birth d log) (same : d.significant = e.significant) :
    Ended birth e log := by
  obtain ⟨p, hp, word⟩ := h
  exact ⟨p, hp, word.trans (ProgressWord.pack_congr same true)⟩

theorem Ended.of_suffix (h : Ended birth e log) (suffix : log <:+ log') : Ended birth e log' := by
  obtain ⟨p, hp, word⟩ := h
  exact ⟨p, (publications_suffix birth suffix).subset hp, word⟩

theorem ended_of_eq (same : publications birth log' = publications birth log) :
    Ended birth e log' ↔ Ended birth e log := by
  unfold Ended
  rw [same]

/-- The campaign of the time when the sweep is made has ended from the beginning. -/
theorem ended_birth (birth : Epoch) (log : List Event) : Ended birth birth log := by
  have made : Ended birth birth [] := ⟨.settled birth, List.mem_singleton_self _, rfl⟩
  exact made.of_suffix (List.nil_suffix)

/-- What one publication adds. -/
theorem ended_of_publications {p : Published}
    (told : publications birth log' = p :: publications birth log) :
    Ended birth e log' ↔ p.word = .pack e true ∨ Ended birth e log := by
  unfold Ended
  rw [told]
  simp

theorem Visited.finishes_eq (seen : Visited log vs log') : finishes log' = finishes log := by
  induction seen with
  | refl => rfl
  | @aside _ _ e _ aside ih => cases e <;> simp_all [Event.isAside, finishes]
  | visit _ _ _ _ _ ih => exact ih

theorem isTimely_of_isAside {ev : Event} (aside : ev.isAside = true) (log : List Event) :
    ev.IsTimely birth log := by
  cases ev <;> simp_all [Event.isAside, Event.IsTimely]

/-- Visits come in time if the campaign of the latest attempt has not ended. -/
theorem timely_visited (timely : Throughout (Event.IsTimely birth) log) (seen : Visited log vs log')
    (open_ : vs ≠ [] → ∀ a ∈ (attempts birth log).head?, ¬ Ended birth a.epoch log) :
    Throughout (Event.IsTimely birth) log' := by
  induction seen with
  | refl => exact timely
  | @aside vs log' e _ aside ih => exact ⟨isTimely_of_isAside aside log', ih open_⟩
  | @visit vs log' l v inside d seen ih =>
    have now := open_ (List.cons_ne_nil _ _)
    refine ⟨?_, ih fun _ => now⟩
    obtain ⟨a, as, has⟩ := exists_attempts birth log
    rw [has] at now
    show ∀ b ∈ (attempts birth log').head?, ¬ Ended birth b.epoch log'
    rw [seen.attempts_eq, has]
    rintro _ ⟨⟩
    rw [ended_of_eq (seen.publications_eq birth).1]
    exact now a rfl

/-- What has been announced to be over is over. -/
theorem ended_of_mem_finishes (timely : Throughout (Event.IsTimely birth) log)
    (he : e ∈ finishes log) : Ended birth e log := by
  induction log with
  | nil => cases he
  | cons ev log ih =>
    obtain ⟨now, before⟩ := timely
    have earlier (he : e ∈ finishes log) : Ended birth e (ev :: log) :=
      (ih before he).of_suffix (List.suffix_cons _ _)
    cases ev with
    | finished l d =>
      rcases List.mem_cons.1 he with rfl | he
      · obtain ⟨log', rfl, -⟩ := now
        exact ⟨_, List.mem_cons_self, rfl⟩
      · exact earlier he
    | _ => exact earlier he

/-- No campaign is announced to be over twice. -/
theorem finishes_apart (timely : Throughout (Event.IsTimely birth) log) :
    (finishes log).Pairwise fun later earlier => later.significant ≠ earlier.significant := by
  induction log with
  | nil => exact .nil
  | cons ev log ih =>
    obtain ⟨now, before⟩ := timely
    cases ev with
    | finished l e =>
      refine List.pairwise_cons.2 ⟨?_, ih before⟩
      intro d hd same
      obtain ⟨log', rfl, open_⟩ := now
      exact open_ ((ended_of_mem_finishes before.2.2 hd).congr same.symm)
    | _ => exact ih before

end log

namespace Sweep

/-- What a sweep and its log say about the ends of campaigns, except that the walk in place may be
ahead of what has been published. -/
structure Faithful (birth : Epoch) (s : Sweep) (log : List Event) : Prop where
  told : ∃ p ∈ publications birth log, p.word = s.published.word
  boundary : s.published.word.isDone = true → s.published.boundary = .none
  own : Ended birth s.epoch log →
    s.published.word = .pack s.epoch true ∧ ∀ k, s.walk = some k → k.ahead = []
  others : ∀ e, Ended birth e log →
    e.significant = s.epoch.significant ∨ e.IsPast (readings log)
  later : ∀ a ∈ attempts birth log, a.snapshot ≠ none → a.epoch.significant ≠ birth.significant
  announced : ∀ e, Ended birth e log → e.significant = birth.significant ∨
    ∃ d ∈ finishes log, d.significant = e.significant
  timely : Throughout (Event.IsTimely birth) log

/-- The end of every campaign that has been gone through has been published. -/
structure Finishes (birth : Epoch) (s : Sweep) (log : List Event) : Prop extends
    Faithful birth s log where
  closed : ∀ a ∈ attempts birth log, a.IsOver → Ended birth a.epoch log

variable {birth : Epoch} {s s' : Sweep} {log log' : List Event}

theorem finishes_settled (birth : Epoch) (k : KindId) :
    (settled birth).Finishes birth [.epochRead k birth] where
  told := ⟨_, List.mem_singleton_self _, rfl⟩
  boundary _ := rfl
  own _ := ⟨rfl, nofun⟩
  others := by
    rintro e ⟨p, hp, word⟩
    cases List.mem_singleton.1 hp
    exact .inl (ProgressWord.significant_of_pack_eq word).symm
  later := by
    rintro a (_ | ⟨_, ⟨⟩⟩) found
    exact absurd rfl found
  announced := by
    rintro e ⟨p, hp, word⟩
    cases List.mem_singleton.1 hp
    exact .inl (ProgressWord.significant_of_pack_eq word).symm
  timely := ⟨trivial, trivial⟩
  closed := by
    rintro a (_ | ⟨_, ⟨⟩⟩) -
    exact ended_birth birth _

/-! ## One change at a time -/

theorem Faithful.read {e : Epoch} (f : s.Faithful birth log) (i : KindId)
    (nr : Epoch.NeverReturn (e :: readings log)) : s.Faithful birth (.epochRead i e :: log) where
  told := f.told
  boundary := f.boundary
  own := f.own
  others d ended := (f.others d ended).imp_right fun past => past.cons nr
  later := f.later
  announced := f.announced
  timely := ⟨trivial, f.timely⟩

theorem finishes_read {e : Epoch} (f : s.Finishes birth log) (i : KindId)
    (nr : Epoch.NeverReturn (e :: readings log)) : s.Finishes birth (.epochRead i e :: log) :=
  ⟨f.toFaithful.read i nr, f.closed⟩

/-- Visits for a campaign that has not ended. -/
theorem Faithful.visited {vs : List (Visit × Verdict)} (f : s.Faithful birth log)
    (seen : Visited log vs log') (walk : Option Walk)
    (open_ : vs ≠ [] → ∀ a ∈ (attempts birth log).head?, ¬ Ended birth a.epoch log)
    (own : Ended birth s.epoch log → ∀ k, walk = some k → k.ahead = []) :
    Faithful birth { s with walk := walk } log' := by
  have same := (seen.publications_eq birth).1
  refine ⟨?_, f.boundary, ?_, ?_, ?_, ?_, timely_visited f.timely seen open_⟩
  · rw [same]
    exact f.told
  · intro ended
    rw [ended_of_eq same] at ended
    exact ⟨(f.own ended).1, own ended⟩
  · intro e ended
    rw [seen.readings_eq]
    exact f.others e ((ended_of_eq same).1 ended)
  · rw [seen.attempts_eq]
    exact forall_mem_modifyHead f.later fun _ ha => ha
  · intro e ended
    rw [seen.finishes_eq]
    exact f.announced e ((ended_of_eq same).1 ended)

theorem finishes_asides (f : s.Finishes birth log) (asides : Visited log [] log') :
    s.Finishes birth log' := by
  have faithful := f.toFaithful.visited asides s.walk (fun none => absurd rfl none)
    fun ended => (f.own ended).2
  refine ⟨faithful, ?_⟩
  rw [asides.attempts_same]
  intro a ha closed
  exact (f.closed a ha closed).of_suffix asides.suffix

/-- A walk that has passed every frame is not handed any more. -/
theorem passes_of_done {k k' : Walk} {unwound : Prop} {frames : List Frame}
    {earlier : List (Visit × Verdict)} (passes : k.Passes log unwound k' log')
    (tr : k.Tracks frames earlier) (done : k.ahead = []) :
    Visited log [] log' ∧ k'.ahead = [] := by
  obtain ⟨vs, seen, left, led⟩ := passes
  have none : vs = [] := by
    cases vs with
    | nil => rfl
    | cons x vs =>
      have order := (led frames earlier tr).1.inOrder.2.1.length_le
      have all := congrArg List.length tr.ahead
      rw [List.append_eq, processedIn_append] at order
      simp only [done, List.append_nil, List.length_append, List.length_singleton] at order all
      omega
  subst none
  refine ⟨seen, ?_⟩
  have same := (led frames earlier tr).1.ahead.trans tr.ahead.symm
  rw [List.nil_append, done, List.append_cancel_left_eq] at same
  exact same

theorem Faithful.passes {k k' : Walk} {unwound : Prop} (f : s.Faithful birth log)
    (acc : s.Accounted (attempts birth log)) (hk : s.walk = some k)
    (passes : k.Passes log unwound k' log') :
    Faithful birth { s with walk := some k' } log' := by
  obtain ⟨a, as, fs, has, hs, hi, he, tr⟩ := acc.follows.of_walk hk
  by_cases ended : Ended birth s.epoch log
  · obtain ⟨asides, done⟩ := passes_of_done passes tr ((f.own ended).2 k hk)
    refine f.visited asides _ (fun none => absurd rfl none) ?_
    rintro - _ ⟨⟩
    exact done
  · obtain ⟨vs, seen, -⟩ := passes
    refine f.visited seen _ ?_ fun now => absurd now ended
    rw [has]
    rintro - _ ⟨⟩
    rwa [← he]

/-- What has ended once it is published that a campaign is over. -/
theorem ended_of_settled {d e : Epoch}
    (told : publications birth log' = .settled e :: publications birth log) :
    Ended birth d log' ↔ e.significant = d.significant ∨ Ended birth d log := by
  refine (ended_of_publications told).trans (or_congr_left ?_)
  constructor
  · exact ProgressWord.significant_of_pack_eq
  · exact fun same => ProgressWord.pack_congr same true

/-- It is published that the campaign is over, and announced if it was not before. -/
theorem Faithful.settle (f : s.Faithful birth log)
    (exhausted : ∀ k, s.walk = some k → k.ahead = []) {w : ProgressWord}
    (told : publications birth log' = .settled s.epoch :: publications birth log)
    (read : readings log' = readings log)
    (attempted : attempts birth log' = (attempts birth log).modifyHead (.tell w))
    (kept : finishes log <:+ finishes log')
    (now : s.epoch.significant = birth.significant ∨
      ∃ d ∈ finishes log', d.significant = s.epoch.significant)
    (timely : Throughout (Event.IsTimely birth) log') :
    Faithful birth { s with published := .settled s.epoch } log' where
  told := ⟨.settled s.epoch, by rw [told]; exact List.mem_cons_self, rfl⟩
  boundary _ := rfl
  own _ := ⟨rfl, exhausted⟩
  others e ended := by
    rw [read]
    rcases (ended_of_settled told).1 ended with same | before
    · exact .inl same.symm
    · exact f.others e before
  later := by
    rw [attempted]
    exact forall_mem_modifyHead f.later fun _ ha => ha
  announced e ended := by
    rcases (ended_of_settled told).1 ended with same | before
    · rwa [← same]
    · rcases f.announced e before with own | ⟨d, hd, same⟩
      · exact .inl own
      · exact .inr ⟨d, kept.subset hd, same⟩
  timely := timely

/-- Publishing makes up for the walk. -/
theorem finishes_publishes (acc : s.Accounted (attempts birth log)) (f : s.Faithful birth log)
    (tail : ∀ a ∈ (attempts birth log).tail, a.IsOver → Ended birth a.epoch log)
    (published : s.Publishes log s' log') : s'.Finishes birth log' := by
  obtain ⟨a, as, has⟩ := exists_attempts birth log
  have follows := acc.follows
  rw [has] at follows tail
  cases published with
  | @boundary k l hk left pos =>
    have same {e : Epoch} : Ended birth e (.wordStored l (.pack s.epoch false) ::
        .boundaryStored l k.trail.trailing :: log) ↔ Ended birth e log := by
      refine (ended_of_publications rfl).trans (or_iff_right ?_)
      intro word
      have := congrArg ProgressWord.isDone word
      simp at this
    refine ⟨⟨⟨_, List.mem_cons_self, rfl⟩, ?_, ?_, ?_, ?_, ?_, trivial, trivial, f.timely⟩, ?_⟩
    · simp
    · intro ended
      exact absurd ((f.own (same.1 ended)).2 k hk) left
    · exact fun e ended => f.others e (same.1 ended)
    · exact forall_mem_modifyHead f.later fun _ hb => hb
    · exact fun e ended => f.announced e (same.1 ended)
    · obtain ⟨-, open_⟩ := follows.not_isOver hk left
      simp only [attempts, has]
      rintro b (_ | ⟨_, hb⟩) closed
      · exact absurd closed open_
      · exact same.2 (tail b hb closed)
  | ending l exhausted =>
    have closed (w : ProgressWord) {log₁ : List Event}
        (told : publications birth log₁ = .settled s.epoch :: publications birth log) :
        ∀ b ∈ (attempts birth log).modifyHead (.tell w), b.IsOver → Ended birth b.epoch log₁ := by
      rw [has]
      rintro b (_ | ⟨_, hb⟩) closed
      · refine (ended_of_settled told).2 (.inl ?_)
        rw [follows.epoch_of_stands closed.1]
        rfl
      · exact (ended_of_settled told).2 (.inr (tail b hb closed))
    split
    · rename_i word
      -- That the campaign is over was published before.
      have before : Ended birth s.epoch log := by
        obtain ⟨p, hp, same⟩ := f.told
        exact ⟨p, hp, same.trans word⟩
      refine ⟨f.settle exhausted rfl rfl rfl (List.suffix_refl _) (f.announced _ before) ?_,
        closed _ rfl⟩
      exact ⟨trivial, trivial, f.timely⟩
    · rename_i word
      have first : ¬ Ended birth s.epoch log := fun ended => word (f.own ended).1
      refine ⟨f.settle exhausted rfl rfl rfl (List.suffix_cons _ _)
        (.inr ⟨s.epoch, List.mem_cons_self, rfl⟩) ?_, closed _ rfl⟩
      exact ⟨⟨log, rfl, first⟩, trivial, trivial, f.timely⟩
  | stuck hk left missing =>
    obtain ⟨-, open_⟩ := follows.not_isOver hk left
    refine ⟨f, ?_⟩
    rw [has]
    rintro b (_ | ⟨_, hb⟩) closed
    · exact absurd closed open_
    · exact tail b hb closed

theorem finishes_moves (f : s.Finishes birth log) (acc : s.Accounted (attempts birth log))
    (moves : s.Moves log s' log') : s'.Finishes birth log' := by
  have tail : ∀ a ∈ (attempts birth log).tail, a.IsOver → Ended birth a.epoch log :=
    fun a ha => f.closed a (List.mem_of_mem_tail ha)
  cases moves with
  | rest => exact f
  | settle _ published => exact finishes_publishes acc f.toFaithful tail published
  | unwound hk passes =>
    have faithful := f.toFaithful.passes acc hk passes
    have follows := (accounted_passes acc hk passes).follows
    have left := passes.left_of_unwound trivial
    obtain ⟨vs, seen, -⟩ := passes
    obtain ⟨a, as, has⟩ := exists_attempts birth log
    rw [has] at tail
    refine ⟨faithful, ?_⟩
    rw [seen.attempts_eq, has] at follows ⊢
    obtain ⟨-, open_⟩ := follows.not_isOver rfl left
    rintro b (_ | ⟨_, hb⟩) closed
    · exact absurd closed open_
    · exact (tail b hb closed).of_suffix seen.suffix
  | passed hk passes published asides =>
    have faithful := f.toFaithful.passes acc hk passes
    have acc' := accounted_passes acc hk passes
    obtain ⟨vs, seen, -⟩ := passes
    refine finishes_asides (finishes_publishes acc' faithful ?_ published) asides
    rw [seen.attempts_eq, List.tail_modifyHead]
    exact fun a ha closed => (tail a ha closed).of_suffix seen.suffix

section starts

variable {e : Epoch}

/-- Once another epoch than that of the word has been read, every campaign that has ended is of the
past. -/
theorem Faithful.past_of_stale (f : s.Faithful birth log) (d : s.IsDated birth log)
    (nr : Epoch.NeverReturn (e :: readings log)) (stale : s.published.word.isOf e = false) :
    ∀ d, Ended birth d log → d.IsPast (e :: readings log) := by
  intro d' ended
  rcases f.others d' ended with same | past
  · have word := (f.own (ended.congr same)).1
    refine (d.epoch.congr same.symm).isPast ?_
    intro now
    rw [word, Bool.eq_false_iff] at stale
    exact stale (ProgressWord.isOf_pack.2 (same.symm.trans now.symm))
  · exact past.cons nr

/-- A campaign is announced, at a time when every one that has ended is of the past. -/
theorem Faithful.started (f : s.Faithful birth log)
    (past : ∀ d, Ended birth d log → d.IsPast (readings log))
    (nr : Epoch.NeverReturn (e :: readings log)) (i : KindId) (l : Label) (walk : Option Walk) :
    ¬ Ended birth e log ∧
      Faithful birth { s with walk := walk, epoch := e }
        (.started l e :: .epochRead i e :: log) := by
  have open_ : ¬ Ended birth e log := fun ended => (past e ended).ne_of_neverReturn nr rfl
  refine ⟨open_, f.told, f.boundary, fun ended => absurd ended open_, ?_, ?_, f.announced, trivial,
    trivial, f.timely⟩
  · exact fun d ended => .inr ((past d ended).cons nr)
  · exact List.forall_mem_cons.2 ⟨fun found => absurd rfl found, f.later⟩

/-- The same when the stack is walked. -/
theorem Faithful.walked (f : s.Faithful birth log)
    (past : ∀ d, Ended birth d log → d.IsPast (readings log))
    (nr : Epoch.NeverReturn (e :: readings log)) {i : KindId} {l : Label} {tid : Nat}
    {o : WalkOptions} {fs : List Frame} {vs : List (Visit × Verdict)} (walk : Option Walk)
    (seen : Visited (.walk tid o fs :: .started l e :: .epochRead i e :: log) vs log') :
    Faithful birth { s with walk := walk, epoch := e } log' := by
  obtain ⟨open_, begun⟩ := f.started past nr i l walk
  have other : e.significant ≠ birth.significant :=
    fun same => open_ ((ended_birth birth log).congr same.symm)
  have opened : Faithful birth { s with walk := walk, epoch := e }
      (.walk tid o fs :: .started l e :: .epochRead i e :: log) :=
    ⟨begun.told, begun.boundary, begun.own, begun.others,
      List.forall_mem_cons.2 ⟨fun _ => other, f.later⟩, begun.announced, trivial, begun.timely⟩
  refine opened.visited seen _ ?_ fun ended => absurd ended open_
  rintro - _ ⟨⟩
  exact open_

theorem finishes_starts {begun : Bool} (f : s.Finishes birth log)
    (acc : s.Accounted (attempts birth log))
    (past : ∀ d, Ended birth d log → d.IsPast (readings log))
    (nr : Epoch.NeverReturn (readings log')) (starts : s.Starts log begun s' log') :
    s'.Finishes birth log' := by
  cases starts with
  | idle i e l published =>
    have nr' := nr.of_suffix (readings_suffix published.suffix)
    exact finishes_publishes (accounted_idle acc i e l)
      (f.toFaithful.started past nr' i l none).2 f.closed published
  | dropped i e l tid o fs passes asides =>
    have nr' : Epoch.NeverReturn (e :: readings log) :=
      nr.of_suffix (readings_suffix (passes.suffix.trans asides.suffix))
    obtain ⟨vs, seen, -⟩ := passes
    have ran := f.toFaithful.walked past nr' none seen
    have same := (seen.publications_eq birth).1
    -- The sweep keeps the epoch of the attempt before.
    refine finishes_asides ⟨⟨ran.told, f.boundary, ?_, ?_, ran.later, ran.announced, ran.timely⟩,
      ?_⟩ asides
    · intro ended
      exact ⟨(f.own ((ended_of_eq same).1 ended)).1, nofun⟩
    · intro d ended
      rw [seen.readings_eq]
      exact .inr ((past d ((ended_of_eq same).1 ended)).cons nr')
    · rw [attempts_started seen]
      rintro a (_ | ⟨_, ha⟩) closed
      · cases closed.1
      · exact (ended_of_eq same).2 (f.closed a ha closed)
  | @installed k log₁ _ _ i e l l' tid o fs passes filled published =>
    have acc' : Accounted { s with walk := some k, epoch := e }
        (attempts birth (.installed l' e :: log₁)) := accounted_installed acc passes
    obtain ⟨vs, seen, -⟩ := passes
    have nr' : Epoch.NeverReturn (e :: readings log) :=
      nr.of_suffix (readings_suffix (seen.suffix.trans (.trans ⟨[_], rfl⟩ published.suffix)))
    have ran := f.toFaithful.walked past nr' (some k) seen
    have same := (seen.publications_eq birth).1
    have kept : Faithful birth { s with walk := some k, epoch := e } (.installed l' e :: log₁) :=
      ⟨ran.told, ran.boundary, ran.own, ran.others, forall_mem_modifyHead ran.later fun _ ha => ha,
        ran.announced, trivial, ran.timely⟩
    refine finishes_publishes acc' kept ?_ published
    rw [attempts, attempts_started seen]
    exact fun a ha closed => (ended_of_eq same).2 (f.closed a ha closed)

end starts

theorem finishes_turns (f : s.Finishes birth log) (acc : s.Accounted (attempts birth log))
    (d : s.IsDated birth log) (nr : Epoch.NeverReturn (readings log'))
    (turns : s.Turns log s' log') : s'.Finishes birth log' := by
  cases turns with
  | looked i e => exact finishes_read f i nr
  | resumed moves => exact finishes_moves f acc moves
  | current i e _ asides moves =>
    have nr' : Epoch.NeverReturn (e :: readings log) :=
      nr.of_suffix (readings_suffix (asides.suffix.trans moves.suffix))
    refine finishes_moves (finishes_asides (finishes_read f i nr') asides) ?_ moves
    rw [asides.attempts_same]
    exact acc
  | renewed i e stale starts asides moves =>
    have nr₁ := nr.of_suffix (readings_suffix (asides.suffix.trans moves.suffix))
    have nr' : Epoch.NeverReturn (e :: readings log) :=
      nr₁.of_suffix (readings_suffix starts.suffix)
    have read : s.Accounted (attempts birth (.epochRead i e :: log)) := acc
    have past := f.toFaithful.past_of_stale d nr' (by simpa [isStale] using stale)
    have started := finishes_starts (finishes_read f i nr') read past nr₁ starts
    refine finishes_moves (finishes_asides started asides) ?_ moves
    rw [asides.attempts_same]
    exact accounted_starts read starts

end Sweep

/-! ## Walks that have passed every frame -/

namespace Walk

/-- A pass that does not succeed has a frame left, the one that was refused. -/
theorem stepFrames_left (h : Host ς ε) (sh : Shared) (fs : List Frame) :
    ∀ (last : Position) (cursor : Nat) (w : World ς),
      (stepFrames h sh last cursor fs w).outcome ≠ .ok () →
        (stepFrames h sh last cursor fs w).ahead ≠ [] := by
  induction fs with
  | nil => exact fun _ _ _ refused => absurd rfl refused
  | cons f rest ih =>
    intro last cursor w
    unfold stepFrames
    split
    · split
      · exact fun refused => absurd rfl refused
      · exact ih f.position (cursor + 1) _
    · exact fun _ => List.cons_ne_nil _ _
    · exact fun _ => List.cons_ne_nil _ _

theorem steps_left (h : Host ς ε) (sh : Shared) (n : Nat) : ∀ (k : Walk) (w : World ς),
    (steps h sh n k w).1 ≠ .ok () → (steps h sh n k w).2.1.ahead ≠ [] := by
  have step (k : Walk) (w : World ς) (refused : (k.step h sh w).1 ≠ .ok ()) :
      (k.step h sh w).2.1.ahead ≠ [] := by
    have left := stepFrames_left h sh k.ahead .none k.cursor (Bracket.enter w).2 refused
    unfold Walk.step
    simp only
    split
    · exact left
    · rwa [ahead_record]
  induction n with
  | zero => exact fun _ _ refused => absurd rfl refused
  | succ n ih =>
    intro k w
    have first := step k w
    unfold steps
    split <;> rename_i k' w' eq <;> rw [eq] at first
    · exact ih k' w'
    · exact first
    · exact first

end Walk

/-- A walk that has passed every frame is one that was put in place. -/
theorem Sweep.preserved_installed (h : Host ς ε) (birth : Epoch) :
    Preserved h birth fun _ log => ∀ a ∈ attempts birth log, a.IsComplete → a.installed = true := by
  have moved {s : Sweep} {k k' : Walk} {log log' : List Event} {unwound : Prop}
      (acc : s.Accounted (attempts birth log)) (hk : s.walk = some k)
      (passes : k.Passes log unwound k' log')
      (now : ∀ a ∈ attempts birth log, a.IsComplete → a.installed = true) :
      ∀ a ∈ attempts birth log', a.IsComplete → a.installed = true := by
    obtain ⟨a, as, fs, has, -, installed, -, -⟩ := acc.follows.of_walk hk
    obtain ⟨vs, seen, -⟩ := passes
    rw [has] at now
    rw [seen.attempts_eq, has]
    exact List.forall_mem_cons.2 ⟨fun _ => installed, fun b hb => now b (List.mem_cons_of_mem _ hb)⟩
  refine ⟨fun _ now => now, ?_, ?_, ?_, ?_, ?_, ?_, ?_⟩
  · intro s log log' now asides
    rwa [asides.attempts_same]
  · intro s s' log log' _ now published
    rcases published.cases_told birth with ⟨-, same⟩ | ⟨b, d, -, -, told⟩
    · rwa [same]
    · rw [told]
      exact forall_mem_modifyHead now fun _ ha => ha
  · exact fun sh w acc hk now => moved acc hk (Walk.step_spec h sh _ w).1 now
  · exact fun sh w acc hk now => moved acc hk (Walk.batch_spec h sh _ _ w).1 now
  · intro s log e l now
    exact List.forall_mem_cons.2 ⟨fun complete => absurd complete nofun, now⟩
  · intro s k w' context w now steps
    have passes := firstSteps_passes h context s w
    rw [steps] at passes
    obtain ⟨vs, seen, -⟩ := passes
    rw [attempts, attempts_started seen]
    exact List.forall_mem_cons.2 ⟨fun _ => rfl, now⟩
  · intro s context w now refused
    have left := Walk.steps_left h _ _ _ _ refused
    obtain ⟨vs, seen, -, led⟩ := firstSteps_passes h context s w
    have ahead := (led _ [] (Walk.tracks_ofFrames _)).1.ahead
    rw [attempts_started seen]
    refine List.forall_mem_cons.2 ⟨fun complete => ?_, now⟩
    -- All frames would have been processed, and yet one is left.
    rw [List.append_nil, ← Option.some.inj complete] at ahead
    exact absurd (List.append_right_eq_self.1 ahead) left

namespace Site

variable {h : Host ς ε} {birth : Epoch} {site : Site ς}

/-- The end of each campaign is announced once, and in time. -/
structure AnnouncesEnds (birth : Epoch) (site : Site ς) : Prop where
  once : (finishes site.world.log).Pairwise fun later earlier =>
    later.significant ≠ earlier.significant
  timely : Throughout (Event.IsTimely birth) site.world.log
  /-- A walk that has passed every frame is followed by its announcement. -/
  complete : ∀ a ∈ attempts birth site.world.log, a.IsComplete →
    Ended birth a.epoch site.world.log ∧
      ∃ d ∈ finishes site.world.log, d.significant = a.epoch.significant
  /-- So is every publication that says that a campaign is over. -/
  announced : ∀ e, Ended birth e site.world.log → e.significant = birth.significant ∨
    ∃ d ∈ finishes site.world.log, d.significant = e.significant

theorem Reachable.finishes (r : Reachable h birth site)
    (nr : Epoch.NeverReturn (readings site.world.log)) :
    site.sweep.Finishes birth site.world.log :=
  r.preserved_dated (P := Sweep.Finishes birth) (Sweep.finishes_settled birth h.kind)
    Sweep.finishes_turns nr

theorem Reachable.announcesEnds (r : Reachable h birth site)
    (nr : Epoch.NeverReturn (readings site.world.log)) : site.AnnouncesEnds birth := by
  have finishes := r.finishes nr
  have installed := r.bears (Sweep.preserved_installed h birth) (by
    rintro a (_ | ⟨_, ⟨⟩⟩) complete
    cases complete)
  refine ⟨finishes_apart finishes.timely, finishes.timely, ?_, finishes.announced⟩
  intro a ha complete
  have stands : a.stands = true := by simp [Attempt.stands, installed a ha complete]
  have ended := finishes.closed a ha ⟨stands, .inr complete⟩
  have found : a.snapshot ≠ none := by
    rw [complete]
    exact Option.some_ne_none _
  exact ⟨ended, (finishes.announced _ ended).resolve_left (finishes.later a ha found)⟩

end Site

end StackSweep

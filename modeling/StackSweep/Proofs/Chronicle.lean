import StackSweep.World
import StackSweep.Proofs.Epochs

/-!
# What a log tells

The log of a sweep, latest entry first, tells everything that these theorems speak of: which epochs
were read, which campaigns were attempted over which stack, which frames were handed to the
processor for which walk and how that ended, and what was published. An attempt begins where a
campaign is announced to start. Whatever is visited until the next one belongs to it. The making of
the sweep counts as an attempt at the campaign of that time, one that found no stack.
-/

namespace StackSweep

/-- The frames whose processing succeeded, in the order in which that happened. -/
def processedIn : List (Visit × Verdict) → List Frame
  | [] => []
  | (v, d) :: earlier =>
    if d = .processed then processedIn earlier ++ [v.frame] else processedIn earlier

/-- An attempt at a campaign. -/
structure Attempt where
  epoch : Epoch
  /-- The stack as the walk found it. There is none if the thread had none to walk. -/
  snapshot : Option (List Frame)
  /-- The visits of the walk and how they ended, latest first. -/
  visits : List (Visit × Verdict)
  /-- The first steps succeeded, and the walk was put in place. -/
  installed : Bool
  /-- A word with its epoch was published while it stood. -/
  published : Bool
deriving DecidableEq

namespace Attempt

/-- Nothing has to be done for the epoch at which a sweep is made. -/
def ofBirth (birth : Epoch) : Attempt := ⟨birth, none, [], false, true⟩

/-- The attempt left what a campaign needs: a walk in place or, without a stack, nothing to do. -/
def stands (a : Attempt) : Bool := a.installed || a.snapshot.isNone

/-- The walk of the attempt has passed the whole stack that it found. -/
def IsComplete (a : Attempt) : Prop := a.snapshot = some (processedIn a.visits)

instance : DecidablePred IsComplete := fun a =>
  inferInstanceAs (Decidable (a.snapshot = some (processedIn a.visits)))

def add (vs : List (Visit × Verdict)) (a : Attempt) : Attempt := { a with visits := vs ++ a.visits }

/-- A word is published. -/
def tell (w : ProgressWord) (a : Attempt) : Attempt :=
  { a with published := a.published || (a.stands && w.isOf a.epoch) }

end Attempt

/-- Each visit is to the frame that follows the ones processed before it, and sees the registers
of that frame. -/
def InOrder (frames : List Frame) : List (Visit × Verdict) → Prop
  | [] => True
  | (v, _) :: earlier =>
    v.registers = (processedIn earlier).length ∧ processedIn earlier ++ [v.frame] <+: frames ∧
      InOrder frames earlier

namespace Event

/-- The entry tells of nothing but bookkeeping. -/
def isAside : Event → Bool
  | .scope .. | .strayError _ | .startFailed .. | .draining _ | .yielding .. | .note _ => true
  | _ => false

end Event

/-- The epochs that were read, latest first. -/
def readings : List Event → List Epoch
  | [] => []
  | .epochRead _ e :: earlier => e :: readings earlier
  | _ :: earlier => readings earlier

/-- The stacks over which walks began, as they were then, latest first. -/
def walked : List Event → List (List Frame)
  | [] => []
  | .walk _ _ frames :: earlier => frames :: walked earlier
  | _ :: earlier => walked earlier

/-- The attempts so far, latest first. -/
def attempts (birth : Epoch) : List Event → List Attempt
  | [] => [.ofBirth birth]
  | .started _ e :: earlier => ⟨e, none, [], false, false⟩ :: attempts birth earlier
  | .walk _ _ frames :: earlier =>
    (attempts birth earlier).modifyHead fun a => { a with snapshot := some frames }
  | .visit _ v _ d :: earlier => (attempts birth earlier).modifyHead (.add [(v, d)])
  | .installed .. :: earlier =>
    (attempts birth earlier).modifyHead fun a => { a with installed := true }
  | .wordStored _ w :: earlier => (attempts birth earlier).modifyHead (.tell w)
  | _ :: earlier => attempts birth earlier

/-- The processor has unwound since a word was last published. -/
def raisedSince : List Event → Bool
  | [] => false
  | .wordStored .. :: _ => false
  | .visit _ _ _ d :: earlier => d == .unwound || raisedSince earlier
  | _ :: earlier => raisedSince earlier

/-- Something holds of every entry of a log and the log before it. -/
def Throughout (P : Event → List Event → Prop) : List Event → Prop
  | [] => True
  | e :: earlier => P e earlier ∧ Throughout P earlier

/-- The second log is the first one with these visits added, latest first, and asides. -/
inductive Visited (log : List Event) : List (Visit × Verdict) → List Event → Prop
  | refl : Visited log [] log
  | aside {vs log' e} : Visited log vs log' → e.isAside = true → Visited log vs (e :: log')
  | visit {vs log'} (l : Label) (v : Visit) (inside : List Event) (d : Verdict) :
    Visited log vs log' → Visited log ((v, d) :: vs) (.visit l v inside d :: log')

/-! ## Visits in order -/

theorem processedIn_append (vs ws : List (Visit × Verdict)) :
    processedIn (vs ++ ws) = processedIn ws ++ processedIn vs := by
  induction vs with
  | nil => simp [processedIn]
  | cons x vs ih =>
    obtain ⟨v, d⟩ := x
    simp only [List.cons_append, processedIn, ih]
    split <;> simp

/-- The successful visits, with the registers that they saw, pass over the frames in order and
leave none out. -/
theorem processed_visits_eq_zipIdx {frames : List Frame} :
    ∀ {vs : List (Visit × Verdict)}, InOrder frames vs →
      (vs.reverse.filter fun x => x.2 = .processed).map (fun x => (x.1.frame, x.1.registers)) =
        (processedIn vs).zipIdx
  | [], _ => rfl
  | (v, d) :: vs, ⟨hr, _, hvs⟩ => by
    rw [List.reverse_cons, List.filter_append, List.map_append, processed_visits_eq_zipIdx hvs]
    by_cases hd : d = .processed
    · simp [processedIn, hd, hr, List.zipIdx_append]
    · simp [processedIn, hd]

theorem InOrder.isPrefix {frames : List Frame} :
    ∀ {vs : List (Visit × Verdict)}, InOrder frames vs → processedIn vs <+: frames
  | [], _ => List.nil_prefix
  | (v, d) :: vs, ⟨_, hp, hvs⟩ => by
    unfold processedIn
    split
    · exact hp
    · exact hvs.isPrefix

/-- Of two parts of a list of visits the earlier one is in order by itself. -/
theorem InOrder.of_append {frames : List Frame} :
    ∀ {vs ws : List (Visit × Verdict)}, InOrder frames (vs ++ ws) → InOrder frames ws
  | [], _, h => h
  | _ :: _, _, h => of_append h.2.2

theorem mem_of_mem_processedIn {f : Frame} :
    ∀ {vs : List (Visit × Verdict)}, f ∈ processedIn vs →
      ∃ v, (v, .processed) ∈ vs ∧ v.frame = f
  | (v, d) :: vs, h => by
    unfold processedIn at h
    split at h
    · rename_i hd
      rcases List.mem_append.1 h with h | h
      · obtain ⟨u, hu, hf⟩ := mem_of_mem_processedIn h
        exact ⟨u, List.mem_cons_of_mem _ hu, hf⟩
      · exact ⟨v, by simp [hd], (List.mem_singleton.1 h).symm⟩
    · obtain ⟨u, hu, hf⟩ := mem_of_mem_processedIn h
      exact ⟨u, List.mem_cons_of_mem _ hu, hf⟩

/-! ## Attempts -/

theorem forall_mem_modifyHead {α : Type} {P : α → Prop} {f : α → α} {xs : List α}
    (h : ∀ x ∈ xs, P x) (hf : ∀ x, P x → P (f x)) : ∀ x ∈ xs.modifyHead f, P x := by
  cases xs with
  | nil => exact h
  | cons y ys =>
    rintro x (_ | ⟨_, hx⟩)
    · exact hf y (h y (by simp))
    · exact h x (List.mem_cons_of_mem _ hx)

/-- What a change of the head keeps of every element. -/
theorem map_modifyHead {α β : Type} {f : α → α} {g : α → β} (hf : ∀ x, g (f x) = g x)
    (xs : List α) : (xs.modifyHead f).map g = xs.map g := by
  cases xs with
  | nil => rfl
  | cons x xs => simp [hf]

/-- The making of the sweep is an attempt, so that there is always one. -/
theorem exists_attempts (birth : Epoch) (log : List Event) :
    ∃ a as, attempts birth log = a :: as := by
  induction log with
  | nil => exact ⟨_, _, rfl⟩
  | cons e log ih =>
    obtain ⟨a, as, h⟩ := ih
    cases e <;> simp [attempts, h]

/-- A walk begins over every stack that an attempt found. -/
theorem mem_walked_of_snapshot {birth : Epoch} {fs : List Frame} {log : List Event} :
    ∀ a ∈ attempts birth log, a.snapshot = some fs → fs ∈ walked log := by
  induction log with
  | nil => simp [attempts, Attempt.ofBirth]
  | cons e log ih =>
    cases e with
    | started => simpa [attempts, walked] using ih
    | walk tid o frames =>
      refine forall_mem_modifyHead (fun a ha hs => List.mem_cons_of_mem _ (ih a ha hs)) ?_
      rintro a - ⟨⟩
      exact List.mem_cons_self
    | visit => exact forall_mem_modifyHead ih fun _ h => h
    | installed => exact forall_mem_modifyHead ih fun _ h => h
    | wordStored => exact forall_mem_modifyHead ih fun _ h => h
    | _ => exact ih

/-! ## Logs that grow -/

theorem readings_append (es log : List Event) :
    readings (es ++ log) = readings es ++ readings log := by
  induction es with
  | nil => rfl
  | cons e es ih => cases e <;> simp [readings, ih]

theorem walked_append (es log : List Event) : walked (es ++ log) = walked es ++ walked log := by
  induction es with
  | nil => rfl
  | cons e es ih => cases e <;> simp [walked, ih]

theorem readings_cons_aside {e : Event} {log : List Event} (h : e.isAside = true) :
    readings (e :: log) = readings log := by
  cases e <;> simp_all [Event.isAside, readings]

theorem attempts_cons_aside {birth : Epoch} {e : Event} {log : List Event} (h : e.isAside = true) :
    attempts birth (e :: log) = attempts birth log := by
  cases e <;> simp_all [Event.isAside, attempts]

theorem raisedSince_cons_aside {e : Event} {log : List Event} (h : e.isAside = true) :
    raisedSince (e :: log) = raisedSince log := by
  cases e <;> simp_all [Event.isAside, raisedSince]

theorem readings_suffix {log log' : List Event} (h : log <:+ log') :
    readings log <:+ readings log' := by
  obtain ⟨es, rfl⟩ := h
  exact ⟨readings es, (readings_append es log).symm⟩

theorem walked_suffix {log log' : List Event} (h : log <:+ log') : walked log <:+ walked log' := by
  obtain ⟨es, rfl⟩ := h
  exact ⟨walked es, (walked_append es log).symm⟩

namespace Visited

variable {log log' log'' : List Event} {vs ws : List (Visit × Verdict)}

theorem trans (h : Visited log vs log') (h' : Visited log' ws log'') :
    Visited log (ws ++ vs) log'' := by
  induction h' with
  | refl => exact h
  | aside _ ha ih => exact .aside ih ha
  | visit l v inside d _ ih => exact .visit l v inside d ih

theorem suffix (h : Visited log vs log') : log <:+ log' := by
  induction h with
  | refl => exact List.suffix_refl _
  | aside _ _ ih => exact ih.trans (List.suffix_cons _ _)
  | visit _ _ _ _ _ ih => exact ih.trans (List.suffix_cons _ _)

/-- Entries of bookkeeping add no visit. -/
theorem asides (h : Visited log vs log') {es : List Event} (hes : ∀ e ∈ es, e.isAside = true) :
    Visited log vs (es ++ log') := by
  induction es with
  | nil => exact h
  | cons e es ih =>
    simp only [List.mem_cons, forall_eq_or_imp] at hes
    exact .aside (ih hes.2) hes.1

theorem readings_eq (h : Visited log vs log') : readings log' = readings log := by
  induction h with
  | refl => rfl
  | aside _ ha ih => rw [readings_cons_aside ha, ih]
  | visit _ _ _ _ _ ih => exact ih

theorem attempts_eq {birth : Epoch} (h : Visited log vs log') :
    attempts birth log' = (attempts birth log).modifyHead (.add vs) := by
  induction h with
  | refl => cases attempts birth log <;> rfl
  | aside _ ha ih => rw [attempts_cons_aside ha, ih]
  | visit _ _ _ _ _ ih =>
    rw [attempts, ih]
    cases attempts birth log <;> rfl

theorem map_attempts_eq {birth : Epoch} {β : Type} {g : Attempt → β}
    (added : ∀ vs a, g (a.add vs) = g a) (h : Visited log vs log') :
    (attempts birth log').map g = (attempts birth log).map g := by
  rw [h.attempts_eq]
  exact map_modifyHead (added vs) _

/-- Asides alone leave the attempts as they were. -/
theorem attempts_same {birth : Epoch} (h : Visited log [] log') :
    attempts birth log' = attempts birth log := by
  rw [h.attempts_eq]
  cases attempts birth log <;> rfl

theorem raisedSince_eq (h : Visited log vs log') :
    raisedSince log' = (vs.any (·.2 == .unwound) || raisedSince log) := by
  induction h with
  | refl => rfl
  | aside _ ha ih => rw [raisedSince_cons_aside ha, ih]
  | visit _ _ _ d _ ih => simp [raisedSince, ih, Bool.or_assoc]

end Visited

/-- The later log continues the earlier one, and every entry that it adds is allowed. -/
def Adds (allowed : Event → Prop) (log log' : List Event) : Prop :=
  ∃ es, log' = es ++ log ∧ ∀ e ∈ es, allowed e

namespace Adds

variable {allowed : Event → Prop} {log log₁ log' : List Event}

theorem refl (log : List Event) : Adds allowed log log := ⟨[], rfl, by simp⟩

theorem cons {e : Event} (h : Adds allowed log log') (he : allowed e) :
    Adds allowed log (e :: log') := by
  obtain ⟨es, rfl, all⟩ := h
  exact ⟨e :: es, rfl, List.forall_mem_cons.2 ⟨he, all⟩⟩

theorem trans (h : Adds allowed log log₁) (h' : Adds allowed log₁ log') :
    Adds allowed log log' := by
  obtain ⟨es, rfl, all⟩ := h
  obtain ⟨es', rfl, all'⟩ := h'
  refine ⟨es' ++ es, (List.append_assoc _ _ _).symm, ?_⟩
  intro e he
  exact (List.mem_append.1 he).elim (all' e) (all e)

theorem of_visited {vs : List (Visit × Verdict)} (asides : ∀ e, e.isAside = true → allowed e)
    (visits : vs ≠ [] → ∀ l v inside d, allowed (.visit l v inside d))
    (seen : Visited log vs log') : Adds allowed log log' := by
  induction seen with
  | refl => exact .refl log
  | aside _ aside ih => exact (ih visits).cons (asides _ aside)
  | visit l v inside d _ ih =>
    have now := visits (List.cons_ne_nil _ _)
    exact (ih fun _ => now).cons (now l v inside d)

end Adds

namespace Throughout

variable {P : Event → List Event → Prop} {log log' : List Event}

/-- What holds of every entry that is added, whatever came before it, holds throughout. -/
theorem adds {allowed : Event → Prop} (all : Throughout P log) (adds : Adds allowed log log')
    (holds : ∀ e earlier, allowed e → P e earlier) : Throughout P log' := by
  obtain ⟨es, rfl, each⟩ := adds
  induction es with
  | nil => exact all
  | cons e es ih =>
    obtain ⟨he, rest⟩ := List.forall_mem_cons.1 each
    exact ⟨holds e _ he, ih rest⟩

theorem of_suffix (all : Throughout P log') (suffix : log <:+ log') : Throughout P log := by
  obtain ⟨es, rfl⟩ := suffix
  induction es with
  | nil => exact all
  | cons e es ih => exact ih all.2

end Throughout

end StackSweep

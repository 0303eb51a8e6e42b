import StackSweep.Proofs.Sufficing

/-!
# What unwinding exposes

Before the running frame returns, the frame that it returns into is secured, and after a return the
one that runs then. Both hooks are meant to look past trampolines. But they pass over one trampoline
to find the running frame, and over one more to find the position that decides, and do not look
whether they have come to another. So the frame that a return exposes is safe as long as there are
not more trampolines than these in its way. Behind three trampolines it may not be, although the
hook says that all is well; `exposes_of_springing` shows such a run.
-/

namespace StackSweep

variable {ς ε : Type}

/-! ## Places on a stack -/

/-- The place of the frame that counts as running. -/
def runningPlace (fs : List Frame) : Nat := if fs.head?.any Frame.trampoline then 1 else 0

/-- The place of the frame whose position decides questions about the frame at place `i`. -/
def decidingPlace (fs : List Frame) (i : Nat) : Nat :=
  if fs[i]?.any Frame.trampoline && decide (i + 1 < fs.length) then i + 1 else i

namespace Thread

variable {t : Thread} {f : Frame} {i : Nat}

theorem senderIn_getElem? {fs : List Frame} (distinct : (fs.map Frame.id).Nodup) {i : Nat}
    (hf : fs[i]? = some f) : senderIn f.id fs = fs[i + 1]? := by
  induction fs generalizing i with
  | nil => cases hf
  | cons g rest ih =>
    rw [List.map_cons, List.nodup_cons] at distinct
    unfold senderIn
    cases i with
    | zero =>
      cases hf
      rw [if_pos rfl, List.getElem?_cons_succ, List.head?_eq_getElem?]
    | succ i =>
      rw [List.getElem?_cons_succ] at hf ⊢
      have other : g.id ≠ f.id := by
        intro same
        exact distinct.1 (same ▸ List.mem_map_of_mem (List.mem_of_getElem? hf))
      rw [if_neg other]
      exact ih distinct.2 hf

theorem sender?_eq (distinct : (t.frames.map Frame.id).Nodup) (hf : t.frames[i]? = some f) :
    t.sender? f = t.frames[i + 1]? :=
  senderIn_getElem? distinct hf

theorem topFrame?_eq (distinct : (t.frames.map Frame.id).Nodup) :
    t.topFrame? = t.frames[runningPlace t.frames]? := by
  unfold topFrame? lastFrame? runningPlace
  cases hf : t.frames.head? with
  | none =>
    rw [List.head?_eq_none_iff] at hf
    simp [hf]
  | some f =>
    rw [List.head?_eq_getElem?] at hf
    cases plain : f.trampoline with
    | true => simp [plain, sender?_eq distinct hf]
    | false => simp [plain, hf]

theorem decidingPosition_eq (distinct : (t.frames.map Frame.id).Nodup)
    (hf : t.frames[i]? = some f) {g : Frame}
    (hg : t.frames[decidingPlace t.frames i]? = some g) : t.decidingPosition f = g.position := by
  unfold decidingPosition
  unfold decidingPlace at hg
  simp only [hf, Option.any_some] at hg
  cases plain : f.trampoline with
  | false =>
    simp only [plain, Bool.false_and, Bool.false_eq_true, if_false, hf, Option.some.injEq] at hg ⊢
    rw [hg]
  | true =>
    simp only [plain, Bool.true_and, decide_eq_true_eq, if_true] at hg ⊢
    rw [sender?_eq distinct hf]
    split at hg
    · rw [hg]
    · rename_i last
      rw [List.getElem?_eq_none (Nat.not_lt.1 last)]
      rw [hf] at hg
      cases hg
      rfl

end Thread

/-! ## The hooks -/

namespace Stage

variable {h : Host ς ε} {c : Calm} {f : Frame} {s s' : Sweep} {w w' : World ς} {a : Answer}

/-- A frame that has been secured is safe when the operation is over. -/
theorem isSafe_of_run (hk : c.kinds h.kind) (keeps : h.Respects c.Holds) (calm : c.Holds w)
    {n : Nat} (done : run h n (.secure f) s w = (some (.ok a), s', w')) :
    (s'.isSafe h f w').1 = true ∧ c.Holds w' := by
  obtain ⟨m, o, secures, ended⟩ := secures_of_run n done
  have ok : o = .ok () := by
    cases o with
    | ok _ => rfl
    | failed e => cases ended
    | unwound x => cases ended
  exact ⟨secures.judged hk keeps calm ok, secures.holds keeps calm⟩

end Stage

namespace Call

/-- The place of the frame that a hook is about. -/
def targetPlace : Call → List Frame → Option Nat
  | .beforeUnwind, fs => some (runningPlace fs + 1)
  | .afterUnwind, fs => some (runningPlace fs)
  | _, _ => none

variable {h : Host ς ε} {calm : Calm} {c : Call} {s s' : Sweep} {w w' : World ς} {a : Answer}
  {i : Nat} {f g : Frame}

theorem openWith_of_target (distinct : (w.thread.frames.map Frame.id).Nodup)
    (target : c.targetPlace w.thread.frames = some i) (hf : w.thread.frames[i]? = some f)
    (published : Published) : c.openWith h published w = (.needs (.secure f), w) := by
  cases c with
  | beforeUnwind =>
    cases target
    have running : runningPlace w.thread.frames < w.thread.frames.length := by
      have := (List.getElem?_eq_some_iff.1 hf).1
      omega
    have top := Thread.topFrame?_eq distinct
    rw [List.getElem?_eq_getElem running] at top
    have sender := Thread.sender?_eq distinct (List.getElem?_eq_getElem running)
    simp only [openWith, top, Option.bind_some, sender, hf, securing]
  | afterUnwind =>
    cases target
    simp only [openWith, Thread.topFrame?_eq distinct, hf, securing]
  | _ => cases target

/-- A hook that has ended well has secured what is at its place. -/
theorem isSafeAt_of_run (hk : calm.kinds h.kind) (keeps : h.Respects calm.Holds)
    (now : calm.Holds w) (distinct : (w.thread.frames.map Frame.id).Nodup)
    (target : c.targetPlace w.thread.frames = some i) {n : Nat}
    (done : c.run h n s w = (some (.ok a), s', w'))
    (hg : w.thread.frames[decidingPlace w.thread.frames i]? = some g) :
    s'.isSafeAt (w'.readEpoch h.kind).1 g.position = true := by
  have some : i < w.thread.frames.length := by
    have := (List.getElem?_eq_some_iff.1 hg).1
    unfold decidingPlace at this
    split at this <;> omega
  have hf := List.getElem?_eq_getElem some
  unfold run at done
  rw [openWith_of_target distinct target hf] at done
  obtain ⟨safe, later⟩ := Stage.isSafe_of_run hk keeps now done
  rw [← Thread.decidingPosition_eq distinct hf hg, ← now.decidingPosition_eq later]
  exact safe

end Call

/-! ## Runs of trampolines -/

section stubs

variable {ts us rest : List Frame} {g g' : Frame}

/-- Up to two trampolines are passed over to find what runs. -/
theorem decidingPlace_running (stubs : ∀ f ∈ ts, f.trampoline = true)
    (plain : g.trampoline = false) (few : ts.length ≤ 2) :
    decidingPlace (ts ++ g :: rest) (runningPlace (ts ++ g :: rest)) = ts.length := by
  match ts, few with
  | [], _ => simp [runningPlace, decidingPlace, plain]
  | [t], _ => simp [runningPlace, decidingPlace, plain, stubs t]
  | [t, t'], _ => simp [runningPlace, decidingPlace, stubs t, stubs t']

/-- One trampoline is passed over to find what runs, and one more to find what that returns into. -/
theorem decidingPlace_returning (stubs : ∀ f ∈ ts, f.trampoline = true)
    (plain : g.trampoline = false) (few : ts.length ≤ 1) (stubs' : ∀ f ∈ us, f.trampoline = true)
    (plain' : g'.trampoline = false) (few' : us.length ≤ 1) :
    decidingPlace (ts ++ g :: (us ++ g' :: rest))
      (runningPlace (ts ++ g :: (us ++ g' :: rest)) + 1) = ts.length + 1 + us.length := by
  match ts, us, few, few' with
  | [], [], _, _ => simp [runningPlace, decidingPlace, plain, plain']
  | [], [u], _, _ => simp [runningPlace, decidingPlace, plain, stubs' u]
  | [t], [], _, _ => simp [runningPlace, decidingPlace, plain', stubs t]
  | [t], [u], _, _ => simp [runningPlace, decidingPlace, stubs t, stubs' u]

end stubs

namespace Call

/-- What is safe once a hook has ended well. -/
structure Exposes (h : Host ς ε) (s : Sweep) (w : World ς) : Prop where
  /-- The hook looks at one place, whatever stands there. -/
  judged : ∀ {c : Call} {i n : Nat} {a : Answer} {s' : Sweep} {w' : World ς} {g : Frame},
    c.targetPlace w.thread.frames = some i → c.run h n s w = (some (.ok a), s', w') →
    w.thread.frames[decidingPlace w.thread.frames i]? = some g →
    s'.isSafeAt (w'.readEpoch h.kind).1 g.position = true
  /-- After a return, the frame that runs, with not more than two trampolines on top of it. -/
  afterUnwind : ∀ {ts rest : List Frame} {g : Frame} {n : Nat} {a : Answer} {s' : Sweep}
    {w' : World ς}, w.thread.frames = ts ++ g :: rest → (∀ f ∈ ts, f.trampoline = true) →
    g.trampoline = false → ts.length ≤ 2 →
    Call.afterUnwind.run h n s w = (some (.ok a), s', w') → (s'.isSafe h g w').1 = true
  /-- Before a return, the frame returned into, with not more than one trampoline on top of the one
  that runs and one in between. -/
  beforeUnwind : ∀ {ts us rest : List Frame} {g g' : Frame} {n : Nat} {a : Answer} {s' : Sweep}
    {w' : World ς}, w.thread.frames = ts ++ g :: (us ++ g' :: rest) →
    (∀ f ∈ ts, f.trampoline = true) → g.trampoline = false → ts.length ≤ 1 →
    (∀ f ∈ us, f.trampoline = true) → g'.trampoline = false → us.length ≤ 1 →
    Call.beforeUnwind.run h n s w = (some (.ok a), s', w') → (s'.isSafe h g' w').1 = true

variable {h : Host ς ε} {calm : Calm} {s : Sweep} {w : World ς}

/-- While epochs and stack stay, the hooks around a return make safe what they look at. That is the
frame which the return exposes if there are few trampolines around it. -/
theorem exposes_of_holds (hk : calm.kinds h.kind)
    (process : ∀ v (w : World ς), calm.Holds w → calm.Holds (h.process v w).2)
    (now : calm.Holds w) (distinct : (w.thread.frames.map Frame.id).Nodup) : Exposes h s w := by
  have keeps := Calm.respects hk process
  have judged {c : Call} {i n : Nat} {a : Answer} {s' : Sweep} {w' : World ς} {g : Frame}
      (target : c.targetPlace w.thread.frames = some i)
      (done : c.run h n s w = (some (.ok a), s', w'))
      (hg : w.thread.frames[decidingPlace w.thread.frames i]? = some g) :
      s'.isSafeAt (w'.readEpoch h.kind).1 g.position = true :=
    isSafeAt_of_run hk keeps now distinct target done hg
  have safe {s' : Sweep} {w' : World ς} {g : Frame} (plain : g.trampoline = false)
      (decided : s'.isSafeAt (w'.readEpoch h.kind).1 g.position = true) :
      (s'.isSafe h g w').1 = true := by
    show s'.isSafeAt _ (w'.thread.decidingPosition g) = true
    rwa [Thread.decidingPosition_of_not_trampoline plain]
  refine ⟨judged, ?_, ?_⟩
  · intro ts rest g n a s' w' frames stubs plain few done
    refine safe plain (judged rfl done ?_)
    rw [frames, decidingPlace_running stubs plain few]
    simp
  · intro ts us rest g g' n a s' w' frames stubs plain few stubs' plain' few' done
    refine safe plain' (judged rfl done ?_)
    rw [frames, decidingPlace_returning stubs plain few stubs' plain' few', Nat.add_assoc,
      List.getElem?_append_right (Nat.le_add_right _ _), Nat.add_sub_cancel_left, Nat.add_comm,
      List.getElem?_cons_succ]
    simp

end Call

/-! ## Three trampolines -/

namespace Site

/-- Three trampolines stand on top of the frame that runs. -/
def springFrames : List Frame :=
  [⟨0, ⟨10⟩, true, true⟩, ⟨1, ⟨20⟩, true, true⟩, ⟨2, ⟨30⟩, true, true⟩, ⟨3, ⟨40⟩, true, false⟩,
    ⟨4, ⟨50⟩, false, false⟩]

/-- The epoch moves on when these are the frames of the thread. -/
def springing : Site Bool :=
  { fresh with world := { fresh.world with
      thread := { fresh.world.thread with stack := some springFrames }
      epochs := .cells [1] } }

/-- The hook after a return. -/
def sprung : Option (Outcome String Answer) × Sweep × World Bool :=
  Call.afterUnwind.run moody 8 springing.sweep springing.world

/-- What stays the same in the meantime. -/
def springCalm : Calm where
  kinds k := k = ⟨0⟩
  epoch _ := 1
  stack := some springFrames
  walkable := true

theorem holds_springCalm : springCalm.Holds springing.world where
  epochs := by
    apply Authority.Abides.of_steady
    · exact fun _ _ => rfl
    · rintro k rfl
      rfl
  stack := rfl
  walkable := rfl

/-- The hook ends well when the third trampoline is safe. The frame that runs is not. -/
theorem exposes_of_springing :
    sprung.1 = some (.ok .nothing) ∧
    sprung.2.1.isSafeAt (sprung.2.2.readEpoch moody.kind).1 ⟨30⟩ = true ∧
    ∃ f ∈ springFrames, f.trampoline = false ∧ f.position = ⟨40⟩ ∧
      (sprung.2.1.isSafe moody f sprung.2.2).1 = false := by
  have exposes := Call.exposes_of_holds (h := moody) (s := springing.sweep) rfl
    (fun _ _ now => now) holds_springCalm (by decide)
  have done : sprung.1 = some (.ok .nothing) := by decide +kernel
  refine ⟨done, ?_, ⟨3, ⟨40⟩, true, false⟩, by decide, rfl, rfl, by decide +kernel⟩
  exact exposes.judged (c := .afterUnwind) (g := ⟨2, ⟨30⟩, true, true⟩) rfl
    (Prod.ext done rfl) rfl

end Site

end StackSweep

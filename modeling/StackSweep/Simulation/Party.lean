import StackSweep.Simulation.Processor
import StackSweep.Sweep.Creation

/-!
# Parties

An operation either has its reply at once, or it is a job, an errand on the sweeps of a thread.
Another party may begin an operation while a frame is being processed. If that needs a lock that
is taken it waits, and has its turn as soon as a drain yields that lock. If the lock becomes free
while the frame is still being processed, it takes the lock before long and is under way beside
the operation that was going on. Otherwise it has its turn after that operation.
-/

namespace StackSweep.Simulation

/-- An operation that has begun. -/
inductive Begun
  | replied (r : Reply)
  | job (j : Job)

/-- The frame that an operation speaks of. -/
def FrameRef.resolve (w : Theatre) : FrameRef → Frame
  | .literal f => f
  | .numbered id => (w.thread.frames.find? (·.id == id)).getD ⟨id, .none, false, false⟩

/-- The reply to a look at something that may not be there. -/
def replyOf {α : Type} (f : α → Reply) : Except Fault α → Reply
  | .ok a => f a
  | .error x => .unwound x.message

namespace Begun

/-- A call on one sweep, which must be there. -/
def call (t : Nat) (i : Except Fault Nat) (c : Call) (form : Form) : Begun :=
  match i with
  | .ok i => .job ⟨t, .ofCalls [(i, c)], form⟩
  | .error x => .replied (.unwound x.message)

/-- A drain of one sweep. -/
def drain (t : Nat) (i : Except Fault Nat) (withContext : Bool) (w : Theatre) : Begun × Theatre :=
  if withContext then
    let (c, w) := w.newContext
    match i with
    | .ok i => (.job ⟨t, .ofCalls [(i, .drain (some c))], .seenBy c⟩, w)
    | .error x => (.replied (.drained (.unwound x.message) []), w)
  else (call t i (.drain none) .success, w)

/-- The same call on every sweep of a thread. -/
def broadcast (t : Nat) (r : Roster) (c : Call) : Begun := .job ⟨t, r.broadcast c, .success⟩

end Begun

/-- Replies with the phase of a sweep, which takes a reading of its epoch. -/
def replyPhase (i : Nat) (f : Phase → Reply) (w : Theatre) : Begun × Theatre :=
  let (e, w) := w.readEpoch (w.member i).kind
  (.replied (f ((w.sweep i).phase e)), w)

/-- Begins an operation on one sweep of the thread in focus. -/
def SweepOp.begun (t : Nat) (k : KindId) (w : Theatre) : SweepOp → Begun × Theatre
  | .increment => (onPlace .increment .success, w)
  | .request => (onPlace .request .success, w)
  | .drain withContext => Begun.drain t place withContext w
  | .secure f => (onPlace (.secure (f.resolve w)) .success, w)
  | .iterate f => (onPlace (.iterate (f.resolve w)) .success, w)
  | .beforeUnwind => (onPlace .beforeUnwind .success, w)
  | .afterUnwind => (onPlace .afterUnwind .success, w)
  | .judge f => (onPlace (.judge (f.resolve w)) .single, w)
  | .judgeStack =>
    match place with
    | .ok i => (.job ⟨t, .ofCalls (w.thread.frames.map fun f => (i, .judge f)), .all⟩, w)
    | .error x => (.replied (.unwound x.message), w)
  | .locate => (onPlace .locate .single, w)
  | .isAbove p => (.replied (replyOf (fun i => .truth ((w.sweep i).published.isAbove p)) place), w)
  | .hasStarted => phase fun p => .truth (p != .stale)
  | .hasCompleted => phase fun p => .truth (p == .done)
  | .phase => phase fun p => .text p.name
  | .epoch =>
    match place with
    | .ok _ =>
      let (e, w) := w.readEpoch k
      (.replied (.number e.toNat), w)
    | .error x => (.replied (.unwound x.message), w)
  | .describe =>
    (.replied (replyOf portrait place), w)
where
  place : Except Fault Nat := (w.roster t).get k
  onPlace (c : Call) (form : Form) : Begun := Begun.call t place c form
  portrait (i : Nat) : Reply :=
    .portrait w.thread.tid k (w.member i).pacing ((w.sweep i).layout w.thread.tid k)
  phase (f : Phase → Reply) : Begun × Theatre :=
    match place with
    | .ok i => replyPhase i f w
    | .error x => (.replied (.unwound x.message), w)

/-- Begins an operation on all sweeps of the thread in focus. -/
def RosterOp.begun (t : Nat) (w : Theatre) : RosterOp → Begun × Theatre
  | .describe k => (.replied (.listing r.kinds (r.find? k).isSome (r.layout w.thread.tid w)), w)
  | .hasStarted k =>
    match r.get k with
    | .ok i => replyPhase i (fun p => .truth (p != .stale)) w
    | .error x => (.replied (.unwound x.message), w)
  | .start k => (Begun.call t (r.get k) .request .success, w)
  | .finish k withContext => Begun.drain t (r.get k) withContext w
  | .lowest => (.replied (.number (r.lowestBoundary w).addr), w)
  | .request => (Begun.broadcast t r .request, w)
  | .iterate f => (Begun.broadcast t r (.iterate (f.resolve w)), w)
  | .beforeUnwind => (Begun.broadcast t r .beforeUnwind, w)
  | .afterUnwind => (Begun.broadcast t r .afterUnwind, w)
where
  r : Roster := w.roster t

def ThreadOp.apply (t : Thread) : ThreadOp → Thread
  | .setStack stack => { t with stack := stack }
  | .pop n => { t with stack := t.stack.map (·.drop n) }
  | .push f => { t with stack := t.stack.map (f :: ·) }
  | .setWalkable value => { t with walkable := value }
  | .setPending error => { t with pending := error }

def EpochOp.run (w : Theatre) : EpochOp → Reply × Theatre
  | .read k =>
    let (e, a) := w.epochs.read? k
    (replyOf (fun e => .number e.toNat) e, { w with epochs := a })
  | .advance k =>
    let (e, a) := w.epochs.advance k
    (replyOf (fun e => .number e.toNat) e, { w with epochs := a })
  | .advanceAll =>
    match w.epochs with
    | .counter c => (.text c.advanceAll.layout.line, { w with epochs := .counter c.advanceAll })
    | _ => (.nothing, w)
  | .assign k e => (.nothing, { w with epochs := w.epochs.assign k e })

/-- Makes a sweep of the thread in focus, settled for the current campaign, and installs it. -/
def Spec.install (t : Nat) (w : Theatre) (spec : Spec) : Reply × Theatre :=
  let pacing := spec.pacing?.getD .standard
  match Sweep.create spec.kind pacing w with
  | (.failed e, w) => (.refused e, w)
  | (.unwound x, w) => (.unwound x.message, w)
  | (.ok s, w) =>
    match (Theatre.roster w t).install w.thread.tid spec.kind w.sweeps.length with
    | .error x => (.unwound x.message, w)
    | .ok r =>
      let m : Member := ⟨t, spec.kind, pacing, spec.onIteration, spec.actions, []⟩
      (.ok, { w with
        sweeps := w.sweeps ++ [s]
        rest := { w.rest with
          members := w.rest.members ++ [m]
          rosters := w.rest.rosters.set t r } })

/-- Begins an operation. -/
def Op.begun (w : Theatre) : Op → Begun × Theatre
  | .sweep t k op => within t w (op.begun t k)
  | .roster t op => within t w (op.begun t)
  | .thread t op => within t w fun w => (.replied .nothing, w.modifyThread op.apply)
  | .epochs op => let (r, w) := op.run w; (.replied r, w)
  | .install t s => within t w fun w => let (r, w) := s.install t w; (.replied r, w)
  | .arm t k actions =>
    match (w.roster t).get k with
    | .ok i =>
      (.replied .nothing, w.modifyMember i fun m => { m with actions := m.actions ++ actions })
    | .error x => (.replied (.unwound x.message), w)
where
  within (t : Nat) (w : Theatre) (f : Theatre → Begun × Theatre) : Begun × Theatre :=
    let back := w.rest.focus
    let (b, w) := f (w.focusOn t)
    (b, w.focusOn back)

/-- The reply to an errand that has ended with these answers. -/
def Form.reply (w : Theatre) (o : Outcome FrameError (List Answer)) : Form → Reply
  | .seenBy c => .drained (plain .success o) (w.seenBy c)
  | f => plain f o
where
  plain (f : Form) : Outcome FrameError (List Answer) → Reply
    | .failed e => .failed e.message
    | .unwound x => .unwound x.message
    | .ok answers =>
      match f, answers with
      | .single, .truth b :: _ => .truth b
      | .single, .place p :: _ => .number p.addr
      | .all, _ => .truths (answers.filterMap fun | .truth b => some b | _ => none)
      | _, _ => .ok

/-- The hosts of all sweeps, and what happens when one of them yields its lock. -/
structure Company where
  hosts : Nat → Host Scene FrameError
  others : Nat → Theatre → Theatre

namespace Job

/-- How far a job has come. -/
inductive State
  | replied (r : Reply)
  | waiting (sweep : Nat) (rest : Job)

/-- Runs a job until it has its reply or has to wait. -/
def run (c : Company) (j : Job) (w : Theatre) : State × Theatre :=
  let back := w.rest.focus
  let (p, w) := j.errand.run c.hosts c.others patience (Theatre.focusOn j.thread w)
  let w := Theatre.focusOn back w
  match p with
  | .finished o => (.replied (j.form.reply w o), w)
  | .blocked i rest => (.waiting i { j with errand := rest }, w)
  | .unfinished => (.replied .unfinished, w)

/-- Runs a job whose reply goes to a slot, and has it wait if it must. -/
def runFor (c : Company) (slot : Nat) (j : Job) (w : Theatre) : Theatre :=
  match j.run c w with
  | (.replied r, w) => w.tell slot r
  | (.waiting i rest, w) => w.park ⟨i, rest, slot, none⟩

end Job

/-- How each member is hosted. Every job looks up its hosts when it is taken up, because members
may have been installed since it began. -/
abbrev Hosting := Member → Nat → Host Scene FrameError

/-- The hosts of the members that there are now. -/
def Theatre.hosts (w : Theatre) (hosting : Hosting) (i : Nat) : Host Scene FrameError :=
  hosting (w.member i) i

/-- Lets the jobs that wait and meet a condition run to their ends. -/
def runWaiting (hosting : Hosting) (ready : Waiting → Bool) (w : Theatre) : Theatre :=
  let (go, w) := w.unpark ready
  go.foldl (fun w p => p.job.runFor ⟨w.hosts hosting, fun _ w => w⟩ p.slot w) w

/-- The company of a job that is taken up now: whoever waits for a lock gets it when it is
yielded. -/
def companyOf (hosting : Hosting) (w : Theatre) : Company where
  hosts := w.hosts hosting
  others i := runWaiting hosting fun p => p.sweep == i

/-- Another party begins an operation. -/
def contend (hosting : Hosting) (op : Op) (w : Theatre) : Theatre :=
  let (slot, w) := w.newSlot
  match op.begun w with
  | (.replied r, w) => w.tell slot r
  | (.job j, w) => j.runFor (companyOf hosting w) slot w

/-- The sweep whose lock a drain has just yielded. -/
def yielded? : Strand FrameError → Option Nat
  | ⟨none, ⟨some (i, .resume _), _, _⟩⟩ => some i
  | _ => none

/-- Goes on with a job under way until it has handed a frame to the processor or yielded a lock, has
to wait, or has its reply. The time that the processor takes, or whoever waits for the lock, passes
for this job alone. -/
def Beside.goOn (hosting : Hosting) : (fuel : Nat) → Beside → Theatre → Theatre
  | 0, p, w => w.tell p.slot .unfinished
  | fuel + 1, p, w =>
    let back := w.rest.focus
    let began := w.rest.clock
    let (next, w) := p.strand.move (w.hosts hosting) (Theatre.focusOn p.thread w)
    let w := Theatre.focusOn back w
    match next with
    | .going x =>
      match yielded? x with
      | some i =>
        let w := runWaiting hosting (fun p => p.sweep == i) w
        (w.setClock began).join { p with strand := x, due := w.rest.clock }
      | none =>
        if p.strand.isVisiting then
          (w.setClock began).join { p with strand := x, due := w.rest.clock }
        else goOn hosting fuel { p with strand := x } w
    | .blocked i => w.park ⟨i, ⟨p.thread, p.strand.errand, p.form⟩, p.slot, none⟩
    | .ended o => w.tell p.slot (p.form.reply w o)

/-- Goes on with several jobs under way. -/
def goOnAll (hosting : Hosting) (go : List Beside) (w : Theatre) : Theatre :=
  go.foldl (fun w p => p.goOn hosting patience w) w

/-- What other parties do while an action is gone through. Those that are not busy any more go on,
and so do those that have noticed that the lock they wait for is free. -/
def pause (hosting : Hosting) (w : Theatre) : Theatre :=
  let w := w.setClock (w.rest.clock + 1)
  let (go, w) := w.part (·.due ≤ w.rest.clock)
  let (woken, w) := (goOnAll hosting go w).wake
  let go := woken.map fun p => ⟨p.job.thread, .ofErrand p.job.errand, p.job.form, p.slot, 0⟩
  goOnAll hosting go w

/-- Hosts members so that operations may be begun inside each other `depth` times. -/
def hostingOf : (depth : Nat) → Hosting
  | 0, m, i => hostOf ⟨fun _ w => w, fun w => w.setClock (w.rest.clock + 1), true⟩ m i
  | depth + 1, m, i => hostOf ⟨contend (hostingOf depth), pause (hostingOf depth), true⟩ m i

/-- How the members of a theatre are hosted. An operation inside another one holds a lock that the
other does not, and each thread has at most one sweep of each of the 256 kinds. -/
def Theatre.hosting (w : Theatre) : Hosting := hostingOf (256 * w.rest.rosters.length)

/-- Has the jobs that are under way finish, whoever is the first to be no longer busy. -/
def rejoin (hosting : Hosting) : (rounds : Nat) → Theatre → Theatre
  | 0, w => w
  | rounds + 1, w =>
    match (w.rest.beside.map (·.due)).min? with
    | none => w
    | some due =>
      let (go, w) := (w.setClock (max due w.rest.clock)).part (·.due == due)
      rejoin hosting rounds (goOnAll hosting go w)

/-- Runs a job to its end. If somebody else who is under way holds a lock that it needs, they
finish first. -/
def Job.finish (hosting : Hosting) : (rounds : Nat) → Job → Theatre → Reply × Theatre
  | 0, _, w => (.unfinished, w)
  | rounds + 1, j, w =>
    match j.run (companyOf hosting w) w with
    | (.replied r, w) => (r, w)
    | (.waiting _ rest, w) => finish hosting rounds rest (rejoin hosting patience w)

/-- Lets the jobs that are under way or wait run to their ends, and those that come to wait
meanwhile. -/
def settle (hosting : Hosting) : (rounds : Nat) → Theatre → Theatre
  | 0, w => w
  | rounds + 1, w =>
    let w := rejoin hosting patience w
    if w.rest.waiting.isEmpty then w
    else settle hosting rounds (runWaiting hosting (fun _ => true) w)

end StackSweep.Simulation

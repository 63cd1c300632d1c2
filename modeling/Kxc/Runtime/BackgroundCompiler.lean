import Kxc.Lib.Interleaving

/-! The background compiler (`runtime/background_compiler.h`, `runtime/background_compiler.cc`): a
queue of tasks, worker threads that take tasks from it, and callers that submit tasks and wait for
all of them. Every thread takes one atomic step at a time. -/

namespace Kxc.Runtime

/-- `CompileTask`, as far as the queue and its threads read it. -/
structure CompileTask where
  priority : Int32
  deriving DecidableEq

/-- A task in the queue, with its place in the order of submission. -/
structure Ticket where
  number : Nat
  task : CompileTask
  deriving DecidableEq

/-- Where a worker is in `WorkerLoop`. -/
inductive Worker where
  /-- About to acquire `mu_`, at the start of an iteration or when it has woken up. -/
  | lock
  /-- Holds `mu_`, about to evaluate the predicate of `cv_.wait`. -/
  | check
  /-- Holds `mu_`, about to sleep on `cv_`: the predicate was false. -/
  | sleep
  | asleep
  /-- Holds `mu_`: the predicate was true. -/
  | ready
  /-- Holds `mu_`, returns. -/
  | leave
  | exited
  /-- Holds `mu_` and a task. -/
  | popped (ticket : Ticket)
  /-- In `Compile` or in the callback. -/
  | compile (ticket : Ticket)
  /-- About to decrement `active_tasks_`. -/
  | finish
  /-- About to notify `done_cv_`. -/
  | notify
  deriving DecidableEq

/-- Where a caller is in `Submit` or in `WaitAll`. A number is the one that the submitted task got;
`seen` are the tasks whose `Submit` had returned when `WaitAll` was called. -/
inductive Caller where
  | idle
  | lockSubmit (task : CompileTask)
  | push (task : CompileTask)
  | unlockSubmit (number : Nat)
  /-- About to notify `cv_`. -/
  | notifyOne (number : Nat)
  | lockWait (seen : List Nat)
  | checkWait (seen : List Nat)
  /-- Holds `mu_`, about to sleep on `done_cv_`: the predicate was false. -/
  | sleepWait (seen : List Nat)
  | asleepWait (seen : List Nat)
  /-- Holds `mu_`, returns: the predicate was true. -/
  | leaveWait (seen : List Nat)
  deriving DecidableEq

/-- Where the destructor is. -/
inductive Destructor where
  | idle
  /-- About to notify `cv_`. -/
  | notify
  | join
  | done
  deriving DecidableEq

/-- What has happened so far; no thread reads it. -/
structure History where
  submitted : Nat := 0
  /-- The tasks whose `Submit` has returned. -/
  returned : List Nat := []
  /-- The tasks that were taken from the queue, with the workers that took them. -/
  taken : List (Nat × Nat) := []
  /-- The tasks that have run their callback or, if `false`, have failed. -/
  finished : List (Nat × Bool) := []
  /-- How many tasks were submitted when `shutdown_` was set. -/
  beforeShutdown : Nat := 0

/-- A `BackgroundCompiler` and the threads that use it. -/
structure BackgroundCompiler where
  queue_ : List Ticket := []
  /-- Whether a thread holds `mu_`. -/
  mu_ : Bool := false
  shutdown_ : Bool := false
  active_tasks_ : Int32 := 0
  completed_count_ : Int32 := 0
  workers_ : List Worker
  callers : List Caller
  destructor : Destructor := .idle
  history : History := {}

/-- The number of threads that the constructor starts. -/
def threadCount (num_threads : Int32) (hardware_concurrency : UInt32) : Nat :=
  if num_threads ≤ 0 then max 1 (hardware_concurrency / 2).toNat else num_threads.toInt.toNat

namespace BackgroundCompiler

/-- The constructor, with callers that have not called anything yet. -/
def construct (num_threads : Int32) (hardware_concurrency : UInt32) (callers : Nat) :
    BackgroundCompiler where
  workers_ := List.replicate (threadCount num_threads hardware_concurrency) .lock
  callers := List.replicate callers .idle

/-- Worker `i` moves to `w`. -/
def setWorker (s : BackgroundCompiler) (i : Nat) (w : Worker) : BackgroundCompiler :=
  { s with workers_ := s.workers_.set i w }

/-- Caller `j` moves to `c`. -/
def setCaller (s : BackgroundCompiler) (j : Nat) (c : Caller) : BackgroundCompiler :=
  { s with callers := s.callers.set j c }

/-- `active_tasks_.load() == 0 && queue_.empty()`. -/
def allDone (s : BackgroundCompiler) : Bool := s.active_tasks_ == 0 && s.queue_.isEmpty

/-- `!queue_.empty() || shutdown_.load()`. -/
def hasWork (s : BackgroundCompiler) : Bool := !s.queue_.isEmpty || s.shutdown_

/-- A ticket that `queue_.top()` may be: no task in the queue has a higher priority. -/
def IsTop (s : BackgroundCompiler) (ticket : Ticket) : Prop :=
  ticket ∈ s.queue_ ∧ ∀ other ∈ s.queue_, other.task.priority ≤ ticket.task.priority

instance (s : BackgroundCompiler) (ticket : Ticket) : Decidable (s.IsTop ticket) :=
  inferInstanceAs (Decidable (_ ∧ ∀ other ∈ s.queue_, _))

end BackgroundCompiler

/-- A worker after `cv_` was notified for it. -/
def Worker.wake : Worker → Worker
  | .asleep => .lock
  | w => w

/-- A caller after `done_cv_` was notified. -/
def Caller.wake : Caller → Caller
  | .asleepWait seen => .lockWait seen
  | c => c

/-- The kinds of steps: calls, wakeups without a notification, notifications, and all others. -/
inductive StepKind where
  | call
  | spurious
  | notifyCv
  | notifyDone
  | other
  deriving DecidableEq

/-- A step of worker `i`. -/
inductive WorkerStep : BackgroundCompiler → Nat → StepKind → BackgroundCompiler → Prop
  | lock {s i} (h : s.workers_[i]? = some .lock) (hfree : s.mu_ = false) :
    WorkerStep s i .other { s.setWorker i .check with mu_ := true }
  | checkTrue {s i} (h : s.workers_[i]? = some .check) (hwork : s.hasWork = true) :
    WorkerStep s i .other (s.setWorker i .ready)
  | checkFalse {s i} (h : s.workers_[i]? = some .check) (hwork : s.hasWork = false) :
    WorkerStep s i .other (s.setWorker i .sleep)
  | sleep {s i} (h : s.workers_[i]? = some .sleep) :
    WorkerStep s i .other { s.setWorker i .asleep with mu_ := false }
  | spurious {s i} (h : s.workers_[i]? = some .asleep) :
    WorkerStep s i .spurious (s.setWorker i .lock)
  | ready {s i} (h : s.workers_[i]? = some .ready)
    (hstop : (s.shutdown_ && s.queue_.isEmpty) = true) :
    WorkerStep s i .other (s.setWorker i .leave)
  | leave {s i} (h : s.workers_[i]? = some .leave) :
    WorkerStep s i .other { s.setWorker i .exited with mu_ := false }
  | pop {s i ticket} (h : s.workers_[i]? = some .ready)
    (hstop : (s.shutdown_ && s.queue_.isEmpty) = false) (htop : s.IsTop ticket) :
    WorkerStep s i .other { s.setWorker i (.popped ticket) with
      queue_ := s.queue_.erase ticket,
      history.taken := s.history.taken ++ [(i, ticket.number)] }
  | unlock {s i ticket} (h : s.workers_[i]? = some (.popped ticket)) :
    WorkerStep s i .other { s.setWorker i (.compile ticket) with mu_ := false }
  | complete {s i ticket} (h : s.workers_[i]? = some (.compile ticket)) :
    WorkerStep s i .other { s.setWorker i .finish with
      completed_count_ := s.completed_count_ + 1,
      history.finished := s.history.finished ++ [(ticket.number, true)] }
  /-- `Compile` or the callback throws, and the handler logs it. -/
  | fail {s i ticket} (h : s.workers_[i]? = some (.compile ticket)) :
    WorkerStep s i .other { s.setWorker i .finish with
      history.finished := s.history.finished ++ [(ticket.number, false)] }
  | finish {s i} (h : s.workers_[i]? = some .finish) :
    WorkerStep s i .other { s.setWorker i .notify with active_tasks_ := s.active_tasks_ - 1 }
  | notify {s i} (h : s.workers_[i]? = some .notify) :
    WorkerStep s i .notifyDone { s.setWorker i .lock with callers := s.callers.map Caller.wake }

/-- A step of caller `j`. -/
inductive CallerStep : BackgroundCompiler → Nat → StepKind → BackgroundCompiler → Prop
  | submit {s j} (task : CompileTask) (h : s.callers[j]? = some .idle) :
    CallerStep s j .call (s.setCaller j (.lockSubmit task))
  | lockSubmit {s j task} (h : s.callers[j]? = some (.lockSubmit task)) (hfree : s.mu_ = false) :
    CallerStep s j .other { s.setCaller j (.push task) with mu_ := true }
  /-- `queue_.push` and `active_tasks_++`: both under `mu_`, as every reader of the two. -/
  | push {s j task} (h : s.callers[j]? = some (.push task)) :
    CallerStep s j .other { s.setCaller j (.unlockSubmit s.history.submitted) with
      queue_ := s.queue_ ++ [{ number := s.history.submitted, task }],
      active_tasks_ := s.active_tasks_ + 1,
      history.submitted := s.history.submitted + 1 }
  | unlockSubmit {s j number} (h : s.callers[j]? = some (.unlockSubmit number)) :
    CallerStep s j .other { s.setCaller j (.notifyOne number) with mu_ := false }
  /-- `cv_.notify_one()` wakes a worker. -/
  | notifyOne {s j number i} (h : s.callers[j]? = some (.notifyOne number))
    (hasleep : s.workers_[i]? = some .asleep) :
    CallerStep s j .notifyCv { (s.setCaller j .idle).setWorker i .lock with
      history.returned := s.history.returned ++ [number] }
  /-- `cv_.notify_one()` finds no worker asleep. -/
  | notifyNone {s j number} (h : s.callers[j]? = some (.notifyOne number))
    (hawake : .asleep ∉ s.workers_) :
    CallerStep s j .notifyCv { s.setCaller j .idle with
      history.returned := s.history.returned ++ [number] }
  | waitAll {s j} (h : s.callers[j]? = some .idle) :
    CallerStep s j .call (s.setCaller j (.lockWait s.history.returned))
  | lockWait {s j seen} (h : s.callers[j]? = some (.lockWait seen)) (hfree : s.mu_ = false) :
    CallerStep s j .other { s.setCaller j (.checkWait seen) with mu_ := true }
  | checkTrue {s j seen} (h : s.callers[j]? = some (.checkWait seen)) (hdone : s.allDone = true) :
    CallerStep s j .other (s.setCaller j (.leaveWait seen))
  | checkFalse {s j seen} (h : s.callers[j]? = some (.checkWait seen))
    (hdone : s.allDone = false) : CallerStep s j .other (s.setCaller j (.sleepWait seen))
  | sleepWait {s j seen} (h : s.callers[j]? = some (.sleepWait seen)) :
    CallerStep s j .other { s.setCaller j (.asleepWait seen) with mu_ := false }
  | spurious {s j seen} (h : s.callers[j]? = some (.asleepWait seen)) :
    CallerStep s j .spurious (s.setCaller j (.lockWait seen))
  | leaveWait {s j seen} (h : s.callers[j]? = some (.leaveWait seen)) :
    CallerStep s j .other { s.setCaller j .idle with mu_ := false }

/-- A step of the destructor. -/
inductive DestructorStep : BackgroundCompiler → StepKind → BackgroundCompiler → Prop
  | store {s} (h : s.destructor = .idle) :
    DestructorStep s .other { s with
      shutdown_ := true, destructor := .notify,
      history.beforeShutdown := s.history.submitted }
  | notify {s} (h : s.destructor = .notify) :
    DestructorStep s .notifyCv { s with
      workers_ := s.workers_.map Worker.wake, destructor := .join }
  | join {s} (h : s.destructor = .join) (hexited : ∀ w ∈ s.workers_, w = .exited) :
    DestructorStep s .other { s with destructor := .done }

/-- A step of any thread. -/
inductive Step (s : BackgroundCompiler) (kind : StepKind) (s' : BackgroundCompiler) : Prop
  | worker (i : Nat) (h : WorkerStep s i kind s')
  | caller (j : Nat) (h : CallerStep s j kind s')
  | destructor (h : DestructorStep s kind s')

end Kxc.Runtime

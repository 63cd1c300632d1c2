import Kxc.Runtime.Conservation

/-! The workers of the background compiler drain its queue: the tasks that were submitted before
`shutdown_` was set are taken before a worker returns, a queued task always leaves some thread a
step to take, and without further calls the threads come to rest. -/

namespace Kxc.Runtime

open Lib.Interleaving BackgroundCompiler

/-- Has seen `shutdown_` with an empty queue. -/
def Worker.left : Worker → Bool
  | .leave | .exited => true
  | _ => false

/-- Will look at the queue before it sleeps. -/
def Worker.awake : Worker → Bool
  | .sleep | .asleep | .leave | .exited => false
  | _ => true

/-- Has pushed a task and not notified `cv_` for it. -/
def Caller.pushed : Caller → Bool
  | .unlockSubmit _ | .notifyOne _ => true
  | _ => false

namespace BackgroundCompiler

/-- What follows from `shutdown_`. -/
structure ShutdownOk (s : BackgroundCompiler) : Prop where
  idle : s.destructor = .idle ↔ s.shutdown_ = false
  before : s.history.beforeShutdown ≤ s.history.submitted
  left : ∀ w ∈ s.workers_, w.left = true →
    s.shutdown_ = true ∧ ∀ ticket ∈ s.queue_, s.history.beforeShutdown ≤ ticket.number

/-- What a worker that holds `mu_` knows of the queue. -/
structure HeldOk (s : BackgroundCompiler) : Prop where
  sleep : .sleep ∈ s.workers_ → s.queue_ = []
  ready : .ready ∈ s.workers_ → s.hasWork = true

/-- While a worker sleeps on `cv_`, every queued task has a notification to come or a worker that
will look at the queue. -/
def AwakeOk (s : BackgroundCompiler) : Prop :=
  .asleep ∈ s.workers_ →
    s.queue_.length ≤ s.callers.countP Caller.pushed + s.workers_.countP Worker.awake

end BackgroundCompiler

variable {s s' : BackgroundCompiler} {kind : StepKind}

theorem Worker.mem_wake {workers : List Worker} {w : Worker} (hw : w ≠ .lock)
    (h : w ∈ workers.map Worker.wake) : w ∈ workers := by
  obtain ⟨v, hv, rfl⟩ := List.mem_map.mp h
  cases v <;> first | exact hv | exact (hw rfl).elim

theorem WorkerStep.shutdownOk {i : Nat} (h : WorkerStep s i kind s') (hs : s.ShutdownOk) :
    s'.ShutdownOk := by
  have hmoved {w : Worker} (hw : w.left = false) : (s.setWorker i w).ShutdownOk := by
    refine ⟨hs.idle, hs.before, fun v hv hleft => ?_⟩
    rcases List.mem_or_eq_of_mem_set hv with hv | rfl
    · exact hs.left v hv hleft
    · cases hw.symm.trans hleft
  cases h
  case ready h hstop =>
    refine ⟨hs.idle, hs.before, fun v hv hleft => ?_⟩
    simp only [Bool.and_eq_true, List.isEmpty_iff] at hstop
    refine ⟨hstop.1, fun ticket hticket => ?_⟩
    rw [setWorker, hstop.2] at hticket
    cases hticket
  case leave h =>
    have hleft := hs.left .leave (List.mem_of_getElem? h) rfl
    exact ⟨hs.idle, hs.before, fun _ _ _ => hleft⟩
  case pop ticket h hstop htop =>
    refine ⟨hs.idle, hs.before, fun v hv hleft => ?_⟩
    obtain ⟨hshutdown, hqueue⟩ := (hmoved (w := .popped ticket) rfl).left v hv hleft
    exact ⟨hshutdown, fun t ht => hqueue t (List.mem_of_mem_erase ht)⟩
  all_goals exact ⟨hs.idle, hs.before, (hmoved (by rfl)).left⟩

theorem Step.shutdownOk (h : Step s kind s') (hs : s.ShutdownOk) : s'.ShutdownOk := by
  rcases h with ⟨i, h⟩ | ⟨j, h⟩ | h
  · exact h.shutdownOk hs
  · cases h
    case push task h =>
      refine ⟨hs.idle, Nat.le_succ_of_le hs.before, fun w hw hleft => ?_⟩
      obtain ⟨hshutdown, hqueue⟩ := hs.left w hw hleft
      refine ⟨hshutdown, fun ticket hticket => ?_⟩
      rcases List.mem_append.mp hticket with hticket | hticket
      · exact hqueue ticket hticket
      · rw [List.mem_singleton.mp hticket]
        exact hs.before
    case notifyOne number i h hasleep =>
      refine ⟨hs.idle, hs.before, fun w hw hleft => ?_⟩
      rcases List.mem_or_eq_of_mem_set hw with hw | rfl
      · exact hs.left w hw hleft
      · cases hleft
    all_goals exact ⟨hs.idle, hs.before, hs.left⟩
  · cases h with
    | store h =>
      refine ⟨by simp, Nat.le_refl _, fun w hw hleft => ?_⟩
      cases (hs.idle.mp h).symm.trans (hs.left w hw hleft).1
    | notify h =>
      refine ⟨?_, hs.before, fun w hw hleft => ?_⟩
      · rw [← hs.idle, h]
        simp
      · exact hs.left w (Worker.mem_wake (by rintro rfl; cases hleft) hw) hleft
    | join h =>
      refine ⟨?_, hs.before, hs.left⟩
      rw [← hs.idle, h]
      simp

/-! ### What the holder of `mu_` knows -/

/-- No worker holds `mu_` while another one does. -/
theorem BackgroundCompiler.MutexOk.worker_eq (hs : s.MutexOk) {i j : Nat} {v w : Worker}
    (hi : s.workers_[i]? = some v) (hj : s.workers_[j]? = some w) (hv : v.holds = true)
    (hw : w.holds = true) : i = j := by
  have hmu := s.mu_.toNat_le
  unfold MutexOk at hs
  exact eq_of_countP_le_one (by omega) hi hj hv hw

/-- No caller holds `mu_` while a worker does. -/
theorem BackgroundCompiler.MutexOk.not_caller (hs : s.MutexOk) {j : Nat} {w : Worker} {c : Caller}
    (hw : w ∈ s.workers_) (hj : s.callers[j]? = some c) (hholds : w.holds = true) :
    c.holds = false := by
  have hmu := s.mu_.toNat_le
  have hworkers := List.countP_pos_iff.mpr ⟨w, hw, hholds⟩
  have hcallers := toNat_le_countP hj Caller.holds
  unfold MutexOk at hs
  cases hc : c.holds with
  | false => rfl
  | true =>
    rw [hc, Bool.toNat_true] at hcallers
    omega

/-- A worker other than the one that moves, unless it is where that one goes. -/
theorem mem_of_mem_setWorker {i : Nat} {v w : Worker} (hv : v ∈ s.workers_.set i w) (hne : v ≠ w) :
    v ∈ s.workers_ := by
  rcases List.mem_or_eq_of_mem_set hv with hv | hv
  · exact hv
  · exact (hne hv).elim

theorem WorkerStep.heldOk {i : Nat} (h : WorkerStep s i kind s') (hmutex : s.MutexOk)
    (hs : s.HeldOk) : s'.HeldOk := by
  cases h
  case checkTrue h hwork =>
    exact ⟨fun hsleep => hs.sleep (mem_of_mem_setWorker hsleep (by simp)), fun _ => hwork⟩
  case checkFalse h hwork =>
    refine ⟨fun _ => ?_, fun hready => hs.ready (mem_of_mem_setWorker hready (by simp))⟩
    simp only [hasWork, Bool.or_eq_false_iff, Bool.not_eq_false', List.isEmpty_iff] at hwork
    exact hwork.1
  case pop ticket h hstop htop =>
    have hother {v : Worker} (hv : v ∈ s.workers_.set i (.popped ticket)) (hholds : v.holds = true)
        (hne : v ≠ .popped ticket) : False := by
      obtain ⟨k, hk⟩ := List.mem_iff_getElem?.mp hv
      have hik : k ≠ i := by
        rintro rfl
        rw [List.getElem?_set_self (List.getElem?_eq_some_iff.mp h).1] at hk
        exact hne (Option.some.inj hk).symm
      rw [List.getElem?_set_ne hik.symm] at hk
      exact hik (hmutex.worker_eq hk h hholds rfl)
    exact ⟨fun hsleep => (hother hsleep rfl (by simp)).elim,
      fun hready => (hother hready rfl (by simp)).elim⟩
  all_goals
    exact ⟨fun hsleep => hs.sleep (mem_of_mem_setWorker hsleep (by simp)),
      fun hready => hs.ready (mem_of_mem_setWorker hready (by simp))⟩

theorem Step.heldOk (h : Step s kind s') (hmutex : s.MutexOk) (hs : s.HeldOk) : s'.HeldOk := by
  rcases h with ⟨i, h⟩ | ⟨j, h⟩ | h
  · exact h.heldOk hmutex hs
  · cases h
    case push task h =>
      refine ⟨fun hsleep => ?_, fun hready => ?_⟩
      · cases hmutex.not_caller hsleep h rfl
      · cases hmutex.not_caller hready h rfl
    case notifyOne number i h hasleep =>
      exact ⟨fun hsleep => hs.sleep (mem_of_mem_setWorker hsleep (by simp)),
        fun hready => hs.ready (mem_of_mem_setWorker hready (by simp))⟩
    all_goals exact ⟨hs.sleep, hs.ready⟩
  · cases h with
    | store h => exact ⟨hs.sleep, fun _ => by simp [hasWork]⟩
    | notify h =>
      exact ⟨fun hsleep => hs.sleep (Worker.mem_wake (by simp) hsleep),
        fun hready => hs.ready (Worker.mem_wake (by simp) hready)⟩
    | join h => exact ⟨hs.sleep, hs.ready⟩

/-! ### A queued task leaves a step to take -/

theorem WorkerStep.awakeOk {i : Nat} (h : WorkerStep s i kind s') (hheld : s.HeldOk)
    (hs : s.AwakeOk) : s'.AwakeOk := by
  unfold AwakeOk at hs ⊢
  have hstays {w : Worker} (hw : w ≠ .asleep) (h : .asleep ∈ s.workers_.set i w) :
      .asleep ∈ s.workers_ := mem_of_mem_setWorker h hw.symm
  cases h
  case checkFalse h hwork =>
    simp only [hasWork, Bool.or_eq_false_iff, Bool.not_eq_false', List.isEmpty_iff] at hwork
    simp [setWorker, hwork.1]
  case sleep h => simp [setWorker, hheld.sleep (List.mem_of_getElem? h)]
  case ready h hstop =>
    simp only [Bool.and_eq_true, List.isEmpty_iff] at hstop
    simp [setWorker, hstop.2]
  case spurious h =>
    intro _
    have := hs (List.mem_of_getElem? h)
    simp only [setWorker, countP_set h, Worker.awake, Bool.toNat_true, Bool.toNat_false]
    omega
  all_goals
    have hset := countP_set ‹s.workers_[i]? = some _›
    have hle := toNat_le_countP ‹s.workers_[i]? = some _› Worker.awake
    intro hasleep
    have := hs (hstays (by simp) hasleep)
    simp only [setWorker, hset, Worker.awake, Bool.toNat_true, Bool.toNat_false] at hle ⊢
  case pop ticket h hstop htop =>
    have := List.length_erase_of_mem htop.1
    omega
  case notify h =>
    rw [Caller.countP_wake _ _ fun _ => rfl]
    omega
  all_goals omega

theorem CallerStep.awakeOk {j : Nat} (h : CallerStep s j kind s') (hs : s.AwakeOk) :
    s'.AwakeOk := by
  unfold AwakeOk at hs ⊢
  cases h
  case notifyNone number h hawake => exact fun hasleep => (hawake hasleep).elim
  case notifyOne number i h hasleep =>
    intro _
    have := hs (List.mem_of_getElem? hasleep)
    have hle := toNat_le_countP h Caller.pushed
    simp only [setCaller, setWorker, countP_set h, countP_set hasleep, Caller.pushed, Worker.awake,
      Bool.toNat_true, Bool.toNat_false] at hle ⊢
    omega
  all_goals
    have hset := countP_set ‹s.callers[j]? = some _›
    have hle := toNat_le_countP ‹s.callers[j]? = some _› Caller.pushed
    intro hasleep
    have := hs hasleep
    simp only [setCaller, hset, Caller.pushed, Bool.toNat_true, Bool.toNat_false] at hle ⊢
  case push task h =>
    simp only [List.length_append, List.length_singleton]
    omega
  all_goals omega

theorem Step.awakeOk (h : Step s kind s') (hheld : s.HeldOk) (hs : s.AwakeOk) : s'.AwakeOk := by
  rcases h with ⟨i, h⟩ | ⟨j, h⟩ | h
  · exact h.awakeOk hheld hs
  · exact h.awakeOk hs
  · cases h with
    | store => exact hs
    | notify =>
      intro hasleep
      obtain ⟨w, -, hw⟩ := List.mem_map.mp hasleep
      cases w <;> cases hw
    | join => exact hs

/-- The threads are at rest: no step is left but new calls and wakeups without a notification. -/
def BackgroundCompiler.Settled (s : BackgroundCompiler) : Prop :=
  ∀ kind s', Step s kind s' → kind = .call ∨ kind = .spurious

/-- A queue that is not empty has a top. -/
theorem exists_isTop (h : s.queue_ ≠ []) : ∃ ticket, s.IsTop ticket := by
  have htop : ∀ queue : List Ticket, queue ≠ [] →
      ∃ t ∈ queue, ∀ u ∈ queue, u.task.priority ≤ t.task.priority := by
    intro queue
    induction queue with
    | nil => exact fun h => (h rfl).elim
    | cons t queue ih =>
      intro _
      by_cases hqueue : queue = []
      · subst hqueue
        exact ⟨t, by simp, by simp⟩
      · obtain ⟨top, hmem, hmax⟩ := ih hqueue
        rcases Int32.le_total t.task.priority top.task.priority with hle | hle
        · exact ⟨top, by simp [hmem], by simpa using ⟨hle, hmax⟩⟩
        · exact ⟨t, by simp, by simpa using fun u hu => Int32.le_trans (hmax u hu) hle⟩
  obtain ⟨t, hmem, hmax⟩ := htop _ h
  exact ⟨t, hmem, hmax⟩

/-- A worker that does not wait for `mu_` or for a notification has a step to take. -/
theorem not_settled_of_worker (hheld : s.HeldOk) {i : Nat} {w : Worker}
    (h : s.workers_[i]? = some w) (hw : w ≠ .lock ∧ w ≠ .asleep ∧ w ≠ .exited) : ¬s.Settled := by
  intro hsettled
  have hstep {kind s'} (h : WorkerStep s i kind s') (hkind : kind ≠ .call ∧ kind ≠ .spurious) :
      False := by
    rcases hsettled _ _ (.worker i h) with h | h
    · exact hkind.1 h
    · exact hkind.2 h
  cases w with
  | lock => exact hw.1 rfl
  | asleep => exact hw.2.1 rfl
  | exited => exact hw.2.2 rfl
  | check =>
    cases hwork : s.hasWork with
    | true => exact hstep (.checkTrue h hwork) (by simp)
    | false => exact hstep (.checkFalse h hwork) (by simp)
  | sleep => exact hstep (.sleep h) (by simp)
  | ready =>
    cases hstop : s.shutdown_ && s.queue_.isEmpty with
    | true => exact hstep (.ready h hstop) (by simp)
    | false =>
      have hqueue : s.queue_ ≠ [] := by
        intro hempty
        have hwork := hheld.ready (List.mem_of_getElem? h)
        simp only [hasWork, hempty, List.isEmpty_nil, Bool.not_true, Bool.false_or] at hwork
        simp [hempty, hwork] at hstop
      obtain ⟨ticket, htop⟩ := exists_isTop hqueue
      exact hstep (.pop h hstop htop) (by simp)
  | leave => exact hstep (.leave h) (by simp)
  | popped => exact hstep (.unlock h) (by simp)
  | compile => exact hstep (.complete h) (by simp)
  | finish => exact hstep (.finish h) (by simp)
  | notify => exact hstep (.notify h) (by simp)

/-- A caller that holds `mu_` has a step to take. -/
theorem not_settled_of_caller_holds {j : Nat} {c : Caller} (h : s.callers[j]? = some c)
    (hc : c.holds = true) : ¬s.Settled := by
  intro hsettled
  have hstep {s'} (h : CallerStep s j .other s') : False := by
    rcases hsettled _ _ (.caller j h) with hkind | hkind <;> cases hkind
  cases c with
  | push => exact hstep (.push h)
  | unlockSubmit => exact hstep (.unlockSubmit h)
  | checkWait =>
    cases hdone : s.allDone with
    | true => exact hstep (.checkTrue h hdone)
    | false => exact hstep (.checkFalse h hdone)
  | sleepWait => exact hstep (.sleepWait h)
  | leaveWait => exact hstep (.leaveWait h)
  | _ => cases hc

/-- While a task is queued and a worker has not returned, some thread has a step to take. -/
theorem not_settled_of_queued (hmutex : s.MutexOk) (hheld : s.HeldOk) (hawake : s.AwakeOk)
    (hqueue : s.queue_ ≠ []) (hworker : ∃ w ∈ s.workers_, w ≠ .exited) : ¬s.Settled := by
  intro hsettled
  -- no worker is but asleep, about to lock, or gone
  have hworkers : ∀ w ∈ s.workers_, w = .lock ∨ w = .asleep ∨ w = .exited := by
    intro w hw
    obtain ⟨i, hi⟩ := List.mem_iff_getElem?.mp hw
    by_contra hne
    exact not_settled_of_worker hheld hi (by simpa using hne) hsettled
  have hcallers : s.callers.countP Caller.holds = 0 := by
    refine List.countP_eq_zero.mpr fun c hc hholds => ?_
    obtain ⟨j, hj⟩ := List.mem_iff_getElem?.mp hc
    exact not_settled_of_caller_holds hj hholds hsettled
  have hfree : s.mu_ = false := by
    have hholds : s.workers_.countP Worker.holds = 0 := by
      refine List.countP_eq_zero.mpr fun w hw => ?_
      rcases hworkers w hw with rfl | rfl | rfl <;> simp [Worker.holds]
    rw [MutexOk, hholds, hcallers] at hmutex
    simpa using hmutex.symm
  have hstep {kind s'} (h : Step s kind s') (hkind : kind ≠ .call ∧ kind ≠ .spurious) : False :=
    (hsettled kind s' h).elim hkind.1 hkind.2
  have hlock : .lock ∉ s.workers_ := by
    intro hlock
    obtain ⟨i, hi⟩ := List.mem_iff_getElem?.mp hlock
    exact hstep (.worker i (.lock hi hfree)) (by simp)
  -- so the worker that has not returned sleeps, and nobody else will look at the queue
  obtain ⟨w, hw, hne⟩ := hworker
  have hasleep : .asleep ∈ s.workers_ := by
    rcases hworkers w hw with rfl | rfl | rfl
    · exact (hlock hw).elim
    · exact hw
    · exact (hne rfl).elim
  have hnone : s.workers_.countP Worker.awake = 0 := by
    refine List.countP_eq_zero.mpr fun w hw => ?_
    rcases hworkers w hw with rfl | rfl | rfl
    · exact (hlock hw).elim
    all_goals simp [Worker.awake]
  have hpushed : 0 < s.callers.countP Caller.pushed := by
    have := hawake hasleep
    have := List.length_pos_iff.mpr hqueue
    omega
  obtain ⟨c, hc, hpushed⟩ := List.countP_pos_iff.mp hpushed
  obtain ⟨j, hj⟩ := List.mem_iff_getElem?.mp hc
  cases c with
  | unlockSubmit => exact hstep (.caller j (.unlockSubmit hj)) (by simp)
  | notifyOne =>
    obtain ⟨i, hi⟩ := List.mem_iff_getElem?.mp hasleep
    exact hstep (.caller j (.notifyOne hj hi)) (by simp)
  | _ => cases hpushed

/-! ### The threads come to rest -/

/-- How many steps a worker can take, and cause, until the next task or notification. -/
def Worker.cost (callers : Nat) : Worker → Nat
  | .exited | .asleep => 0
  | .leave | .sleep => 1
  | .ready => 2
  | .check => 3
  | .lock => 4
  | .notify => 5 + 3 * callers
  | .finish => 6 + 3 * callers
  | .compile _ => 7 + 3 * callers
  | .popped _ => 8 + 3 * callers

/-- How many steps a caller can take, and cause, until the next call or notification. -/
def Caller.cost (callers : Nat) : Caller → Nat
  | .idle | .asleepWait _ => 0
  | .leaveWait _ | .sleepWait _ => 1
  | .checkWait _ => 2
  | .lockWait _ => 3
  | .notifyOne _ => 5
  | .unlockSubmit _ => 6
  | .push _ => 14 + 3 * callers
  | .lockSubmit _ => 15 + 3 * callers

/-- How many steps the destructor can take and cause. -/
def Destructor.cost (workers : Nat) : Destructor → Nat
  | .done => 0
  | .join => 1
  | .notify => 2 + 4 * workers
  | .idle => 3 + 4 * workers

/-- How many steps the threads can take without further calls and wakeups without a
notification. -/
def BackgroundCompiler.cost (s : BackgroundCompiler) : Nat :=
  (7 + 3 * s.callers.length) * s.queue_.length +
    (s.workers_.map (Worker.cost s.callers.length)).sum +
    (s.callers.map (Caller.cost s.callers.length)).sum + s.destructor.cost s.workers_.length

theorem Caller.sum_wake_le (callers : List Caller) (n : Nat) :
    ((callers.map Caller.wake).map (Caller.cost n)).sum ≤
      (callers.map (Caller.cost n)).sum + 3 * callers.length := by
  induction callers with
  | nil => exact Nat.le_refl _
  | cons c callers ih =>
    have hc : c.wake.cost n ≤ c.cost n + 3 := by
      cases c <;> simp [Caller.wake, Caller.cost]
    simp only [List.map_cons, List.sum_cons, List.length_cons] at ih ⊢
    omega

theorem Worker.sum_wake_le (workers : List Worker) (n : Nat) :
    ((workers.map Worker.wake).map (Worker.cost n)).sum ≤
      (workers.map (Worker.cost n)).sum + 4 * workers.length := by
  induction workers with
  | nil => exact Nat.le_refl _
  | cons w workers ih =>
    have hw : w.wake.cost n ≤ w.cost n + 4 := by
      cases w <;> simp [Worker.wake, Worker.cost]
    simp only [List.map_cons, List.sum_cons, List.length_cons] at ih ⊢
    omega

theorem WorkerStep.cost_lt {i : Nat} (h : WorkerStep s i kind s') (hkind : kind ≠ .spurious) :
    s'.cost < s.cost := by
  unfold BackgroundCompiler.cost
  cases h
  case spurious => exact (hkind rfl).elim
  all_goals
    have hset := sum_map_set ‹s.workers_[i]? = some _›
    have hle := le_sum_map ‹s.workers_[i]? = some _› (Worker.cost s.callers.length)
    simp only [setWorker, List.length_set, List.length_map, hset, Worker.cost] at hle ⊢
  case pop ticket h hstop htop =>
    obtain ⟨n, hn⟩ : ∃ n, s.queue_.length = n + 1 :=
      Nat.exists_eq_add_one.mpr (List.length_pos_of_mem htop.1)
    rw [List.length_erase_of_mem htop.1, hn, Nat.mul_add, Nat.add_sub_cancel_right]
    omega
  case notify h =>
    have := Caller.sum_wake_le s.callers s.callers.length
    omega
  all_goals omega

theorem CallerStep.cost_lt {j : Nat} (h : CallerStep s j kind s')
    (hkind : kind ≠ .call ∧ kind ≠ .spurious) : s'.cost < s.cost := by
  unfold BackgroundCompiler.cost
  cases h
  case submit => exact (hkind.1 rfl).elim
  case waitAll => exact (hkind.1 rfl).elim
  case spurious => exact (hkind.2 rfl).elim
  all_goals
    have hset := sum_map_set ‹s.callers[j]? = some _›
    have hle := le_sum_map ‹s.callers[j]? = some _› (Caller.cost s.callers.length)
    simp only [setCaller, setWorker, List.length_set, hset, Caller.cost] at hle ⊢
  case push task h =>
    rw [List.length_append, List.length_singleton, Nat.mul_add]
    omega
  case notifyOne number i h hasleep =>
    rw [sum_map_set hasleep]
    simp only [Worker.cost]
    omega
  all_goals omega

/-- Every step but a call or a wakeup without a notification brings the threads closer to rest. -/
theorem Step.cost_lt (h : Step s kind s') (hkind : kind ≠ .call ∧ kind ≠ .spurious) :
    s'.cost < s.cost := by
  rcases h with ⟨i, h⟩ | ⟨j, h⟩ | h
  · exact h.cost_lt hkind.2
  · exact h.cost_lt hkind
  · unfold BackgroundCompiler.cost
    cases h with
    | store h =>
      simp only [h, Destructor.cost]
      omega
    | notify h =>
      have := Worker.sum_wake_le s.workers_ s.callers.length
      simp only [h, Destructor.cost]
      omega
    | join h =>
      simp only [h, Destructor.cost]
      omega

/-! ### Runs -/

theorem Step.workers_length (h : Step s kind s') : s'.workers_.length = s.workers_.length := by
  rcases h with ⟨i, h⟩ | ⟨j, h⟩ | h <;> cases h <;> simp [setWorker, setCaller]

/-- What holds of a background compiler at all times. -/
structure BackgroundCompiler.Invariant (s : BackgroundCompiler) : Prop where
  mutex : s.MutexOk
  active : s.ActiveOk
  taken : s.TakenOnce
  finish : s.FinishOk
  callers : s.CallersOk
  shutdown : s.ShutdownOk
  held : s.HeldOk
  awake : s.AwakeOk
  some_worker : 0 < s.workers_.length
  few_workers : s.workers_.length < 2 ^ 32

theorem BackgroundCompiler.Invariant.finished (hs : s.Invariant) (hdone : s.allDone = true) :
    ∀ n < s.history.submitted, n ∈ s.finishedNumbers :=
  finished_of_allDone hs.active hs.taken hs.finish hs.few_workers hdone

theorem Step.callersOk (h : Step s kind s') (hs : s.Invariant) : s'.CallersOk := by
  rcases h with ⟨i, h⟩ | ⟨j, h⟩ | h
  · exact h.callersOk hs.callers
  · exact h.callersOk hs.callers hs.finished
  · cases h <;> exact ⟨hs.callers.returned, hs.callers.known, hs.callers.waited⟩

theorem Step.invariant (h : Step s kind s') (hs : s.Invariant) : s'.Invariant where
  mutex := h.mutexOk hs.mutex
  active := h.activeOk hs.active
  taken := h.takenOnce hs.taken
  finish := h.finishOk hs.finish
  callers := h.callersOk hs
  shutdown := h.shutdownOk hs.shutdown
  held := h.heldOk hs.mutex hs.held
  awake := h.awakeOk hs.held hs.awake
  some_worker := h.workers_length ▸ hs.some_worker
  few_workers := h.workers_length ▸ hs.few_workers

/-- The constructor starts a thread at least, and not more than an `int` counts. -/
theorem threadCount_bounds (num_threads : Int32) (hardware_concurrency : UInt32) :
    0 < threadCount num_threads hardware_concurrency ∧
      threadCount num_threads hardware_concurrency < 2 ^ 32 := by
  unfold threadCount
  split
  · next h =>
    have := (hardware_concurrency / 2).toNat_lt
    omega
  · next h =>
    have hpos : 0 < num_threads.toInt := by
      rw [Int32.le_iff_toInt_le] at h
      simpa using h
    have := num_threads.toInt_lt
    omega

theorem construct_invariant (num_threads : Int32) (hardware_concurrency : UInt32)
    (callers : Nat) : (construct num_threads hardware_concurrency callers).Invariant := by
  obtain ⟨hpos, hlt⟩ := threadCount_bounds num_threads hardware_concurrency
  have hworker {w : Worker}
      (hw : w ∈ (construct num_threads hardware_concurrency callers).workers_) : w = .lock :=
    List.eq_of_mem_replicate hw
  have hcaller {c : Caller}
      (hc : c ∈ (construct num_threads hardware_concurrency callers).callers) : c = .idle :=
    List.eq_of_mem_replicate hc
  refine ⟨?_, ?_, ?_, fun n => ?_, ⟨?_, ?_, ?_⟩, ⟨?_, Nat.le_refl _, ?_⟩, ⟨?_, ?_⟩, ?_, ?_, ?_⟩
  · simp [MutexOk, construct, List.countP_replicate, Worker.holds, Caller.holds]
  · simp [ActiveOk, inProgress, construct, List.countP_replicate, Worker.busy]
  · simp [TakenOnce, takenNumbers, construct]
  · simp [takenNumbers, finishedNumbers, construct, List.countP_replicate, Worker.hasTask]
  · simp [construct]
  · intro c hc n hn
    rw [hcaller hc] at hn
    cases hn
  · intro c hc n hn
    rw [hcaller hc] at hn
    cases hn
  · simp [construct]
  · intro w hw hleft
    rw [hworker hw] at hleft
    cases hleft
  · intro hw
    cases hworker hw
  · intro hw
    cases hworker hw
  · intro hw
    cases hworker hw
  · simpa [construct] using hpos
  · simpa [construct] using hlt

/-- What the background compiler guarantees for its tasks. -/
structure BackgroundCompiler.Conserved (s : BackgroundCompiler) : Prop where
  /-- `active_tasks_` is the number of queued tasks plus the number of tasks in progress. -/
  active : s.active_tasks_ = Int32.ofNat (s.queue_.length + s.inProgress)
  /-- Every submitted task is in the queue or was taken, by one worker and once. -/
  once : (s.queue_.map Ticket.number ++ s.takenNumbers).Perm (List.range s.history.submitted)
  /-- Before a worker returns, every task that was submitted before `shutdown_` was set is taken. -/
  drained : .exited ∈ s.workers_ → ∀ n < s.history.beforeShutdown, n ∈ s.takenNumbers
  /-- When all threads are at rest, every task is taken, unless it was submitted after `shutdown_`
  was set. -/
  rest : s.Settled → ∀ n < s.history.submitted,
    n ∈ s.takenNumbers ∨ (s.shutdown_ = true ∧ s.history.beforeShutdown ≤ n)
  /-- When `WaitAll` returns, every task whose `Submit` had returned before the call has run its
  callback or has failed. -/
  waited : ∀ seen, .leaveWait seen ∈ s.callers → ∀ n ∈ seen, n ∈ s.finishedNumbers

theorem BackgroundCompiler.Invariant.conserved (hs : s.Invariant) : s.Conserved := by
  have hqueued {n : Nat} (hn : n < s.history.submitted) :
      (∃ ticket ∈ s.queue_, ticket.number = n) ∨ n ∈ s.takenNumbers := by
    have := hs.taken.mem_iff.mpr (List.mem_range.mpr hn)
    simpa [List.mem_append, List.mem_map] using this
  have hdrained (hexited : .exited ∈ s.workers_) {n : Nat} (hn : n < s.history.submitted) :
      n ∈ s.takenNumbers ∨ (s.shutdown_ = true ∧ s.history.beforeShutdown ≤ n) := by
    obtain ⟨hshutdown, hqueue⟩ := hs.shutdown.left _ hexited rfl
    rcases hqueued hn with ⟨ticket, hticket, rfl⟩ | hn
    · exact Or.inr ⟨hshutdown, hqueue ticket hticket⟩
    · exact Or.inl hn
  refine ⟨hs.active, hs.taken, fun hexited n hn => ?_, fun hsettled n hn => ?_,
    fun seen hseen => hs.callers.waited _ hseen⟩
  · rcases hdrained hexited (Nat.lt_of_lt_of_le hn hs.shutdown.before) with h | ⟨-, h⟩
    · exact h
    · omega
  · by_cases hqueue : s.queue_ = []
    · rcases hqueued hn with ⟨ticket, hticket, -⟩ | hn
      · rw [hqueue] at hticket
        cases hticket
      · exact Or.inl hn
    · by_cases hworker : ∃ w ∈ s.workers_, w ≠ .exited
      · exact (not_settled_of_queued hs.mutex hs.held hs.awake hqueue hworker hsettled).elim
      · obtain ⟨w, hw⟩ := List.exists_mem_of_length_pos hs.some_worker
        have hexited : w = .exited := by
          by_contra hne
          exact hworker ⟨w, hw, hne⟩
        exact hdrained (hexited ▸ hw) hn

/-- In every state of every run, for any number of workers and callers, no task is lost; and
without further calls and wakeups without a notification every run comes to rest. -/
theorem construct_conserved (num_threads : Int32) (hardware_concurrency : UInt32)
    (callers : Nat) :
    (∀ s, Reach Step (fun _ _ => True) (construct num_threads hardware_concurrency callers) s →
      s.Conserved) ∧
    WellFounded fun s' s =>
      ∃ kind, (kind ≠ StepKind.call ∧ kind ≠ StepKind.spurious) ∧ Step s kind s' := by
  refine ⟨fun s h => ?_, ?_⟩
  · exact (h.invariant (construct_invariant _ _ _) fun _ _ _ hs _ hstep =>
      hstep.invariant hs).conserved
  · refine Subrelation.wf ?_ (measure BackgroundCompiler.cost).wf
    rintro s' s ⟨kind, hkind, hstep⟩
    exact hstep.cost_lt hkind

/-- A task that a caller has just pushed. -/
theorem construct_conserved_pushed :
    ∃ s, Reach Step (fun _ _ => True) (construct 1 0 1) s ∧
      s.queue_ = [{ number := 0, task := { priority := 5 } }] ∧ s.Conserved := by
  have h1 : Reach Step (fun _ _ => True) (construct 1 0 1) _ :=
    .step .start trivial (.caller 0 (.submit { priority := 5 } rfl))
  have h2 := h1.step trivial (.caller 0 (.lockSubmit rfl rfl))
  have h3 := h2.step trivial (.caller 0 (.push rfl))
  exact ⟨_, h3, rfl, (construct_conserved 1 0 1).1 _ h3⟩

end Kxc.Runtime

import Kxc.Runtime.BackgroundCompiler

/-! No task of the background compiler is lost: `active_tasks_` counts the tasks in the queue and in
the hands of workers, every task is taken once, and `WaitAll` returns when the tasks that it waits
for are done. -/

namespace Kxc.Runtime

open Lib.Interleaving

/-- Holds `mu_`. -/
def Worker.holds : Worker → Bool
  | .check | .sleep | .ready | .leave | .popped _ => true
  | _ => false

/-- Has taken a task and not decremented `active_tasks_` for it. -/
def Worker.busy : Worker → Bool
  | .popped _ | .compile _ | .finish => true
  | _ => false

/-- Has taken task `n`, which is not finished. -/
def Worker.hasTask (n : Nat) : Worker → Bool
  | .popped ticket | .compile ticket => ticket.number == n
  | _ => false

/-- Holds `mu_`. -/
def Caller.holds : Caller → Bool
  | .push _ | .unlockSubmit _ | .checkWait _ | .sleepWait _ | .leaveWait _ => true
  | _ => false

namespace BackgroundCompiler

/-- The tasks popped by a worker but not yet finished. -/
def inProgress (s : BackgroundCompiler) : Nat := s.workers_.countP Worker.busy

/-- One thread holds `mu_`, if it is held. -/
def MutexOk (s : BackgroundCompiler) : Prop :=
  s.workers_.countP Worker.holds + s.callers.countP Caller.holds = s.mu_.toNat

/-- `active_tasks_` counts the tasks in the queue and those in progress. -/
def ActiveOk (s : BackgroundCompiler) : Prop :=
  s.active_tasks_ = Int32.ofNat (s.queue_.length + s.inProgress)

/-- The tasks that workers have taken. -/
def takenNumbers (s : BackgroundCompiler) : List Nat := s.history.taken.map Prod.snd

/-- The tasks that have run their callback or have failed. -/
def finishedNumbers (s : BackgroundCompiler) : List Nat := s.history.finished.map Prod.fst

/-- Every submitted task is in the queue or was taken, and this once. -/
def TakenOnce (s : BackgroundCompiler) : Prop :=
  (s.queue_.map Ticket.number ++ s.takenNumbers).Perm (List.range s.history.submitted)

/-- Every task that was taken is finished or in the hands of a worker. -/
def FinishOk (s : BackgroundCompiler) : Prop :=
  ∀ n, s.takenNumbers.count n =
    s.finishedNumbers.count n + s.workers_.countP (Worker.hasTask n)

end BackgroundCompiler

open BackgroundCompiler

variable {s s' : BackgroundCompiler} {kind : StepKind}

theorem Worker.countP_wake (workers : List Worker) (p : Worker → Bool)
    (h : p .asleep = p .lock) : (workers.map Worker.wake).countP p = workers.countP p := by
  rw [List.countP_map]
  congr 1
  funext w
  cases w <;> first | rfl | exact h.symm

theorem Caller.countP_wake (callers : List Caller) (p : Caller → Bool)
    (h : ∀ seen, p (.asleepWait seen) = p (.lockWait seen)) :
    (callers.map Caller.wake).countP p = callers.countP p := by
  rw [List.countP_map]
  congr 1
  funext c
  cases c <;> first | rfl | exact (h _).symm

theorem WorkerStep.mutexOk {i : Nat} (h : WorkerStep s i kind s') (hs : s.MutexOk) :
    s'.MutexOk := by
  unfold MutexOk at hs ⊢
  have hmu := s.mu_.toNat_le
  cases h
  all_goals
    have hset := countP_set ‹s.workers_[i]? = some _›
    have hle := toNat_le_countP ‹s.workers_[i]? = some _› Worker.holds
    simp only [setWorker, hset, Worker.holds, Bool.toNat_true, Bool.toNat_false] at hle ⊢
  case lock h hfree =>
    simp only [hfree, Bool.toNat_false] at hs
    omega
  case notify =>
    rw [Caller.countP_wake _ _ fun _ => rfl]
    omega
  all_goals omega

theorem CallerStep.mutexOk {j : Nat} (h : CallerStep s j kind s') (hs : s.MutexOk) :
    s'.MutexOk := by
  unfold MutexOk at hs ⊢
  have hmu := s.mu_.toNat_le
  cases h
  all_goals
    have hset := countP_set ‹s.callers[j]? = some _›
    have hle := toNat_le_countP ‹s.callers[j]? = some _› Caller.holds
    simp only [setCaller, setWorker, hset, Caller.holds, Bool.toNat_true, Bool.toNat_false] at hle ⊢
  case lockSubmit h hfree | lockWait h hfree =>
    simp only [hfree, Bool.toNat_false] at hs
    omega
  case notifyOne h hasleep =>
    simp only [countP_set hasleep, Worker.holds, Bool.toNat_false]
    omega
  all_goals omega

theorem Step.mutexOk (h : Step s kind s') (hs : s.MutexOk) : s'.MutexOk := by
  rcases h with ⟨i, h⟩ | ⟨j, h⟩ | h
  · exact h.mutexOk hs
  · exact h.mutexOk hs
  · cases h with
    | store => exact hs
    | notify =>
      unfold MutexOk
      rw [Worker.countP_wake _ _ rfl]
      exact hs
    | join => exact hs

/-! ### Counting tasks -/

theorem WorkerStep.activeOk {i : Nat} (h : WorkerStep s i kind s') (hs : s.ActiveOk) :
    s'.ActiveOk := by
  unfold ActiveOk inProgress at hs ⊢
  cases h
  all_goals
    have hset := countP_set ‹s.workers_[i]? = some _›
    have hle := toNat_le_countP ‹s.workers_[i]? = some _› Worker.busy
    simp only [setWorker, hset, hs, Worker.busy, Bool.toNat_true, Bool.toNat_false] at hle ⊢
  case pop ticket h hstop htop =>
    have hlength := List.length_erase_of_mem htop.1
    have hpos := List.length_pos_of_mem htop.1
    congr 1
    omega
  case finish h =>
    rw [show s.queue_.length + (s.workers_.countP Worker.busy + 0 - 1) =
      s.queue_.length + s.workers_.countP Worker.busy - 1 by omega, Int32.ofNat_sub _ _ (by omega)]
    rfl
  all_goals congr 1

theorem CallerStep.activeOk {j : Nat} (h : CallerStep s j kind s') (hs : s.ActiveOk) :
    s'.ActiveOk := by
  unfold ActiveOk inProgress at hs ⊢
  cases h
  case notifyOne h hasleep =>
    simp only [setCaller, setWorker, countP_set hasleep, Worker.busy, Bool.toNat_false]
    exact hs
  case push task h =>
    simp only [setCaller, hs, List.length_append, List.length_singleton]
    rw [show s.queue_.length + 1 + s.workers_.countP Worker.busy =
      s.queue_.length + s.workers_.countP Worker.busy + 1 by omega, Int32.ofNat_add _ 1]
    rfl
  all_goals exact hs

theorem Step.activeOk (h : Step s kind s') (hs : s.ActiveOk) : s'.ActiveOk := by
  rcases h with ⟨i, h⟩ | ⟨j, h⟩ | h
  · exact h.activeOk hs
  · exact h.activeOk hs
  · cases h with
    | store => exact hs
    | notify =>
      unfold ActiveOk inProgress
      rw [Worker.countP_wake _ _ rfl]
      exact hs
    | join => exact hs

theorem Step.takenOnce (h : Step s kind s') (hs : s.TakenOnce) : s'.TakenOnce := by
  unfold TakenOnce takenNumbers at hs ⊢
  rcases h with ⟨i, h⟩ | ⟨j, h⟩ | h
  · cases h
    case pop ticket h hstop htop =>
      refine .trans ?_ hs
      have hpop := (List.perm_cons_erase htop.1).map Ticket.number
      simp only [List.map_append, List.map_cons, List.map_nil]
      refine .trans ?_ (hpop.symm.append_right _)
      rw [← List.append_assoc]
      exact List.perm_append_singleton _ _
    all_goals exact hs
  · cases h
    case push task h =>
      simp only [setCaller, List.map_append, List.map_cons, List.map_nil, List.range_succ]
      refine .trans ?_ (hs.append_right _)
      rw [List.append_assoc, List.append_assoc]
      exact List.perm_append_comm.append_left _
    all_goals exact hs
  · cases h <;> exact hs

theorem WorkerStep.finishOk {i : Nat} (h : WorkerStep s i kind s') (hs : s.FinishOk) :
    s'.FinishOk := by
  intro n
  have hn := hs n
  unfold takenNumbers finishedNumbers at hn ⊢
  have hcount (m : Nat) : [m].count n = (m == n).toNat := by
    rw [List.count_singleton]
    cases m == n <;> rfl
  cases h
  all_goals
    have hset := countP_set ‹s.workers_[i]? = some _›
    have hle := toNat_le_countP ‹s.workers_[i]? = some _› (Worker.hasTask n)
    simp only [setWorker, hset, Worker.hasTask, List.map_append, List.count_append, List.map_cons,
      List.map_nil, hcount, Bool.toNat_false] at hle ⊢
    omega

theorem Step.finishOk (h : Step s kind s') (hs : s.FinishOk) : s'.FinishOk := by
  rcases h with ⟨i, h⟩ | ⟨j, h⟩ | h
  · exact h.finishOk hs
  · cases h
    case notifyOne h hasleep =>
      intro n
      simp only [setCaller, setWorker, countP_set hasleep, Worker.hasTask, Bool.toNat_false]
      exact hs n
    all_goals exact hs
  · cases h with
    | store => exact hs
    | notify =>
      intro n
      simp only [Worker.countP_wake _ (Worker.hasTask n) rfl]
      exact hs n
    | join => exact hs

/-! ### What `WaitAll` waits for -/

/-- The tasks that a caller knows to be submitted. -/
def Caller.known : Caller → List Nat
  | .unlockSubmit number | .notifyOne number => [number]
  | .lockWait seen | .checkWait seen | .sleepWait seen | .asleepWait seen | .leaveWait seen => seen
  | _ => []

/-- The tasks that a caller that is about to return from `WaitAll` has waited for. -/
def Caller.waited : Caller → List Nat
  | .leaveWait seen => seen
  | _ => []

/-- What callers know to be submitted is, and what they have waited for is finished. -/
structure BackgroundCompiler.CallersOk (s : BackgroundCompiler) : Prop where
  returned : ∀ n ∈ s.history.returned, n < s.history.submitted
  known : ∀ c ∈ s.callers, ∀ n ∈ c.known, n < s.history.submitted
  waited : ∀ c ∈ s.callers, ∀ n ∈ c.waited, n ∈ s.finishedNumbers

/-- A counter that has wrapped around no more than once is zero when it counts nothing. -/
theorem eq_zero_of_ofNat_eq_zero {n : Nat} (hn : n < 2 ^ 32) (h : Int32.ofNat n = 0) : n = 0 := by
  have hbits : BitVec.ofNat 32 n = 0#32 := congrArg Int32.toBitVec h
  have hnat := congrArg BitVec.toNat hbits
  rw [BitVec.toNat_ofNat, BitVec.toNat_ofNat] at hnat
  omega

/-- When the predicate of `WaitAll` is true, every submitted task is finished. -/
theorem finished_of_allDone (hactive : s.ActiveOk) (htaken : s.TakenOnce) (hfinish : s.FinishOk)
    (hworkers : s.workers_.length < 2 ^ 32) (hdone : s.allDone = true) :
    ∀ n < s.history.submitted, n ∈ s.finishedNumbers := by
  simp only [allDone, Bool.and_eq_true, beq_iff_eq, List.isEmpty_iff] at hdone
  obtain ⟨hzero, hempty⟩ := hdone
  have hbusy : s.workers_.countP Worker.busy = 0 := by
    rw [ActiveOk, hempty, List.length_nil, Nat.zero_add] at hactive
    exact eq_zero_of_ofNat_eq_zero (Nat.lt_of_le_of_lt List.countP_le_length hworkers)
      (hactive.symm.trans hzero)
  intro n hn
  have hidle : s.workers_.countP (Worker.hasTask n) = 0 := by
    refine Nat.eq_zero_of_le_zero (hbusy ▸ List.countP_mono_left fun w _ hw => ?_)
    cases w <;> first | rfl | cases hw
  have hmem : n ∈ s.takenNumbers := by
    have := htaken.mem_iff.mpr (List.mem_range.mpr hn)
    simpa [hempty] using this
  have hcount := List.count_pos_iff.mpr hmem
  rw [hfinish n, hidle] at hcount
  exact List.count_pos_iff.mp hcount

theorem Caller.wake_known (c : Caller) : c.wake.known = c.known := by
  cases c <;> rfl

theorem Caller.wake_waited (c : Caller) : c.wake.waited = c.waited := by
  cases c <;> rfl

theorem WorkerStep.callersOk {i : Nat} (h : WorkerStep s i kind s') (hs : s.CallersOk) :
    s'.CallersOk := by
  have hmore {n m : Nat} {result : Bool} (h : n ∈ s.finishedNumbers) :
      n ∈ (s.history.finished ++ [(m, result)]).map Prod.fst := by
    rw [List.map_append]
    exact List.mem_append_left _ h
  cases h
  case complete ticket h =>
    exact ⟨hs.returned, hs.known, fun c hc n hn => hmore (hs.waited c hc n hn)⟩
  case fail ticket h =>
    exact ⟨hs.returned, hs.known, fun c hc n hn => hmore (hs.waited c hc n hn)⟩
  case notify h =>
    refine ⟨hs.returned, fun c hc n hn => ?_, fun c hc n hn => ?_⟩
    · obtain ⟨d, hd, rfl⟩ := List.mem_map.mp hc
      exact hs.known d hd n (d.wake_known ▸ hn)
    · obtain ⟨d, hd, rfl⟩ := List.mem_map.mp hc
      exact hs.waited d hd n (d.wake_waited ▸ hn)
  all_goals exact ⟨hs.returned, hs.known, hs.waited⟩

/-- A caller moves, and what it knows and has waited for is as it should be. -/
theorem BackgroundCompiler.CallersOk.setCaller (hs : s.CallersOk) {j : Nat} {c : Caller}
    (hknown : ∀ n ∈ c.known, n < s.history.submitted)
    (hwaited : ∀ n ∈ c.waited, n ∈ s.finishedNumbers) : (s.setCaller j c).CallersOk := by
  refine ⟨hs.returned, fun d hd n hn => ?_, fun d hd n hn => ?_⟩
  · rcases List.mem_or_eq_of_mem_set hd with hd | rfl
    · exact hs.known d hd n hn
    · exact hknown n hn
  · rcases List.mem_or_eq_of_mem_set hd with hd | rfl
    · exact hs.waited d hd n hn
    · exact hwaited n hn

/-- Who holds `mu_` does not matter. -/
theorem BackgroundCompiler.CallersOk.mutex (hs : s.CallersOk) (b : Bool) :
    { s with mu_ := b }.CallersOk :=
  ⟨hs.returned, hs.known, hs.waited⟩

theorem CallerStep.callersOk {j : Nat} (h : CallerStep s j kind s') (hs : s.CallersOk)
    (hfinished : s.allDone = true → ∀ n < s.history.submitted, n ∈ s.finishedNumbers) :
    s'.CallersOk := by
  have hknown {c d : Caller} (h : s.callers[j]? = some c) (hd : d.known = c.known) :
      ∀ n ∈ d.known, n < s.history.submitted := hd ▸ hs.known c (List.mem_of_getElem? h)
  have hidle {c : Caller} (hc : c.known = []) : ∀ n ∈ c.known, n < s.history.submitted :=
    fun n hn => by rw [hc] at hn; cases hn
  have hnone {c : Caller} (hc : c.waited = []) : ∀ n ∈ c.waited, n ∈ s.finishedNumbers :=
    fun n hn => by rw [hc] at hn; cases hn
  have hreturns {number : Nat} (h : s.callers[j]? = some (.notifyOne number)) :
      ∀ n ∈ s.history.returned ++ [number], n < s.history.submitted := by
    intro n hn
    rcases List.mem_append.mp hn with hn | hn
    · exact hs.returned n hn
    · exact hknown (d := .notifyOne number) h rfl n hn
  cases h
  case submit task h => exact hs.setCaller (hidle rfl) (hnone rfl)
  case lockSubmit task h hfree => exact (hs.setCaller (hidle rfl) (hnone rfl)).mutex true
  case push task h =>
    have hmore {n : Nat} (hn : n < s.history.submitted) : n < s.history.submitted + 1 := by omega
    refine ⟨fun n hn => hmore (hs.returned n hn), fun c hc n hn => ?_, fun c hc n hn => ?_⟩
    · rcases List.mem_or_eq_of_mem_set hc with hc | rfl
      · exact hmore (hs.known c hc n hn)
      · rw [List.mem_singleton.mp hn]
        exact Nat.lt_succ_self _
    · rcases List.mem_or_eq_of_mem_set hc with hc | rfl
      · exact hs.waited c hc n hn
      · cases hn
  case unlockSubmit number h =>
    exact (hs.setCaller (c := .notifyOne number) (hknown h rfl) (hnone rfl)).mutex false
  case notifyOne number i h hasleep =>
    have hmoved := hs.setCaller (j := j) (hidle (c := .idle) rfl) (hnone rfl)
    exact ⟨hreturns h, hmoved.known, hmoved.waited⟩
  case notifyNone number h hawake =>
    have hmoved := hs.setCaller (j := j) (hidle (c := .idle) rfl) (hnone rfl)
    exact ⟨hreturns h, hmoved.known, hmoved.waited⟩
  case waitAll h => exact hs.setCaller hs.returned (hnone rfl)
  case lockWait seen h hfree =>
    exact (hs.setCaller (c := .checkWait seen) (hknown h rfl) (hnone rfl)).mutex true
  case checkTrue seen h hdone =>
    have hseen := hknown (d := .leaveWait seen) h rfl
    exact hs.setCaller hseen fun n hn => hfinished hdone n (hseen n hn)
  case checkFalse seen h hdone => exact hs.setCaller (hknown h rfl) (hnone rfl)
  case sleepWait seen h =>
    exact (hs.setCaller (c := .asleepWait seen) (hknown h rfl) (hnone rfl)).mutex false
  case spurious seen h => exact hs.setCaller (hknown h rfl) (hnone rfl)
  case leaveWait seen h => exact (hs.setCaller (hidle rfl) (hnone rfl)).mutex false

end Kxc.Runtime

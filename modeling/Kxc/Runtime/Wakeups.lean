import Kxc.Runtime.Drain

/-! When the background compiler loses a wakeup: `active_tasks_` and `shutdown_` are written, and
their condition variables notified, without `mu_`, so a notification may come between the predicate
of a thread and its sleep. -/

namespace Kxc.Runtime

open Lib.Interleaving BackgroundCompiler

/-- About to sleep on `cv_`, or asleep. -/
def Worker.dozing : Worker → Bool
  | .sleep | .asleep => true
  | _ => false

/-- About to sleep on `cv_`. -/
def Worker.falling : Worker → Bool
  | .sleep => true
  | _ => false

/-- Has decremented `active_tasks_` and not notified `done_cv_` for it. -/
def Worker.notifies : Worker → Bool
  | .notify => true
  | _ => false

/-- About to sleep on `done_cv_`. -/
def Caller.falling : Caller → Bool
  | .sleepWait _ => true
  | _ => false

/-- About to sleep on `done_cv_`, or asleep. -/
def Caller.dozing : Caller → Bool
  | .sleepWait _ | .asleepWait _ => true
  | _ => false

/-- Has set `shutdown_` and not notified `cv_`. -/
def Destructor.notifies : Destructor → Bool
  | .notify => true
  | _ => false

namespace BackgroundCompiler

/-- The notifications on `done_cv_` that are still to be issued. -/
def pendingDone (s : BackgroundCompiler) : Nat := s.workers_.countP Worker.notifies

/-- The notifications on `cv_` that are still to be issued. -/
def pendingCv (s : BackgroundCompiler) : Nat :=
  s.callers.countP Caller.pushed + s.destructor.notifies.toNat

/-- A caller sleeps in `WaitAll` although all is done, and nobody will wake it. -/
def LostDone (s : BackgroundCompiler) : Prop :=
  (∃ seen, .asleepWait seen ∈ s.callers) ∧ s.queue_ = [] ∧ s.active_tasks_ = 0 ∧ s.pendingDone = 0

/-- A worker sleeps although `shutdown_` is set, and nobody will wake it. -/
def LostCv (s : BackgroundCompiler) : Prop :=
  .asleep ∈ s.workers_ ∧ s.shutdown_ = true ∧ s.pendingCv = 0

/-- The last notification on `done_cv_` after all was done does not come between the predicate of a
`WaitAll` and its sleep, nor the last one on `cv_` after `shutdown_` was set between the predicate of
a worker and its sleep. -/
structure Timely (s : BackgroundCompiler) (kind : StepKind) : Prop where
  done : kind = .notifyDone → s.allDone = true → s.pendingDone = 1 →
    s.callers.countP Caller.falling = 0
  cv : kind = .notifyCv → s.shutdown_ = true → s.pendingCv = 1 → .sleep ∉ s.workers_

/-- Threads that sleep, or are about to, have a notification to come. -/
structure WakeOk (s : BackgroundCompiler) : Prop where
  done : 0 < s.callers.countP Caller.dozing →
    0 < s.queue_.length + s.inProgress + s.pendingDone
  cv : s.shutdown_ = true → 0 < s.workers_.countP Worker.dozing → 0 < s.pendingCv
  one : s.shutdown_ = true → s.destructor ≠ .notify → s.workers_.countP Worker.dozing ≤ 1

end BackgroundCompiler

variable {s s' : BackgroundCompiler} {kind : StepKind}

theorem Worker.countP_dozing_wake (workers : List Worker) :
    (workers.map Worker.wake).countP Worker.dozing = workers.countP Worker.falling := by
  rw [List.countP_map]
  congr 1
  funext w
  cases w <;> rfl

theorem Worker.sleep_mem {workers : List Worker} (h : 0 < workers.countP Worker.falling) :
    .sleep ∈ workers := by
  obtain ⟨w, hw, hfalling⟩ := List.countP_pos_iff.mp h
  cases w <;> first | exact hw | cases hfalling

theorem Worker.countP_dozing_eq {workers : List Worker} (h : .asleep ∉ workers) :
    workers.countP Worker.dozing = workers.countP Worker.falling := by
  refine List.countP_congr fun w hw => ?_
  cases w <;> first | rfl | exact (h hw).elim

theorem Caller.countP_dozing_wake (callers : List Caller) :
    (callers.map Caller.wake).countP Caller.dozing = callers.countP Caller.falling := by
  rw [List.countP_map]
  congr 1
  funext c
  cases c <;> rfl

/-- All is done when nothing is queued or in progress. -/
theorem BackgroundCompiler.ActiveOk.allDone (hs : s.ActiveOk) (hqueue : s.queue_.length = 0)
    (hprogress : s.inProgress = 0) : s.allDone = true := by
  rw [ActiveOk, hqueue, hprogress] at hs
  simp [BackgroundCompiler.allDone, hs, List.eq_nil_of_length_eq_zero hqueue]

theorem WorkerStep.wakeOk {i : Nat} (h : WorkerStep s i kind s') (hactive : s.ActiveOk)
    (htimely : s.Timely kind) (hs : s.WakeOk) : s'.WakeOk := by
  obtain ⟨hdone, hcv, hone⟩ := hs
  unfold inProgress pendingDone at hdone
  cases h
  case checkFalse h hwork =>
    simp only [hasWork, Bool.or_eq_false_iff] at hwork
    refine ⟨?_, fun hshutdown => ?_, fun hshutdown => ?_⟩
    · simp only [inProgress, pendingDone, setWorker, countP_set h, Worker.busy, Worker.notifies,
        Bool.toNat_false]
      exact hdone
    · cases hwork.2.symm.trans hshutdown
    · cases hwork.2.symm.trans hshutdown
  case notify h =>
    have hle := toNat_le_countP h Worker.notifies
    refine ⟨fun hdozing => ?_, ?_, ?_⟩
    · simp only [Caller.countP_dozing_wake] at hdozing
      simp only [inProgress, pendingDone, setWorker, countP_set h, Worker.busy, Worker.notifies,
        Bool.toNat_false, Bool.toNat_true] at hle ⊢
      by_contra hnone
      have hall := hactive.allDone (by omega) (by unfold inProgress; omega)
      have := htimely.done rfl hall (by unfold pendingDone; omega)
      omega
    · simp only [pendingCv, setWorker, countP_set h, Worker.dozing, Bool.toNat_false,
        Caller.countP_wake _ Caller.pushed fun _ => rfl]
      exact hcv
    · simp only [setWorker, countP_set h, Worker.dozing, Bool.toNat_false]
      exact hone
  case pop ticket h hstop htop =>
    have hlength := List.length_erase_of_mem htop.1
    have hpos := List.length_pos_of_mem htop.1
    refine ⟨fun _ => ?_, ?_, ?_⟩
    · simp only [inProgress, setWorker, countP_set h, Worker.busy, Bool.toNat_true,
        Bool.toNat_false]
      omega
    · simp only [setWorker, countP_set h, Worker.dozing, Bool.toNat_false]
      exact hcv
    · simp only [setWorker, countP_set h, Worker.dozing, Bool.toNat_false]
      exact hone
  all_goals
    have hset := countP_set ‹s.workers_[i]? = some _›
    have hbusy := toNat_le_countP ‹s.workers_[i]? = some _› Worker.busy
    have hdozing := toNat_le_countP ‹s.workers_[i]? = some _› Worker.dozing
    simp only [Worker.busy, Worker.dozing, Bool.toNat_true, Bool.toNat_false] at hbusy hdozing
    refine ⟨fun hwaits => ?_, fun hshutdown => ?_, fun hshutdown hnotify => ?_⟩
    · have := hdone hwaits
      simp only [inProgress, pendingDone, setWorker, hset, Worker.busy, Worker.notifies,
        Bool.toNat_true, Bool.toNat_false]
      omega
    · have := hcv hshutdown
      simp only [pendingCv, setWorker, hset, Worker.dozing, Bool.toNat_true,
        Bool.toNat_false] at this ⊢
      omega
    · have := hone hshutdown hnotify
      simp only [setWorker, hset, Worker.dozing, Bool.toNat_true, Bool.toNat_false] at this ⊢
      omega

theorem CallerStep.wakeOk {j : Nat} (h : CallerStep s j kind s') (hactive : s.ActiveOk)
    (htimely : s.Timely kind) (hs : s.WakeOk) : s'.WakeOk := by
  obtain ⟨hdone, hcv, hone⟩ := hs
  cases h
  case checkFalse seen h hall =>
    refine ⟨fun _ => ?_, ?_, hone⟩
    · by_contra hnone
      have := hactive.allDone (by simp only [setCaller] at hnone; omega)
        (by simp only [inProgress, setCaller] at hnone ⊢; omega)
      cases hall.symm.trans this
    · simp only [pendingCv, setCaller, countP_set h, Caller.pushed, Bool.toNat_false]
      exact hcv
  case notifyOne number i h hasleep =>
    have hdozing := toNat_le_countP hasleep Worker.dozing
    refine ⟨fun hwaits => ?_, fun hshutdown hsleeps => ?_, fun hshutdown hnotify => ?_⟩
    · simp only [setCaller, setWorker, countP_set h, Caller.dozing, Bool.toNat_false] at hwaits
      simp only [inProgress, pendingDone, setCaller, setWorker, countP_set hasleep, Worker.busy,
        Worker.notifies, Bool.toNat_false]
      exact hdone hwaits
    · -- the destructor has still to notify, or no other worker dozes
      simp only [setWorker, setCaller, countP_set hasleep, Worker.dozing, Bool.toNat_false,
        Bool.toNat_true] at hsleeps
      have hnotify : s.destructor = .notify := by
        by_contra hne
        have := hone hshutdown hne
        omega
      simp [pendingCv, setCaller, setWorker, hnotify, Destructor.notifies]
    · have := hone hshutdown hnotify
      simp only [setWorker, setCaller, countP_set hasleep, Worker.dozing, Bool.toNat_false]
      omega
  case notifyNone number h hawake =>
    refine ⟨fun hwaits => ?_, fun hshutdown hsleeps => ?_, hone⟩
    · simp only [setCaller, countP_set h, Caller.dozing, Bool.toNat_false] at hwaits
      exact hdone hwaits
    · have hpushed := toNat_le_countP h Caller.pushed
      have hpending := hcv hshutdown hsleeps
      have hsleep : .sleep ∈ s.workers_ :=
        Worker.sleep_mem (Worker.countP_dozing_eq hawake ▸ hsleeps)
      have hmore : s.pendingCv ≠ 1 := fun hlast => htimely.cv rfl hshutdown hlast hsleep
      simp only [pendingCv, setCaller, countP_set h, Caller.pushed, Bool.toNat_false,
        Bool.toNat_true] at hpushed hpending hmore ⊢
      omega
  all_goals
    have hset := countP_set ‹s.callers[j]? = some _›
    have hdozing := toNat_le_countP ‹s.callers[j]? = some _› Caller.dozing
    have hpushed := toNat_le_countP ‹s.callers[j]? = some _› Caller.pushed
    simp only [Caller.dozing, Caller.pushed, Bool.toNat_true, Bool.toNat_false] at hdozing hpushed
    refine ⟨fun hwaits => ?_, fun hshutdown hsleeps => ?_, hone⟩
    · simp only [setCaller, hset, Caller.dozing, Bool.toNat_true, Bool.toNat_false] at hwaits
      have := hdone (by omega)
      simp only [inProgress, pendingDone, setCaller, List.length_append] at this ⊢
      omega
    · have := hcv hshutdown hsleeps
      simp only [pendingCv, setCaller, hset, Caller.pushed, Bool.toNat_true,
        Bool.toNat_false] at this ⊢
      omega

theorem DestructorStep.wakeOk (h : DestructorStep s kind s') (hmutex : s.MutexOk)
    (htimely : s.Timely kind) (hs : s.WakeOk) : s'.WakeOk := by
  cases h with
  | store h =>
    exact ⟨hs.done, fun _ _ => by simp [pendingCv, Destructor.notifies], fun _ hne => (hne rfl).elim⟩
  | notify h =>
    refine ⟨fun hwaits => ?_, fun hshutdown hsleeps => ?_, fun _ _ => ?_⟩
    · simp only [inProgress, pendingDone, Worker.countP_wake _ Worker.busy rfl,
        Worker.countP_wake _ Worker.notifies rfl]
      exact hs.done hwaits
    · rw [Worker.countP_dozing_wake] at hsleeps
      have hmore : s.pendingCv ≠ 1 := fun hlast =>
        htimely.cv rfl hshutdown hlast (Worker.sleep_mem hsleeps)
      simp only [pendingCv, h, Destructor.notifies, Bool.toNat_true, Bool.toNat_false] at hmore ⊢
      omega
    · rw [Worker.countP_dozing_wake]
      have hmu := s.mu_.toNat_le
      have hle : s.workers_.countP Worker.falling ≤ s.workers_.countP Worker.holds :=
        List.countP_mono_left fun w _ hw => by cases w <;> first | rfl | cases hw
      unfold MutexOk at hmutex
      omega
  | join h =>
    refine ⟨hs.done, fun hshutdown hsleeps => ?_, fun hshutdown _ => hs.one hshutdown (by simp [h])⟩
    have := hs.cv hshutdown hsleeps
    simpa [pendingCv, h, Destructor.notifies] using this

theorem Step.wakeOk (h : Step s kind s') (hinv : s.Invariant) (htimely : s.Timely kind)
    (hs : s.WakeOk) : s'.WakeOk := by
  rcases h with ⟨i, h⟩ | ⟨j, h⟩ | h
  · exact h.wakeOk hinv.active htimely hs
  · exact h.wakeOk hinv.active htimely hs
  · exact h.wakeOk hinv.mutex htimely hs

theorem construct_wakeOk (num_threads : Int32) (hardware_concurrency : UInt32) (callers : Nat) :
    (construct num_threads hardware_concurrency callers).WakeOk := by
  refine ⟨fun h => ?_, fun h => ?_, fun h => ?_⟩
  · simp [construct, List.countP_replicate, Caller.dozing] at h
  · cases h
  · cases h

/-- Nobody sleeps for ever while the notifications are timely. -/
theorem BackgroundCompiler.WakeOk.not_lost (hs : s.WakeOk) (hinv : s.Invariant) :
    ¬s.LostDone ∧ ¬s.LostCv := by
  refine ⟨?_, ?_⟩
  · rintro ⟨⟨seen, hseen⟩, hqueue, hzero, hpending⟩
    have hwaits : 0 < s.callers.countP Caller.dozing := List.countP_pos_iff.mpr ⟨_, hseen, rfl⟩
    have hactive := hinv.active
    rw [ActiveOk, hqueue, hzero, List.length_nil, Nat.zero_add] at hactive
    have hbusy := eq_zero_of_ofNat_eq_zero
      (Nat.lt_of_le_of_lt List.countP_le_length hinv.few_workers) hactive.symm
    have := hs.done hwaits
    rw [hqueue, inProgress, hbusy, hpending] at this
    exact Nat.lt_irrefl 0 this
  · rintro ⟨hasleep, hshutdown, hpending⟩
    have := hs.cv hshutdown (List.countP_pos_iff.mpr ⟨_, hasleep, rfl⟩)
    omega

/-- A caller that falls asleep when all is done and no notification is to come sleeps for ever. -/
theorem lostDone_of_falling (hall : s.allDone = true) (hpending : s.pendingDone = 0)
    (hfalling : 0 < s.callers.countP Caller.falling) : ∃ s', Step s .other s' ∧ s'.LostDone := by
  obtain ⟨c, hc, hfalling⟩ := List.countP_pos_iff.mp hfalling
  obtain ⟨j, hj⟩ := List.mem_iff_getElem?.mp hc
  cases c with
  | sleepWait seen =>
    simp only [allDone, Bool.and_eq_true, beq_iff_eq, List.isEmpty_iff] at hall
    refine ⟨_, .caller j (.sleepWait hj), ⟨seen, ?_⟩, hall.2, hall.1, hpending⟩
    exact List.mem_set (List.getElem?_eq_some_iff.mp hj).1 _
  | _ => cases hfalling

/-- A worker that falls asleep when `shutdown_` is set and no notification is to come sleeps for
ever. -/
theorem lostCv_of_falling (hshutdown : s.shutdown_ = true) (hpending : s.pendingCv = 0)
    (hsleep : .sleep ∈ s.workers_) : ∃ s', Step s .other s' ∧ s'.LostCv := by
  obtain ⟨i, hi⟩ := List.mem_iff_getElem?.mp hsleep
  refine ⟨_, .worker i (.sleep hi), ?_, hshutdown, hpending⟩
  exact List.mem_set (List.getElem?_eq_some_iff.mp hi).1 _

/-- After the last notification on `done_cv_`, none is to come, and who fell asleep still does. -/
theorem Step.notifyDone (h : Step s .notifyDone s') :
    s'.allDone = s.allDone ∧ s'.pendingDone = s.pendingDone - 1 ∧
      s'.callers.countP Caller.falling = s.callers.countP Caller.falling := by
  rcases h with ⟨i, h⟩ | ⟨j, h⟩ | h
  · cases h with
    | notify h =>
      refine ⟨rfl, ?_, Caller.countP_wake _ _ fun _ => rfl⟩
      simp only [pendingDone, setWorker, countP_set h, Worker.notifies, Bool.toNat_true,
        Bool.toNat_false]
      omega
  · cases h
  · cases h

/-- After the last notification on `cv_`, none is to come, and who fell asleep still does. -/
theorem Step.notifyCv (h : Step s .notifyCv s') :
    s'.shutdown_ = s.shutdown_ ∧ s'.pendingCv = s.pendingCv - 1 ∧
      (.sleep ∈ s.workers_ → .sleep ∈ s'.workers_) := by
  rcases h with ⟨i, h⟩ | ⟨j, h⟩ | h
  · cases h
  · cases h with
    | @notifyOne number i h hasleep =>
      have hpushed := toNat_le_countP h Caller.pushed
      refine ⟨rfl, ?_, fun hsleep => ?_⟩
      · simp only [pendingCv, setWorker, setCaller, countP_set h, Caller.pushed, Bool.toNat_true,
          Bool.toNat_false] at hpushed ⊢
        omega
      · obtain ⟨k, hk⟩ := List.mem_iff_getElem?.mp hsleep
        have hne : i ≠ k := by
          rintro rfl
          cases hasleep.symm.trans hk
        refine List.mem_iff_getElem?.mpr ⟨k, ?_⟩
        simp only [setWorker, setCaller, List.getElem?_set_ne hne, hk]
    | notifyNone h hawake =>
      have hpushed := toNat_le_countP h Caller.pushed
      refine ⟨rfl, ?_, id⟩
      simp only [pendingCv, setCaller, countP_set h, Caller.pushed, Bool.toNat_true,
        Bool.toNat_false] at hpushed ⊢
      omega
  · cases h with
    | notify h =>
      refine ⟨rfl, by simp [pendingCv, h, Destructor.notifies], fun hsleep => ?_⟩
      exact List.mem_map.mpr ⟨.sleep, hsleep, rfl⟩

/-- After a notification that is not timely, one step loses a wakeup. -/
theorem Step.lost_of_not_timely (h : Step s kind s') (hlate : ¬s.Timely kind) :
    ∃ s'', Step s' .other s'' ∧ (s''.LostDone ∨ s''.LostCv) := by
  by_cases hdone : kind = .notifyDone ∧ s.allDone = true ∧ s.pendingDone = 1 ∧
      0 < s.callers.countP Caller.falling
  · obtain ⟨rfl, hall, hlast, hfalling⟩ := hdone
    obtain ⟨hall', hpending, hfalling'⟩ := h.notifyDone
    obtain ⟨s'', hstep, hlost⟩ := lostDone_of_falling (hall'.trans hall)
      (by omega) (hfalling' ▸ hfalling)
    exact ⟨s'', hstep, Or.inl hlost⟩
  · by_cases hcv : kind = .notifyCv ∧ s.shutdown_ = true ∧ s.pendingCv = 1 ∧ .sleep ∈ s.workers_
    · obtain ⟨rfl, hshutdown, hlast, hsleep⟩ := hcv
      obtain ⟨hshutdown', hpending, hsleep'⟩ := h.notifyCv
      obtain ⟨s'', hstep, hlost⟩ := lostCv_of_falling (hshutdown'.trans hshutdown)
        (by omega) (hsleep' hsleep)
      exact ⟨s'', hstep, Or.inr hlost⟩
    · refine (hlate ⟨fun hkind hall hlast => ?_, fun hkind hshutdown hlast hsleep => ?_⟩).elim
      · by_contra hne
        exact hdone ⟨hkind, hall, hlast, Nat.pos_of_ne_zero hne⟩
      · exact hcv ⟨hkind, hshutdown, hlast, hsleep⟩

/-- The background compiler loses no wakeup in a run whose notifications are all timely; and after
one that is not, it loses one in the next step. -/
theorem construct_no_lost_wakeup (num_threads : Int32) (hardware_concurrency : UInt32)
    (callers : Nat) :
    (∀ s, Reach Step Timely (construct num_threads hardware_concurrency callers) s →
      ¬s.LostDone ∧ ¬s.LostCv) ∧
    ∀ s kind s',
      Reach Step (fun _ _ => True) (construct num_threads hardware_concurrency callers) s →
      Step s kind s' → ¬s.Timely kind →
      ∃ s'', Step s' .other s'' ∧ (s''.LostDone ∨ s''.LostCv) := by
  refine ⟨fun s h => ?_, fun s kind s' h hstep hlate => ?_⟩
  · have hboth : s.Invariant ∧ s.WakeOk :=
      h.invariant (I := fun s => s.Invariant ∧ s.WakeOk)
        ⟨construct_invariant _ _ _, construct_wakeOk _ _ _⟩
        fun _ _ _ hs htimely hstep => ⟨hstep.invariant hs.1, hstep.wakeOk hs.1 htimely hs.2⟩
    exact hboth.2.not_lost hboth.1
  · exact hstep.lost_of_not_timely hlate

theorem BackgroundCompiler.timely_other (s : BackgroundCompiler) : s.Timely .other :=
  ⟨fun h => (nomatch h), fun h => (nomatch h)⟩

theorem BackgroundCompiler.timely_notifyCv (h : .sleep ∉ s.workers_) : s.Timely .notifyCv :=
  ⟨fun h => (nomatch h), fun _ _ _ => h⟩

/-- The destructor notifies a worker that sleeps already: nobody sleeps then. -/
theorem construct_timely_shutdown :
    ∃ s, Reach Step Timely (construct 1 0 1) s ∧ s.shutdown_ = true ∧ s.workers_ = [.lock] ∧
      ¬s.LostDone ∧ ¬s.LostCv := by
  have h1 : Reach Step Timely (construct 1 0 1) _ :=
    .step .start (timely_other _) (.worker 0 (.lock rfl rfl))
  have h2 := h1.step (timely_other _) (.worker 0 (.checkFalse rfl rfl))
  have h3 := h2.step (timely_other _) (.worker 0 (.sleep rfl))
  have h4 := h3.step (timely_other _) (.destructor (.store rfl))
  have h5 := h4.step (timely_notifyCv (show .sleep ∉ [Worker.asleep] by decide))
    (.destructor (.notify rfl))
  exact ⟨_, h5, rfl, rfl, (construct_no_lost_wakeup 1 0 1).1 _ h5⟩

/-- Two schedules of one worker. In the first, `WaitAll` sees a task in progress, the worker counts
it down and notifies, and only then `WaitAll` goes to sleep. In the second, the worker sees no
reason to go on, the destructor sets `shutdown_` and notifies, and only then the worker goes to
sleep. -/
theorem construct_lost_wakeups :
    (∃ s, Reach Step (fun _ _ => True) (construct 1 0 1) s ∧ s.LostDone) ∧
      ∃ s, Reach Step (fun _ _ => True) (construct 1 0 1) s ∧ s.LostCv := by
  refine ⟨?_, ?_⟩
  · have h1 : Reach Step (fun _ _ => True) (construct 1 0 1) _ :=
      .step .start trivial (.caller 0 (.submit { priority := 0 } rfl))
    have h2 := h1.step trivial (.caller 0 (.lockSubmit rfl rfl))
    have h3 := h2.step trivial (.caller 0 (.push rfl))
    have h4 := h3.step trivial (.caller 0 (.unlockSubmit rfl))
    have h5 := h4.step trivial (.caller 0 (.notifyNone rfl (by decide)))
    have h6 := h5.step trivial (.worker 0 (.lock rfl rfl))
    have h7 := h6.step trivial (.worker 0 (.checkTrue rfl rfl))
    have h8 := h7.step trivial (.worker 0 (.pop rfl rfl (show IsTop _ ⟨0, ⟨0⟩⟩ by decide)))
    have h9 := h8.step trivial (.worker 0 (.unlock rfl))
    have h10 := h9.step trivial (.worker 0 (.complete rfl))
    have h11 := h10.step trivial (.caller 0 (.waitAll rfl))
    have h12 := h11.step trivial (.caller 0 (.lockWait rfl rfl))
    have h13 := h12.step trivial (.caller 0 (.checkFalse rfl rfl))
    have h14 := h13.step trivial (.worker 0 (.finish rfl))
    have h15 := h14.step trivial (.worker 0 (.notify rfl))
    have h16 := h15.step trivial (.caller 0 (.sleepWait rfl))
    exact ⟨_, h16, ⟨_, List.mem_cons_self⟩, rfl, rfl, rfl⟩
  · have h1 : Reach Step (fun _ _ => True) (construct 1 0 1) _ :=
      .step .start trivial (.worker 0 (.lock rfl rfl))
    have h2 := h1.step trivial (.worker 0 (.checkFalse rfl rfl))
    have h3 := h2.step trivial (.destructor (.store rfl))
    have h4 := h3.step trivial (.destructor (.notify rfl))
    have h5 := h4.step trivial (.worker 0 (.sleep rfl))
    exact ⟨_, h5, List.mem_cons_self, rfl, rfl⟩

end Kxc.Runtime

import Mathlib.Algebra.GroupWithZero.Nat
import Mathlib.Data.List.Perm.Basic

/-! Systems of threads that take turns: the states that a run reaches when all of its steps meet a
condition, the rule of invariants, and how the threads of a kind are counted while one of them
moves. -/

namespace Kxc.Lib.Interleaving

section Runs

variable {S L : Type}

/-- The states that a run of `step` from `start` reaches by steps that meet `ok`. -/
inductive Reach (step : S → L → S → Prop) (ok : S → L → Prop) (start : S) : S → Prop
  | start : Reach step ok start start
  | step {s s' : S} {l : L} (h : Reach step ok start s) (hok : ok s l) (hstep : step s l s') :
    Reach step ok start s'

variable {step : S → L → S → Prop} {ok ok' : S → L → Prop} {start s : S}

/-- What holds at the start and is kept by every step that meets `ok` holds throughout a run. -/
theorem Reach.invariant {I : S → Prop} (h : Reach step ok start s) (hstart : I start)
    (hstep : ∀ s l s', I s → ok s l → step s l s' → I s') : I s := by
  induction h with
  | start => exact hstart
  | step _ hok hs ih => exact hstep _ _ _ ih hok hs

theorem Reach.mono (h : Reach step ok start s) (hok : ∀ s l, ok s l → ok' s l) :
    Reach step ok' start s :=
  h.invariant .start fun _ _ _ hs h hstep => .step hs (hok _ _ h) hstep

/-- A run whose steps meet any condition. -/
theorem Reach.any (h : Reach step ok start s) : Reach step (fun _ _ => True) start s :=
  h.mono fun _ _ _ => trivial

theorem Reach.trans {t : S} (h : Reach step ok start s) (h' : Reach step ok s t) :
    Reach step ok start t :=
  h'.invariant h fun _ _ _ hs hok hstep => .step hs hok hstep

end Runs

section Threads

variable {T : Type} {threads : List T} {i j : Nat} {a b : T} {p : T → Bool}

/-- A thread counts for each kind that it is of. -/
theorem toNat_le_countP (h : threads[i]? = some a) (p : T → Bool) :
    (p a).toNat ≤ threads.countP p := by
  cases hp : p a with
  | false => exact Nat.zero_le _
  | true => exact List.countP_pos_iff.mpr ⟨a, List.mem_of_getElem? h, hp⟩

/-- How many threads are of a kind, after one of them has moved. -/
theorem countP_set (h : threads[i]? = some a) (b : T) (p : T → Bool) :
    (threads.set i b).countP p = threads.countP p + (p b).toNat - (p a).toNat := by
  have hle := toNat_le_countP h p
  obtain ⟨hi, rfl⟩ := List.getElem?_eq_some_iff.mp h
  rw [List.countP_set hi]
  generalize p threads[i] = x at hle ⊢
  generalize p b = y
  cases x <;> cases y <;>
    simp only [Bool.toNat_true, Bool.toNat_false, if_true, Bool.false_eq_true, if_false] at hle ⊢ <;>
    omega

/-- How many threads are of a kind, after one of them has ended. -/
theorem countP_eraseIdx (h : threads[i]? = some a) (p : T → Bool) :
    (threads.eraseIdx i).countP p + (p a).toNat = threads.countP p := by
  induction threads generalizing i with
  | nil => cases h
  | cons t threads ih =>
    cases i with
    | zero =>
      obtain rfl := Option.some.inj h
      rw [List.eraseIdx_cons_zero, List.countP_cons]
      cases p t <;> rfl
    | succ i =>
      have := ih h
      rw [List.eraseIdx_cons_succ, List.countP_cons, List.countP_cons]
      omega

/-- A kind that one thread at most is of. -/
theorem eq_of_countP_le_one (hcount : threads.countP p ≤ 1) (hi : threads[i]? = some a)
    (hj : threads[j]? = some b) (ha : p a = true) (hb : p b = true) : i = j := by
  have hpos {l : List T} {k : Nat} {c : T} (hk : l[k]? = some c) (hc : p c = true) :
      0 < l.countP p := List.countP_pos_iff.mpr ⟨c, List.mem_of_getElem? hk, hc⟩
  induction threads generalizing i j with
  | nil => cases hi
  | cons t threads ih =>
    rw [List.countP_cons] at hcount
    cases i with
    | zero =>
      cases j with
      | zero => rfl
      | succ j =>
        obtain rfl := Option.some.inj hi
        rw [List.getElem?_cons_succ] at hj
        have := hpos hj hb
        simp only [ha, if_true] at hcount
        omega
    | succ i =>
      cases j with
      | zero =>
        obtain rfl := Option.some.inj hj
        rw [List.getElem?_cons_succ] at hi
        have := hpos hi ha
        simp only [hb, if_true] at hcount
        omega
      | succ j => rw [ih (by omega) hi hj]

theorem le_sum_map (h : threads[i]? = some a) (f : T → Nat) : f a ≤ (threads.map f).sum := by
  induction threads generalizing i with
  | nil => cases h
  | cons t threads ih =>
    rw [List.map_cons, List.sum_cons]
    cases i with
    | zero =>
      obtain rfl := Option.some.inj h
      omega
    | succ i => exact Nat.le_add_left_of_le (ih h)

/-- What the threads cost together, after one of them has moved. -/
theorem sum_map_set (h : threads[i]? = some a) (b : T) (f : T → Nat) :
    ((threads.set i b).map f).sum = (threads.map f).sum + f b - f a := by
  induction threads generalizing i with
  | nil => cases h
  | cons t threads ih =>
    cases i with
    | zero =>
      obtain rfl := Option.some.inj h
      simp only [List.set_cons_zero, List.map_cons, List.sum_cons]
      omega
    | succ i =>
      have hle := @le_sum_map _ threads i a h f
      rw [List.set_cons_succ, List.map_cons, List.sum_cons, ih h, List.map_cons, List.sum_cons]
      omega

end Threads

end Kxc.Lib.Interleaving

import Kxc.Base.Disco.CclCpu
import Mathlib.Algebra.GroupWithZero.Nat

/-! The in-group collectives serve the workers in groups: what each of them reads and writes, and
when the groups are a partition of the workers. -/

namespace Kxc.Disco

open Relay Lib

/-- The error is an exception. -/
def NoTrap (e : SessionError) : Prop := e ≠ .divideByZero

/-- `x` does not trap. -/
def NeverTraps {α : Type} (x : Except SessionError α) : Prop := ∀ e, x = .error e → NoTrap e

section NeverTraps

variable {α β : Type}

theorem NeverTraps.ok (a : α) : NeverTraps (.ok a) := fun _ h => by cases h

theorem NeverTraps.runtime (what : String) : NeverTraps (.error (.runtime what) : Except _ α) := by
  rintro e ⟨⟩
  exact SessionError.noConfusion

theorem NeverTraps.bind {x : Except SessionError α} {f : α → Except SessionError β}
    (hx : NeverTraps x) (hf : ∀ a, NeverTraps (f a)) : NeverTraps (x >>= f) := by
  cases x with
  | error e =>
    rintro e' ⟨⟩
    exact hx e rfl
  | ok a => exact hf a

theorem NeverTraps.ite {c : Prop} [Decidable c] {x y : Except SessionError α} (hx : NeverTraps x)
    (hy : NeverTraps y) : NeverTraps (if c then x else y) := by
  split
  · exact hx
  · exact hy

theorem ValidateWorkerId_neverTraps (s : ThreadedSession) (worker_id : Int32) :
    NeverTraps (s.ValidateWorkerId worker_id) := .ite (.runtime _) (.ok _)

theorem ValidateRegId_neverTraps (s : ThreadedSession) (reg_id : Int32) :
    NeverTraps (s.ValidateRegId reg_id) := .ite (.runtime _) (.ok _)

namespace CpuCCLBackend

theorem DTypeToString_neverTraps (dtype : DLDataType) : NeverTraps (DTypeToString dtype) :=
  .ite (.runtime _) <| .ite (.ok _) <| .ite (.ok _) <| .ite (.ok _) <| .ite (.ok _) <|
    .ite (.ok _) (.runtime _)

theorem CloneArray_neverTraps (src : Option NDArray) : NeverTraps (CloneArray src) := by
  cases src with
  | none => exact .ok none
  | some src => exact (DTypeToString_neverTraps _).bind fun _ => .ok _

theorem SliceFirstDim_neverTraps (src : Option NDArray) (shard_start shard_len : Int64) :
    NeverTraps (SliceFirstDim src shard_start shard_len) := by
  cases src with
  | none => exact .ok none
  | some src =>
    unfold SliceFirstDim
    split
    · cases ‹_ = none›
    · split
      · exact .runtime _
      · exact .ite (.runtime _) ((DTypeToString_neverTraps _).bind fun _ => .ok _)

theorem totalDim0_neverTraps (arrays : List (Option NDArray)) : NeverTraps (totalDim0 arrays) := by
  induction arrays with
  | nil => exact .ok 0
  | cons arr arrays ih =>
    cases arr with
    | none => exact .runtime _
    | some arr => exact ih.bind fun _ => .ok _

theorem ConcatFirstDim_neverTraps (arrays : List (Option NDArray)) :
    NeverTraps (ConcatFirstDim arrays) := by
  unfold ConcatFirstDim
  split
  · exact .ok none
  · exact .ok none
  · split
    · exact .runtime _
    · exact (totalDim0_neverTraps _).bind fun _ => (DTypeToString_neverTraps _).bind fun _ => .ok _

end CpuCCLBackend

end NeverTraps

/-- From `s` to `s'` the history grows by `accesses` in the iteration of `group`. -/
structure Appends (group : Option Int32) (accesses : List Access) (s s' : ThreadedSession) :
    Prop where
  history : s'.history = s.history ++ accesses.map (Prod.mk group)
  group : s'.group = s.group
  num_workers : s'.num_workers = s.num_workers
  num_groups : s'.num_groups = s.num_groups

section Accesses

variable {α β : Type} {group : Option Int32} {s s' s'' : ThreadedSession} {xs ys : List Access}

theorem Appends.refl (group : Option Int32) (s : ThreadedSession) : Appends group [] s s :=
  ⟨by simp, rfl, rfl, rfl⟩

theorem Appends.trans (h : Appends group xs s s') (h' : Appends group ys s' s'') :
    Appends group (xs ++ ys) s s'' :=
  ⟨by rw [h'.history, h.history, List.map_append, List.append_assoc], h'.group.trans h.group,
    h'.num_workers.trans h.num_workers, h'.num_groups.trans h.num_groups⟩

theorem outcome_lift {x : Except SessionError α} {Q : α → ThreadedSession → Prop}
    (hx : NeverTraps x) (hok : ∀ a, x = .ok a → Q a s) : Outcome (lift x) s NoTrap Q := by
  cases x with
  | error e => exact hx e rfl
  | ok a => exact hok a rfl

theorem Get_appends (worker : Int32) (ref : DRef) (hs : s.group = group) :
    Outcome (DiscoSession.Get worker ref) s NoTrap fun _ s' =>
      Appends group [.get worker ref] s s' := by
  simp only [DiscoSession.Get, outcome_bind, outcome_get]
  refine outcome_lift (ValidateWorkerId_neverTraps s worker) fun _ _ =>
    outcome_lift (ValidateRegId_neverTraps s ref.reg_id) fun _ _ => ?_
  exact ⟨by simp [ThreadedSession.record, hs], rfl, rfl, rfl⟩

theorem Set_appends (worker : Int32) (ref : DRef) (value : Option NDArray)
    (hs : s.group = group) :
    Outcome (DiscoSession.Set worker ref value) s NoTrap fun _ s' =>
      Appends group [.set worker ref] s s' := by
  simp only [DiscoSession.Set, outcome_bind, outcome_get]
  refine outcome_lift (ValidateWorkerId_neverTraps s worker) fun _ _ =>
    outcome_lift (ValidateRegId_neverTraps s ref.reg_id) fun _ _ => ?_
  exact ⟨by simp [ThreadedSession.record, hs], rfl, rfl, rfl⟩

/-- A loop appends what its iterations append. -/
theorem forM_appends {is : List β} {body : β → SessionM Unit} {log : β → List Access}
    (hbody : ∀ i, ∀ s, s.group = group →
      Outcome (body i) s NoTrap fun _ s' => Appends group (log i) s s') (hs : s.group = group) :
    Outcome (is.forM body) s NoTrap fun _ s' => Appends group (is.flatMap log) s s' := by
  induction is generalizing s with
  | nil => exact .refl group s
  | cons i is ih =>
    simp only [List.forM_eq_forM, List.forM_cons, outcome_bind]
    refine (hbody i s hs).mono fun _ s1 h1 => (ih (h1.group.trans hs)).mono fun _ s2 h2 => ?_
    exact h1.trans h2

theorem mapM_appends {is : List β} {body : β → SessionM α} {log : β → List Access}
    (hbody : ∀ i, ∀ s, s.group = group →
      Outcome (body i) s NoTrap fun _ s' => Appends group (log i) s s') (hs : s.group = group) :
    Outcome (is.mapM body) s NoTrap fun _ s' => Appends group (is.flatMap log) s s' := by
  induction is generalizing s with
  | nil => exact .refl group s
  | cons i is ih =>
    simp only [List.mapM_cons, outcome_bind, outcome_pure]
    refine (hbody i s hs).mono fun _ s1 h1 => (ih (h1.group.trans hs)).mono fun _ s2 h2 => ?_
    exact h1.trans h2

/-- What the iterations over the groups append, each under its own group. -/
def byGroup (groups : Int32) (log : Int32 → List Access) : List (Option Int32 × Access) :=
  (intRange groups).flatMap fun g => (log g).map (Prod.mk (some g))

theorem forGroups_appends {groups : Int32} {body : Int32 → SessionM Unit}
    (log : Int32 → List Access)
    (hbody : ∀ g, ∀ s, s.group = some g →
      Outcome (body g) s NoTrap fun _ s' => Appends (some g) (log g) s s') :
    Outcome (forGroups groups body) s NoTrap fun _ s' =>
      s'.history = s.history ++ byGroup groups log := by
  have hloop (is : List Int32) (s : ThreadedSession) : Outcome (is.forM fun g => do
      modify fun s => { s with group := some g }
      body g) s NoTrap fun _ s' =>
        s'.history = s.history ++ is.flatMap fun g => (log g).map (Prod.mk (some g)) := by
    induction is generalizing s with
    | nil => simp
    | cons i is ih =>
      simp only [List.forM_eq_forM, List.forM_cons, outcome_bind, outcome_modify]
      refine (hbody i _ rfl).mono fun _ s1 h1 => (ih s1).mono fun _ s2 h2 => ?_
      rw [h2, h1.history, List.append_assoc, List.flatMap_cons]
  simp only [forGroups, outcome_bind, outcome_modify]
  exact (hloop (intRange groups) s).mono fun _ s' h => h

theorem outcome_intDiv {a b : Int32} (hb : b ≠ 0) {E : SessionError → Prop}
    {Q : Int32 → ThreadedSession → Prop} (h : Q (a / b) s) : Outcome (intDiv a b) s E Q := by
  rw [intDiv, if_neg hb]
  exact h

end Accesses

/-- The groups of the workers: `num_groups` groups of `num_workers / num_groups` workers. -/
structure Groups where
  num_workers : Int32
  num_groups : Int32

namespace Groups

def workers_per_group (gs : Groups) : Int32 := gs.num_workers / gs.num_groups

/-- The first worker of a group. -/
def root (gs : Groups) (group : Int32) : Int32 := group * gs.workers_per_group

/-- The workers of a group. -/
def members (gs : Groups) (group : Int32) : List Int32 :=
  (intRange gs.workers_per_group).map fun i => gs.root group + i

end Groups

/-- The groups of a session. -/
def ThreadedSession.groups (s : ThreadedSession) : Groups := ⟨s.num_workers, s.num_groups⟩

section Collectives

open CpuCCLBackend DiscoSession

variable {s : ThreadedSession} {src dst : DRef}

/-- A loop that writes the members of a group. -/
theorem writeMembers_appends (gs : Groups) {g : Int32} {s : ThreadedSession}
    {value : Int32 → Except SessionError (Option NDArray)} (hvalue : ∀ i, NeverTraps (value i))
    (hs : s.group = some g) :
    Outcome ((intRange gs.workers_per_group).forM fun i => do
      Set (gs.root g + i) dst (← lift (value i))) s NoTrap fun _ s' =>
        Appends (some g) ((gs.members g).map (.set · dst)) s s' := by
  have hlog : (gs.members g).map (Access.set · dst) =
      (intRange gs.workers_per_group).flatMap fun i => [.set (gs.root g + i) dst] := by
    rw [Groups.members, List.map_map, List.map_eq_flatMap]
    rfl
  rw [hlog]
  refine forM_appends (fun i s1 hs1 => ?_) hs
  rw [outcome_bind]
  exact outcome_lift (hvalue i) fun _ _ => Set_appends _ _ _ hs1

theorem BroadcastFromWorker0_history (hgroups : s.num_groups ≠ 0) (hs : s.group = none) :
    Outcome (BroadcastFromWorker0 src dst true) s NoTrap fun _ s' =>
      s'.history = s.history ++ (none, .get 0 src) :: byGroup s.num_groups fun g =>
        .get (s.groups.root g) src :: (s.groups.members g).map (.set · dst) := by
  rw [BroadcastFromWorker0, outcome_bind]
  refine (Get_appends 0 src hs).mono fun root s1 h1 => ?_
  cases root with
  | none => exact SessionError.noConfusion
  | some root =>
    simp only [outcome_bind, outcome_get, Bool.not_true, Bool.false_eq_true, if_false,
      h1.num_workers, h1.num_groups]
    refine outcome_intDiv hgroups ?_
    refine (forGroups_appends (fun g =>
      .get (s.groups.root g) src :: (s.groups.members g).map (.set · dst)) fun g s2 hs2 => ?_).mono
        fun _ s' h' => ?_
    · rw [outcome_bind]
      refine (Get_appends _ src hs2).mono fun value s3 h3 => ?_
      refine (writeMembers_appends s.groups (fun _ => CloneArray_neverTraps _)
        (h3.group.trans hs2)).mono fun _ s4 h4 => ?_
      exact h3.trans h4
    · rw [h', h1.history]
      simp

theorem ScatterFromWorker0_history (hgroups : s.num_groups ≠ 0)
    (hworkers : s.groups.workers_per_group ≠ 0) (hs : s.group = none) :
    Outcome (ScatterFromWorker0 src dst true) s NoTrap fun _ s' =>
      s'.history = s.history ++ (none, .get 0 src) :: byGroup s.num_groups fun g =>
        .get (s.groups.root g) src :: (s.groups.members g).map (.set · dst) := by
  rw [ScatterFromWorker0, outcome_bind]
  refine (Get_appends 0 src hs).mono fun root s1 h1 => ?_
  cases root with
  | none => exact SessionError.noConfusion
  | some root =>
    simp only [outcome_bind, outcome_get, if_true, h1.num_workers, h1.num_groups]
    refine outcome_intDiv hgroups ?_
    cases root.shape with
    | nil => exact SessionError.noConfusion
    | cons dim0 dims =>
      simp only [Bool.not_true, Bool.false_eq_true, if_false]
      refine outcome_ite.mpr ⟨fun h => absurd h hworkers, fun _ => outcome_ite.mpr
        ⟨fun _ => SessionError.noConfusion, fun _ => ?_⟩⟩
      rw [outcome_bind]
      refine outcome_intDiv hgroups ?_
      refine (forGroups_appends (fun g =>
        .get (s.groups.root g) src :: (s.groups.members g).map (.set · dst))
          fun g s2 hs2 => ?_).mono fun _ s' h' => ?_
      · rw [outcome_bind]
        refine (Get_appends _ src hs2).mono fun value s3 h3 => ?_
        refine (writeMembers_appends s.groups (fun _ => SliceFirstDim_neverTraps _ _ _)
          (h3.group.trans hs2)).mono fun _ s4 h4 => ?_
        exact h3.trans h4
      · rw [h', h1.history]
        simp

theorem GatherToWorker0_history (hgroups : s.num_groups ≠ 0) :
    Outcome (GatherToWorker0 src dst true) s NoTrap fun _ s' =>
      s'.history = s.history ++ byGroup s.num_groups fun g =>
        (s.groups.members g).map (.get · src) ++ [.set (s.groups.root g) dst] := by
  rw [GatherToWorker0, outcome_bind, outcome_get]
  simp only [outcome_bind, Bool.not_true, Bool.false_eq_true, if_false]
  refine outcome_intDiv hgroups ?_
  refine forGroups_appends _ fun g s1 hs1 => ?_
  have hlog : (s.groups.members g).map (Access.get · src) =
      (intRange s.groups.workers_per_group).flatMap fun i =>
        [.get (s.groups.root g + i) src] := by
    rw [Groups.members, List.map_map, List.map_eq_flatMap]
    rfl
  rw [hlog, outcome_bind]
  refine (mapM_appends (fun i s2 hs2 => Get_appends _ src hs2) hs1).mono fun shards s2 h2 => ?_
  rw [outcome_bind]
  refine outcome_lift (ConcatFirstDim_neverTraps shards) fun value _ => ?_
  exact (Set_appends _ dst value (h2.group.trans hs1)).mono fun _ s3 h3 => h2.trans h3

theorem Empty_history {shape : List Int64} {dtype : String} (hgroups : s.num_groups ≠ 0) :
    Outcome (DiscoSession.Empty shape dtype true true) s NoTrap fun ref s' =>
      s'.history = s.history ++ byGroup s.num_groups fun g => [.set (s.groups.root g) ref] := by
  simp only [DiscoSession.Empty, NewDRef, outcome_bind, outcome_get, outcome_set, outcome_pure, Bool.not_true,
    Bool.false_eq_true, if_false]
  refine outcome_intDiv hgroups ?_
  exact (forGroups_appends _ fun g s1 hs1 => Set_appends _ _ _ hs1).mono fun _ s' h' => h'

end Collectives

/-- The group and worker of each write to `ref` in an iteration over the groups. -/
def writesTo (ref : DRef) (history : List (Option Int32 × Access)) : List (Int32 × Int32) :=
  history.filterMap fun
    | (some g, .set worker r) => if r = ref then some (g, worker) else none
    | _ => none

/-- The group and worker of each read from `ref` in an iteration over the groups. -/
def readsFrom (ref : DRef) (history : List (Option Int32 × Access)) : List (Int32 × Int32) :=
  history.filterMap fun
    | (some g, .get worker r) => if r = ref then some (g, worker) else none
    | _ => none

/-- Each group has a root of its own among the workers. -/
structure OwnRoots (num_workers num_groups : Int32) (roots : List (Int32 × Int32)) : Prop where
  each_group : roots.map Prod.fst = intRange num_groups
  own : (roots.map Prod.snd).Nodup
  in_range : ∀ r ∈ roots, 0 ≤ r.2 ∧ r.2 < num_workers

/-- Each worker is a member of one group, and once there; the root of a group is a member of it. -/
structure Partition (num_workers num_groups : Int32) (members roots : List (Int32 × Int32)) :
    Prop where
  once : (members.map Prod.snd).Nodup
  every : ∀ worker, worker ∈ members.map Prod.snd ↔ 0 ≤ worker ∧ worker < num_workers
  own_roots : OwnRoots num_workers num_groups roots
  root_mem : roots ⊆ members

section Numbers

theorem intRange_ofNat {n : Nat} (hn : n < 2 ^ 31) :
    intRange (Int32.ofNat n) = (List.range n).map Int32.ofNat := by
  rw [intRange, Int32.toInt_ofNat_of_lt hn, Int.toNat_natCast]

theorem range_mul_eq (m k : Nat) :
    List.range (m * k) = (List.range m).flatMap fun g => (List.range k).map fun i => g * k + i := by
  induction m with
  | zero => simp
  | succ m ih => rw [Nat.succ_mul, List.range_add, ih, List.range_succ, List.flatMap_append,
      List.flatMap_singleton]

theorem ofNat_inj_of_lt {a b : Nat} (ha : a < 2 ^ 31) (hb : b < 2 ^ 31)
    (h : Int32.ofNat a = Int32.ofNat b) : a = b := by
  have htoInt := congrArg Int32.toInt h
  rw [Int32.toInt_ofNat_of_lt ha, Int32.toInt_ofNat_of_lt hb] at htoInt
  exact Int.ofNat_inj.mp htoInt

theorem exists_ofNat {n : Int32} (hn : 0 ≤ n) : ∃ N : Nat, N < 2 ^ 31 ∧ n = Int32.ofNat N := by
  have hnonneg : 0 ≤ n.toInt := by simpa using Int32.le_iff_toInt_le.mp hn
  have hlt : n.toInt < 2 ^ 31 := Int32.toInt_lt n
  refine ⟨n.toInt.toNat, by omega, ?_⟩
  rw [← Int32.ofInt_eq_ofNat, Int.toNat_of_nonneg hnonneg, Int32.ofInt_toInt]

theorem ofNat_ne_zero {n : Nat} (hn : n < 2 ^ 31) (hpos : 0 < n) : Int32.ofNat n ≠ 0 := fun h =>
  Nat.ne_of_gt hpos (ofNat_inj_of_lt hn (by omega) h)

theorem ofNat_le_iff {a b : Nat} (ha : a < 2 ^ 31) (hb : b < 2 ^ 31) :
    Int32.ofNat a ≤ Int32.ofNat b ↔ a ≤ b := by
  rw [Int32.le_iff_toInt_le, Int32.toInt_ofNat_of_lt ha, Int32.toInt_ofNat_of_lt hb, Int.ofNat_le]

theorem ofNat_lt_iff {a b : Nat} (ha : a < 2 ^ 31) (hb : b < 2 ^ 31) :
    Int32.ofNat a < Int32.ofNat b ↔ a < b := by
  rw [Int32.lt_iff_toInt_lt, Int32.toInt_ofNat_of_lt ha, Int32.toInt_ofNat_of_lt hb, Int.ofNat_lt]

theorem mem_range_ofNat {n : Nat} (hn : n < 2 ^ 31) (w : Int32) :
    w ∈ (List.range n).map Int32.ofNat ↔ 0 ≤ w ∧ w < Int32.ofNat n := by
  rw [List.mem_map]
  constructor
  · rintro ⟨a, ha, rfl⟩
    have ha : a < n := List.mem_range.mp ha
    exact ⟨(ofNat_le_iff (a := 0) (by omega) (by omega)).mpr (Nat.zero_le a),
      (ofNat_lt_iff (by omega) hn).mpr ha⟩
  · rintro ⟨hnonneg, hlt⟩
    obtain ⟨a, ha, rfl⟩ := exists_ofNat hnonneg
    exact ⟨a, List.mem_range.mpr ((ofNat_lt_iff ha hn).mp hlt), rfl⟩

theorem nodup_range_ofNat {n : Nat} (hn : n < 2 ^ 31) :
    ((List.range n).map Int32.ofNat).Nodup := by
  refine List.Nodup.map_on (fun a ha b hb h => ?_) List.nodup_range
  exact ofNat_inj_of_lt (by have := List.mem_range.mp ha; omega)
    (by have := List.mem_range.mp hb; omega) h

end Numbers

namespace Groups

/-- The group and worker of each member. -/
def allMembers (gs : Groups) : List (Int32 × Int32) :=
  (intRange gs.num_groups).flatMap fun g => (gs.members g).map (Prod.mk g)

/-- The group and worker of each root. -/
def allRoots (gs : Groups) : List (Int32 × Int32) :=
  (intRange gs.num_groups).map fun g => (g, gs.root g)

variable {N M : Nat}

/-- The workers that are members of a group. -/
theorem allMembers_workers (hN : N < 2 ^ 31) (hM : M < 2 ^ 31) :
    (allMembers ⟨Int32.ofNat N, Int32.ofNat M⟩).map Prod.snd =
      (List.range (M * (N / M))).map Int32.ofNat := by
  have hK : N / M < 2 ^ 31 := Nat.lt_of_le_of_lt (Nat.div_le_self N M) hN
  have hper : workers_per_group ⟨Int32.ofNat N, Int32.ofNat M⟩ = Int32.ofNat (N / M) :=
    (Int32.ofNat_div hN hM).symm
  simp only [allMembers, members, root, hper, intRange_ofNat hM, intRange_ofNat hK,
    List.map_flatMap, List.map_map, range_mul_eq, List.flatMap_map]
  simp [Function.comp_def, Int32.ofNat_add, Int32.ofNat_mul]

/-- The workers that the groups hold are workers of the session. -/
theorem members_in_range (hN : N < 2 ^ 31) (hM : M < 2 ^ 31) (hpos : 0 < N) {g : Int32}
    (hg : g ∈ intRange (Int32.ofNat M)) :
    let gs : Groups := ⟨Int32.ofNat N, Int32.ofNat M⟩
    (0 ≤ gs.root g ∧ gs.root g < gs.num_workers) ∧
      ∀ w ∈ gs.members g, 0 ≤ w ∧ w < gs.num_workers := by
  intro gs
  have hle : M * (N / M) ≤ N := Nat.mul_div_le N M
  have hmembers : ∀ w ∈ gs.members g, 0 ≤ w ∧ w < gs.num_workers := by
    intro w hw
    have hmem : w ∈ gs.allMembers.map Prod.snd :=
      List.mem_map.mpr ⟨(g, w), List.mem_flatMap.mpr ⟨g, hg, List.mem_map.mpr ⟨w, hw, rfl⟩⟩, rfl⟩
    rw [allMembers_workers hN hM] at hmem
    obtain ⟨a, ha, rfl⟩ := List.mem_map.mp hmem
    have ha : a < M * (N / M) := List.mem_range.mp ha
    exact (mem_range_ofNat hN _).mp (List.mem_map.mpr ⟨a, List.mem_range.mpr (by omega), rfl⟩)
  refine ⟨?_, hmembers⟩
  have hper : gs.workers_per_group = Int32.ofNat (N / M) := (Int32.ofNat_div hN hM).symm
  rcases Nat.eq_zero_or_pos (N / M) with hzero | hK
  · have hroot : gs.root g = Int32.ofNat 0 := by
      rw [root, hper, hzero]
      exact Int32.mul_zero
    rw [hroot]
    exact ⟨Int32.le_refl _, (ofNat_lt_iff (by omega) hN).mpr hpos⟩
  · refine hmembers _ (List.mem_map.mpr ⟨0, ?_, by simp⟩)
    rw [hper, intRange_ofNat (Nat.lt_of_le_of_lt (Nat.div_le_self N M) hN)]
    exact List.mem_map.mpr ⟨0, List.mem_range.mpr hK, rfl⟩

theorem partition_iff (hN : N < 2 ^ 31) (hM : M < 2 ^ 31) (hpos : 0 < N) (hpos' : 0 < M) :
    Partition (Int32.ofNat N) (Int32.ofNat M) (allMembers ⟨Int32.ofNat N, Int32.ofNat M⟩)
      (allRoots ⟨Int32.ofNat N, Int32.ofNat M⟩) ↔ M ∣ N := by
  have hle : M * (N / M) ≤ N := Nat.mul_div_le N M
  have hK : N / M < 2 ^ 31 := Nat.lt_of_le_of_lt (Nat.div_le_self N M) hN
  have hper : workers_per_group ⟨Int32.ofNat N, Int32.ofNat M⟩ = Int32.ofNat (N / M) :=
    (Int32.ofNat_div hN hM).symm
  constructor
  · intro h
    -- the last worker is a member of some group
    have hlast := (h.every (Int32.ofNat (N - 1))).mpr
      ⟨(ofNat_le_iff (a := 0) (by omega) (by omega)).mpr (Nat.zero_le _),
        (ofNat_lt_iff (by omega) hN).mpr (by omega)⟩
    rw [allMembers_workers hN hM] at hlast
    obtain ⟨j, hj, heq⟩ := List.mem_map.mp hlast
    have hj : j < M * (N / M) := List.mem_range.mp hj
    have hj' : j = N - 1 := ofNat_inj_of_lt (by omega) (by omega) heq
    exact ⟨N / M, by omega⟩
  · rintro ⟨K, rfl⟩
    have hdiv : M * K / M = K := Nat.mul_div_cancel_left K hpos'
    have hKpos : 0 < K := Nat.pos_of_mul_pos_left hpos
    rw [hdiv] at hper
    have hworkers := allMembers_workers hN hM
    rw [hdiv] at hworkers
    have hroot_mem : allRoots ⟨Int32.ofNat (M * K), Int32.ofNat M⟩ ⊆
        allMembers ⟨Int32.ofNat (M * K), Int32.ofNat M⟩ := by
      intro r hr
      obtain ⟨g, hg, rfl⟩ := List.mem_map.mp hr
      refine List.mem_flatMap.mpr ⟨g, hg, List.mem_map.mpr ⟨_, ?_, rfl⟩⟩
      refine List.mem_map.mpr ⟨0, ?_, by simp⟩
      rw [hper, intRange_ofNat (hdiv ▸ hK)]
      exact List.mem_map.mpr ⟨0, List.mem_range.mpr hKpos, rfl⟩
    have hevery (worker : Int32) : worker ∈ (allMembers ⟨Int32.ofNat (M * K), Int32.ofNat M⟩).map
        Prod.snd ↔ 0 ≤ worker ∧ worker < Int32.ofNat (M * K) := by
      rw [hworkers]
      exact mem_range_ofNat hN worker
    refine ⟨hworkers ▸ nodup_range_ofNat hN, hevery, ⟨?_, ?_, fun r hr => ?_⟩, hroot_mem⟩
    · simp [allRoots, Function.comp_def]
    · have hroots : (allRoots ⟨Int32.ofNat (M * K), Int32.ofNat M⟩).map Prod.snd =
          (List.range M).map fun g => Int32.ofNat (g * K) := by
        simp only [allRoots, root, hper, intRange_ofNat hM, List.map_map]
        simp [Function.comp_def, Int32.ofNat_mul]
      rw [hroots]
      refine List.Nodup.map_on (fun a ha b hb h => ?_) List.nodup_range
      have ha : a * K < M * K := Nat.mul_lt_mul_of_pos_right (List.mem_range.mp ha) hKpos
      have hb : b * K < M * K := Nat.mul_lt_mul_of_pos_right (List.mem_range.mp hb) hKpos
      exact Nat.eq_of_mul_eq_mul_right hKpos (ofNat_inj_of_lt (by omega) (by omega) h)
    · exact (hevery r.2).mp (List.mem_map.mpr ⟨r, hroot_mem hr, rfl⟩)

/-- No worker is a member of two groups. -/
theorem members_apart (hN : N < 2 ^ 31) (hM : M < 2 ^ 31) {g g' w : Int32}
    (hg : g ∈ intRange (Int32.ofNat M)) (hg' : g' ∈ intRange (Int32.ofNat M)) (hne : g ≠ g')
    (hw : w ∈ members ⟨Int32.ofNat N, Int32.ofNat M⟩ g) :
    w ∉ members ⟨Int32.ofNat N, Int32.ofNat M⟩ g' := by
  have hall : (intRange (Int32.ofNat M)).flatMap (members ⟨Int32.ofNat N, Int32.ofNat M⟩) =
      (List.range (M * (N / M))).map Int32.ofNat := by
    rw [← allMembers_workers hN hM, allMembers, List.map_flatMap]
    simp [Function.comp_def]
  have hnodup := nodup_range_ofNat (Nat.lt_of_le_of_lt (Nat.mul_div_le N M) hN)
  rw [← hall, List.nodup_flatMap] at hnodup
  have : Std.Symm (Function.onFun List.Disjoint
      (members ⟨Int32.ofNat N, Int32.ofNat M⟩)) := ⟨fun _ _ h _ hx hx' => h hx' hx⟩
  exact fun hw' => hnodup.2.forall hg hg' hne hw hw'

/-- The groups are a partition of the workers into groups that are not empty. -/
structure Even (gs : Groups) : Prop where
  nodup : (intRange gs.num_groups).Nodup
  root_mem : ∀ g ∈ intRange gs.num_groups, gs.root g ∈ gs.members g
  apart : ∀ g ∈ intRange gs.num_groups, ∀ g' ∈ intRange gs.num_groups, g ≠ g' →
    ∀ w ∈ gs.members g, w ∉ gs.members g'
  in_range : ∀ g ∈ intRange gs.num_groups, ∀ w ∈ gs.members g, 0 ≤ w ∧ w < gs.num_workers

theorem even_of_dvd (hN : N < 2 ^ 31) (hM : M < 2 ^ 31) (hpos : 0 < N) (hpos' : 0 < M)
    (hdvd : M ∣ N) : Even ⟨Int32.ofNat N, Int32.ofNat M⟩ where
  nodup := (intRange_ofNat hM).symm ▸ nodup_range_ofNat hM
  root_mem g hg := by
    have hroots := ((partition_iff hN hM hpos hpos').mpr hdvd).root_mem
    obtain ⟨g', -, hw⟩ := List.mem_flatMap.mp (hroots (List.mem_map.mpr ⟨g, hg, rfl⟩))
    obtain ⟨w, hw, heq⟩ := List.mem_map.mp hw
    obtain ⟨rfl, rfl⟩ := Prod.mk.inj heq
    exact hw
  apart _ hg _ hg' hne _ hw := members_apart hN hM hg hg' hne hw
  in_range _ hg := (members_in_range hN hM hpos hg).2

end Groups

/-- The sessions that `ThreadedSession` creates and the operations on registers lead to. -/
inductive Session (num_workers num_groups : Int32) : ThreadedSession → Prop where
  | create : Session num_workers num_groups (DiscoSession.ThreadedSession num_workers num_groups)
  | newDRef {s s' : ThreadedSession} {ref : DRef} (h : Session num_workers num_groups s)
    (hstep : DiscoSession.NewDRef s = .ok (ref, s')) : Session num_workers num_groups s'
  | set {s s' : ThreadedSession} {worker : Int32} {ref : DRef} {value : Option NDArray}
    (h : Session num_workers num_groups s)
    (hstep : DiscoSession.Set worker ref value s = .ok ((), s')) : Session num_workers num_groups s'

/-- The session with a history that starts anew. -/
def ThreadedSession.restart (s : ThreadedSession) : ThreadedSession := { s with history := [] }

/-- The in-group collectives do not trap, and those that return have served a partition of the
workers, with a root for each group; the registers that they access are told by the history. -/
structure ServesPartition (s : ThreadedSession) : Prop where
  broadcast : ∀ src dst, Outcome (CpuCCLBackend.BroadcastFromWorker0 src dst true)
    s.restart NoTrap fun _ s' =>
      Partition s.num_workers s.num_groups (writesTo dst s'.history) (readsFrom src s'.history)
  scatter : ∀ src dst, Outcome (CpuCCLBackend.ScatterFromWorker0 src dst true)
    s.restart NoTrap fun _ s' =>
      Partition s.num_workers s.num_groups (writesTo dst s'.history) (readsFrom src s'.history)
  gather : ∀ src dst, Outcome (CpuCCLBackend.GatherToWorker0 src dst true)
    s.restart NoTrap fun _ s' =>
      Partition s.num_workers s.num_groups (readsFrom src s'.history) (writesTo dst s'.history)
  empty : ∀ shape dtype, Outcome (DiscoSession.Empty shape dtype true true)
    s.restart NoTrap fun ref s' =>
      OwnRoots s.num_workers s.num_groups (writesTo ref s'.history)

section Sessions

variable {n m : Int32} {s : ThreadedSession}

/-- The counts of a session are those that it was created with. -/
theorem Session.counts (h : Session n m s) (hn : 1 ≤ n) (hm : 1 ≤ m) :
    s.num_workers = n ∧ s.num_groups = m ∧ s.group = none := by
  have hpos {k : Int32} (hk : 1 ≤ k) : 0 < k := by
    rw [Int32.le_iff_toInt_le] at hk
    rw [Int32.lt_iff_toInt_lt]
    exact Int.lt_of_lt_of_le (by decide) hk
  induction h with
  | create =>
    exact ⟨if_pos (hpos hn), if_pos (hpos hm), rfl⟩
  | newDRef _ hstep ih =>
    obtain ⟨⟩ := hstep
    exact ih
  | @set s s' worker ref value _ hstep ih =>
    have hset := (Set_appends worker ref value (s := s) rfl).of_ok hstep
    rwa [hset.num_workers, hset.num_groups, hset.group]

theorem writesTo_byGroup (ref : DRef) (groups : Int32) (log : Int32 → List Access) :
    writesTo ref (byGroup groups log) = (intRange groups).flatMap fun g =>
      (log g).filterMap fun
        | .set worker r => if r = ref then some (g, worker) else none
        | _ => none := by
  simp only [writesTo, byGroup, List.filterMap_flatMap, List.filterMap_map]
  refine List.flatMap_congr fun g _ => List.filterMap_congr fun access _ => ?_
  cases access <;> rfl

theorem readsFrom_byGroup (ref : DRef) (groups : Int32) (log : Int32 → List Access) :
    readsFrom ref (byGroup groups log) = (intRange groups).flatMap fun g =>
      (log g).filterMap fun
        | .get worker r => if r = ref then some (g, worker) else none
        | _ => none := by
  simp only [readsFrom, byGroup, List.filterMap_flatMap, List.filterMap_map]
  refine List.flatMap_congr fun g _ => List.filterMap_congr fun access _ => ?_
  cases access <;> rfl

/-- Roots read, members write. -/
theorem rootsRead_membersWrite (gs : Groups) (src dst : DRef) :
    let history := (none, .get 0 src) :: byGroup gs.num_groups fun g =>
      .get (gs.root g) src :: (gs.members g).map (.set · dst)
    writesTo dst history = gs.allMembers ∧ readsFrom src history = gs.allRoots := by
  constructor
  · have hcons (xs) : writesTo dst ((none, .get 0 src) :: xs) = writesTo dst xs := rfl
    rw [hcons, writesTo_byGroup]
    simp [Groups.allMembers, List.filterMap_map]
  · have hcons (xs) : readsFrom src ((none, .get 0 src) :: xs) = readsFrom src xs := rfl
    rw [hcons, readsFrom_byGroup, Groups.allRoots, List.map_eq_flatMap]
    simp [List.filterMap_map]

/-- Members read, roots write. -/
theorem membersRead_rootsWrite (gs : Groups) (src dst : DRef) :
    let history := byGroup gs.num_groups fun g =>
      (gs.members g).map (.get · src) ++ [.set (gs.root g) dst]
    readsFrom src history = gs.allMembers ∧ writesTo dst history = gs.allRoots := by
  constructor
  · rw [readsFrom_byGroup]
    simp [Groups.allMembers, List.filterMap_map]
  · rw [writesTo_byGroup, Groups.allRoots, List.map_eq_flatMap]
    simp [List.filterMap_map]

theorem servesPartition_of_dvd {N M : Nat} (hN : N < 2 ^ 31) (hM : M < 2 ^ 31) (hpos : 0 < N)
    (hpos' : 0 < M) (hdvd : M ∣ N) (hworkers : s.num_workers = Int32.ofNat N)
    (hgroups : s.num_groups = Int32.ofNat M) (hgroup : s.group = none) : ServesPartition s := by
  have hpartition := (Groups.partition_iff hN hM hpos hpos').mpr hdvd
  rw [← hworkers, ← hgroups] at hpartition
  have hm : s.num_groups ≠ 0 := hgroups ▸ ofNat_ne_zero hM hpos'
  have hper : s.groups.workers_per_group ≠ 0 := by
    have hle : N / M ≤ N := Nat.div_le_self N M
    have hdiv : 0 < N / M := Nat.div_pos (Nat.le_of_dvd hpos hdvd) hpos'
    have heq : s.groups.workers_per_group = Int32.ofNat (N / M) := by
      rw [Groups.workers_per_group, ThreadedSession.groups, hworkers, hgroups, Int32.ofNat_div hN hM]
    exact heq ▸ ofNat_ne_zero (by omega) hdiv
  refine ⟨fun src dst => ?_, fun src dst => ?_, fun src dst => ?_, fun shape dtype => ?_⟩
  · refine (BroadcastFromWorker0_history (s := s.restart) hm hgroup).mono fun _ s' h => ?_
    obtain ⟨hmembers, hroots⟩ := rootsRead_membersWrite s.groups src dst
    rw [h]
    exact hmembers ▸ hroots ▸ hpartition
  · refine (ScatterFromWorker0_history (s := s.restart) hm hper hgroup).mono fun _ s' h => ?_
    obtain ⟨hmembers, hroots⟩ := rootsRead_membersWrite s.groups src dst
    rw [h]
    exact hmembers ▸ hroots ▸ hpartition
  · refine (GatherToWorker0_history (s := s.restart) hm).mono fun _ s' h => ?_
    obtain ⟨hmembers, hroots⟩ := membersRead_rootsWrite s.groups src dst
    rw [h]
    exact hmembers ▸ hroots ▸ hpartition
  · refine (Empty_history (s := s.restart) hm).mono fun ref s' h => ?_
    have hroots : writesTo ref (byGroup s.num_groups fun g => [.set (s.groups.root g) ref]) =
        s.groups.allRoots := by
      rw [writesTo_byGroup, Groups.allRoots, List.map_eq_flatMap]
      simp
      rfl
    rw [h]
    exact hroots ▸ hpartition.own_roots

/-- A session with one register, which holds no array on any worker. -/
structure Blank (n m : Int32) (s : ThreadedSession) : Prop where
  num_workers : s.num_workers = n
  num_groups : s.num_groups = m
  reg_count : s.reg_count = 1
  undefined : ∀ worker reg, s.register_file worker reg = none

theorem Blank.validate (h : Blank n m s) {worker : Int32} (hworker : 0 ≤ worker ∧ worker < n) :
    s.ValidateWorkerId worker = .ok () ∧ s.ValidateRegId 0 = .ok () := by
  constructor
  · rw [ThreadedSession.ValidateWorkerId, if_neg]
    rw [h.num_workers, not_or, Int32.not_lt, Int32.not_le]
    exact hworker
  · rw [ThreadedSession.ValidateRegId, h.reg_count]
    decide

theorem Blank.get (h : Blank n m s) {worker : Int32} (hworker : 0 ≤ worker ∧ worker < n) :
    Outcome (DiscoSession.Get worker ⟨0⟩) s (fun _ => False) fun value s' =>
      value = none ∧ Blank n m s' := by
  obtain ⟨hworker, hreg⟩ := h.validate hworker
  simp only [DiscoSession.Get, outcome_bind, outcome_get, hworker, hreg, lift, outcome_pure,
    outcome_set]
  exact ⟨h.undefined _ _, h.num_workers, h.num_groups, h.reg_count, h.undefined⟩

theorem Blank.set (h : Blank n m s) {worker : Int32} (hworker : 0 ≤ worker ∧ worker < n) :
    Outcome (DiscoSession.Set worker ⟨0⟩ none) s (fun _ => False) fun _ s' => Blank n m s' := by
  obtain ⟨hworker, hreg⟩ := h.validate hworker
  simp only [DiscoSession.Set, outcome_bind, outcome_get, hworker, hreg, lift, outcome_pure,
    outcome_set]
  refine ⟨h.num_workers, h.num_groups, h.reg_count, fun w r => ?_⟩
  change Function.update s.register_file worker
    (Function.update (s.register_file worker) 0 none) w r = none
  by_cases hw : w = worker
  · rw [hw, Function.update_self]
    by_cases hr : r = 0
    · rw [hr, Function.update_self]
    · rw [Function.update_of_ne hr]
      exact h.undefined worker r
  · rw [Function.update_of_ne hw]
    exact h.undefined w r

/-- Gathering undefined arrays returns. -/
theorem Blank.gather (gs : Groups) (h : Blank gs.num_workers gs.num_groups s)
    (hgroups : gs.num_groups ≠ 0) (hworkers : ∀ g ∈ intRange gs.num_groups,
      (0 ≤ gs.root g ∧ gs.root g < gs.num_workers) ∧
        ∀ w ∈ gs.members g, 0 ≤ w ∧ w < gs.num_workers) :
    Outcome (CpuCCLBackend.GatherToWorker0 ⟨0⟩ ⟨0⟩ true) s (fun _ => False) fun _ _ => True := by
  have hshards (g : Int32) (is : List Int32) (s : ThreadedSession)
      (h : Blank gs.num_workers gs.num_groups s)
      (his : ∀ i ∈ is, 0 ≤ gs.root g + i ∧ gs.root g + i < gs.num_workers) :
      Outcome (is.mapM fun i => DiscoSession.Get (gs.root g + i) ⟨0⟩) s (fun _ => False)
        fun shards s' => (∀ shard ∈ shards, shard = none) ∧
          Blank gs.num_workers gs.num_groups s' := by
    induction is generalizing s with
    | nil => exact ⟨by simp, h⟩
    | cons i is ih =>
      simp only [List.mapM_cons, outcome_bind, outcome_pure]
      refine (h.get (his i (by simp))).mono fun value s1 hget => ?_
      obtain ⟨hvalue, h1⟩ := hget
      refine (ih s1 h1 fun j hj => his j (by simp [hj])).mono fun shards s2 hrest => ?_
      obtain ⟨hshards, h2⟩ := hrest
      exact ⟨by simpa [hvalue] using hshards, h2⟩
  rw [CpuCCLBackend.GatherToWorker0, outcome_bind, outcome_get]
  simp only [outcome_bind, Bool.not_true, Bool.false_eq_true, if_false, h.num_workers,
    h.num_groups]
  refine outcome_intDiv hgroups ?_
  simp only [forGroups, outcome_bind, outcome_modify]
  refine (Outcome.forM (Blank gs.num_workers gs.num_groups) h fun g hg s1 h1 => ?_).mono
    fun _ _ _ => trivial
  obtain ⟨hroot, hmembers⟩ := hworkers g hg
  simp only [outcome_bind, outcome_modify]
  refine (hshards g (intRange gs.workers_per_group) { s1 with group := some g }
    ⟨h1.num_workers, h1.num_groups, h1.reg_count, h1.undefined⟩ fun i hi =>
      hmembers _ (List.mem_map.mpr ⟨i, hi, rfl⟩)).mono fun shards s2 hread => ?_
  obtain ⟨hnone, h2⟩ := hread
  have hconcat : CpuCCLBackend.ConcatFirstDim shards = .ok none := by
    cases shards with
    | nil => rfl
    | cons shard shards =>
      obtain rfl := hnone shard (by simp)
      rfl
  simp only [hconcat, lift, outcome_pure]
  exact h2.set hroot

theorem exists_blank (hn : 1 ≤ n) (hm : 1 ≤ m) : ∃ s, Session n m s ∧ Blank n m s := by
  have hcreate : Session n m (DiscoSession.ThreadedSession n m) := .create
  obtain ⟨hworkers, hgroups, -⟩ := hcreate.counts hn hm
  refine ⟨_, .newDRef hcreate rfl, hworkers, hgroups, rfl, fun worker reg => ?_⟩
  change Function.update (fun _ => none) 0 none reg = none
  by_cases hreg : reg = 0
  · rw [hreg, Function.update_self]
  · rw [Function.update_of_ne hreg]

end Sessions

/-- The in-group collectives of a session serve a partition of its workers exactly if the number of
groups divides that of the workers. -/
theorem ThreadedSession_servesPartition_iff {num_workers num_groups : Int32}
    (hworkers : 1 ≤ num_workers) (hgroups : 1 ≤ num_groups) :
    (∀ s, Session num_workers num_groups s → ServesPartition s) ↔
      num_groups.toInt ∣ num_workers.toInt := by
  have hpos {k : Nat} (hk : k < 2 ^ 31) (h : 1 ≤ Int32.ofNat k) : 0 < k :=
    (ofNat_le_iff (a := 1) (by omega) hk).mp h
  have hone : (0 : Int32) ≤ 1 := by decide
  obtain ⟨N, hN, rfl⟩ := exists_ofNat (Int32.le_trans hone hworkers)
  obtain ⟨M, hM, rfl⟩ := exists_ofNat (Int32.le_trans hone hgroups)
  have hNpos := hpos hN hworkers
  have hMpos := hpos hM hgroups
  rw [Int32.toInt_ofNat_of_lt hN, Int32.toInt_ofNat_of_lt hM, Int.natCast_dvd_natCast]
  constructor
  · intro h
    obtain ⟨s, hs, hblank⟩ := exists_blank hworkers hgroups
    have hrestart : Blank (Int32.ofNat N) (Int32.ofNat M) s.restart :=
      ⟨hblank.num_workers, hblank.num_groups, hblank.reg_count, hblank.undefined⟩
    have hne : Int32.ofNat M ≠ 0 := ofNat_ne_zero hM hMpos
    obtain ⟨_, s', hrun, -⟩ := (Blank.gather ⟨Int32.ofNat N, Int32.ofNat M⟩ hrestart hne
      fun g hg => Groups.members_in_range hN hM hNpos hg).exists_ok
    have hhistory := (GatherToWorker0_history (s := s.restart)
      (by rw [hrestart.num_groups]; exact hne)).of_ok hrun
    have hpartition := ((h s hs).gather ⟨0⟩ ⟨0⟩).of_ok hrun
    obtain ⟨hmembers, hroots⟩ := membersRead_rootsWrite s.groups ⟨0⟩ ⟨0⟩
    rw [hhistory] at hpartition
    refine (Groups.partition_iff hN hM hNpos hMpos).mp ?_
    rw [← hblank.num_workers, ← hblank.num_groups]
    exact hmembers ▸ hroots ▸ hpartition
  · intro hdvd s hs
    obtain ⟨hn, hm, hgroup⟩ := hs.counts hworkers hgroups
    exact servesPartition_of_dvd hN hM hNpos hMpos hdvd hn hm hgroup

/-- A session with one register, which holds an array on worker 0. -/
def loadedSession (num_workers num_groups : Int32) : ThreadedSession :=
  let blank : Int32 → Option NDArray := Function.update (fun _ => none) 0 none
  { DiscoSession.ThreadedSession num_workers num_groups with
    reg_count := 1
    register_file := Function.update (fun _ => blank) 0
      (Function.update blank 0 (some (zeroArray [2] "float32")))
    history := [(none, .set 0 ⟨0⟩)] }

/-- Four workers in two groups. -/
theorem fourWorkers_servePartition : ServesPartition (loadedSession 4 2) :=
  (ThreadedSession_servesPartition_iff (by decide) (by decide)).mpr (by decide) _
    (@Session.set 4 2 _ _ 0 ⟨0⟩ (some (zeroArray [2] "float32")) (.newDRef .create rfl) rfl)

/-- With one worker in two groups scattering an array divides by zero, and with three workers in
two groups the last worker gets no broadcast. -/
theorem unevenGroups_noPartition :
    (Session 1 2 (loadedSession 1 2) ∧ CpuCCLBackend.ScatterFromWorker0 ⟨0⟩ ⟨0⟩ true
      (loadedSession 1 2) = .error .divideByZero) ∧
    (Session 3 2 (loadedSession 3 2) ∧ ∃ s', CpuCCLBackend.BroadcastFromWorker0 ⟨0⟩ ⟨0⟩ true
      (loadedSession 3 2).restart = .ok ((), s') ∧ writesTo ⟨0⟩ s'.history = [(0, 0), (1, 1)]) := by
  refine ⟨⟨?_, rfl⟩, ?_, _, rfl, by decide⟩
  · exact @Session.set 1 2 _ _ 0 ⟨0⟩ (some (zeroArray [2] "float32")) (.newDRef .create rfl) rfl
  · exact @Session.set 3 2 _ _ 0 ⟨0⟩ (some (zeroArray [2] "float32")) (.newDRef .create rfl) rfl

end Kxc.Disco

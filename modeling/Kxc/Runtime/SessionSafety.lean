import Kxc.Runtime.RuntimeSession

/-! Which kernels an adaptive session runs: always ones for the extents of its Relay function, and,
as long as no module is put over one that a client is running, the ones that it has found. -/

namespace Kxc.Runtime

open Lib.Interleaving

/-- The module that a client has compiled, or found. -/
def Client.module : Client → Option CompiledModule
  | .put _ module | .warmPut _ module | .execute _ _ module _ => some module
  | _ => none

/-- The module that a background compilation has made. -/
def Background.module : Background → Option CompiledModule
  | .compiled _ module => some module
  | _ => none

/-- Is about to put the module with number `n`. -/
def Client.puts (n : Nat) : Client → Bool
  | .put _ module | .warmPut _ module => module.serial == n
  | _ => false

/-- Is about to put the module with number `n`. -/
def Background.puts (n : Nat) : Background → Bool
  | .compiled _ module => module.serial == n
  | _ => false

namespace RuntimeSession

/-- Every module of the session was compiled for the extents of `func`. -/
structure Compiled (func : RelayFunction) (s : RuntimeSession) : Prop where
  relay_func : s.relay_func_ = func
  cache : ∀ entry ∈ s.cache_, entry.2.extents = func.param_shapes
  clients : ∀ c ∈ s.clients, ∀ module ∈ c.module, module.extents = func.param_shapes
  background : ∀ b ∈ s.background, ∀ module ∈ b.module, module.extents = func.param_shapes

/-- Every client that runs a module it has found still finds it there. -/
def Intact (s : RuntimeSession) : Prop :=
  ∀ sig key module schedules, .execute sig key module schedules ∈ s.clients →
    s.cache_.GetExact key = some module

/-- A step does not put a module under a signature while a client runs the module it has found
there. -/
def Clear (s : RuntimeSession) (event : CacheEvent) : Prop :=
  ∀ sig key module schedules, .execute sig key module schedules ∈ s.clients → event ≠ .put key

/-- How often the module with number `n` is about to be put or in the cache. -/
def copies (s : RuntimeSession) (n : Nat) : Nat :=
  s.clients.countP (Client.puts n) + s.background.countP (Background.puts n) +
    s.cache_.countP fun entry => entry.2.serial == n

/-- A module is put once, and one that has not been compiled not at all. -/
structure PutOnce (s : RuntimeSession) : Prop where
  keyed : s.cache_.Keyed
  once : ∀ n, s.copies n ≤ 1
  fresh : ∀ n, s.compiled ≤ n → s.copies n = 0

end RuntimeSession

open RuntimeSession

variable {stdHash : Int64 → UInt64} {s s' : RuntimeSession} {event : CacheEvent}
  {func : RelayFunction}

/-! ### The extents of the modules -/

theorem KernelCache.mem_put {cache_ : KernelCache} {sig : ShapeSignature} {module : CompiledModule}
    {entry : ShapeSignature × CompiledModule} (h : entry ∈ cache_.Put sig module) :
    entry = (sig, module) ∨ entry ∈ cache_ := by
  rcases List.mem_cons.mp h with h | h
  · exact Or.inl h
  · exact Or.inr (List.mem_filter.mp h).1

theorem RuntimeSession.Compiled.setClient (hs : s.Compiled func) {i : Nat} {c : Client}
    (hc : ∀ module ∈ c.module, module.extents = func.param_shapes) :
    ∀ d ∈ (s.setClient i c).clients, ∀ module ∈ d.module, module.extents = func.param_shapes := by
  intro d hd
  rcases List.mem_or_eq_of_mem_set hd with hd | rfl
  · exact hs.clients d hd
  · exact hc

theorem ClientStep.compiled {i : Nat} (h : ClientStep stdHash s i event s')
    (hs : s.Compiled func) : s'.Compiled func := by
  have hnone {c : Client} (hc : c.module = none) :
      ∀ module ∈ c.module, module.extents = func.param_shapes :=
    fun module hm => by rw [hc] at hm; cases hm
  have hsome {c : Client} {module : CompiledModule} (hc : c.module = some module)
      (hm : module.extents = func.param_shapes) :
      ∀ module ∈ c.module, module.extents = func.param_shapes := fun module hmem => by
    obtain rfl := Option.some.inj (hc.symm.trans hmem)
    exact hm
  have hmodule : s.Compile.extents = func.param_shapes := congrArg RelayFunction.param_shapes hs.relay_func
  have hput {sig : ShapeSignature} {module : CompiledModule}
      (hm : module.extents = func.param_shapes) :
      ∀ entry ∈ s.cache_.Put sig module, entry.2.extents = func.param_shapes := by
    intro entry hentry
    rcases KernelCache.mem_put hentry with rfl | hentry
    · exact hm
    · exact hs.cache entry hentry
  cases h
  case exactHit sig module h hfound =>
    have hm := hs.cache _ (KernelCache.mem_of_GetExact hfound)
    exact ⟨hs.relay_func, hs.cache, hs.setClient (hsome rfl hm), hs.background⟩
  case lookup sig module h hfound =>
    have hm := hs.cache _ (KernelCache.mem_of_GetExact hfound)
    exact ⟨hs.relay_func, hs.cache, hs.setClient (hsome rfl hm), hs.background⟩
  case fuzzyHit sig key module order h horder hfound =>
    have hm := hs.cache _ (horder.mem_iff.mp (KernelCache.mem_of_GetFuzzy hfound))
    exact ⟨hs.relay_func, hs.cache, hs.setClient (hsome rfl hm), hs.background⟩
  case compile sig h =>
    exact ⟨hs.relay_func, hs.cache, hs.setClient (hsome rfl hmodule), hs.background⟩
  case warmCompile sig h =>
    exact ⟨hs.relay_func, hs.cache, hs.setClient (hsome rfl hmodule), hs.background⟩
  case put sig module h =>
    exact ⟨hs.relay_func, hput (hs.clients _ (List.mem_of_getElem? h) module rfl),
      hs.setClient (hnone rfl), hs.background⟩
  case warmPut sig module h =>
    exact ⟨hs.relay_func, hput (hs.clients _ (List.mem_of_getElem? h) module rfl),
      hs.setClient (hnone rfl), hs.background⟩
  case execute sig key module schedules h =>
    refine ⟨hs.relay_func, hs.cache, hs.setClient ?_, hs.background⟩
    cases schedules <;> exact hnone rfl
  case schedule sig h hcompile hnew =>
    refine ⟨hs.relay_func, hs.cache, hs.setClient (hnone rfl), fun b hb module hm => ?_⟩
    rcases List.mem_append.mp hb with hb | hb
    · exact hs.background b hb module hm
    · rw [List.mem_singleton.mp hb] at hm
      cases hm
  all_goals exact ⟨hs.relay_func, hs.cache, hs.setClient (hnone rfl), hs.background⟩

theorem BackgroundStep.compiled {k : Nat} (h : BackgroundStep s k event s')
    (hs : s.Compiled func) : s'.Compiled func := by
  cases h with
  | compile h =>
    refine ⟨hs.relay_func, hs.cache, hs.clients, fun b hb module hm => ?_⟩
    rcases List.mem_or_eq_of_mem_set hb with hb | rfl
    · exact hs.background b hb module hm
    · obtain rfl := Option.some.inj hm
      exact congrArg RelayFunction.param_shapes hs.relay_func
  | compileThrows h =>
    exact ⟨hs.relay_func, hs.cache, hs.clients, fun b hb => hs.background b (List.mem_of_mem_eraseIdx hb)⟩
  | complete h =>
    refine ⟨hs.relay_func, fun entry hentry => ?_, hs.clients,
      fun b hb => hs.background b (List.mem_of_mem_eraseIdx hb)⟩
    rcases KernelCache.mem_put hentry with rfl | hentry
    · exact hs.background _ (List.mem_of_getElem? h) _ rfl
    · exact hs.cache entry hentry

theorem SessionStep.compiled (h : SessionStep stdHash s event s') (hs : s.Compiled func) :
    s'.Compiled func := by
  rcases h with ⟨i, h⟩ | ⟨k, h⟩
  · exact h.compiled hs
  · exact h.compiled hs

theorem construct_compiled (func : RelayFunction) (clients : Nat) :
    (construct func clients).Compiled func := by
  refine ⟨rfl, by simp [construct], fun c hc module hm => ?_, by simp [construct]⟩
  rw [List.eq_of_mem_replicate hc] at hm
  cases hm

/-- Whatever has happened in a session, `Run` executes a kernel for extents that its shapes cover
exactly when its shapes cover those of the Relay function. -/
theorem construct_run_covered (stdHash : Int64 → UInt64) (func : RelayFunction) (clients : Nat)
    {s : RuntimeSession}
    (h : Reach (SessionStep stdHash) (fun _ _ => True) (construct func clients) s)
    {sig key : ShapeSignature} {module : CompiledModule} {schedules : Bool}
    (hrun : .execute sig key module schedules ∈ s.clients) :
    Covers sig.input_shapes module.extents ↔ Covers sig.input_shapes func.param_shapes := by
  have hs : s.Compiled func := h.invariant (construct_compiled func clients)
    fun _ _ _ hs _ hstep => hstep.compiled hs
  rw [hs.clients _ hrun module rfl]

/-- A session of a function of one vector of four elements, when it runs `sig` for the first
time. -/
theorem construct_first_run (sig : ShapeSignature) :
    ∃ s module, Reach (SessionStep fun dim => dim.toUInt64) Clear
        (construct { param_shapes := [[4]] } 1) s ∧
      .execute sig sig module true ∈ s.clients := by
  have hclear {c : Client} {event : CacheEvent} {s : RuntimeSession} (h : s.clients = [c])
      (hc : ∀ sig key module schedules, c ≠ .execute sig key module schedules) : s.Clear event := by
    intro sig key module schedules hrun
    rw [h] at hrun
    exact (hc _ _ _ _ (List.mem_singleton.mp hrun).symm).elim
  have h1 : Reach (SessionStep fun dim => dim.toUInt64) Clear
      (construct { param_shapes := [[4]] } 1) _ :=
    .step .start (hclear rfl (by simp)) (.client 0 (.run sig rfl))
  have h2 := h1.step (hclear rfl (by simp)) (.client 0 (.record rfl))
  have h3 := h2.step (hclear rfl (by simp)) (.client 0 (.exactMiss rfl rfl))
  have h4 := h3.step (hclear rfl (by simp)) (.client 0 (.fuzzyMiss rfl .nil rfl))
  have h5 := h4.step (hclear rfl (by simp)) (.client 0 (.compile rfl))
  have h6 := h5.step (hclear rfl (by simp)) (.client 0 (.put rfl))
  have h7 := h6.step (hclear rfl (by simp)) (.client 0 (.lookup rfl List.lookup_cons_self))
  exact ⟨_, _, h7, List.mem_cons_self⟩

/-- It runs a kernel for four elements on vectors of two. -/
theorem construct_run_not_covered :
    ∃ s module, Reach (SessionStep fun dim => dim.toUInt64) (fun _ _ => True)
        (construct { param_shapes := [[4]] } 1) s ∧
      .execute ⟨[[2]]⟩ ⟨[[2]]⟩ module true ∈ s.clients ∧ ¬Covers [[2]] module.extents := by
  obtain ⟨s, module, h, hrun⟩ := construct_first_run ⟨[[2]]⟩
  refine ⟨s, module, h.any, hrun, fun hcovers => ?_⟩
  have hs : s.Compiled { param_shapes := [[4]] } := h.invariant (construct_compiled _ _)
    fun _ _ _ hs _ hstep => hstep.compiled hs
  rw [hs.clients _ hrun module rfl] at hcovers
  exact absurd hcovers (by simp [Covers])

/-- On vectors of six elements the kernel is for no more than there are. -/
theorem construct_run_covered_six :
    ∃ s module, Reach (SessionStep fun dim => dim.toUInt64) (fun _ _ => True)
        (construct { param_shapes := [[4]] } 1) s ∧
      .execute ⟨[[6]]⟩ ⟨[[6]]⟩ module true ∈ s.clients ∧ Covers [[6]] module.extents := by
  obtain ⟨s, module, h, hrun⟩ := construct_first_run ⟨[[6]]⟩
  exact ⟨s, module, h.any, hrun, (construct_run_covered _ _ 1 h.any hrun).mpr (by simp [Covers])⟩

/-! ### The modules that clients run -/

theorem RuntimeSession.Intact.setClient (hs : s.Intact) {i : Nat} {c : Client}
    (hc : ∀ sig key module schedules, c = .execute sig key module schedules →
      s.cache_.GetExact key = some module) : (s.setClient i c).Intact := by
  intro sig key module schedules hmem
  rcases List.mem_or_eq_of_mem_set hmem with hmem | rfl
  · exact hs sig key module schedules hmem
  · exact hc sig key module schedules rfl

/-- A module is put under a signature whose module no client runs. -/
theorem RuntimeSession.Intact.put (hs : s.Intact) {sig : ShapeSignature} {module : CompiledModule}
    (hclear : s.Clear (.put sig)) : { s with cache_ := s.cache_.Put sig module }.Intact := by
  intro sig' key module' schedules hmem
  have hne : key ≠ sig := fun h => hclear sig' key module' schedules hmem (h ▸ rfl)
  rw [KernelCache.GetExact_put, if_neg hne]
  exact hs sig' key module' schedules hmem

theorem ClientStep.intact {i : Nat} (h : ClientStep stdHash s i event s')
    (hkeyed : s.cache_.Keyed) (hclear : s.Clear event) (hs : s.Intact) : s'.Intact := by
  have hnone {c : Client} {t : RuntimeSession}
      (hc : ∀ sig key module schedules, c ≠ .execute sig key module schedules) :
      ∀ sig key module schedules, c = .execute sig key module schedules →
        t.cache_.GetExact key = some module :=
    fun _ _ _ _ h => (hc _ _ _ _ h).elim
  cases h
  case exactHit sig module h hfound =>
    exact hs.setClient fun _ _ _ _ heq => by cases heq; exact hfound
  case lookup sig module h hfound =>
    exact hs.setClient fun _ _ _ _ heq => by cases heq; exact hfound
  case fuzzyHit sig key module order h horder hfound =>
    refine hs.setClient fun _ _ _ _ heq => ?_
    cases heq
    exact KernelCache.GetExact_of_mem hkeyed
      (horder.mem_iff.mp (KernelCache.mem_of_GetFuzzy hfound))
  case execute sig key module schedules h =>
    refine hs.setClient (hnone ?_)
    cases schedules <;> simp
  case put sig module h =>
    exact (hs.put hclear).setClient (c := .lookup sig) (hnone (by simp))
  case warmPut sig module h =>
    exact (hs.put hclear).setClient (c := .idle) (hnone (by simp))
  all_goals exact hs.setClient (hnone (by simp))

theorem SessionStep.intact (h : SessionStep stdHash s event s') (hkeyed : s.cache_.Keyed)
    (hclear : s.Clear event) (hs : s.Intact) : s'.Intact := by
  rcases h with ⟨i, h⟩ | ⟨k, h⟩
  · exact h.intact hkeyed hclear hs
  · cases h with
    | compile h => exact hs
    | compileThrows h => exact hs
    | complete h => exact hs.put hclear

/-- The modules of number `n` in a cache, after a module was put into it. -/
theorem KernelCache.countP_put_le (cache_ : KernelCache) (sig : ShapeSignature)
    (module : CompiledModule) (n : Nat) :
    (cache_.Put sig module).countP (fun entry => entry.2.serial == n) ≤
      cache_.countP (fun entry => entry.2.serial == n) + (module.serial == n).toNat := by
  have hle : (cache_.filter fun entry => entry.1 != sig).countP (fun e => e.2.serial == n) ≤
      cache_.countP fun entry => entry.2.serial == n := List.filter_sublist.countP_le
  rw [Put, List.countP_cons]
  cases module.serial == n <;> simp at hle ⊢ <;> omega

theorem RuntimeSession.copies_setClient {i : Nat} {c : Client} (h : s.clients[i]? = some c)
    (d : Client) (n : Nat) :
    (s.setClient i d).copies n + (c.puts n).toNat = s.copies n + (d.puts n).toNat := by
  have hle := toNat_le_countP h (Client.puts n)
  have hset := countP_set h d (Client.puts n)
  simp only [copies, setClient]
  omega

theorem RuntimeSession.copies_put_le (s : RuntimeSession) (sig : ShapeSignature)
    (module : CompiledModule) (n : Nat) :
    { s with cache_ := s.cache_.Put sig module }.copies n ≤
      s.copies n + (module.serial == n).toNat := by
  have hput := s.cache_.countP_put_le sig module n
  simp only [copies]
  omega

/-- A step makes at most one module, and that one has a new number. -/
structure RuntimeSession.Makes (s s' : RuntimeSession) : Prop where
  keyed : s.cache_.Keyed → s'.cache_.Keyed
  copies : s'.compiled = s.compiled ∧ (∀ n, s'.copies n ≤ s.copies n) ∨
    s'.compiled = s.compiled + 1 ∧ ∀ n, s'.copies n ≤ s.copies n + (s.compiled == n).toNat

theorem RuntimeSession.Makes.putOnce (h : s.Makes s') (hs : s.PutOnce) : s'.PutOnce := by
  refine ⟨h.keyed hs.keyed, fun n => ?_, fun n hn => ?_⟩
  · have honce := hs.once n
    rcases h.copies with ⟨-, hle⟩ | ⟨-, hle⟩
    · exact Nat.le_trans (hle n) honce
    · have := hle n
      by_cases hnew : s.compiled = n
      · have := hs.fresh n (Nat.le_of_eq hnew)
        simp only [hnew, beq_self_eq_true, Bool.toNat_true] at *
        omega
      · simp only [beq_false_of_ne hnew, Bool.toNat_false] at *
        omega
  · rcases h.copies with ⟨hcompiled, hle⟩ | ⟨hcompiled, hle⟩
    · have := hle n
      have := hs.fresh n (by omega)
      omega
    · have := hle n
      have := hs.fresh n (by omega)
      have hold : s.compiled ≠ n := by omega
      simp only [beq_false_of_ne hold, Bool.toNat_false] at *
      omega

/-- A client moves that is not about to put anything. -/
theorem RuntimeSession.Makes.move {i : Nat} {c d : Client} (h : s.clients[i]? = some c)
    (hc : ∀ n, d.puts n = false) : s.Makes (s.setClient i d) := by
  refine ⟨id, Or.inl ⟨rfl, fun n => ?_⟩⟩
  have := copies_setClient h d n
  simp only [hc, Bool.toNat_false] at this
  omega

theorem ClientStep.makes {i : Nat} (h : ClientStep stdHash s i event s') : s.Makes s' := by
  cases h
  case compile sig h =>
    refine ⟨id, Or.inr ⟨rfl, fun n => ?_⟩⟩
    have hset := copies_setClient h (.put sig s.Compile) n
    exact Nat.le_trans (Nat.le_add_right _ _) (Nat.le_of_eq hset)
  case warmCompile sig h =>
    refine ⟨id, Or.inr ⟨rfl, fun n => ?_⟩⟩
    have hset := copies_setClient h (.warmPut sig s.Compile) n
    exact Nat.le_trans (Nat.le_add_right _ _) (Nat.le_of_eq hset)
  case put sig module h =>
    refine ⟨fun hkeyed => hkeyed.put sig module, Or.inl ⟨rfl, fun n => ?_⟩⟩
    have hput := (s.setClient i (.lookup sig)).copies_put_le sig module n
    have hset : _ + (module.serial == n).toNat = _ + 0 := copies_setClient h (.lookup sig) n
    exact Nat.le_trans hput (Nat.le_of_eq hset)
  case warmPut sig module h =>
    refine ⟨fun hkeyed => hkeyed.put sig module, Or.inl ⟨rfl, fun n => ?_⟩⟩
    have hput := (s.setClient i .idle).copies_put_le sig module n
    have hset : _ + (module.serial == n).toNat = _ + 0 := copies_setClient h .idle n
    exact Nat.le_trans hput (Nat.le_of_eq hset)
  case execute sig key module schedules h =>
    refine .move h fun n => ?_
    cases schedules <;> rfl
  case record sig h => exact ⟨id, (Makes.move h (d := .getExact sig) fun _ => rfl).copies⟩
  case schedule sig h hcompile hnew =>
    refine ⟨id, Or.inl ⟨rfl, fun n => ?_⟩⟩
    have hset : _ + 0 = _ + 0 := copies_setClient h .idle n
    refine Nat.le_trans (Nat.le_of_eq ?_) (Nat.le_of_eq hset)
    simp [copies, setClient, List.countP_append, Background.puts]
  all_goals
    refine .move (by assumption) fun n => ?_
    rfl

theorem BackgroundStep.makes {k : Nat} (h : BackgroundStep s k event s') : s.Makes s' := by
  cases h
  case compile sig h =>
    refine ⟨id, Or.inr ⟨rfl, fun n => ?_⟩⟩
    have hset := countP_set h (.compiled sig s.Compile) (Background.puts n)
    have hnew : (Background.compiled sig s.Compile).puts n = (s.compiled == n) := rfl
    rw [hnew] at hset
    simp only [copies]
    omega
  case compileThrows sig h =>
    refine ⟨id, Or.inl ⟨rfl, fun n => ?_⟩⟩
    have hle := (List.eraseIdx_sublist s.background k).countP_le (p := Background.puts n)
    simp only [copies]
    omega
  case complete sig module h =>
    refine ⟨fun hkeyed => hkeyed.put sig module, Or.inl ⟨rfl, fun n => ?_⟩⟩
    have hput := { s with background := s.background.eraseIdx k }.copies_put_le sig module n
    have herase := countP_eraseIdx h (Background.puts n)
    have hgone : (Background.compiled sig module).puts n = (module.serial == n) := rfl
    rw [hgone] at herase
    simp only [copies] at hput ⊢
    omega

theorem SessionStep.makes (h : SessionStep stdHash s event s') : s.Makes s' := by
  rcases h with ⟨i, h⟩ | ⟨k, h⟩
  · exact h.makes
  · exact h.makes

theorem construct_putOnce (func : RelayFunction) (clients : Nat) :
    (construct func clients).PutOnce := by
  have hcopies (n : Nat) : (construct func clients).copies n = 0 := by
    have : (List.replicate clients Client.idle).countP (Client.puts n) = 0 :=
      List.countP_eq_zero.mpr fun c hc => by simp [List.eq_of_mem_replicate hc, Client.puts]
    simp [copies, construct, this]
  exact ⟨List.nodup_nil, fun n => by rw [hcopies]; omega, fun n _ => hcopies n⟩

theorem RuntimeSession.mem_setClient {i : Nat} {c d e : Client} (h : s.clients[i]? = some c)
    (hmem : e ∈ s.clients) (hne : e ≠ c) : e ∈ (s.setClient i d).clients := by
  obtain ⟨j, hj⟩ := List.mem_iff_getElem?.mp hmem
  have hij : i ≠ j := by
    rintro rfl
    exact hne (Option.some.inj (hj.symm.trans h))
  exact List.mem_of_getElem? ((List.getElem?_set_ne hij).trans hj)

/-- A module that a client runs is not one that is about to be put. -/
theorem RuntimeSession.PutOnce.serial_ne (hs : s.PutOnce) (hintact : s.Intact)
    {sig key : ShapeSignature} {module new : CompiledModule} {schedules : Bool}
    (hrun : .execute sig key module schedules ∈ s.clients)
    (hnew : 0 < s.clients.countP (Client.puts new.serial) +
      s.background.countP (Background.puts new.serial)) : module ≠ new := by
  rintro rfl
  have hcached : 0 < s.cache_.countP fun entry => entry.2.serial == module.serial :=
    List.countP_pos_iff.mpr ⟨_, KernelCache.mem_of_GetExact (hintact _ _ _ _ hrun), beq_self_eq_true _⟩
  have honce := hs.once module.serial
  simp only [copies] at honce
  omega

/-- What a step that puts does: the module that it puts was about to be put, and the clients that
run something go on. -/
theorem SessionStep.put_cases {key : ShapeSignature} (h : SessionStep stdHash s (.put key) s') :
    ∃ new : CompiledModule, 0 < s.clients.countP (Client.puts new.serial) +
        s.background.countP (Background.puts new.serial) ∧
      s'.cache_.GetExact key = some new ∧
      ∀ sig key module schedules, .execute sig key module schedules ∈ s.clients →
        .execute sig key module schedules ∈ s'.clients := by
  have hfound (new : CompiledModule) : (s.cache_.Put key new).GetExact key = some new := by
    rw [KernelCache.GetExact_put, if_pos rfl]
  rcases h with ⟨i, h⟩ | ⟨k, h⟩
  · cases h
    case put new h =>
      have := toNat_le_countP h (Client.puts new.serial)
      simp only [Client.puts, beq_self_eq_true, Bool.toNat_true] at this
      exact ⟨new, by omega, hfound new, fun _ _ _ _ hrun => mem_setClient h hrun (by simp)⟩
    case warmPut new h =>
      have := toNat_le_countP h (Client.puts new.serial)
      simp only [Client.puts, beq_self_eq_true, Bool.toNat_true] at this
      exact ⟨new, by omega, hfound new, fun _ _ _ _ hrun => mem_setClient h hrun (by simp)⟩
  · cases h
    case complete new h =>
      have := toNat_le_countP h (Background.puts new.serial)
      simp only [Background.puts, beq_self_eq_true, Bool.toNat_true] at this
      exact ⟨new, by omega, hfound new, fun _ _ _ _ hrun => hrun⟩

end Kxc.Runtime

import Kxc.Lib.FirstLeast
import Mathlib.Data.List.Forall2

/-! The kernel cache and the shape predictor of the adaptive runtime (`runtime/kernel_cache.cc`,
`runtime/shape_predictor.cc`). -/

namespace Kxc.Runtime

open Lib

/-- The extents of one input. -/
abbrev Shape := List Int64

/-- `ShapeSignature`. -/
structure ShapeSignature where
  input_shapes : List Shape
  deriving DecidableEq

/-- `ShapeSignature::Hash`, with `std::hash<int64_t>` as a parameter. -/
def ShapeSignature.Hash (stdHash : Int64 → UInt64) (sig : ShapeSignature) : UInt64 :=
  let mix (seed value : UInt64) : UInt64 :=
    seed ^^^ (value + (0x9e3779b9 : UInt64) + (seed <<< 6) + (seed >>> 2))
  sig.input_shapes.foldl
    (fun seed shape => shape.foldl (fun seed dim => mix seed (stdHash dim))
      (mix seed (UInt64.ofNat shape.length)))
    (UInt64.ofNat sig.input_shapes.length)

/-- `shapes` covers `extents`: the same inputs and dimensions, and no extent is larger. -/
def Covers (shapes extents : List Shape) : Prop :=
  List.Forall₂ (List.Forall₂ (· ≤ ·)) extents shapes

/-- A compiled module, as far as the session knows it. -/
structure CompiledModule where
  /-- The extents of the inputs that its kernel was compiled for. -/
  extents : List Shape
  /-- Tells the modules apart that were compiled one after another. -/
  serial : Nat
  deriving DecidableEq

/-- `cache_`, in the order of its iteration. -/
abbrev KernelCache := List (ShapeSignature × CompiledModule)

namespace KernelCache

/-- `KernelCache::GetExact`: the module that the pointer points to. -/
def GetExact (cache_ : KernelCache) (sig : ShapeSignature) : Option CompiledModule :=
  cache_.lookup sig

/-- `KernelCache::Put`. -/
def Put (cache_ : KernelCache) (sig : ShapeSignature) (module : CompiledModule) : KernelCache :=
  (sig, module) :: cache_.filter fun entry => entry.1 != sig

/-- `KernelCache::Has`. -/
def Has (cache_ : KernelCache) (sig : ShapeSignature) : Bool := (cache_.GetExact sig).isSome

/-- The loop of `KernelCache::ShapeDistance` over the dimensions of one input. -/
def addDistance : Shape → Shape → Int64 → Option Int64
  | [], [], total_dist => some total_dist
  | q :: query, c :: cached, total_dist =>
    if c < q then none else addDistance query cached (total_dist + (c - q))
  | _, _, _ => none

/-- The loop of `KernelCache::ShapeDistance` over the inputs. -/
def totalDistance : List Shape → List Shape → Int64 → Option Int64
  | [], [], total_dist => some total_dist
  | q :: query, c :: cached, total_dist =>
    match addDistance q c total_dist with
    | some total_dist => totalDistance query cached total_dist
    | none => none
  | _, _, _ => none

/-- `KernelCache::ShapeDistance`. -/
def ShapeDistance (query cached : ShapeSignature) : Int64 :=
  (totalDistance query.input_shapes cached.input_shapes 0).getD (-1)

/-- The body of the loop of `KernelCache::GetFuzzy`: `best` and `best_dist`. -/
def nearer (sig : ShapeSignature) (best : Option (ShapeSignature × CompiledModule) × Int64)
    (entry : ShapeSignature × CompiledModule) :
    Option (ShapeSignature × CompiledModule) × Int64 :=
  let dist := ShapeDistance sig entry.1
  if 0 ≤ dist ∧ dist < best.2 then (some entry, dist) else best

/-- `KernelCache::GetFuzzy`: the entry whose module the pointer points to. -/
def GetFuzzy (cache_ : KernelCache) (sig : ShapeSignature) :
    Option (ShapeSignature × CompiledModule) :=
  (cache_.foldl (nearer sig) (none, Int64.maxValue)).1

theorem GetExact_put (cache_ : KernelCache) (sig sig' : ShapeSignature)
    (module : CompiledModule) :
    (cache_.Put sig module).GetExact sig' =
      if sig' = sig then some module else cache_.GetExact sig' := by
  by_cases h : sig' = sig
  · subst h
    simp [GetExact, Put]
  · rw [if_neg h, GetExact, Put, List.lookup_cons, beq_false_of_ne h]
    induction cache_ with
    | nil => rfl
    | cons entry cache_ ih =>
      obtain ⟨key, value⟩ := entry
      by_cases hkey : key = sig
      · subst hkey
        simpa [GetExact, List.lookup_cons, beq_false_of_ne h] using ih
      · have hkeep : (key != sig) = true := by simpa using hkey
        simp only [List.filter_cons, hkeep, if_true, GetExact, List.lookup_cons] at ih ⊢
        split
        · rfl
        · exact ih

/-- A module is found under its signature only if it is in the cache. -/
theorem mem_of_GetExact {cache_ : KernelCache} {sig : ShapeSignature} {module : CompiledModule}
    (h : cache_.GetExact sig = some module) : (sig, module) ∈ cache_ := by
  obtain ⟨l₁, l₂, rfl, -⟩ := List.lookup_eq_some_iff.mp h
  exact List.mem_append_right l₁ List.mem_cons_self

/-- `GetFuzzy` finds the first of the nearest entries, if any distance is in range. -/
theorem GetFuzzy_cases (cache_ : KernelCache) (sig : ShapeSignature) :
    (cache_.GetFuzzy sig = none ∧
        ∀ entry ∈ cache_, 0 ≤ ShapeDistance sig entry.1 →
          Int64.maxValue ≤ ShapeDistance sig entry.1) ∨
      ∃ entry, cache_.GetFuzzy sig = some entry ∧
        ShapeDistance sig entry.1 < Int64.maxValue ∧
        FirstLeast (fun entry => 0 ≤ ShapeDistance sig entry.1)
          (fun entry => ShapeDistance sig entry.1) cache_ entry := by
  rcases scanLeast_foldl (fun entry => 0 ≤ ShapeDistance sig entry.1)
      (fun entry => ShapeDistance sig entry.1) cache_ Int64.maxValue with
    ⟨hfold, hnone⟩ | ⟨entry, hfold, hbound, hfirst⟩
  · exact Or.inl ⟨congrArg Prod.fst hfold, hnone⟩
  · exact Or.inr ⟨entry, congrArg Prod.fst hfold, hbound, hfirst⟩

theorem mem_of_GetFuzzy {cache_ : KernelCache} {sig : ShapeSignature}
    {entry : ShapeSignature × CompiledModule} (h : cache_.GetFuzzy sig = some entry) :
    entry ∈ cache_ := by
  rcases cache_.GetFuzzy_cases sig with ⟨hnone, -⟩ | ⟨found, hfound, -, hfirst⟩
  · rw [hnone] at h
    cases h
  · obtain rfl := Option.some.inj (hfound.symm.trans h)
    exact hfirst.mem

/-- The keys of a cache are distinct, as in a map. -/
def Keyed (cache_ : KernelCache) : Prop := (cache_.map Prod.fst).Nodup

theorem GetExact_of_mem {cache_ : KernelCache} (hkeyed : cache_.Keyed) {sig : ShapeSignature}
    {module : CompiledModule} (h : (sig, module) ∈ cache_) : cache_.GetExact sig = some module := by
  induction cache_ with
  | nil => cases h
  | cons entry cache_ ih =>
    obtain ⟨key, value⟩ := entry
    obtain ⟨hnew, hkeyed⟩ := List.nodup_cons.mp hkeyed
    rcases List.mem_cons.mp h with heq | hmem
    · cases heq
      simp [GetExact]
    · have hne : sig ≠ key := by
        rintro rfl
        exact hnew (List.mem_map.mpr ⟨_, hmem, rfl⟩)
      rw [GetExact, List.lookup_cons, beq_false_of_ne hne]
      exact ih hkeyed hmem

theorem Keyed.put {cache_ : KernelCache} (hkeyed : cache_.Keyed) (sig : ShapeSignature)
    (module : CompiledModule) : (cache_.Put sig module).Keyed := by
  refine List.nodup_cons.mpr ⟨fun h => ?_, ?_⟩
  · obtain ⟨entry, hentry, rfl⟩ := List.mem_map.mp h
    simpa using (List.mem_filter.mp hentry).2
  · exact hkeyed.sublist (List.filter_sublist.map Prod.fst)

theorem Keyed.perm {cache_ order : KernelCache} (hkeyed : cache_.Keyed)
    (h : order.Perm cache_) : order.Keyed := (h.map Prod.fst).nodup_iff.mpr hkeyed

end KernelCache

/-- `ShapePredictor`: how often each shape was seen, and how many shapes were seen. -/
structure ShapePredictor where
  freq_ : ShapeSignature → Nat := fun _ => 0
  total_count_ : Nat := 0

namespace ShapePredictor

/-- `ShapePredictor::Record`. -/
def Record (p : ShapePredictor) (sig : ShapeSignature) : ShapePredictor where
  freq_ := fun s => if s = sig then p.freq_ s + 1 else p.freq_ s
  total_count_ := p.total_count_ + 1

/-- `ShapePredictor::GetCount`. -/
def GetCount (p : ShapePredictor) (sig : ShapeSignature) : Nat := p.freq_ sig

/-- `ShapePredictor::ShouldCompile`. -/
def ShouldCompile (p : ShapePredictor) (sig : ShapeSignature) (count_threshold : Nat)
    (ratio_threshold : Float) : Bool :=
  let count := p.freq_ sig
  if count = 0 ∨ count < count_threshold then false
  else if 0 < p.total_count_ ∧ count.toFloat / p.total_count_.toFloat ≥ ratio_threshold then true
  else decide (count_threshold ≤ count)

end ShapePredictor

end Kxc.Runtime

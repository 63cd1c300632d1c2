import Kxc.Runtime.RuntimeSession
import Mathlib.Data.List.Nodup

/-! Which shapes an adaptive session submits for background compilation, and how often. -/

namespace Kxc.Runtime

open RuntimeSession

/-- The shape that a background compilation is for. -/
def Background.sig : Background → ShapeSignature
  | .queued sig | .compiled sig _ => sig

namespace RuntimeSession

/-- The shape that client `i` has run, if that was no exact hit and `ShouldCompile` holds now. -/
def due (s : RuntimeSession) (i : Nat) : List ShapeSignature :=
  match s.clients[i]? with
  | some (.schedule sig) => if s.predictor_.ShouldCompile sig 2 0.05 then [sig] else []
  | _ => []

/-- The shapes of the tasks that `s'` has queued after those of `s`. -/
def submits (s s' : RuntimeSession) : List ShapeSignature :=
  (s'.background.drop s.background.length).map Background.sig

end RuntimeSession

/-- A run of a session, with the shapes that were due at the ends of `Run` and those that were
submitted. -/
inductive SessionHistory (stdHash : Int64 → UInt64) (start : RuntimeSession) :
    RuntimeSession → List ShapeSignature → List ShapeSignature → Prop
  | start : SessionHistory stdHash start start [] []
  | client {s s' due submitted event} (i : Nat) (h : SessionHistory stdHash start s due submitted)
    (hstep : ClientStep stdHash s i event s') :
    SessionHistory stdHash start s' (due ++ s.due i) (submitted ++ s.submits s')
  | background {s s' due submitted event} (k : Nat)
    (h : SessionHistory stdHash start s due submitted) (hstep : BackgroundStep s k event s') :
    SessionHistory stdHash start s' due (submitted ++ s.submits s')

/-- What `submitted_shapes_` records: the hashes of the submitted shapes, all different, and those of
all shapes that were due. -/
structure RecordsHashes (stdHash : Int64 → UInt64) (submitted_shapes_ : List UInt64)
    (due submitted : List ShapeSignature) : Prop where
  hashes : ∀ hash, hash ∈ submitted_shapes_ ↔ hash ∈ submitted.map (·.Hash stdHash)
  once : (submitted.map (·.Hash stdHash)).Nodup
  wereDue : ∀ sig ∈ submitted, sig ∈ due
  covers : ∀ sig ∈ due, sig.Hash stdHash ∈ submitted_shapes_

variable {stdHash : Int64 → UInt64} {start s s' : RuntimeSession} {event : CacheEvent}
  {due submitted : List ShapeSignature}

/-- `ShouldCompile` counts; the ratio does not matter. -/
theorem ShapePredictor.ShouldCompile_eq (p : ShapePredictor) (sig : ShapeSignature) (ratio : Float) :
    p.ShouldCompile sig 2 ratio = decide (2 ≤ p.freq_ sig) := by
  rw [ShouldCompile]
  split
  · rename_i hfew
    exact (decide_eq_false (by omega)).symm
  · rename_i hmany
    split
    · exact (decide_eq_true (by omega)).symm
    · rfl

theorem RuntimeSession.due_schedule {i : Nat} {sig : ShapeSignature}
    (h : s.clients[i]? = some (.schedule sig)) :
    s.due i = if 2 ≤ s.predictor_.freq_ sig then [sig] else [] := by
  simp [RuntimeSession.due, h, ShapePredictor.ShouldCompile_eq]

/-- A step of a client either submits the shape that is due, whose hash is new, or submits nothing,
and then the hash of the shape that is due is recorded. -/
theorem ClientStep.submits_cases {i : Nat} (h : ClientStep stdHash s i event s') :
    (∃ sig, s.due i = [sig] ∧ s.submits s' = [sig] ∧ sig.Hash stdHash ∉ s.submitted_shapes_ ∧
        s'.submitted_shapes_ = sig.Hash stdHash :: s.submitted_shapes_) ∨
      s.submits s' = [] ∧ s'.submitted_shapes_ = s.submitted_shapes_ ∧
        ∀ sig ∈ s.due i, sig.Hash stdHash ∈ s.submitted_shapes_ := by
  cases h
  case schedule sig h hcompile hnew =>
    rw [ShapePredictor.ShouldCompile_eq, decide_eq_true_eq] at hcompile
    refine Or.inl ⟨sig, ?_, ?_, hnew, rfl⟩
    · rw [due_schedule h, if_pos hcompile]
    · simp [submits, Background.sig]
  case scheduleNothing sig h hskip =>
    refine Or.inr ⟨by simp [submits, setClient], rfl, fun sig' hsig => ?_⟩
    rw [due_schedule h] at hsig
    rcases hskip with hfew | hold
    · rw [ShapePredictor.ShouldCompile_eq, decide_eq_false_iff_not] at hfew
      rw [if_neg hfew] at hsig
      cases hsig
    · obtain rfl : sig' = sig := by
        split at hsig
        · exact List.mem_singleton.mp hsig
        · cases hsig
      exact hold
  all_goals
    rename_i h
    exact Or.inr ⟨by simp [submits, setClient], rfl, by simp [RuntimeSession.due, *]⟩

theorem BackgroundStep.submits_nil {k : Nat} (h : BackgroundStep s k event s') :
    s.submits s' = [] ∧ s'.submitted_shapes_ = s.submitted_shapes_ := by
  cases h with
  | compile => simp [submits]
  | compileThrows | complete =>
    refine ⟨?_, rfl⟩
    rw [submits, List.map_eq_nil_iff, List.drop_eq_nil_iff]
    exact List.length_eraseIdx_le _ _

/-- After every history of a session that has not submitted anything, `submitted_shapes_` records the
shapes by their hashes. -/
theorem SessionHistory.recordsHashes (h : SessionHistory stdHash start s due submitted)
    (hstart : start.submitted_shapes_ = []) :
    RecordsHashes stdHash s.submitted_shapes_ due submitted := by
  induction h with
  | start => exact ⟨by simp [hstart], List.nodup_nil, nofun, nofun⟩
  | client i h hstep ih =>
    rcases hstep.submits_cases with ⟨sig, hdue, hsubmits, hnew, hset⟩ | ⟨hsubmits, hset, hdue⟩
    · rw [hdue, hsubmits, hset]
      refine ⟨fun hash => ?_, ?_, fun sig' hsig => ?_, fun sig' hsig => ?_⟩
      · rw [List.mem_cons, ih.hashes, List.map_append, List.mem_append, List.map_cons,
          List.map_nil, List.mem_singleton, or_comm]
      · rw [List.map_append, List.nodup_append]
        refine ⟨ih.once, by simp, fun hash hold other hother heq => ?_⟩
        rw [List.mem_singleton.mp hother] at heq
        rw [heq, ← ih.hashes] at hold
        exact hnew hold
      · exact List.mem_append.mpr ((List.mem_append.mp hsig).imp_left (ih.wereDue sig'))
      · rcases List.mem_append.mp hsig with hsig | hsig
        · exact List.mem_cons_of_mem _ (ih.covers sig' hsig)
        · rw [List.mem_singleton.mp hsig]
          exact List.mem_cons_self
    · rw [hsubmits, hset, List.append_nil]
      refine ⟨ih.hashes, ih.once, fun sig hsig => List.mem_append_left _ (ih.wereDue sig hsig),
        fun sig hsig => ?_⟩
      exact (List.mem_append.mp hsig).elim (ih.covers sig) (hdue sig)
  | background k h hstep ih =>
    obtain ⟨hsubmits, hset⟩ := hstep.submits_nil
    rwa [hsubmits, hset, List.append_nil]

/-- Of the shapes that were due, each one is submitted exactly once if and only if no two of them
have one hash. -/
theorem RecordsHashes.once_iff {submitted_shapes_ : List UInt64}
    (h : RecordsHashes stdHash submitted_shapes_ due submitted) :
    (∀ sig ∈ due, submitted.count sig = 1) ↔
      ∀ sig ∈ due, ∀ other ∈ due, sig.Hash stdHash = other.Hash stdHash → sig = other := by
  constructor
  · intro honce sig hsig other hother heq
    refine List.inj_on_of_nodup_map h.once ?_ ?_ heq
    · exact List.count_pos_iff.mp (by rw [honce sig hsig]; decide)
    · exact List.count_pos_iff.mp (by rw [honce other hother]; decide)
  · intro hinj sig hsig
    obtain ⟨other, hother, heq⟩ := List.mem_map.mp ((h.hashes _).mp (h.covers sig hsig))
    obtain rfl := hinj other (h.wereDue other hother) sig hsig heq
    exact List.count_eq_one_of_mem (h.once.of_map _) hother

/-- However the threads of a session take turns, each shape for which `ShouldCompile` holds at the end
of a `Run` that was no exact hit is submitted exactly once if and only if no two such shapes have
one hash. -/
theorem construct_submits_once_iff (stdHash : Int64 → UInt64) (func : RelayFunction) (clients : Nat)
    {s : RuntimeSession} {due submitted : List ShapeSignature}
    (h : SessionHistory stdHash (construct func clients) s due submitted) :
    (∀ sig ∈ due, submitted.count sig = 1) ↔
      ∀ sig ∈ due, ∀ other ∈ due, sig.Hash stdHash = other.Hash stdHash → sig = other :=
  (h.recordsHashes rfl).once_iff

/-! ### One client that runs one shape after another -/

/-- The only client of the session is at `c`. -/
structure Stands (c : Client) (cache_ : KernelCache) (predictor_ : ShapePredictor)
    (submitted_shapes_ : List UInt64) (s : RuntimeSession) : Prop where
  clients : s.clients = [c]
  cache_ : s.cache_ = cache_
  predictor_ : s.predictor_ = predictor_
  submitted_shapes_ : s.submitted_shapes_ = submitted_shapes_

variable {cache_ : KernelCache} {p : ShapePredictor} {hashes : List UInt64} {sig : ShapeSignature}

theorem RuntimeSession.submits_same (h : s'.background = s.background) : s.submits s' = [] := by
  rw [submits, h, List.drop_length, List.map_nil]

theorem RuntimeSession.submits_queued (h : s'.background = s.background ++ [.queued sig]) :
    s.submits s' = [sig] := by
  rw [submits, h, List.drop_left]
  rfl

theorem SessionHistory.clientStep {i : Nat} {newDue newSubmitted : List ShapeSignature}
    (h : SessionHistory stdHash start s due submitted) (hstep : ClientStep stdHash s i event s')
    (hdue : s.due i = newDue) (hsubmits : s.submits s' = newSubmitted) :
    SessionHistory stdHash start s' (due ++ newDue) (submitted ++ newSubmitted) :=
  hdue ▸ hsubmits ▸ h.client i hstep

/-- A step that queues no task, of a client that is not about to. -/
theorem SessionHistory.quiet {i : Nat} (h : SessionHistory stdHash start s due submitted)
    (hstep : ClientStep stdHash s i event s') (hdue : s.due i = [])
    (hbackground : s'.background = s.background) :
    SessionHistory stdHash start s' due submitted := by
  simpa using h.clientStep hstep hdue (submits_same hbackground)

/-- A `Run` of a shape that finds a kernel for larger ones. -/
theorem SessionHistory.fuzzyRun {key : ShapeSignature} {module : CompiledModule}
    (h : SessionHistory stdHash start s due submitted) (hs : Stands .idle cache_ p hashes s)
    (sig : ShapeSignature)
    (hmiss : cache_.GetExact sig = none) (hfound : cache_.GetFuzzy sig = some (key, module)) :
    ∃ s', SessionHistory stdHash start s' due submitted ∧
      Stands (.schedule sig) cache_ (p.Record sig) hashes s' := by
  obtain ⟨func, cache, predictor, submittedShapes, clients, background, compiled⟩ := s
  obtain ⟨rfl, rfl, rfl, rfl⟩ := hs
  have h1 := h.quiet (i := 0) (.run sig rfl) rfl rfl
  have h2 := h1.quiet (i := 0) (.record rfl) rfl rfl
  have h3 := h2.quiet (i := 0) (.exactMiss rfl hmiss) rfl rfl
  have h4 := h3.quiet (i := 0) (.fuzzyHit rfl (.refl _) hfound) rfl rfl
  exact ⟨_, h4.quiet (i := 0) (.execute rfl) rfl rfl, rfl, rfl, rfl, rfl⟩

/-- A `Run` of a shape for which there is no kernel. -/
theorem SessionHistory.missRun (h : SessionHistory stdHash start s due submitted)
    (hs : Stands .idle cache_ p hashes s) (sig : ShapeSignature) (hexact : cache_.GetExact sig = none)
    (hfuzzy : cache_.GetFuzzy sig = none) :
    ∃ s' module, SessionHistory stdHash start s' due submitted ∧
      Stands (.schedule sig) (cache_.Put sig module) (p.Record sig) hashes s' := by
  obtain ⟨func, cache, predictor, submittedShapes, clients, background, compiled⟩ := s
  obtain ⟨rfl, rfl, rfl, rfl⟩ := hs
  have h1 := h.quiet (i := 0) (.run sig rfl) rfl rfl
  have h2 := h1.quiet (i := 0) (.record rfl) rfl rfl
  have h3 := h2.quiet (i := 0) (.exactMiss rfl hexact) rfl rfl
  have h4 := h3.quiet (i := 0) (.fuzzyMiss rfl (.refl _) hfuzzy) rfl rfl
  have h5 := h4.quiet (i := 0) (.compile rfl) rfl rfl
  have h6 := h5.quiet (i := 0) (.put rfl) rfl rfl
  have h7 := h6.quiet (i := 0) (.lookup rfl List.lookup_cons_self) rfl rfl
  exact ⟨_, _, h7.quiet (i := 0) (.execute rfl) rfl rfl, rfl, rfl, rfl, rfl⟩

/-- The end of a `Run` of a shape that was not seen often enough. -/
theorem SessionHistory.tooFew (h : SessionHistory stdHash start s due submitted)
    (hs : Stands (.schedule sig) cache_ p hashes s) (hfew : p.freq_ sig < 2) :
    ∃ s', SessionHistory stdHash start s' due submitted ∧ Stands .idle cache_ p hashes s' := by
  obtain ⟨func, cache, predictor, submittedShapes, clients, background, compiled⟩ := s
  obtain ⟨rfl, rfl, rfl, rfl⟩ := hs
  have hskip := (predictor.ShouldCompile_eq sig 0.05).trans (decide_eq_false (Nat.not_le.mpr hfew))
  refine ⟨_, h.quiet (i := 0) (.scheduleNothing rfl (Or.inl hskip)) ?_ rfl, rfl, rfl, rfl, rfl⟩
  rw [due_schedule rfl]
  exact if_neg (Nat.not_le.mpr hfew)

/-- The end of a `Run` of a shape that is submitted. -/
theorem SessionHistory.submit (h : SessionHistory stdHash start s due submitted)
    (hs : Stands (.schedule sig) cache_ p hashes s) (hmany : 2 ≤ p.freq_ sig)
    (hnew : sig.Hash stdHash ∉ hashes) :
    ∃ s', SessionHistory stdHash start s' (due ++ [sig]) (submitted ++ [sig]) ∧
      Stands .idle cache_ p (sig.Hash stdHash :: hashes) s' := by
  obtain ⟨func, cache, predictor, submittedShapes, clients, background, compiled⟩ := s
  obtain ⟨rfl, rfl, rfl, rfl⟩ := hs
  have hcompile := (predictor.ShouldCompile_eq sig 0.05).trans (decide_eq_true hmany)
  exact ⟨_, h.clientStep (i := 0) (.schedule rfl hcompile hnew)
    ((due_schedule rfl).trans (if_pos hmany)) (submits_queued rfl), rfl, rfl, rfl, rfl⟩

/-- The end of a `Run` of a shape that is due, but has the hash of a submitted one. -/
theorem SessionHistory.drop (h : SessionHistory stdHash start s due submitted)
    (hs : Stands (.schedule sig) cache_ p hashes s) (hmany : 2 ≤ p.freq_ sig)
    (hold : sig.Hash stdHash ∈ hashes) :
    ∃ s', SessionHistory stdHash start s' (due ++ [sig]) submitted ∧
      Stands .idle cache_ p hashes s' := by
  obtain ⟨func, cache, predictor, submittedShapes, clients, background, compiled⟩ := s
  obtain ⟨rfl, rfl, rfl, rfl⟩ := hs
  have hstep := h.clientStep (i := 0) (.scheduleNothing rfl (Or.inr hold))
    ((due_schedule rfl).trans (if_pos hmany)) (submits_same rfl)
  rw [List.append_nil] at hstep
  exact ⟨_, hstep, rfl, rfl, rfl, rfl⟩

theorem KernelCache.GetFuzzy_one {sig key : ShapeSignature} {module : CompiledModule}
    (hnonneg : 0 ≤ ShapeDistance sig key) (hlt : ShapeDistance sig key < Int64.maxValue) :
    GetFuzzy [(key, module)] sig = some (key, module) := by
  rw [GetFuzzy, List.foldl_cons, nearer, if_pos ⟨hnonneg, hlt⟩]
  rfl

/-- The shapes of a batch of one and of a batch of two have one hash. -/
theorem Hash_collides : (ShapeSignature.mk [[1, 66]]).Hash (fun dim => dim.toUInt64) =
    (ShapeSignature.mk [[2, 1]]).Hash fun dim => dim.toUInt64 := by decide

/-- A session of one client that has run a matrix once and a smaller one twice. -/
theorem construct_submits_smaller : ∃ s module,
    SessionHistory (fun dim => dim.toUInt64) (construct { param_shapes := [[2, 66]] } 1) s
      [⟨[[1, 66]]⟩] [⟨[[1, 66]]⟩] ∧
    Stands .idle [(⟨[[2, 66]]⟩, module)]
      (((({} : ShapePredictor).Record ⟨[[2, 66]]⟩).Record ⟨[[1, 66]]⟩).Record ⟨[[1, 66]]⟩)
      [(ShapeSignature.mk [[1, 66]]).Hash fun dim => dim.toUInt64] s := by
  have hstart : Stands .idle [] {} [] (construct { param_shapes := [[2, 66]] } 1) :=
    ⟨rfl, rfl, rfl, rfl⟩
  have hhit (module : CompiledModule) : KernelCache.GetFuzzy [(⟨[[2, 66]]⟩, module)] ⟨[[1, 66]]⟩ =
      some (⟨[[2, 66]]⟩, module) := KernelCache.GetFuzzy_one (by decide) (by decide)
  have hempty : SessionHistory (fun dim => dim.toUInt64)
      (construct { param_shapes := [[2, 66]] } 1) _ [] [] := .start
  obtain ⟨s₁, module, h₁, hs₁⟩ := hempty.missRun hstart ⟨[[2, 66]]⟩ rfl rfl
  obtain ⟨s₂, h₂, hs₂⟩ := h₁.tooFew hs₁ (by decide)
  obtain ⟨s₃, h₃, hs₃⟩ := h₂.fuzzyRun hs₂ ⟨[[1, 66]]⟩ rfl (hhit module)
  obtain ⟨s₄, h₄, hs₄⟩ := h₃.tooFew hs₃ (by decide)
  obtain ⟨s₅, h₅, hs₅⟩ := h₄.fuzzyRun hs₄ ⟨[[1, 66]]⟩ rfl (hhit module)
  obtain ⟨s₆, h₆, hs₆⟩ := h₅.submit hs₅ (by decide) nofun
  exact ⟨s₆, module, h₆, hs₆⟩

/-- The smaller one is submitted once. -/
theorem construct_submits_smaller_once : ∃ s,
    SessionHistory (fun dim => dim.toUInt64) (construct { param_shapes := [[2, 66]] } 1) s
      [⟨[[1, 66]]⟩] [⟨[[1, 66]]⟩] ∧
    ∀ sig ∈ [ShapeSignature.mk [[1, 66]]], [ShapeSignature.mk [[1, 66]]].count sig = 1 := by
  obtain ⟨s, module, h, -⟩ := construct_submits_smaller
  exact ⟨s, h, (construct_submits_once_iff _ _ 1 h).mpr (by simp)⟩

/-- A third matrix that is run twice after that is due, but it is never submitted. -/
theorem construct_drops_colliding : ∃ s due submitted,
    SessionHistory (fun dim => dim.toUInt64) (construct { param_shapes := [[2, 66]] } 1) s due
      submitted ∧ ¬∀ sig ∈ due, submitted.count sig = 1 := by
  obtain ⟨s₁, module, h₁, hs₁⟩ := construct_submits_smaller
  have hhit : KernelCache.GetFuzzy [(⟨[[2, 66]]⟩, module)] ⟨[[2, 1]]⟩ = some (⟨[[2, 66]]⟩, module) :=
    KernelCache.GetFuzzy_one (by decide) (by decide)
  obtain ⟨s₂, h₂, hs₂⟩ := h₁.fuzzyRun hs₁ ⟨[[2, 1]]⟩ rfl hhit
  obtain ⟨s₃, h₃, hs₃⟩ := h₂.tooFew hs₂ (by decide)
  obtain ⟨s₄, h₄, hs₄⟩ := h₃.fuzzyRun hs₃ ⟨[[2, 1]]⟩ rfl hhit
  obtain ⟨s₅, h₅, -⟩ := h₄.drop hs₄ (by decide) (List.mem_singleton.mpr Hash_collides.symm)
  refine ⟨s₅, _, _, h₅, fun honce => ?_⟩
  have hnever := honce ⟨[[2, 1]]⟩ (by simp)
  exact absurd hnever (by decide)

end Kxc.Runtime

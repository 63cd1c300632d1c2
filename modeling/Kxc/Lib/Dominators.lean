import Mathlib.Data.Finset.Card
import Mathlib.Tactic.Use

/-! Dominators of a rooted graph by paths, the equations that they solve, and the choice of the
immediate dominator by the size of its set. Paths are listed from their last node back to the
root. -/

namespace Kxc.Lib

variable {V : Type} (E : V → V → Prop) (root : V)

/-- A path from the root to a node, its last node first. -/
inductive Path : V → List V → Prop
  | root : Path root [root]
  | step {p n : V} {l : List V} : Path p l → E p n → Path n (n :: l)

/-- `d` lies on every path from the root to `n`. -/
def Dominates (d n : V) : Prop := ∀ l, Path E root n l → d ∈ l

/-- `d` is a dominator of `n` other than `n`, and every other such dominator dominates it. -/
structure ImmediateDominator (d n : V) : Prop where
  ne : d ≠ n
  dominates : Dominates E root d n
  last : ∀ c, c ≠ n → Dominates E root c n → Dominates E root c d

variable {E root}

theorem Path.self_mem {n : V} {l : List V} (h : Path E root n l) : n ∈ l := by
  cases h <;> exact List.mem_cons_self

theorem Path.root_mem {n : V} {l : List V} (h : Path E root n l) : root ∈ l := by
  induction h with
  | root => exact List.mem_cons_self
  | step _ _ ih => exact List.mem_cons_of_mem _ ih

/-- A path to `n` through a node that satisfies `P` leaves the last such node for `n`. -/
theorem Path.last {n : V} {l : List V} {P : V → Prop} (h : Path E root n l)
    (hp : ∃ x ∈ l, P x) :
    ∃ m suffix rest, P m ∧ Path E root m rest ∧ l = suffix ++ rest ∧ (∀ x ∈ suffix, ¬P x) ∧
      ∀ l', Path E root m l' → Path E root n (suffix ++ l') := by
  induction h with
  | root =>
    obtain ⟨x, hx, hp⟩ := hp
    obtain rfl := List.mem_singleton.mp hx
    exact ⟨x, [], [x], hp, .root, rfl, by simp, fun l' h' => h'⟩
  | @step p n l hpath hedge ih =>
    by_cases hn : P n
    · exact ⟨n, [], n :: l, hn, .step hpath hedge, rfl, by simp, fun l' h' => h'⟩
    · have hbefore : ∃ x ∈ l, P x := by
        obtain ⟨x, hx, hp⟩ := hp
        rcases List.mem_cons.mp hx with rfl | hx
        · exact absurd hp hn
        · exact ⟨x, hx, hp⟩
      obtain ⟨m, suffix, rest, hm, hrest, rfl, hnone, hthen⟩ := ih hbefore
      refine ⟨m, n :: suffix, rest, hm, hrest, rfl, ?_, fun l' h' => .step (hthen l' h') hedge⟩
      intro x hx
      rcases List.mem_cons.mp hx with rfl | hx
      · exact hn
      · exact hnone x hx

theorem dominates_self (n : V) : Dominates E root n n := fun _ h => h.self_mem

theorem dominates_root (n : V) : Dominates E root root n := fun _ h => h.root_mem

theorem Dominates.trans {a b c : V} (hab : Dominates E root a b) (hbc : Dominates E root b c) :
    Dominates E root a c := by
  intro l h
  obtain ⟨m, suffix, rest, rfl, hrest, rfl, _⟩ := h.last ⟨b, hbc l h, rfl⟩
  exact List.mem_append_right _ (hab rest hrest)

/-- Two dominators of a node that can be reached are comparable. -/
theorem Dominates.total {a b n : V} {l : List V} (hpath : Path E root n l)
    (ha : Dominates E root a n) (hb : Dominates E root b n) :
    Dominates E root a b ∨ Dominates E root b a := by
  obtain ⟨m, suffix, rest, hm, -, rfl, hnone, hthen⟩ :=
    hpath.last (P := fun x => x = a ∨ x = b) ⟨a, ha l hpath, Or.inl rfl⟩
  -- whichever of the two comes last on the path, the other is on every way to it
  rcases hm with rfl | rfl
  · right
    intro l' h'
    rcases List.mem_append.mp (hb _ (hthen l' h')) with hmem | hmem
    · exact absurd (Or.inr rfl) (hnone b hmem)
    · exact hmem
  · left
    intro l' h'
    rcases List.mem_append.mp (ha _ (hthen l' h')) with hmem | hmem
    · exact absurd (Or.inl rfl) (hnone a hmem)
    · exact hmem

/-- A dominator other than the node itself dominates the nodes before it. -/
theorem Dominates.pred {d p n : V} (h : Dominates E root d n) (hne : d ≠ n) (hedge : E p n) :
    Dominates E root d p :=
  fun _ hl => (List.mem_cons.mp (h _ (.step hl hedge))).resolve_left hne

section Ranked

variable {rank : V → Nat} (hrank : ∀ p n, E p n → rank n < rank p)
include hrank

/-- In a graph without cycles a path descends. -/
theorem Path.eq_or_rank_lt {n d : V} {l : List V} (h : Path E root n l) (hd : d ∈ l) :
    d = n ∨ rank n < rank d := by
  induction h with
  | root => exact Or.inl (List.mem_singleton.mp hd)
  | @step p n _ _ hedge ih =>
    rcases List.mem_cons.mp hd with rfl | hd
    · exact Or.inl rfl
    · have hlt := hrank p n hedge
      rcases ih hd with rfl | hd
      · exact Or.inr hlt
      · exact Or.inr (hlt.trans hd)

theorem Dominates.antisymm {a b : V} {l : List V} (hpath : Path E root a l)
    (hab : Dominates E root a b) (hba : Dominates E root b a) : a = b := by
  rcases hpath.eq_or_rank_lt hrank (hba l hpath) with rfl | hlt
  · rfl
  obtain ⟨m, suffix, rest, rfl, hrest, -⟩ := hpath.last ⟨b, hba l hpath, rfl⟩
  rcases hrest.eq_or_rank_lt hrank (hab rest hrest) with rfl | hlt'
  · rfl
  · exact absurd hlt' hlt.asymm

theorem ImmediateDominator.unique {d d' n : V} {l : List V} (hpath : Path E root n l)
    (h : ImmediateDominator E root d n) (h' : ImmediateDominator E root d' n) : d = d' := by
  obtain ⟨m, suffix, rest, rfl, hrest, -⟩ := hpath.last ⟨d, h.dominates l hpath, rfl⟩
  exact Dominates.antisymm hrank hrest (h'.last _ h.ne h.dominates) (h.last _ h'.ne h'.dominates)

/-- The dominator with the most dominators, among those other than the node, is the immediate
one. -/
theorem immediateDominator_of_card {D : V → Finset V} {d n : V} {l : List V}
    (hpath : Path E root n l)
    (hD : ∀ m l', Path E root m l' → ∀ x, x ∈ D m ↔ Dominates E root x m)
    (hd : Dominates E root d n) (hne : d ≠ n)
    (hmax : ∀ c, Dominates E root c n → c ≠ n → (D c).card ≤ (D d).card) :
    ImmediateDominator E root d n := by
  refine ⟨hne, hd, fun c hc hcn => ?_⟩
  rcases Dominates.total hpath hcn hd with h | hdc
  · exact h
  by_cases heq : c = d
  · exact heq ▸ dominates_self c
  -- otherwise `c` has all the dominators of `d` and itself
  obtain ⟨_, _, restc, rfl, hrestc, -⟩ := hpath.last ⟨c, hcn l hpath, rfl⟩
  obtain ⟨_, _, restd, rfl, hrestd, -⟩ := hpath.last ⟨d, hd l hpath, rfl⟩
  have hsub : D d ⊂ D c := by
    refine (Finset.ssubset_iff_of_subset fun x hx => ?_).mpr ⟨c, ?_, fun hmem => ?_⟩
    · exact (hD c _ hrestc x).mpr (((hD d _ hrestd x).mp hx).trans hdc)
    · exact (hD c _ hrestc c).mpr (dominates_self c)
    · exact heq (Dominates.antisymm hrank hrestc ((hD d _ hrestd c).mp hmem) hdc)
  exact absurd (hmax c hcn hc) (Nat.not_le.mpr (Finset.card_lt_card hsub))

end Ranked

/-- Sets that solve the equations of dominators from above hold no more than dominators. -/
theorem dominates_of_equations {D : V → Finset V} (hroot : ∀ x ∈ D root, x = root)
    (hstep : ∀ p l n, Path E root p l → E p n → n ≠ root → ∀ x ∈ D n, x = n ∨ x ∈ D p) {n x : V}
    (hx : x ∈ D n) : Dominates E root x n := by
  intro l h
  induction h with
  | root => exact List.mem_singleton.mpr (hroot x hx)
  | @step p n l hpath hedge ih =>
    by_cases hn : n = root
    · subst hn
      exact hroot x hx ▸ List.mem_cons_self
    · rcases hstep p l n hpath hedge hn x hx with rfl | hx
      · exact List.mem_cons_self
      · exact List.mem_cons_of_mem _ (ih hx)

end Kxc.Lib

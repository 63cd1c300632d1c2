import Mathlib.Data.List.Forall2

/-! Rewriters of trees, seen from their input: at each site a rewriter either puts another site in
its place or lets it stay above some sites. The nodes of the result then come from the sites that
stay and are reached, one for each way to reach them. -/

namespace Kxc.Lib.Rewriting

/-- What a rewriter does at a site. -/
inductive Move (S : Type) where
  | forward (s : S)
  | keep (parts : List S)

variable {S T : Type}

/-- The sites that stay, below a site. -/
inductive Kept (move : S → Move S) : S → S → Prop
  | self {s : S} {parts : List S} (hmove : move s = .keep parts) : Kept move s s
  | part {s t u : S} {parts : List S} (hmove : move s = .keep parts) (ht : t ∈ parts)
    (h : Kept move t u) : Kept move s u
  | forward {s t u : S} (hmove : move s = .forward t) (h : Kept move t u) : Kept move s u

/-- The nodes of a tree. -/
inductive Node (children : T → List T) : T → T → Prop
  | root (t : T) : Node children t t
  | child {t c u : T} (hc : c ∈ children t) (h : Node children c u) : Node children t u

/-- `t` is what the rewriter makes of the site `s`, where `same` relates a site that stays to the
node that it becomes. -/
inductive Outcome (move : S → Move S) (children : T → List T) (same : S → T → Prop) : S → T → Prop
  | keep {s : S} {t : T} {parts : List S} (hmove : move s = .keep parts) (hsame : same s t)
    (hlength : parts.length = (children t).length)
    (hparts : ∀ (k : Nat) (a : S) (b : T), parts[k]? = some a → (children t)[k]? = some b →
      Outcome move children same a b) : Outcome move children same s t
  | forward {s s' : S} {t : T} (hmove : move s = .forward s')
    (h : Outcome move children same s' t) : Outcome move children same s t

variable {move : S → Move S} {children : T → List T} {same : S → T → Prop}

/-- Every site that stays is a node of the result. -/
theorem Outcome.exists_node {s u : S} {t : T} (h : Outcome move children same s t)
    (hkept : Kept move s u) : ∃ v, Node children t v ∧ same u v := by
  induction hkept generalizing t with
  | self hmove =>
    cases h with
    | keep _ hsame => exact ⟨t, .root t, hsame⟩
    | forward hmove' => cases hmove.symm.trans hmove'
  | part hmove ha _ ih =>
    cases h with
    | keep hmove' _ hlength hparts =>
      obtain rfl := Move.keep.inj (hmove.symm.trans hmove')
      obtain ⟨k, hk, rfl⟩ := List.getElem_of_mem ha
      obtain ⟨v, hv, hsame⟩ := ih (hparts k _ _ (List.getElem?_eq_getElem hk)
        (List.getElem?_eq_getElem (hlength ▸ hk)))
      exact ⟨v, .child (List.getElem_mem _) hv, hsame⟩
    | forward hmove' => cases hmove.symm.trans hmove'
  | forward hmove _ ih =>
    cases h with
    | keep hmove' => cases hmove.symm.trans hmove'
    | forward hmove' h =>
      obtain rfl := Move.forward.inj (hmove.symm.trans hmove')
      exact ih h

/-- Every node of the result is a site that stays. -/
theorem Outcome.exists_kept {s : S} {t v : T} (h : Outcome move children same s t)
    (hnode : Node children t v) : ∃ u, Kept move s u ∧ same u v := by
  induction h with
  | keep hmove hsame hlength _ ih =>
    cases hnode with
    | root => exact ⟨_, .self hmove, hsame⟩
    | child hc h =>
      obtain ⟨k, hk, rfl⟩ := List.getElem_of_mem hc
      obtain ⟨u, hkept, hu⟩ := ih k _ _ (List.getElem?_eq_getElem (hlength ▸ hk))
        (List.getElem?_eq_getElem hk) h
      exact ⟨u, .part hmove (List.getElem_mem _) hkept, hu⟩
  | forward hmove _ ih =>
    obtain ⟨u, hkept, hu⟩ := ih hnode
    exact ⟨u, .forward hmove hkept, hu⟩

/-- A site that stays becomes a node above what its parts become. -/
theorem Outcome.parts {s : S} {t : T} {parts : List S} (h : Outcome move children same s t)
    (hmove : move s = .keep parts) :
    same s t ∧ List.Forall₂ (Outcome move children same) parts (children t) := by
  cases h with
  | forward hmove' => cases hmove.symm.trans hmove'
  | keep hmove' hsame hlength hparts =>
    obtain rfl := Move.keep.inj (hmove.symm.trans hmove')
    refine ⟨hsame, List.forall₂_iff_get.mpr ⟨hlength, fun k hk hk' => ?_⟩⟩
    exact hparts k _ _ (List.getElem?_eq_getElem hk) (List.getElem?_eq_getElem hk')

/-- The site that stands where a site was: it stays, and the result is what it becomes. -/
theorem Outcome.settle {value : S → S}
    (hkeep : ∀ s parts, move s = .keep parts → value s = s)
    (hforward : ∀ s t, move s = .forward t → value s = value t) {s : S} {t : T}
    (h : Outcome move children same s t) :
    ∃ parts, move (value s) = .keep parts ∧ same (value s) t ∧
      Outcome move children same (value s) t := by
  induction h with
  | keep hmove hsame hlength hparts _ =>
    rw [hkeep _ _ hmove]
    exact ⟨_, hmove, hsame, .keep hmove hsame hlength hparts⟩
  | forward hmove _ ih => rwa [hforward _ _ hmove]

end Kxc.Lib.Rewriting

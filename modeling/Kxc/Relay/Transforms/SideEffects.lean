import Kxc.Lib.Rewriting
import Kxc.Relay.Transforms.Pipeline

/-! What it means that a rewriting pass discards no side effect, and when it does not, for a pass
that is given by what it does at each node of its input: exactly when every effectful call is
reached through nodes that stay. -/

namespace Kxc.Relay

open Lib.Rewriting pass_utils

namespace Expr

/-- A call that has a side effect in itself: of a `device.*` operator or of no operator. -/
def isEffectful : Expr → Bool
  | .call _ callee _ _ _ => isEffectfulCallee callee
  | _ => false

/-- The origin of a call. -/
def origin? : Expr → Option Nat
  | .call _ _ _ _ origin => some origin
  | _ => none

/-- The kind of a node that a rewriter may act on. -/
inductive Kind where
  | call
  | letE
  | tuple
  | tupleGetItem
  | other
  deriving DecidableEq

def kind : Expr → Kind
  | .call .. => .call
  | .letE .. => .letE
  | .tuple .. => .tuple
  | .tupleGetItem .. => .tupleGetItem
  | _ => .other

theorem withChildren_kind (s : Expr) (i : Nat) (cs : List Expr) :
    (s.withChildren i cs).kind = s.kind := by
  cases s <;> rcases cs with _ | ⟨a, _ | ⟨b, _ | ⟨c, _ | ⟨d, cs⟩⟩⟩⟩ <;> rfl

/-- A graph that no pass has rewritten: each of its calls is its own origin. -/
def Unrewritten (e : Expr) : Prop := ∀ s ∈ e.subexprs, ∀ o ∈ s.origin?, o = s.ptr

/-- `t` is the node that `s` becomes: a node of its kind with other children, and with the operator
of `s`, if `s` calls one. -/
structure Becomes (s t : Expr) : Prop where
  rebuilt : ∃ i cs, t = s.withChildren i cs
  operator : ∀ c ∈ s.children.head?, c.isOp = true → t.children.head? = some c

/-- `t` stems from the call `s` and has its attributes and, if it is one, its operator. -/
inductive Counterpart : Expr → Expr → Prop
  | intro {id id' : Nat} {callee callee' : Expr} {args args' : List Expr} {attrs : Option Attrs}
    {origin : Nat} (h : callee.isOp = true → callee' = callee) :
    Counterpart (.call id callee args attrs origin) (.call id' callee' args' attrs origin)

theorem Counterpart.refl {s : Expr} {o : Nat} (h : s.origin? = some o) : s.Counterpart s := by
  cases s <;> first | exact .intro fun _ => rfl | cases h

theorem Counterpart.trans {s t u : Expr} (h : s.Counterpart t) (h' : t.Counterpart u) :
    s.Counterpart u := by
  obtain ⟨h⟩ := h
  obtain ⟨h'⟩ := h'
  exact .intro fun hop => (h' (h hop ▸ hop)).trans (h hop)

theorem Counterpart.origin_eq {s t : Expr} (h : s.Counterpart t) : t.origin? = s.origin? := by
  cases h
  rfl

theorem Becomes.refl (s : Expr) : s.Becomes s := by
  refine ⟨?_, fun c hc _ => hc⟩
  cases hleaf : s.isLeaf with
  | true => exact ⟨0, [], by cases s <;> first | rfl | simp [isLeaf] at hleaf⟩
  | false => exact ⟨s.ptr, s.children, (withChildren_self hleaf).symm⟩

theorem withChildren_origin? (s : Expr) (i : Nat) (cs : List Expr) :
    (s.withChildren i cs).origin? = s.origin? := by
  cases s <;> rcases cs with _ | ⟨a, _ | ⟨b, _ | ⟨c, _ | ⟨d, cs⟩⟩⟩⟩ <;> rfl

theorem Becomes.origin_eq {s t : Expr} (h : s.Becomes t) : t.origin? = s.origin? := by
  obtain ⟨i, cs, rfl⟩ := h.rebuilt
  exact withChildren_origin? s i cs

theorem Becomes.opName_eq {s t : Expr} (h : s.Becomes t) : GetCallOpName t = GetCallOpName s := by
  obtain ⟨i, cs, rfl⟩ := h.rebuilt
  exact withChildren_opName s i cs

theorem Becomes.kind_eq {s t : Expr} (h : s.Becomes t) : t.kind = s.kind := by
  obtain ⟨i, cs, rfl⟩ := h.rebuilt
  exact withChildren_kind s i cs

/-- A call becomes a call with its attributes. -/
theorem Becomes.call_eq {id : Nat} {callee t : Expr} {args : List Expr} {attrs : Option Attrs}
    {origin : Nat} (h : (Expr.call id callee args attrs origin).Becomes t) :
    ∃ i callee' args', t = .call i callee' args' attrs origin := by
  obtain ⟨i, cs, rfl⟩ := h.rebuilt
  cases cs with
  | nil => exact ⟨_, _, _, rfl⟩
  | cons c cs => exact ⟨_, _, _, rfl⟩

/-- A call becomes a counterpart of itself. -/
theorem Becomes.counterpart {s t : Expr} (h : s.Becomes t) {o : Nat} (ho : s.origin? = some o) :
    s.Counterpart t := by
  obtain ⟨⟨i, cs, rfl⟩, hop⟩ := h
  cases s with
  | call id callee args attrs origin =>
    cases cs with
    | nil => exact .intro fun _ => rfl
    | cons c cs => exact .intro fun h => Option.some.inj (hop callee rfl h)
  | _ => cases ho

theorem isLeaf_of_isOp {e : Expr} (h : e.isOp = true) : e.isLeaf = true := by
  cases e <;> first | rfl | cases h

theorem node_iff {e s : Expr} : Node children e s ↔ s ∈ e.subexprs := by
  constructor
  · intro h
    induction h with
    | root t => exact t.self_mem_subexprs
    | child hc _ ih => exact subexprs_trans (child_mem_subexprs hc) ih
  · intro h
    induction e using induction_children with
    | h e ih =>
      rcases mem_subexprs.mp h with rfl | ⟨c, hc, h⟩
      · exact .root s
      · exact .child hc (ih c hc h)

end Expr

/-- Every effectful call of `e` has a counterpart in `e'`. -/
def KeepsEffects (e e' : Expr) : Prop :=
  ∀ s ∈ e.subexprs, s.isEffectful = true → ∃ t ∈ e'.subexprs, s.Counterpart t

/-- Every effectful call of `e` stems from, or is, a node that stays below the site `start`. -/
def EffectsStay {S : Type} (move : S → Move S) (node : S → Expr) (start : S) (e : Expr) : Prop :=
  ∀ s ∈ e.subexprs, s.isEffectful = true →
    ∃ u, Kept move start u ∧ (node u).origin? = s.origin?

theorem exists_origin_of_effectful {s : Expr} (h : s.isEffectful = true) :
    ∃ o, s.origin? = some o := by
  cases s with
  | call id op args attrs origin => exact ⟨origin, rfl⟩
  | _ => cases h

/-- A rewriter keeps every side effect exactly when it reaches every effectful call through nodes
that stay. -/
theorem keepsEffects_iff {S : Type} {move : S → Move S} {node : S → Expr} {start : S} {e e' : Expr}
    (houtcome : Outcome move Expr.children (fun s t => (node s).Becomes t) start e')
    (hstem : ∀ u, Kept move start u → ∀ o ∈ (node u).origin?,
      ∃ s ∈ e.subexprs, s.Counterpart (node u))
    (hcoherent : ∀ s ∈ e.subexprs, ∀ t ∈ e.subexprs, s.ptr = t.ptr → s = t)
    (hown : e.Unrewritten) : KeepsEffects e e' ↔ EffectsStay move node start e := by
  refine forall₂_congr fun s hs => ⟨fun h heffect => ?_, fun h heffect => ?_⟩
  · obtain ⟨t, ht, hst⟩ := h heffect
    obtain ⟨u, hkept, hut⟩ := houtcome.exists_kept (Expr.node_iff.mpr ht)
    exact ⟨u, hkept, hut.origin_eq.symm.trans hst.origin_eq⟩
  · obtain ⟨u, hkept, horigin⟩ := h heffect
    obtain ⟨o, ho⟩ := exists_origin_of_effectful heffect
    obtain ⟨s', hs', hcounterpart⟩ := hstem u hkept o (horigin.trans ho)
    -- the call that `u` stems from has the origin of `s`, so it is `s`
    have ho' : s'.origin? = some o := hcounterpart.origin_eq.symm.trans (horigin.trans ho)
    have heq : s' = s :=
      hcoherent s' hs' s hs ((hown s' hs' o ho').symm.trans (hown s hs o ho))
    obtain ⟨t, ht, hut⟩ := houtcome.exists_node hkept
    exact ⟨t, Expr.node_iff.mp ht, (heq ▸ hcounterpart).trans (hut.counterpart (horigin.trans ho))⟩

/-- What a pass does at each node of its input: `move` sends a node only to nodes below it, and
every leaf stays. -/
structure Moves (move : Expr → Move Expr) : Prop where
  forward : ∀ s t, move s = .forward t → t ∈ s.subexprs
  keep : ∀ s parts, move s = .keep parts → ∀ c ∈ parts, c ∈ s.subexprs
  leaf : ∀ e, e.isLeaf = true → move e = .keep []

/-- `e'` is what a pass makes of `e`. -/
abbrev Makes (move : Expr → Move Expr) : Expr → Expr → Prop :=
  Outcome move Expr.children Expr.Becomes

namespace Moves

variable {move : Expr → Move Expr} (h : Moves move)

include h

theorem kept_mem {e u : Expr} (hkept : Kept move e u) : u ∈ e.subexprs := by
  induction hkept with
  | self => exact Expr.self_mem_subexprs _
  | part hmove ht _ ih => exact Expr.subexprs_trans (h.keep _ _ hmove _ ht) ih
  | forward hmove _ ih => exact Expr.subexprs_trans (h.forward _ _ hmove) ih

theorem makes_leaf {e : Expr} (hleaf : e.isLeaf = true) : Makes move e e := by
  refine .keep (h.leaf e hleaf) (.refl e) ?_ fun k a b ha _ => by simp at ha
  cases e <;> first | rfl | simp [Expr.isLeaf] at hleaf

theorem eq_of_makes_leaf {e e' : Expr} (hmakes : Makes move e e') (hleaf : e.isLeaf = true) :
    e' = e := by
  cases hmakes with
  | keep _ hsame =>
    obtain ⟨i, cs, rfl⟩ := hsame.rebuilt
    cases e <;> first | rfl | simp [Expr.isLeaf] at hleaf
  | forward hmove => cases (h.leaf e hleaf).symm.trans hmove

/-- A node that stays above what becomes of some parts. The first part of a call is its callee. -/
theorem makes_parts {e : Expr} {i : Nat} {cs parts : List Expr} (hmove : move e = .keep parts)
    (hparts : List.Forall₂ (Makes move) parts cs) (hhead : parts.head? = e.children.head?)
    (hchildren : (e.withChildren i cs).children = cs) : Makes move e (e.withChildren i cs) := by
  refine .keep hmove ⟨⟨i, cs, rfl⟩, fun c hc hop => ?_⟩ (by rw [hchildren, hparts.length_eq])
    fun k a b ha hb => ?_
  · rw [hchildren]
    cases hparts with
    | nil => cases hhead.trans hc
    | cons hfirst _ =>
      obtain rfl := Option.some.inj (hhead.trans hc)
      rw [List.head?_cons, h.eq_of_makes_leaf hfirst (Expr.isLeaf_of_isOp hop)]
  · rw [hchildren] at hb
    obtain ⟨hk, rfl⟩ := List.getElem?_eq_some_iff.mp ha
    obtain ⟨hk', rfl⟩ := List.getElem?_eq_some_iff.mp hb
    exact List.forall₂_iff_get.mp hparts |>.2 k hk hk'

theorem makes_node {e : Expr} {i : Nat} {cs : List Expr} (hleaf : e.isLeaf = false)
    (hmove : move e = .keep e.children) (hcs : List.Forall₂ (Makes move) e.children cs) :
    Makes move e (e.withChildren i cs) :=
  h.makes_parts hmove hcs rfl (Expr.withChildren_spec hleaf hcs.length_eq.symm).2

/-- A pass that makes of each node what `move` says keeps every side effect exactly when it reaches
every effectful call through nodes that stay. -/
theorem keepsEffects_iff {post : RelayPass.Post} {R : Expr → Expr → Prop}
    (hpost : RelayPass.Holding post) (hR : ∀ e e', R e e' → Makes move e e')
    (hleaf : ∀ e, e.isLeaf = true → R e e)
    (hnode : ∀ e i cs σ, e.isLeaf = false → List.Forall₂ R e.children cs →
      R e (post e (e.withChildren i cs) σ).1)
    {func : Function} {σ : Heap} (hgraph : NodeGraph σ func.toExpr)
    (hown : func.body.Unrewritten) :
    KeepsEffects func.body (RelayPass.mutateFunction post func σ).1.body ↔
      EffectsStay move id func.body func.body := by
  obtain ⟨M, hσ, hfunc⟩ := Memory.exists_of_graph hgraph
  have hmem : func.body ∈ func.toExpr.children := by simp [Function.toExpr, Expr.children]
  obtain ⟨N, hyields, hmakes⟩ := RelayPass.mutate_yields hpost hleaf hnode hσ (hfunc.child hmem)
  rw [RelayPass.mutateFunction, RelayPass.visitFunction_body (hfunc.child hmem) hyields]
  have hsub : func.body.subexprs ⊆ func.toExpr.nodes :=
    fun s hs => func.toExpr.subexprs_subset_nodes
      (Expr.subexprs_trans (Expr.child_mem_subexprs hmem) hs)
  refine @Relay.keepsEffects_iff _ move id _ _ _ (hR _ _ hmakes) (fun u hkept o ho => ?_)
    (fun s hs t ht => hgraph.coherent s (hsub hs) t (hsub ht)) hown
  exact ⟨u, h.kept_mem hkept, .refl ho⟩

end Moves

end Kxc.Relay

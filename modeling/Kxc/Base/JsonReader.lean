import Kxc.Base.JsonText
import Kxc.Lib.StateExcept
import Mathlib.Data.List.Nodup

/-! What the reader returns for an arbitrary text: a value without repeated names, and a shorter
rest. Its depth bound is never reached. -/

namespace Kxc.Json

open Lib
open P hiding True False

section

variable {size : Nat} {α : Type} {rest : List Char}

@[simp]
theorem ensures_err {m : String} {Q : α → List Char → Prop} :
    Ensures (Err size m : M α) rest Q ↔ True := Iff.rfl

@[simp]
theorem ensures_peek {Q : Char → List Char → Prop} :
    Ensures Peek rest Q ↔ Q (rest.headD '\x00') rest := Iff.rfl

theorem ensures_get : Ensures (Get size) rest fun c t => rest = c :: t := by
  cases rest with
  | nil => trivial
  | cons c t => exact rfl

theorem ensures_ws : Ensures WS rest fun _ t => t.length ≤ rest.length :=
  (List.dropWhile_sublist _).length_le

theorem ensures_digits : Ensures digits rest fun _ t => t.length ≤ rest.length :=
  (List.dropWhile_sublist _).length_le

theorem ensures_expect {c : Char} :
    Ensures (Expect size c) rest fun _ t => t.length < rest.length := by
  unfold Expect
  refine outcome_bind.mpr ?_
  refine ensures_get.mono ?_
  rintro d t rfl
  simp

theorem ensures_lit {cs : List Char} (hcs : cs ≠ []) :
    Ensures (Lit size cs) rest fun _ t => t.length < rest.length := by
  induction cs generalizing rest with
  | nil => exact absurd rfl hcs
  | cons c cs ih =>
    unfold Lit
    refine outcome_bind.mpr ?_
    refine ensures_get.mono ?_
    rintro d t rfl
    refine outcome_ite.mpr ⟨fun _ => trivial, fun _ => ?_⟩
    cases cs with
    | nil => exact Nat.lt_succ_self _
    | cons c' cs => exact (ih (List.cons_ne_nil _ _)).mono fun _ u hu => Nat.lt_succ_of_lt hu

theorem ensures_hexLoop {n cp : Nat} :
    Ensures (hexLoop size n cp) rest fun _ t => t.length ≤ rest.length := by
  induction n generalizing cp rest with
  | zero => exact Nat.le_refl _
  | succ n ih =>
    unfold hexLoop
    refine outcome_bind.mpr ?_
    refine ensures_get.mono ?_
    rintro h t rfl
    cases hexValue h with
    | none => trivial
    | some d => exact ih.mono fun _ u hu => Nat.le_succ_of_le hu

theorem ensures_strChar : Ensures (strChar size) rest fun _ t => t.length < rest.length := by
  unfold strChar
  refine outcome_bind.mpr ?_
  refine ensures_get.mono ?_
  rintro c t rfl
  refine outcome_ite.mpr ?_
  refine ⟨fun _ => Nat.lt_succ_self _, fun _ => ?_⟩
  refine outcome_ite.mpr ?_
  refine ⟨fun _ => ?_, fun _ => Nat.lt_succ_self _⟩
  refine outcome_bind.mpr ?_
  refine ensures_get.mono ?_
  rintro e u rfl
  have hless : u.length < (c :: e :: u).length := by
    simp only [List.length_cons]
    omega
  cases simpleEscape e with
  | some d => exact hless
  | none =>
    dsimp only
    refine outcome_ite.mpr ?_
    refine ⟨fun _ => ?_, fun _ => trivial⟩
    refine outcome_bind.mpr ?_
    exact ensures_hexLoop.mono fun _ w hw => Nat.lt_of_le_of_lt hw hless

theorem ensures_strLoop {fuel : Nat} {s : List Char} :
    Ensures (strLoop size fuel s) rest fun _ t => t.length < rest.length := by
  induction fuel generalizing s rest with
  | zero => trivial
  | succ fuel ih =>
    unfold strLoop
    refine outcome_bind.mpr ?_
    refine ensures_strChar.mono fun c t ht => ?_
    cases c with
    | none => exact ht
    | some c => exact ih.mono fun _ u hu => Nat.lt_trans hu ht

theorem ensures_str : Ensures (Str size) rest fun _ t => t.length < rest.length := by
  unfold Str
  refine outcome_bind.mpr ?_
  refine ensures_expect.mono fun _ t ht => ?_
  refine outcome_bind.mpr ?_
  exact ensures_strLoop.mono fun _ u hu => Nat.lt_trans hu ht

theorem ensures_sign : Ensures (sign size) rest fun _ t => t.length ≤ rest.length := by
  unfold sign
  refine outcome_bind.mpr (outcome_ite.mpr ?_)
  refine ⟨fun _ => ?_, fun _ => Nat.le_refl _⟩
  refine outcome_bind.mpr ?_
  refine ensures_get.mono ?_
  rintro c t rfl
  exact Nat.le_succ _

/-- A digit at the front is read. -/
theorem ensures_magnitude : Ensures (magnitude size) rest fun _ t => t.length < rest.length := by
  unfold magnitude
  refine outcome_bind.mpr (outcome_ite.mpr ?_)
  refine ⟨fun _ => ?_, fun _ => ?_⟩
  · rw [outcome_bind]
    refine ensures_get.mono ?_
    rintro c t rfl
    exact Nat.lt_succ_self _
  · rw [outcome_ite]
    refine ⟨fun hdigit => ?_, fun _ => trivial⟩
    cases rest with
    | nil => exact absurd hdigit (by decide)
    | cons c t =>
      have hdrop : (c :: t).dropWhile Char.isDigit = t.dropWhile Char.isDigit :=
        List.dropWhile_cons_of_pos hdigit
      have hless : ((c :: t).dropWhile Char.isDigit).length < (c :: t).length := by
        rw [hdrop]
        exact Nat.lt_succ_of_le ((List.dropWhile_sublist _).length_le)
      exact hless

theorem ensures_num {P : J → Prop} (hP : ∀ i, P (.I i)) :
    Ensures (Num size) rest fun v t => t.length < rest.length ∧ P v := by
  refine outcome_bind.mpr (ensures_sign.mono fun negative t ht => ?_)
  refine outcome_bind.mpr (ensures_magnitude.mono fun ds u hu => ?_)
  refine outcome_bind.mpr (outcome_ite.mpr ⟨fun _ => trivial, fun _ => ?_⟩)
  cases stoll negative ds with
  | none => trivial
  | some i => exact ⟨Nat.lt_of_lt_of_le hu ht, hP i⟩

/-- What the scanners of values return, to any depth. -/
structure ReturnsDistinct (size fuel : Nat) : Prop where
  V : ∀ rest, Ensures (V size fuel) rest fun v t => t.length < rest.length ∧ v.Distinct
  Obj : ∀ rest, Ensures (Obj size fuel) rest fun o t => t.length < rest.length ∧ (J.O o).Distinct
  objLoop : ∀ rest o, (J.O o).Distinct →
    Ensures (objLoop size fuel o) rest fun o' t => t.length < rest.length ∧ (J.O o').Distinct
  Arr : ∀ rest, Ensures (Arr size fuel) rest fun a t => t.length < rest.length ∧ (J.A a).Distinct
  arrLoop : ∀ rest a, (J.A a).Distinct →
    Ensures (arrLoop size fuel a) rest fun a' t => t.length < rest.length ∧ (J.A a').Distinct

theorem distinct_concat {a : List J} {v : J} (ha : (J.A a).Distinct) (hv : v.Distinct) :
    (J.A (a ++ [v])).Distinct := by
  refine J.allDistinct_iff.mpr fun w hw => ?_
  rcases List.mem_append.mp hw with hw | hw
  · exact J.allDistinct_iff.mp ha w hw
  · obtain rfl := List.mem_singleton.mp hw
    exact hv

theorem distinct_concat_member {o : List (String × J)} {key : String} {v : J}
    (ho : (J.O o).Distinct) (hv : v.Distinct) (hkey : (o.map Prod.fst).contains key ≠ true) :
    (J.O (o ++ [(key, v)])).Distinct := by
  refine ⟨?_, J.membersDistinct_iff.mpr fun p hp => ?_⟩
  · have hnew : key ∉ o.map Prod.fst := fun hmem => hkey (List.contains_iff_mem.mpr hmem)
    rw [List.map_append, List.map_singleton]
    exact List.Nodup.append ho.1 (List.nodup_singleton _) (List.disjoint_singleton.mpr hnew)
  · rcases List.mem_append.mp hp with hp | hp
    · exact J.membersDistinct_iff.mp ho.2 p hp
    · obtain rfl := List.mem_singleton.mp hp
      exact hv

theorem returnsDistinct (fuel : Nat) : ReturnsDistinct size fuel := by
  induction fuel with
  | zero => constructor <;> intros <;> trivial
  | succ fuel ih =>
    constructor
    case V =>
      intro rest
      refine outcome_bind.mpr (ensures_ws.mono fun _ t ht => ?_)
      refine outcome_bind.mpr (ensures_peek.mpr ?_)
      refine outcome_ite.mpr ⟨fun _ => ?_, fun _ => ?_⟩
      · refine outcome_bind.mpr ((ih.Obj t).mono ?_)
        rintro o u ⟨hu, ho⟩
        exact ⟨Nat.lt_of_lt_of_le hu ht, ho⟩
      refine outcome_ite.mpr ⟨fun _ => ?_, fun _ => ?_⟩
      · refine outcome_bind.mpr ((ih.Arr t).mono ?_)
        rintro a u ⟨hu, ha⟩
        exact ⟨Nat.lt_of_lt_of_le hu ht, ha⟩
      refine outcome_ite.mpr ⟨fun _ => ?_, fun _ => ?_⟩
      · exact outcome_bind.mpr (ensures_str.mono fun s u hu => ⟨Nat.lt_of_lt_of_le hu ht, trivial⟩)
      refine outcome_ite.mpr ⟨fun _ => ?_, fun _ => ?_⟩
      · exact outcome_bind.mpr ((ensures_lit (by decide)).mono fun _ u hu =>
          ⟨Nat.lt_of_lt_of_le hu ht, trivial⟩)
      refine outcome_ite.mpr ⟨fun _ => ?_, fun _ => ?_⟩
      · exact outcome_bind.mpr ((ensures_lit (by decide)).mono fun _ u hu =>
          ⟨Nat.lt_of_lt_of_le hu ht, trivial⟩)
      refine outcome_ite.mpr ⟨fun _ => ?_, fun _ => ?_⟩
      · exact outcome_bind.mpr ((ensures_lit (by decide)).mono fun _ u hu =>
          ⟨Nat.lt_of_lt_of_le hu ht, trivial⟩)
      refine outcome_ite.mpr ⟨fun _ => ?_, fun _ => trivial⟩
      refine (ensures_num (P := J.Distinct) fun _ => trivial).mono ?_
      rintro v u ⟨hu, hv⟩
      exact ⟨Nat.lt_of_lt_of_le hu ht, hv⟩
    case Obj =>
      intro rest
      refine outcome_bind.mpr (ensures_expect.mono fun _ t ht => ?_)
      refine outcome_bind.mpr (ensures_ws.mono fun _ u hu => ?_)
      refine outcome_bind.mpr (outcome_ite.mpr ⟨fun _ => ?_, fun _ => ?_⟩)
      · refine outcome_bind.mpr (ensures_get.mono ?_)
        rintro c w rfl
        rw [List.length_cons] at hu
        exact ⟨by omega, List.nodup_nil, trivial⟩
      · refine (ih.objLoop u [] ⟨List.nodup_nil, trivial⟩).mono ?_
        rintro o w ⟨hw, ho⟩
        exact ⟨by omega, ho⟩
    case objLoop =>
      intro rest o ho
      refine outcome_bind.mpr (ensures_str.mono fun key t ht => ?_)
      refine outcome_bind.mpr (ensures_ws.mono fun _ u hu => ?_)
      refine outcome_bind.mpr (ensures_expect.mono fun _ w hw => ?_)
      refine outcome_bind.mpr ((ih.V w).mono ?_)
      rintro v x ⟨hx, hv⟩
      refine outcome_ite.mpr ⟨fun _ => trivial, fun hkey => ?_⟩
      have ho' := distinct_concat_member ho hv hkey
      refine outcome_bind.mpr (ensures_ws.mono fun _ y hy => ?_)
      refine outcome_bind.mpr (ensures_get.mono ?_)
      rintro c z rfl
      have hz : z.length < rest.length := by
        rw [List.length_cons] at hy
        omega
      refine outcome_ite.mpr ⟨fun _ => ⟨hz, ho'⟩, fun _ => ?_⟩
      refine outcome_ite.mpr ⟨fun _ => trivial, fun _ => ?_⟩
      refine outcome_bind.mpr (ensures_ws.mono fun _ x' hx' => ?_)
      refine (ih.objLoop x' _ ho').mono ?_
      rintro o' y' ⟨hy', ho'⟩
      exact ⟨by omega, ho'⟩
    case Arr =>
      intro rest
      refine outcome_bind.mpr (ensures_expect.mono fun _ t ht => ?_)
      refine outcome_bind.mpr (ensures_ws.mono fun _ u hu => ?_)
      refine outcome_bind.mpr (outcome_ite.mpr ⟨fun _ => ?_, fun _ => ?_⟩)
      · refine outcome_bind.mpr (ensures_get.mono ?_)
        rintro c w rfl
        rw [List.length_cons] at hu
        exact ⟨by omega, trivial⟩
      · refine (ih.arrLoop u [] trivial).mono ?_
        rintro a w ⟨hw, ha⟩
        exact ⟨by omega, ha⟩
    case arrLoop =>
      intro rest a ha
      refine outcome_bind.mpr ((ih.V rest).mono ?_)
      rintro v t ⟨ht, hv⟩
      refine outcome_bind.mpr (ensures_ws.mono fun _ u hu => ?_)
      refine outcome_bind.mpr (ensures_get.mono ?_)
      rintro c w rfl
      have hw : w.length < rest.length := by
        rw [List.length_cons] at hu
        omega
      refine outcome_ite.mpr ⟨fun _ => ⟨hw, distinct_concat ha hv⟩, fun _ => ?_⟩
      refine outcome_ite.mpr ⟨fun _ => trivial, fun _ => ?_⟩
      refine outcome_bind.mpr (ensures_ws.mono fun _ x hx => ?_)
      refine (ih.arrLoop x _ (distinct_concat ha hv)).mono ?_
      rintro a' y ⟨hy, ha'⟩
      exact ⟨by omega, ha'⟩

/-- What the reader accepts has no repeated names. -/
theorem Parse_distinct {text : String} {v : J} (h : P.Parse text = .ok v) : v.Distinct := by
  obtain ⟨⟨w, rest⟩, hrun, hw⟩ : ∃ r, whole text.toList.length text.toList = .ok r ∧ r.1 = v := by
    rw [P.Parse] at h
    cases hrun : whole text.toList.length text.toList with
    | error e =>
      rw [hrun] at h
      cases h
    | ok r =>
      rw [hrun] at h
      exact ⟨r, rfl, Except.ok.inj h⟩
  have hwhole : Ensures (whole text.toList.length) text.toList fun v _ => v.Distinct := by
    refine outcome_bind.mpr (ensures_ws.mono fun _ t _ => ?_)
    refine outcome_bind.mpr (((returnsDistinct _).V t).mono ?_)
    rintro v u ⟨-, hv⟩
    refine outcome_bind.mpr (ensures_ws.mono fun _ x _ => outcome_bind.mpr ?_)
    exact outcome_ite.mpr ⟨fun _ => trivial, fun _ => hv⟩
  obtain rfl := hw
  exact hwhole.of_ok hrun

/-- Where the depth is above that of any text as long as the rest, one more level changes
nothing. -/
structure DepthSuffices (size fuel : Nat) : Prop where
  V : ∀ rest : List Char, 3 * rest.length + 2 ≤ fuel → V size (fuel + 1) rest = V size fuel rest
  Obj : ∀ rest : List Char, 3 * rest.length + 1 ≤ fuel →
    Obj size (fuel + 1) rest = Obj size fuel rest
  objLoop : ∀ (rest : List Char) o, 3 * rest.length + 3 ≤ fuel →
    objLoop size (fuel + 1) o rest = objLoop size fuel o rest
  Arr : ∀ rest : List Char, 3 * rest.length + 1 ≤ fuel →
    Arr size (fuel + 1) rest = Arr size fuel rest
  arrLoop : ∀ (rest : List Char) a, 3 * rest.length + 3 ≤ fuel →
    arrLoop size (fuel + 1) a rest = arrLoop size fuel a rest

theorem depthSuffices (fuel : Nat) : DepthSuffices size fuel := by
  induction fuel with
  | zero =>
    constructor <;> intros <;> omega
  | succ fuel ih =>
    constructor
    case V =>
      intro rest hfuel
      refine ensures_ws.bind_congr rfl fun _ t ht => ?_
      refine (ensures_peek.mpr rfl : Ensures Peek t fun _ u => u = t).bind_congr rfl ?_
      rintro c u rfl
      split
      · exact ((returnsDistinct fuel).Obj u).bind_congr (ih.Obj u (by omega)) fun _ _ _ => rfl
      split
      · exact ((returnsDistinct fuel).Arr u).bind_congr (ih.Arr u (by omega)) fun _ _ _ => rfl
      · rfl
    case Obj =>
      intro rest hfuel
      refine ensures_expect.bind_congr rfl fun _ t ht => ?_
      refine ensures_ws.bind_congr rfl fun _ u hu => ?_
      refine (ensures_peek.mpr rfl : Ensures Peek u fun _ w => w = u).bind_congr rfl ?_
      rintro c w rfl
      split
      · rfl
      · exact ih.objLoop w _ (by omega)
    case objLoop =>
      intro rest o hfuel
      refine ensures_str.bind_congr rfl fun key t ht => ?_
      refine ensures_ws.bind_congr rfl fun _ u hu => ?_
      refine ensures_expect.bind_congr rfl fun _ w hw => ?_
      refine ((returnsDistinct fuel).V w).bind_congr (ih.V w (by omega)) ?_
      rintro v x ⟨hx, -⟩
      dsimp only
      split
      · rfl
      refine ensures_ws.bind_congr rfl fun _ y hy => ?_
      refine ensures_get.bind_congr rfl ?_
      rintro c z rfl
      rw [List.length_cons] at hy
      split
      · rfl
      split
      · rfl
      refine ensures_ws.bind_congr rfl fun _ x' hx' => ?_
      exact ih.objLoop x' _ (by omega)
    case Arr =>
      intro rest hfuel
      refine ensures_expect.bind_congr rfl fun _ t ht => ?_
      refine ensures_ws.bind_congr rfl fun _ u hu => ?_
      refine (ensures_peek.mpr rfl : Ensures Peek u fun _ w => w = u).bind_congr rfl ?_
      rintro c w rfl
      split
      · rfl
      · exact ih.arrLoop w _ (by omega)
    case arrLoop =>
      intro rest a hfuel
      refine ((returnsDistinct fuel).V rest).bind_congr (ih.V rest (by omega)) ?_
      rintro v x ⟨hx, -⟩
      refine ensures_ws.bind_congr rfl fun _ y hy => ?_
      refine ensures_get.bind_congr rfl ?_
      rintro c z rfl
      rw [List.length_cons] at hy
      split
      · rfl
      split
      · rfl
      refine ensures_ws.bind_congr rfl fun _ x' hx' => ?_
      exact ih.arrLoop x' _ (by omega)

/-- The depth that `whole` allows is as good as any above it. -/
theorem V_of_le {fuel : Nat} (hfuel : 3 * rest.length + 2 ≤ fuel) :
    V size fuel rest = V size (3 * rest.length + 2) rest := by
  induction hfuel with
  | refl => rfl
  | step hfuel ih => rw [(depthSuffices _).V rest hfuel, ih]

end

end Kxc.Json

import Kxc.Lib.ExceptCovers
import Kxc.Lib.StateExcept
import Kxc.Relay.TypeInfer

/-! A type relation that accepts some types also accepts them with unknown dimensions, and its
result is the same up to unknown dimensions. -/

namespace Kxc.Relay

open Lib

/-- `d'` is `d`, or unknown. -/
def Forgets (d' d : Int64) : Prop := d' = d ∨ d' = -1

/-- `t'` is `t`, but for dimensions that are unknown. -/
inductive ForgetsType : RelayType → RelayType → Prop where
  | tensor {shape' shape : List Int64} {dtype : String} (h : List.Forall₂ Forgets shape' shape) :
    ForgetsType (.tensor shape' dtype) (.tensor shape dtype)
  | tuple {fields' fields : List (Option RelayType)}
    (h : List.Forall₂ (Option.Rel ForgetsType) fields' fields) :
    ForgetsType (.tuple fields') (.tuple fields)

/-- `t'` is `t`, but for dimensions that are unknown. -/
def ForgetsTensor (t' t : TensorTypeNode) : Prop :=
  List.Forall₂ Forgets t'.shape t.shape ∧ t'.dtype = t.dtype

/-- The relation accepts types with unknown dimensions, and its result may have more of them. -/
def AcceptsUnknown (infer : FInferType) : Prop :=
  ∀ (attrs : Option Attrs) {ts' ts : List RelayType}, List.Forall₂ ForgetsType ts' ts →
    Covers ForgetsType (infer attrs ts') (infer attrs ts)

/-! ### Dimensions -/

theorem Forgets.refl (d : Int64) : Forgets d d := .inl rfl

theorem forgets_unknown (d : Int64) : Forgets (-1) d := .inr rfl

/-- A known dimension is no other one. -/
theorem Forgets.eq {d' d : Int64} (h : Forgets d' d) (hknown : IsKnown d' = true) : d' = d := by
  rcases h with rfl | rfl
  · rfl
  · exact absurd hknown (by decide)

/-- A dimension that is computed only if others are known. -/
theorem forgets_ite {c : Prop} [Decidable c] {d' d : Int64} (h : c → Forgets d' d) :
    Forgets (if c then d' else -1) d := by
  split
  · exact h ‹_›
  · exact forgets_unknown d

theorem sameOrUnknown_forgets {a' a b' b : Int64} (ha : Forgets a' a) (hb : Forgets b' b)
    (h : SameOrUnknown a b = true) : SameOrUnknown a' b' = true := by
  by_cases hka : IsKnown a' = true
  · by_cases hkb : IsKnown b' = true
    · rw [ha.eq hka, hb.eq hkb]
      exact h
    · simp [SameOrUnknown, hkb]
  · simp [SameOrUnknown, hka]

theorem knownProductFrom_forgets {ds' ds : List Int64} (h : List.Forall₂ Forgets ds' ds)
    (product : Int64) : Forgets (knownProductFrom product ds') (knownProductFrom product ds) := by
  induction h generalizing product with
  | nil => exact .refl _
  | @cons d' d _ _ hd _ ih =>
    rw [knownProductFrom, knownProductFrom]
    refine forgets_ite fun hknown => ?_
    rw [← hd.eq hknown, if_pos hknown]
    exact ih _

theorem knownProductFrom_unknown {ds' ds : List Int64} (h : List.Forall₂ Forgets ds' ds)
    (hne : ds' ≠ ds) (product : Int64) : knownProductFrom product ds' = -1 := by
  induction h generalizing product with
  | nil => exact absurd rfl hne
  | @cons d' d _ _ hd _ ih =>
    rw [knownProductFrom]
    split
    · exact ih (fun heq => hne (by rw [hd.eq ‹_›, heq])) _
    · rfl

theorem KnownProduct_forgets {ds' ds : List Int64} (h : List.Forall₂ Forgets ds' ds)
    (first last : Nat) : Forgets (KnownProduct ds' first last) (KnownProduct ds first last) :=
  knownProductFrom_forgets (List.forall₂_drop first (List.forall₂_take last h)) 1

/-! ### Helpers of the relations -/

theorem throwIf_covers {ε' : Prop} [Decidable ε'] {c : Prop} [Decidable c] {what' what : String}
    (h : ε' → c) : Covers (fun _ _ => True) (throwIf ε' what') (throwIf c what) := by
  by_cases hc : c
  · rw [throwIf, throwIf, if_pos hc]
    exact .error
  · rw [throwIf, throwIf, if_neg hc, if_neg fun h' => hc (h h')]
    exact .ok trivial

theorem broadcastDim_forgets {l' l r' r : Int64} (hl : Forgets l' l) (hr : Forgets r' r)
    (what' what : String) : Covers Forgets (broadcastDim what' l' r') (broadcastDim what l r) := by
  intro d hd
  have hunknown : (-1 : Int64) ≠ 1 ∧ IsKnown (-1) = false := by decide
  rcases hl with rfl | rfl <;> rcases hr with rfl | rfl <;>
    simp only [broadcastDim, hunknown, Bool.not_false, Bool.true_or, Bool.or_true] at hd ⊢ <;>
    grind [Forgets]

theorem alignedDim_forgets {shape' shape : List Int64} (h : List.Forall₂ Forgets shape' shape)
    (rank i : Nat) : Forgets (alignedDim shape' rank i) (alignedDim shape rank i) := by
  rw [alignedDim, alignedDim, h.length_eq]
  split
  · exact forall₂_getD h (.refl 1) _
  · exact .refl 1

theorem BroadcastShape_forgets {lhs' lhs rhs' rhs : List Int64}
    (hl : List.Forall₂ Forgets lhs' lhs) (hr : List.Forall₂ Forgets rhs' rhs) (op_name : String) :
    Covers (List.Forall₂ Forgets) (BroadcastShape op_name lhs' rhs')
      (BroadcastShape op_name lhs rhs) := by
  simp only [BroadcastShape, hl.length_eq, hr.length_eq]
  exact .mapM fun i => broadcastDim_forgets (alignedDim_forgets hl _ i)
    (alignedDim_forgets hr _ i) _ _

theorem WindowOutputDim_forgets {input' input kernel' kernel : Int64} (hi : Forgets input' input)
    (hk : Forgets kernel' kernel) (op_name : String)
    (pad_before pad_after stride dilation : Int64) (ceil_mode : Bool) :
    Covers Forgets
      (WindowOutputDim op_name input' kernel' pad_before pad_after stride dilation ceil_mode)
      (WindowOutputDim op_name input kernel pad_before pad_after stride dilation ceil_mode) := by
  refine (throwIf_covers id).bind fun _ _ _ => ?_
  by_cases hknown : IsKnown input' = true ∧ IsKnown kernel' = true
  · rw [hi.eq hknown.1, hk.eq hknown.2]
    exact fun d hd => ⟨d, hd, .refl d⟩
  · have hunknown : (!IsKnown input' || !IsKnown kernel') = true := by
      simpa [or_iff_not_imp_left] using hknown
    rw [if_pos hunknown]
    exact fun d _ => ⟨-1, rfl, forgets_unknown d⟩

section Inputs

variable {ts' ts : List RelayType} {a' a b' b : TensorTypeNode}

theorem RequireArity_covers (h : List.Forall₂ ForgetsType ts' ts) (op_name : String) (n : Nat) :
    Covers (fun _ _ => True) (RequireArity op_name ts' n) (RequireArity op_name ts n) :=
  throwIf_covers fun hne => h.length_eq ▸ hne

theorem RequireTensor_covers {type' type : Option RelayType}
    (h : Option.Rel ForgetsType type' type) (op_name input_name : String) :
    Covers ForgetsTensor (RequireTensor op_name type' input_name)
      (RequireTensor op_name type input_name) := by
  cases h with
  | none => exact .error
  | some h =>
    cases h with
    | tensor h => exact .ok ⟨h, rfl⟩
    | tuple h => exact .error

theorem ForgetsTensor.toType (h : ForgetsTensor a' a) : ForgetsType a'.toType a.toType := by
  rw [TensorTypeNode.toType, TensorTypeNode.toType, h.2]
  exact .tensor h.1

theorem ForgetsTensor.dim (h : ForgetsTensor a' a) (i : Nat) :
    Forgets (a'.shape.getD i 0) (a.shape.getD i 0) :=
  forall₂_getD h.1 (.refl 0) i

theorem ForgetsTensor.pair (ha : ForgetsTensor a' a) (hb : ForgetsTensor b' b) (i j : Nat) :
    List.Forall₂ Forgets [a'.shape.getD i 0, b'.shape.getD j 0]
      [a.shape.getD i 0, b.shape.getD j 0] :=
  .cons (ha.dim i) (.cons (hb.dim j) .nil)

theorem ForgetsTensor.rank (h : ForgetsTensor a' a) : a'.shape.length = a.shape.length :=
  h.1.length_eq

theorem mismatch_forgets {l' l r' r : Int64} (hl : Forgets l' l) (hr : Forgets r' r)
    (h : (!SameOrUnknown l' r') = true) : (!SameOrUnknown l r) = true := by
  rw [Bool.not_eq_true'] at h ⊢
  by_contra hsame
  rw [Bool.not_eq_false] at hsame
  exact Bool.false_ne_true (h.symm.trans (sameOrUnknown_forgets hl hr hsame))

theorem RequireSameDType_covers (ha : ForgetsTensor a' a) (hb : ForgetsTensor b' b)
    (op_name : String) : Covers (fun _ _ => True) (RequireSameDType op_name a' b')
      (RequireSameDType op_name a b) :=
  throwIf_covers fun hne => ha.2 ▸ hb.2 ▸ hne

theorem ReadVectorValue_forgets {d' d : Int64} (values : List Int64) (index : Nat)
    (h : Forgets d' d) :
    Forgets (ReadVectorValue values index d') (ReadVectorValue values index d) :=
  forall₂_getD (List.forall₂_same.mpr fun x _ => .refl x) h index

theorem conv2DChannels_forgets (conv_attrs : Conv2DAttrsNode) (h : ForgetsTensor a' a) :
    Forgets (conv2DChannels conv_attrs a') (conv2DChannels conv_attrs a) := by
  rw [conv2DChannels, conv2DChannels]
  split
  · exact .refl _
  · exact h.dim 0

theorem requireBias_covers {channels' channels : Int64} (h : List.Forall₂ ForgetsType ts' ts)
    (ha : ForgetsTensor a' a) (hc : Forgets channels' channels) :
    Covers (fun _ _ => True) (requireBias a' channels' ts') (requireBias a channels ts) := by
  rw [requireBias, requireBias, h.length_eq]
  refine .ite (fun _ => ?_) fun _ => .ok trivial
  refine (RequireTensor_covers (forall₂_getElem? h 2) _ _).bind fun bias' bias hb => ?_
  refine (RequireSameDType_covers ha hb _).bind fun _ _ _ => ?_
  refine throwIf_covers ?_
  rw [hb.rank]
  exact Or.imp id (mismatch_forgets (hb.dim 0) hc)

end Inputs

/-! ### The relations -/

theorem BinaryBroadcastInferType_acceptsUnknown (op_name out_dtype : String) :
    AcceptsUnknown (BinaryBroadcastInferType op_name out_dtype) := by
  intro attrs ts' ts h
  refine (RequireArity_covers h _ _).bind fun _ _ _ => ?_
  refine (RequireTensor_covers (forall₂_getElem? h 0) _ _).bind fun lhs' lhs hl => ?_
  refine (RequireTensor_covers (forall₂_getElem? h 1) _ _).bind fun rhs' rhs hr => ?_
  refine (RequireSameDType_covers hl hr _).bind fun _ _ _ => ?_
  refine (BroadcastShape_forgets hl.1 hr.1 _).bind fun shape' shape hs => ?_
  rw [hl.2]
  exact .ok (.tensor hs)

theorem IdentityInferType_acceptsUnknown : AcceptsUnknown IdentityInferType := by
  intro attrs ts' ts h
  refine (RequireArity_covers h _ _).bind fun _ _ _ => ?_
  have hfirst := forall₂_getElem? h 0
  generalize ts'[0]? = type' at hfirst ⊢
  generalize ts[0]? = type at hfirst ⊢
  cases hfirst with
  | none => exact .error
  | some h => exact .ok h

theorem UnarySameInferType_acceptsUnknown : AcceptsUnknown UnarySameInferType := by
  intro attrs ts' ts h
  refine (RequireArity_covers h _ _).bind fun _ _ _ => ?_
  refine (RequireTensor_covers (forall₂_getElem? h 0) _ _).bind fun data' data hd => ?_
  exact .ok hd.toType

theorem CastInferType_acceptsUnknown : AcceptsUnknown CastInferType := by
  intro attrs ts' ts h
  refine (RequireArity_covers h _ _).bind fun _ _ _ => ?_
  refine (RequireTensor_covers (forall₂_getElem? h 0) _ _).bind fun data' data hd => ?_
  rw [hd.2]
  refine (Covers.refl _).bind fun dtype _ hdtype => ?_
  rw [hdtype]
  exact .ok (.tensor hd.1)

theorem DenseInferType_acceptsUnknown : AcceptsUnknown DenseInferType := by
  intro attrs ts' ts h
  refine (RequireArity_covers h _ _).bind fun _ _ _ => ?_
  refine (RequireTensor_covers (forall₂_getElem? h 0) _ _).bind fun data' data hd => ?_
  refine (RequireTensor_covers (forall₂_getElem? h 1) _ _).bind fun weight' weight hw => ?_
  refine (RequireSameDType_covers hd hw _).bind fun _ _ _ => ?_
  refine (throwIf_covers (by rw [hd.rank, hw.rank]; exact id)).bind fun _ _ _ => ?_
  refine (throwIf_covers (mismatch_forgets (hd.dim 1) (hw.dim 1))).bind fun _ _ _ => ?_
  rw [hd.2]
  refine .ok (.tensor (.cons (hd.dim 0) (.cons ?_ .nil)))
  split
  · exact .refl _
  · exact hw.dim 0

theorem GemmInferType_acceptsUnknown : AcceptsUnknown GemmInferType := by
  intro attrs ts' ts h
  refine (RequireArity_covers h _ _).bind fun _ _ _ => ?_
  refine (RequireTensor_covers (forall₂_getElem? h 0) _ _).bind fun a' a ha => ?_
  refine (RequireTensor_covers (forall₂_getElem? h 1) _ _).bind fun b' b hb => ?_
  refine (RequireTensor_covers (forall₂_getElem? h 2) _ _).bind fun c' c hc => ?_
  refine (RequireSameDType_covers ha hb _).bind fun _ _ _ => ?_
  refine (RequireSameDType_covers ha hc _).bind fun _ _ _ => ?_
  refine (throwIf_covers (by rw [ha.rank, hb.rank]; exact id)).bind fun _ _ _ => ?_
  refine (throwIf_covers (mismatch_forgets (ha.dim _) (hb.dim _))).bind fun _ _ _ => ?_
  refine (BroadcastShape_forgets hc.1 (ha.pair hb _ _) _).bind fun _ _ _ => ?_
  rw [ha.2]
  exact .ok (.tensor (ha.pair hb _ _))

theorem Conv2DInferType_acceptsUnknown : AcceptsUnknown Conv2DInferType := by
  intro attrs ts' ts h
  refine (throwIf_covers (by rw [h.length_eq]; exact id)).bind fun _ _ _ => ?_
  refine (RequireTensor_covers (forall₂_getElem? h 0) _ _).bind fun data' data hd => ?_
  refine (RequireTensor_covers (forall₂_getElem? h 1) _ _).bind fun weight' weight hw => ?_
  refine (RequireSameDType_covers hd hw _).bind fun _ _ _ => ?_
  refine (throwIf_covers (by rw [hd.rank, hw.rank]; exact id)).bind fun _ _ _ => ?_
  refine (throwIf_covers id).bind fun _ _ _ => ?_
  refine (throwIf_covers id).bind fun _ _ _ => ?_
  refine (throwIf_covers ?_).bind fun _ _ _ => ?_
  · rintro ⟨hknown, hknown', hne⟩
    rw [← (hd.dim 1).eq hknown, ← (hw.dim 1).eq hknown']
    exact ⟨hknown, hknown', hne⟩
  refine (Covers.refl _).bind fun padding _ hpadding => ?_
  have hkh := ReadVectorValue_forgets (AsConv2DAttrs attrs).kernel_size 0 (hw.dim 2)
  have hkw := ReadVectorValue_forgets (AsConv2DAttrs attrs).kernel_size 1 (hw.dim 3)
  have hchannels := conv2DChannels_forgets (AsConv2DAttrs attrs) hw
  refine (throwIf_covers ?_).bind fun _ _ _ => ?_
  · simp only [Bool.or_eq_true]
    exact Or.imp (mismatch_forgets hkh (hw.dim 2)) (mismatch_forgets hkw (hw.dim 3))
  refine (requireBias_covers h hd hchannels).bind fun _ _ _ => ?_
  rw [hpadding]
  refine (WindowOutputDim_forgets (hd.dim 2) hkh _ _ _ _ _ _).bind fun oh' oh hoh => ?_
  refine (WindowOutputDim_forgets (hd.dim 3) hkw _ _ _ _ _ _).bind fun ow' ow how => ?_
  rw [hd.2]
  exact .ok (.tensor (.cons (hd.dim 0) (.cons hchannels (.cons hoh (.cons how .nil)))))

theorem Pool2DInferType_acceptsUnknown : AcceptsUnknown Pool2DInferType := by
  intro attrs ts' ts h
  refine (RequireArity_covers h _ _).bind fun _ _ _ => ?_
  refine (RequireTensor_covers (forall₂_getElem? h 0) _ _).bind fun data' data hd => ?_
  refine (throwIf_covers (by rw [hd.rank]; exact id)).bind fun _ _ _ => ?_
  refine (throwIf_covers id).bind fun _ _ _ => ?_
  refine (Covers.refl _).bind fun padding _ hpadding => ?_
  rw [hpadding]
  refine (WindowOutputDim_forgets (hd.dim 2) (.refl _) _ _ _ _ _ _).bind fun oh' oh hoh => ?_
  refine (WindowOutputDim_forgets (hd.dim 3) (.refl _) _ _ _ _ _ _).bind fun ow' ow how => ?_
  rw [hd.2]
  exact .ok (.tensor (.cons (hd.dim 0) (.cons (hd.dim 1) (.cons hoh (.cons how .nil)))))

theorem GlobalAvgPool2DInferType_acceptsUnknown : AcceptsUnknown GlobalAvgPool2DInferType := by
  intro attrs ts' ts h
  refine (RequireArity_covers h _ _).bind fun _ _ _ => ?_
  refine (RequireTensor_covers (forall₂_getElem? h 0) _ _).bind fun data' data hd => ?_
  refine (throwIf_covers (by rw [hd.rank]; exact id)).bind fun _ _ _ => ?_
  rw [hd.2]
  exact .ok (.tensor (.cons (hd.dim 0) (.cons (hd.dim 1) (.cons (.refl 1) (.cons (.refl 1) .nil)))))

theorem FlattenInferType_acceptsUnknown : AcceptsUnknown FlattenInferType := by
  intro attrs ts' ts h
  refine (RequireArity_covers h _ _).bind fun _ _ _ => ?_
  refine (RequireTensor_covers (forall₂_getElem? h 0) _ _).bind fun data' data hd => ?_
  refine (throwIf_covers ?_).bind fun _ _ _ => ?_
  · rw [List.isEmpty_iff_length_eq_zero, List.isEmpty_iff_length_eq_zero, hd.rank]
    exact id
  rw [hd.rank]
  refine (Covers.refl _).bind fun axis _ haxis => ?_
  rw [haxis, hd.2]
  exact .ok (.tensor (.cons (KnownProduct_forgets hd.1 _ _)
    (.cons (KnownProduct_forgets hd.1 _ _) .nil)))

theorem ShapeInferType_acceptsUnknown : AcceptsUnknown ShapeInferType := by
  intro attrs ts' ts h
  refine (RequireArity_covers h _ _).bind fun _ _ _ => ?_
  refine (RequireTensor_covers (forall₂_getElem? h 0) _ _).bind fun data' data hd => ?_
  rw [hd.rank]
  exact .ok (.tensor (.cons (.refl _) .nil))

theorem MatMulInferType_acceptsUnknown : AcceptsUnknown MatMulInferType := by
  intro attrs ts' ts h
  refine (RequireArity_covers h _ _).bind fun _ _ _ => ?_
  refine (RequireTensor_covers (forall₂_getElem? h 0) _ _).bind fun lhs' lhs hl => ?_
  refine (RequireTensor_covers (forall₂_getElem? h 1) _ _).bind fun rhs' rhs hr => ?_
  refine (RequireSameDType_covers hl hr _).bind fun _ _ _ => ?_
  refine (throwIf_covers (by rw [hl.rank, hr.rank]; exact id)).bind fun _ _ _ => ?_
  refine (throwIf_covers (mismatch_forgets (hl.dim 1) (hr.dim 0))).bind fun _ _ _ => ?_
  rw [hl.2]
  exact .ok (.tensor (hl.pair hr 0 1))

/-- The states of two loops of `ReshapeInferType`: the place that is inferred is unknown. -/
structure ForgetsReshape (s' s : ReshapeState) : Prop where
  out : List.Forall₂ Forgets s'.out s.out
  infer_index : s'.infer_index = s.infer_index
  unknown : ∀ i, s'.infer_index = some i → s'.out[i]? = some (-1)

/-- A loop appends a dimension. -/
theorem ForgetsReshape.append {s' s : ReshapeState} (h : ForgetsReshape s' s) {d' d : Int64}
    (hd : Forgets d' d) (product' product : Int64) :
    ForgetsReshape { s' with out := s'.out ++ [d'], known_product := product' }
      { s with out := s.out ++ [d], known_product := product } where
  out := List.rel_append h.out (.cons hd .nil)
  infer_index := h.infer_index
  unknown i hi := by
    have hunknown := h.unknown i hi
    rw [List.getElem?_append_left (List.getElem?_eq_some_iff.mp hunknown).1, hunknown]

theorem reshapeDim_covers {shape' shape : List Int64} (h : List.Forall₂ Forgets shape' shape)
    (allowzero : Int32) {s' s : ReshapeState} (hs : ForgetsReshape s' s) (dim : Int64 × Nat) :
    Covers ForgetsReshape (reshapeDim shape' allowzero s' dim) (reshapeDim shape allowzero s dim) := by
  rw [reshapeDim, reshapeDim]
  refine .ite (fun _ => .ok (hs.append (.refl _) _ _)) fun _ => ?_
  refine .ite (fun _ => ?_) fun _ => ?_
  · refine .ite (fun _ => .ok (hs.append (.refl _) _ _)) fun _ => ?_
    refine (throwIf_covers (by rw [h.length_eq]; exact id)).bind fun _ _ _ => ?_
    exact .ok (hs.append (forall₂_getD h (.refl 0) _) _ _)
  · refine .ite (fun _ => ?_) fun _ => .error
    refine (throwIf_covers (by rw [hs.infer_index]; exact id)).bind fun _ _ _ => .ok ?_
    have hout := List.rel_append hs.out (.cons (.refl (-1)) .nil)
    refine ⟨hout, congrArg some hs.out.length_eq, fun i hi => ?_⟩
    obtain rfl := Option.some.inj hi
    exact List.getElem?_concat_length

/-- No dimension is inferred and nothing is compared if an input dimension is unknown. -/
theorem reshapeResult_unknown {s' s : ReshapeState} (hs : ForgetsReshape s' s)
    (input_product : Int64) :
    Covers (List.Forall₂ Forgets) (reshapeResult (-1) s') (reshapeResult input_product s) := by
  have hnegative : ¬(0 : Int64) ≤ -1 := by decide
  intro out hout
  refine ⟨s'.out, ?_, ?_⟩
  · rw [reshapeResult]
    split
    · exact if_neg fun h => hnegative h.1
    · rw [throwIf, if_neg fun h => hnegative h.1]
      rfl
  · rw [reshapeResult] at hout
    split at hout
    · rename_i i hi
      split at hout
      · obtain ⟨-, -, hout⟩ := except_bind_eq_ok.mp hout
        obtain rfl := Except.ok.inj hout
        obtain ⟨hlt, hget⟩ := List.getElem?_eq_some_iff.mp (hs.unknown i (hs.infer_index.trans hi))
        have hset := forall₂_set hs.out
          (forgets_unknown (input_product / s.known_product)) i
        rw [← hget, List.set_getElem_self] at hset
        exact hset
      · obtain rfl := Except.ok.inj hout
        exact hs.out
    · obtain ⟨-, -, hout⟩ := except_bind_eq_ok.mp hout
      obtain rfl := Except.ok.inj hout
      exact hs.out

theorem ReshapeInferType_acceptsUnknown : AcceptsUnknown ReshapeInferType := by
  intro attrs ts' ts h
  refine (throwIf_covers (by rw [h.length_eq]; exact id)).bind fun _ _ _ => ?_
  refine (RequireTensor_covers (forall₂_getElem? h 0) _ _).bind fun data' data hd => ?_
  split
  · rename_i newshape allowzero
    by_cases heq : data'.shape = data.shape
    · rw [heq, hd.2]
      refine (Covers.refl _).bind fun s' s hs => ?_
      rw [hs]
      refine (Covers.refl _).bind fun out' out hout => ?_
      rw [hout]
      exact .ok (.tensor (List.forall₂_same.mpr fun d _ => .refl d))
    · have hproduct : KnownProduct data'.shape 0 data'.shape.length = -1 := by
        rw [KnownProduct, List.take_length, List.drop_zero]
        exact knownProductFrom_unknown hd.1 heq 1
      have hloop : Covers ForgetsReshape
          (newshape.zipIdx.foldlM (reshapeDim data'.shape allowzero) {})
          (newshape.zipIdx.foldlM (reshapeDim data.shape allowzero) {}) := by
        refine .foldlM (fun s' s dim' dim hs hdim => ?_) ⟨.nil, rfl, fun _ h => by cases h⟩
          (List.forall₂_same.mpr fun dim _ => (rfl : dim = dim))
        rw [hdim]
        exact reshapeDim_covers hd.1 allowzero hs dim
      refine hloop.bind fun s' s hs => ?_
      rw [hproduct, hd.2]
      exact (reshapeResult_unknown hs _).bind fun out' out hout => .ok (.tensor hout)
  · exact .error

theorem TransposeInferType_acceptsUnknown : AcceptsUnknown TransposeInferType := by
  intro attrs ts' ts h
  refine (RequireArity_covers h _ _).bind fun _ _ _ => ?_
  refine (RequireTensor_covers (forall₂_getElem? h 0) _ _).bind fun data' data hd => ?_
  rw [hd.rank]
  refine (throwIf_covers id).bind fun _ _ _ => ?_
  have hloop (perm : List Int64) :
      Covers (fun s' s : List Nat × List Int64 => s'.1 = s.1 ∧ List.Forall₂ Forgets s'.2 s.2)
        (perm.foldlM (transposeDim data'.shape) ([], []))
        (perm.foldlM (transposeDim data.shape) ([], [])) := by
    refine .foldlM (fun s' s axis' axis hs haxis => ?_) ⟨rfl, .nil⟩ (List.forall₂_same.mpr
      fun axis _ => (rfl : axis = axis))
    rw [transposeDim, transposeDim, hd.rank, hs.1, haxis]
    refine (Covers.refl _).bind fun normalized _ hnormalized => ?_
    rw [hnormalized]
    refine (throwIf_covers id).bind fun _ _ _ => ?_
    exact .ok ⟨rfl, List.rel_append hs.2 (.cons (hd.dim _) .nil)⟩
  refine (hloop _).bind fun s' s hs => ?_
  rw [hd.2]
  exact .ok (.tensor hs.2)

theorem ReduceMeanInferType_acceptsUnknown : AcceptsUnknown ReduceMeanInferType := by
  intro attrs ts' ts h
  refine (RequireArity_covers h _ _).bind fun _ _ _ => ?_
  refine (RequireTensor_covers (forall₂_getElem? h 0) _ _).bind fun data' data hd => ?_
  rw [hd.rank, hd.2]
  refine (Covers.refl _).bind fun axes' axes haxes => ?_
  rw [haxes]
  refine .ok (.tensor (List.rel_flatMap (List.forall₂_same.mpr fun i _ => (rfl : i = i)) ?_))
  rintro i _ rfl
  by_cases hi : i ∈ axes
  · simp only [if_pos hi]
    exact List.forall₂_same.mpr fun d _ => Forgets.refl d
  · simp only [if_neg hi]
    exact .cons (hd.dim i) .nil

theorem SoftmaxInferType_acceptsUnknown : AcceptsUnknown SoftmaxInferType := by
  intro attrs ts' ts h
  refine (RequireArity_covers h _ _).bind fun _ _ _ => ?_
  refine (RequireTensor_covers (forall₂_getElem? h 0) _ _).bind fun data' data hd => ?_
  rw [hd.rank]
  have hempty : data'.shape.isEmpty = true ↔ data.shape.isEmpty = true := by
    rw [List.isEmpty_iff_length_eq_zero, List.isEmpty_iff_length_eq_zero, hd.rank]
  simp only [hempty]
  refine .ite (fun _ => .ok hd.toType) fun _ => ?_
  exact (Covers.refl _).bind fun _ _ _ => .ok hd.toType

theorem concatenateField_covers {first' first : TensorTypeNode} (hf : ForgetsTensor first' first)
    (axis : Nat) {out' out : List Int64} (ho : List.Forall₂ Forgets out' out)
    {field' field : Option RelayType × Nat}
    (h : Option.Rel ForgetsType field'.1 field.1 ∧ field'.2 = field.2) :
    Covers (List.Forall₂ Forgets) (concatenateField first' axis out' field')
      (concatenateField first axis out field) := by
  rw [concatenateField, concatenateField, h.2, ho.length_eq]
  refine (RequireTensor_covers h.1 _ _).bind fun current' current hc => ?_
  refine (RequireSameDType_covers hf hc _).bind fun _ _ _ => ?_
  refine (throwIf_covers (by rw [hc.rank, hf.rank]; exact id)).bind fun _ _ _ => ?_
  refine .mapM fun dim => ?_
  have hout := forall₂_getD ho (.refl 0) dim
  rw [concatenateDim, concatenateDim]
  refine .ite (fun _ => .ok ?_) fun _ => ?_
  · refine forgets_ite fun hknown => ?_
    obtain ⟨hknown', hknown⟩ := (Bool.and_eq_true _ _).mp hknown
    rw [← hout.eq hknown', ← (hc.dim dim).eq hknown, if_pos (by rw [hknown', hknown]; rfl)]
    exact .refl _
  · refine (throwIf_covers (mismatch_forgets hout (hc.dim dim))).bind fun _ _ _ => ?_
    exact .ok hout

theorem ConcatenateInferType_acceptsUnknown : AcceptsUnknown ConcatenateInferType := by
  intro attrs ts' ts h
  refine (RequireArity_covers h _ _).bind fun _ _ _ => ?_
  have hfirst := forall₂_getElem? h 0
  generalize ts'[0]? = type' at hfirst ⊢
  generalize ts[0]? = type at hfirst ⊢
  cases hfirst with
  | none => exact .error
  | some h =>
    cases h with
    | tensor h => exact .error
    | tuple h =>
      cases h with
      | nil => exact .error
      | cons h hs =>
        refine (RequireTensor_covers h _ _).bind fun first' first hf => ?_
        rw [hf.rank]
        refine (Covers.refl _).bind fun axis _ haxis => ?_
        rw [haxis]
        refine Covers.bind (.foldlM (fun _ _ _ _ ho hfield => concatenateField_covers hf _ ho hfield)
          hf.1 (forall₂_zipIdx hs 1)) fun out' out ho => ?_
        rw [hf.2]
        exact .ok (.tensor ho)

theorem splitFields_covers {data' data : TensorTypeNode} (hd : ForgetsTensor data' data)
    (axis : Nat) (points : List Int64) (previous : Int64) :
    Covers (List.Forall₂ (Option.Rel ForgetsType)) (splitFields data' axis previous points)
      (splitFields data axis previous points) := by
  have hfield {d' d : Int64} (h : Forgets d' d) :
      Option.Rel ForgetsType (some (.tensor (data'.shape.set axis d') data'.dtype))
        (some (.tensor (data.shape.set axis d) data.dtype)) := by
    rw [hd.2]
    exact .some (.tensor (forall₂_set hd.1 h axis))
  induction points generalizing previous with
  | nil =>
    refine .ok (.cons (hfield ?_) .nil)
    refine forgets_ite fun hknown => ?_
    rw [← (hd.dim axis).eq hknown, if_pos hknown]
    exact .refl _
  | cons point points ih =>
    refine (throwIf_covers (Or.imp id fun hpoint => ?_)).bind fun _ _ _ => ?_
    · rw [← (hd.dim axis).eq hpoint.1]
      exact hpoint
    · exact (ih point).bind fun fields' fields hfields => .ok (.cons (hfield (.refl _)) hfields)

theorem SplitInferType_acceptsUnknown : AcceptsUnknown SplitInferType := by
  intro attrs ts' ts h
  refine (RequireArity_covers h _ _).bind fun _ _ _ => ?_
  refine (RequireTensor_covers (forall₂_getElem? h 0) _ _).bind fun data' data hd => ?_
  split
  · rw [hd.rank]
    refine (Covers.refl _).bind fun axis _ haxis => ?_
    rw [haxis]
    refine .ite (fun _ => ?_) fun _ => ?_
    · refine (throwIf_covers id).bind fun _ _ _ => ?_
      refine (throwIf_covers fun hdivides => ?_).bind fun _ _ _ => ?_
      · rw [← (hd.dim _).eq hdivides.1]
        exact hdivides
      · refine .ok (.tuple (forall₂_replicate (.some ?_) _))
        rw [hd.2]
        refine .tensor (forall₂_set hd.1 (forgets_ite fun hknown => ?_) _)
        rw [← (hd.dim _).eq hknown, if_pos hknown]
        exact .refl _
    · exact (splitFields_covers hd _ _ _).bind fun fields' fields hfields => .ok (.tuple hfields)
  · exact .error

theorem WhereInferType_acceptsUnknown : AcceptsUnknown WhereInferType := by
  intro attrs ts' ts h
  refine (RequireArity_covers h _ _).bind fun _ _ _ => ?_
  refine (RequireTensor_covers (forall₂_getElem? h 0) _ _).bind fun cond' cond hc => ?_
  refine (RequireTensor_covers (forall₂_getElem? h 1) _ _).bind fun lhs' lhs hl => ?_
  refine (RequireTensor_covers (forall₂_getElem? h 2) _ _).bind fun rhs' rhs hr => ?_
  refine (throwIf_covers (by rw [hc.2]; exact id)).bind fun _ _ _ => ?_
  refine (RequireSameDType_covers hl hr _).bind fun _ _ _ => ?_
  refine (BroadcastShape_forgets hl.1 hr.1 _).bind fun value_shape' value_shape hv => ?_
  refine (BroadcastShape_forgets hc.1 hv _).bind fun shape' shape hs => ?_
  rw [hl.2]
  exact .ok (.tensor hs)

theorem GatherInferType_acceptsUnknown : AcceptsUnknown GatherInferType := by
  intro attrs ts' ts h
  refine (RequireArity_covers h _ _).bind fun _ _ _ => ?_
  refine (RequireTensor_covers (forall₂_getElem? h 0) _ _).bind fun data' data hd => ?_
  refine (RequireTensor_covers (forall₂_getElem? h 1) _ _).bind fun indices' indices hi => ?_
  refine (throwIf_covers (by rw [hi.2]; exact id)).bind fun _ _ _ => ?_
  rw [hd.rank]
  refine (Covers.refl _).bind fun axis _ haxis => ?_
  rw [haxis, hd.2]
  exact .ok (.tensor (List.rel_append (List.rel_append (List.forall₂_take _ hd.1) hi.1)
    (List.forall₂_drop _ hd.1)))

/-- A type relation accepts types with unknown dimensions if it accepts them with the dimensions,
and the result is the same up to unknown dimensions. -/
theorem typeRelations_acceptsUnknown {infer : FInferType} (hinfer : infer ∈ typeRelations)
    (attrs : Option Attrs) {input_types' input_types : List RelayType}
    (h : List.Forall₂ ForgetsType input_types' input_types) {type : RelayType}
    (htype : infer attrs input_types = .ok type) :
    ∃ type', infer attrs input_types' = .ok type' ∧ ForgetsType type' type := by
  have hall : ∀ infer ∈ typeRelations, AcceptsUnknown infer := by
    simp only [typeRelations, List.forall_mem_cons]
    exact ⟨IdentityInferType_acceptsUnknown, BinaryBroadcastInferType_acceptsUnknown _ _,
      BinaryBroadcastInferType_acceptsUnknown _ _, BinaryBroadcastInferType_acceptsUnknown _ _,
      BinaryBroadcastInferType_acceptsUnknown _ _, BinaryBroadcastInferType_acceptsUnknown _ _,
      BinaryBroadcastInferType_acceptsUnknown _ _, BinaryBroadcastInferType_acceptsUnknown _ _,
      UnarySameInferType_acceptsUnknown, CastInferType_acceptsUnknown,
      MatMulInferType_acceptsUnknown, DenseInferType_acceptsUnknown, GemmInferType_acceptsUnknown,
      Conv2DInferType_acceptsUnknown, Pool2DInferType_acceptsUnknown,
      GlobalAvgPool2DInferType_acceptsUnknown, FlattenInferType_acceptsUnknown,
      ReshapeInferType_acceptsUnknown, ShapeInferType_acceptsUnknown,
      TransposeInferType_acceptsUnknown, ReduceMeanInferType_acceptsUnknown,
      SoftmaxInferType_acceptsUnknown, ConcatenateInferType_acceptsUnknown,
      SplitInferType_acceptsUnknown, WhereInferType_acceptsUnknown, GatherInferType_acceptsUnknown,
      fun infer h => absurd h List.not_mem_nil⟩
  exact hall infer hinfer attrs h type htype

/-- A product of matrices whose inner dimension is unknown on one side. -/
theorem matmul_acceptsUnknown :
    ∃ type', MatMulInferType none [.tensor [2, -1] "float32", .tensor [3, 4] "float32"] =
      .ok type' ∧ ForgetsType type' (.tensor [2, 4] "float32") := by
  have h : List.Forall₂ ForgetsType [.tensor [2, -1] "float32", .tensor [3, 4] "float32"]
      [.tensor [2, 3] "float32", .tensor [3, 4] "float32"] :=
    .cons (.tensor (.cons (.refl 2) (.cons (forgets_unknown 3) .nil)))
      (.cons (.tensor (.cons (.refl 3) (.cons (.refl 4) .nil))) .nil)
  exact typeRelations_acceptsUnknown (by simp [typeRelations]) none h rfl

end Kxc.Relay

import Kxc.Relay.Transforms.CollectiveCount
import Kxc.Relay.Transforms.PlanDevices

/-! On which workers the kernels of an execution plan find their inputs, from the input graph: the
devices that the inserter leaves on its nodes, and the arguments that it copies. -/

namespace Kxc.Relay

open RelayPass DeviceCommunicationInserter

/-! ### The inserter on devices -/

/-- The virtual device of the node that the inserter puts in the place of `e`. -/
def nodeDevice (σ : Heap) (e : Expr) : Option VirtualDevice :=
  match e with
  | .call _ op _ attrs _ =>
    (normalizedAttrs (GetCallOpName op) attrs (GetVirtualDeviceFromExpr σ e) none).2
  | _ => GetVirtualDeviceFromExpr σ e

/-- Whether the inserter copies the argument `arg` of the call `e`. -/
def copiesArgument (σ : Heap) (e arg : Expr) : Bool :=
  match e with
  | .call _ op _ _ _ =>
    GetCallOpName op ≠ "" && !IsCommunicationOpName (GetCallOpName op) &&
      (GetVirtualDeviceFromExpr σ e).isSome &&
      needsCopy (nodeDevice σ arg) (GetVirtualDeviceFromExpr σ e)
  | _ => false

/-- Whether the inserter makes the node `e` anew on its own account. -/
def rewrites (σ : Heap) (e : Expr) : Bool :=
  match e with
  | .call _ op args _ _ =>
    IsCommunicationOpName (GetCallOpName op) || args.any (copiesArgument σ e)
  | _ => false

/-- Whether the inserter keeps `e`: it rewrites none of its nodes. -/
def kept (σ : Heap) (e : Expr) : Bool := e.subexprs.all fun s => !rewrites σ s

/-- The graph as the inserter leaves it, read from the graph that it is given. -/
def Heap.source (σ : Heap) : DeviceReader where
  own := nodeDevice σ
  shared := kept σ
  operand e arg device := if copiesArgument σ e arg then GetVirtualDeviceFromExpr σ e else device

theorem normalizedAttrs_device (op_name : String) (attrs : Option Attrs)
    (own arg : Option VirtualDevice) :
    (normalizedAttrs op_name attrs own arg).2 = (normalizedAttrs op_name attrs own none).2 := by
  unfold normalizedAttrs
  split_ifs <;> split <;> rfl

theorem normalizedAttrs_own {op_name : String} {attrs : Option Attrs}
    {own arg : Option VirtualDevice} (h : IsCommunicationOpName op_name = false) :
    (normalizedAttrs op_name attrs own arg).2 = own := by
  have hname : op_name ≠ "device.copy" := by
    rintro rfl
    exact absurd h (by decide)
  unfold normalizedAttrs
  rw [if_neg hname]
  split <;> rfl

/-- A node made of `e` with its annotations, or `e` itself, has the device of `e`. -/
theorem mutate_own {e : Expr} {σ σ' : Heap} (hleaf : e.isLeaf = false)
    (hlt : ∀ s ∈ e.subexprs, s.ptr < σ.next) (hgrows : σ.Grows σ') :
    ∃ i υ, mutate post e σ' = post e (e.withChildren i (mutateList post e.children σ').1) υ ∧
      (mutateList post e.children σ').2.Grows υ ∧ i < υ.next ∧
      GetVirtualDeviceFromExpr υ (e.withChildren i (mutateList post e.children σ').1) =
        GetVirtualDeviceFromExpr σ e ∧
      ((i = e.ptr ∧ (mutateList post e.children σ').1 = e.children ∧
          υ = (mutateList post e.children σ').2) ∨
        i = (mutateList post e.children σ').2.next ∧ υ.next = i + 1 ∧
          (mutateList post e.children σ').1 ≠ e.children) := by
  have hself := (hlt e e.self_mem_subexprs)
  obtain ⟨i, υ, heq, hυ, hi⟩ := post_allocating.mutate_cases (σ := σ') hleaf
    fun c hc => (hlt c (Expr.child_mem_subexprs hc)).trans_le hgrows.next
  have hlist := post_allocating.mutateList_grows e.children σ'
  have hlen := mutateList_length post e.children σ'
  have hann := (hgrows.trans hlist).annOf hself
  refine ⟨i, υ, heq, hυ, ?_, ?_, hi.imp_right fun h => ⟨h.1, h.2.1, h.2.2.2⟩⟩
  · rcases hi with ⟨rfl, -⟩ | ⟨-, hnext, -⟩
    · exact hself.trans_le ((hgrows.trans hlist).trans hυ).next
    · omega
  · rcases hi with ⟨rfl, hcs, rfl⟩ | ⟨rfl, hnext, hi, -⟩
    · rw [hcs, Expr.withChildren_self hleaf]
      exact congrArg Annotations.virtual_device_ hann
    · have hptr := (Expr.withChildren_spec (i := (mutateList post e.children σ').2.next) hleaf
        hlen).1
      rw [← Expr.withChildren_isLeaf] at hleaf
      rw [GetVirtualDeviceFromExpr, Heap.annOf_eq υ hleaf, hptr, hi]
      exact congrArg Annotations.virtual_device_ hann

/-- The device that the inserter leaves on a node. -/
theorem post_device {ref e : Expr} {υ τ : Heap} (hlt : e.ptr < υ.next)
    (hgrows : (post ref e υ).2.Grows τ) :
    GetVirtualDeviceFromExpr τ (post ref e υ).1 = nodeDevice υ e := by
  have hkeep : ∀ {υ' : Heap}, υ'.Grows τ → e.ptr < υ'.next →
      GetVirtualDeviceFromExpr τ e = GetVirtualDeviceFromExpr υ' e := fun h hlt =>
    congrArg Annotations.virtual_device_ (h.annOf hlt)
  cases e with
  | call id op args attrs origin =>
    rcases post_call ref id op args attrs origin υ with ⟨-, h⟩ | ⟨hcomm, -, -, -, h⟩ | ⟨hcomm, -, h⟩
    · rw [h] at hgrows ⊢
      exact (GetVirtualDeviceFromExpr_new rfl rfl hgrows).trans (normalizedAttrs_device _ _ _ _)
    · rw [h] at hgrows ⊢
      exact (GetVirtualDeviceFromExpr_new rfl rfl hgrows).trans (normalizedAttrs_own hcomm).symm
    · rw [h] at hgrows ⊢
      rw [nodeDevice, normalizedAttrs_own hcomm]
      exact hkeep hgrows hlt
  | _ => exact hkeep hgrows hlt

/-- Other children under the same operator leave a node its device. -/
theorem nodeDevice_withChildren {e : Expr} {i : Nat} {cs : List Expr} {σ υ : Heap}
    (hown : GetVirtualDeviceFromExpr υ (e.withChildren i cs) = GetVirtualDeviceFromExpr σ e)
    (hname : cs.head?.map GetCallOpName = e.children.head?.map GetCallOpName) :
    nodeDevice υ (e.withChildren i cs) = nodeDevice σ e := by
  cases e with
  | call id op args attrs origin =>
    cases cs with
    | nil => cases hname
    | cons c cs =>
      have hop : GetCallOpName c = GetCallOpName op := Option.some_inj.mp hname
      simp only [Expr.withChildren] at hown ⊢
      rw [nodeDevice, nodeDevice, hown, hop]
  | undef | constant | var | op | tuple => exact hown
  | function | tupleGetItem =>
    rcases cs with _ | ⟨a, _ | ⟨b, cs⟩⟩ <;> exact hown
  | letE =>
    rcases cs with _ | ⟨a, _ | ⟨b, _ | ⟨c, cs⟩⟩⟩ <;> exact hown
  | ifE =>
    rcases cs with _ | ⟨a, _ | ⟨b, _ | ⟨c, _ | ⟨d, cs⟩⟩⟩⟩ <;> exact hown

theorem mutateList_head {es : List Expr} {σ : Heap} :
    (mutateList post es σ).1.head?.map GetCallOpName = es.head?.map GetCallOpName := by
  cases es with
  | nil => rfl
  | cons e es => exact congrArg some (mutate_opName e σ)

/-- The device that a whole run leaves on a node. -/
theorem mutate_device {e : Expr} {σ σ' τ : Heap} (hlt : ∀ s ∈ e.subexprs, s.ptr < σ.next)
    (hgrows : σ.Grows σ') (hτ : (mutate post e σ').2.Grows τ) :
    GetVirtualDeviceFromExpr τ (mutate post e σ').1 = nodeDevice σ e := by
  have hself := hlt e e.self_mem_subexprs
  cases hleaf : e.isLeaf with
  | true =>
    rw [mutate_leaf hleaf] at hτ ⊢
    have hdevice : GetVirtualDeviceFromExpr τ e = GetVirtualDeviceFromExpr σ e :=
      congrArg Annotations.virtual_device_ ((hgrows.trans hτ).annOf hself)
    cases e with
    | call => simp [Expr.isLeaf] at hleaf
    | _ => exact hdevice
  | false =>
    obtain ⟨i, υ, heq, -, hi, hown, -⟩ := mutate_own hleaf hlt hgrows
    rw [heq] at hτ ⊢
    have hptr := (Expr.withChildren_spec (i := i) hleaf (mutateList_length post e.children σ')).1
    rw [post_device (by rw [hptr]; exact hi) hτ]
    exact nodeDevice_withChildren hown mutateList_head

theorem mutateList_devices {es : List Expr} {σ σ' τ : Heap}
    (hlt : ∀ e ∈ es, ∀ s ∈ e.subexprs, s.ptr < σ.next) (hgrows : σ.Grows σ')
    (hτ : (mutateList post es σ').2.Grows τ) :
    (mutateList post es σ').1.map (GetVirtualDeviceFromExpr τ) = es.map (nodeDevice σ) := by
  induction es generalizing σ' with
  | nil => rfl
  | cons e es ih =>
    have hrest : (mutate post e σ').2.Grows τ :=
      (post_allocating.mutateList_grows es _).trans hτ
    exact congrArg₂ List.cons (mutate_device (hlt e (by simp)) hgrows hrest)
      (ih (fun a ha => hlt a (by simp [ha])) (hgrows.trans (post_allocating.mutate_grows e σ')) hτ)

theorem copyArgs_changed {consumer_vd : Option VirtualDevice} {args : List Expr} {σ : Heap} :
    (copyArgs consumer_vd args σ).changed =
      args.any fun a => needsCopy (GetVirtualDeviceFromExpr σ a) consumer_vd := by
  induction args generalizing σ with
  | nil => rfl
  | cons arg args ih =>
    rcases copyArgs_cons consumer_vd arg args σ with ⟨hcopy, heq⟩ | ⟨hcopy, heq⟩
    · rw [heq, List.any_cons, hcopy, Bool.false_or]
      exact ih
    · rw [heq, List.any_cons, hcopy, Bool.true_or]

theorem any_copiesArgument (id : Nat) (op : Expr) (args : List Expr) (attrs : Option Attrs)
    (origin : Nat) (σ : Heap) :
    let e := Expr.call id op args attrs origin
    args.any (copiesArgument σ e) =
      (GetCallOpName op ≠ "" && !IsCommunicationOpName (GetCallOpName op) &&
        (GetVirtualDeviceFromExpr σ e).isSome &&
        args.any fun a => needsCopy (nodeDevice σ a) (GetVirtualDeviceFromExpr σ e)) := by
  intro e
  rw [List.and_any_distrib_left]
  rfl

/-- What the inserter does with a call of the graph that it is given. -/
theorem mutate_call {id : Nat} {op : Expr} {args : List Expr} {attrs : Option Attrs}
    {origin : Nat} {σ σ' : Heap}
    (hlt : ∀ s ∈ (Expr.call id op args attrs origin).subexprs, s.ptr < σ.next)
    (hgrows : σ.Grows σ') :
    let e := Expr.call id op args attrs origin
    let new_op := mutate post op σ'
    let new_args := mutateList post args new_op.2
    (IsCommunicationOpName (GetCallOpName op) = true ∧
        ∃ υ attrs', new_args.2.Grows υ ∧ (mutate post e σ').2.next = υ.next + 1 ∧
          (mutate post e σ').1 = .call υ.next new_op.1 new_args.1 attrs' origin) ∨
      (IsCommunicationOpName (GetCallOpName op) = false ∧
        args.any (copiesArgument σ e) = true ∧
        ∃ υ, new_args.2.Grows υ ∧
          let copied := copyArgs (GetVirtualDeviceFromExpr σ e) new_args.1 υ
          copied.heap.Grows (mutate post e σ').2 ∧
          (mutate post e σ').2.next = copied.heap.next + 1 ∧
          (mutate post e σ').1 = .call copied.heap.next new_op.1 copied.new_args attrs origin) ∨
      (IsCommunicationOpName (GetCallOpName op) = false ∧
        args.any (copiesArgument σ e) = false ∧
        (new_op.1 = op ∧ new_args.1 = args ∧ mutate post e σ' = (e, new_args.2) ∨
          new_op.1 :: new_args.1 ≠ op :: args ∧ (mutate post e σ').2.next = new_args.2.next + 1 ∧
            (mutate post e σ').1 = .call new_args.2.next new_op.1 new_args.1 attrs origin)) := by
  intro e new_op new_args
  obtain ⟨i, υ, heq, hυ, hi, hown, hcases⟩ := mutate_own (e := e) rfl hlt hgrows
  change mutate post e σ' = post e (.call i new_op.1 new_args.1 attrs origin) υ at heq
  change new_args.2.Grows υ at hυ
  change GetVirtualDeviceFromExpr υ (.call i new_op.1 new_args.1 attrs origin) = _ at hown
  have hop : GetCallOpName new_op.1 = GetCallOpName op := mutate_opName op σ'
  have hargs : new_args.1.map (GetVirtualDeviceFromExpr υ) = args.map (nodeDevice σ) :=
    mutateList_devices
      (fun a ha s hs => hlt s (Expr.subexprs_trans
        (Expr.child_mem_subexprs (List.mem_cons_of_mem _ ha)) hs))
      (hgrows.trans (post_allocating.mutate_grows op σ')) hυ
  have hchanged : (copyArgs (GetVirtualDeviceFromExpr σ e) new_args.1 υ).changed =
      args.any fun a => needsCopy (nodeDevice σ a) (GetVirtualDeviceFromExpr σ e) := by
    have hmap := congrArg (List.any · (needsCopy · (GetVirtualDeviceFromExpr σ e))) hargs
    rw [List.any_map, List.any_map] at hmap
    rw [copyArgs_changed]
    exact hmap
  have hcopies := any_copiesArgument id op args attrs origin σ
  rcases post_call e i new_op.1 new_args.1 attrs origin υ with ⟨hcomm, h⟩ | ⟨hcomm, hname, hsome,
    hch, h⟩ | ⟨hcomm, hno, h⟩
  · rw [hop] at hcomm
    rw [heq, h]
    exact Or.inl ⟨hcomm, υ, _, hυ, rfl, rfl⟩
  · rw [hown] at hsome hch h
    rw [hop] at hcomm hname
    rw [hchanged] at hch
    rw [heq, h]
    refine Or.inr (Or.inl ⟨hcomm, by simp [hcopies, hname, hcomm, e, hsome, hch], υ, hυ, ?_, rfl, rfl⟩)
    exact Heap.grows_new _ _ _
  · rw [hown, hop] at hno
    rw [hop] at hcomm
    rw [hchanged] at hno
    have hnone : args.any (copiesArgument σ e) = false := by
      rw [hcopies]
      rcases hno with hno | hno | hno
      · simp [hno]
      · rw [hno, Bool.and_false, Bool.false_and]
      · rw [hno, Bool.and_false]
    rw [heq, h]
    refine Or.inr (Or.inr ⟨hcomm, hnone, ?_⟩)
    rcases hcases with ⟨rfl, hsame, rfl⟩ | ⟨rfl, hnext, hne⟩
    · obtain ⟨hop', hargs'⟩ := List.cons.inj hsame
      have hself : Expr.call i new_op.1 new_args.1 attrs origin = e := by
        rw [show new_op.1 = op from hop', show new_args.1 = args from hargs']
      exact Or.inl ⟨hop', hargs', congrArg (fun e => (e, new_args.2)) hself⟩
    · exact Or.inr ⟨hne, hnext, rfl⟩

theorem mutate_other {e : Expr} {σ σ' : Heap} (hleaf : e.isLeaf = false)
    (hcall : ∀ id op args attrs origin, e ≠ .call id op args attrs origin)
    (hlt : ∀ s ∈ e.subexprs, s.ptr < σ.next) (hgrows : σ.Grows σ') :
    let new := mutateList post e.children σ'
    (new.1 = e.children ∧ mutate post e σ' = (e, new.2)) ∨
      (new.1 ≠ e.children ∧ (mutate post e σ').2.next = new.2.next + 1 ∧
        (mutate post e σ').1 = e.withChildren new.2.next new.1) := by
  intro new
  obtain ⟨i, υ, heq, -, -, -, hcases⟩ := mutate_own hleaf hlt hgrows
  have hpost : ∀ i cs υ, post e (e.withChildren i cs) υ = (e.withChildren i cs, υ) := by
    intro i cs υ
    cases e with
    | call id op args attrs origin => exact absurd rfl (hcall id op args attrs origin)
    | undef | constant | var | op => simp [Expr.isLeaf] at hleaf
    | tuple => rfl
    | function | tupleGetItem => rcases cs with _ | ⟨a, _ | ⟨b, cs⟩⟩ <;> rfl
    | letE => rcases cs with _ | ⟨a, _ | ⟨b, _ | ⟨c, cs⟩⟩⟩ <;> rfl
    | ifE => rcases cs with _ | ⟨a, _ | ⟨b, _ | ⟨c, _ | ⟨d, cs⟩⟩⟩⟩ <;> rfl
  rw [heq, hpost]
  rcases hcases with ⟨rfl, hsame, rfl⟩ | ⟨rfl, hnext, hne⟩
  · exact Or.inl ⟨hsame, by rw [hsame, Expr.withChildren_self hleaf]⟩
  · exact Or.inr ⟨hne, hnext, rfl⟩

/-- A node that is not rewritten on its own account is kept, or rebuilt over its new children. -/
theorem mutate_unrewritten {e : Expr} {σ σ' : Heap} (hleaf : e.isLeaf = false)
    (h : rewrites σ e = false) (hlt : ∀ s ∈ e.subexprs, s.ptr < σ.next) (hgrows : σ.Grows σ') :
    let new := mutateList post e.children σ'
    (new.1 = e.children ∧ mutate post e σ' = (e, new.2)) ∨
      (new.1 ≠ e.children ∧ (mutate post e σ').2.next = new.2.next + 1 ∧
        (mutate post e σ').1 = e.withChildren new.2.next new.1) := by
  cases e with
  | call id op args attrs origin =>
    rcases mutate_call hlt hgrows with ⟨hcomm, -⟩ | ⟨-, hcopies, -⟩ | ⟨-, -, hcases⟩
    · simp [rewrites, hcomm] at h
    · simp only [rewrites, hcopies, Bool.or_true] at h
      cases h
    · rcases hcases with ⟨hop, hargs, hnew⟩ | ⟨hne, hnext, hnew⟩
      · exact Or.inl ⟨congrArg₂ List.cons hop hargs, hnew⟩
      · exact Or.inr ⟨hne, hnext, hnew⟩
  | _ => exact mutate_other hleaf (by simp) hlt hgrows

/-- A node that is rewritten on its own account is a call at a new address. -/
theorem mutate_rewritten {e : Expr} {σ σ' : Heap} (h : rewrites σ e = true)
    (hlt : ∀ s ∈ e.subexprs, s.ptr < σ.next) (hgrows : σ.Grows σ') :
    σ'.next ≤ (mutate post e σ').1.ptr := by
  cases e with
  | call id op args attrs origin =>
    have hnext := ((post_allocating.mutate_grows op σ').trans
      (post_allocating.mutateList_grows args (mutate post op σ').2)).next
    rcases mutate_call hlt hgrows with ⟨-, υ, _, hυ, -, hnew⟩ | ⟨-, -, υ, hυ, -, -, hnew⟩ |
      ⟨hcomm, hcopies, -⟩
    · rw [hnew]
      exact hnext.trans hυ.next
    · rw [hnew]
      exact hnext.trans (hυ.trans (copyArgs_grows _ _ υ)).next
    · simp only [rewrites, hcomm, hcopies, Bool.or_false] at h
      cases h
  | _ => cases h

/-! ### The nodes that the inserter keeps -/

theorem kept_eq (σ : Heap) (e : Expr) :
    kept σ e = (!rewrites σ e && e.children.all (kept σ)) := by
  rw [kept, e.subexprs_eq, List.all_cons, List.all_flatMap]
  rfl

theorem mutateList_kept {es : List Expr} {σ σ' : Heap}
    (hes : ∀ e ∈ es, kept σ e = true → mutate post e σ' = (e, σ'))
    (h : es.all (kept σ) = true) : mutateList post es σ' = (es, σ') := by
  induction es with
  | nil => rfl
  | cons e es ih =>
    rw [List.all_cons, Bool.and_eq_true] at h
    simp only [mutateList, hes e (by simp) h.1]
    rw [ih (fun a ha => hes a (by simp [ha])) h.2]

theorem kept_of_mutateList {es : List Expr} {σ σ' : Heap}
    (hlt : ∀ e ∈ es, e.ptr < σ.next) (hgrows : σ.Grows σ')
    (hes : ∀ e ∈ es, ∀ σ', σ.Grows σ' → kept σ e = false → σ'.next ≤ (mutate post e σ').1.ptr)
    (h : (mutateList post es σ').1 = es) : es.all (kept σ) = true := by
  induction es generalizing σ' with
  | nil => rfl
  | cons e es ih =>
    obtain ⟨he, hrest⟩ := List.cons.inj h
    rw [List.all_cons, Bool.and_eq_true]
    refine ⟨?_, ih (fun a ha => hlt a (by simp [ha]))
      (hgrows.trans (post_allocating.mutate_grows e σ')) (fun a ha => hes a (by simp [ha])) hrest⟩
    by_contra hkept
    have hfresh := hes e (by simp) σ' hgrows (Bool.eq_false_iff.mpr hkept)
    have hold := (hlt e (by simp)).trans_le hgrows.next
    rw [he] at hfresh
    omega

/-- A run returns a node that it keeps and the heap as they are, and any other node anew. -/
theorem mutate_kept_or_fresh {e : Expr} {σ σ' : Heap} (hlt : ∀ s ∈ e.subexprs, s.ptr < σ.next)
    (hgrows : σ.Grows σ') :
    (kept σ e = true → mutate post e σ' = (e, σ')) ∧
      (kept σ e = false → σ'.next ≤ (mutate post e σ').1.ptr) := by
  induction e using Expr.induction_children generalizing σ' with
  | h e ih =>
    have hltc : ∀ c ∈ e.children, ∀ s ∈ c.subexprs, s.ptr < σ.next := fun c hc s hs =>
      hlt s (Expr.subexprs_trans (Expr.child_mem_subexprs hc) hs)
    cases hleaf : e.isLeaf with
    | true =>
      refine ⟨fun _ => mutate_leaf hleaf σ', fun h => ?_⟩
      cases e with
      | undef | constant | var | op => cases h
      | _ => simp [Expr.isLeaf] at hleaf
    | false =>
      have hlist : e.children.all (kept σ) = true → mutateList post e.children σ' =
          (e.children, σ') := mutateList_kept fun c hc => (ih c hc (hltc c hc) hgrows).1
      have hsame : (mutateList post e.children σ').1 = e.children →
          e.children.all (kept σ) = true :=
        kept_of_mutateList (fun c hc => hltc c hc c c.self_mem_subexprs) hgrows
          fun c hc σ' hgrows => (ih c hc (hltc c hc) hgrows).2
      rw [kept_eq, Bool.and_eq_true, Bool.and_eq_false_iff]
      cases hrewrites : rewrites σ e with
      | true =>
        exact ⟨fun h => absurd h.1 (by decide), fun _ => mutate_rewritten hrewrites hlt hgrows⟩
      | false =>
        rcases mutate_unrewritten hleaf hrewrites hlt hgrows with ⟨hcs, hnew⟩ | ⟨hne, -, hnew⟩
        · refine ⟨fun h => by rw [hnew, hlist h.2], fun h => ?_⟩
          rcases h with h | h
          · cases h
          · exact (Bool.eq_false_iff.mp h (hsame hcs)).elim
        · refine ⟨fun h => absurd (congrArg Prod.fst (hlist h.2)) hne, fun _ => ?_⟩
          rw [hnew, (Expr.withChildren_spec hleaf (mutateList_length post e.children σ')).1]
          exact (post_allocating.mutateList_grows e.children σ').next

theorem mutate_lt {e : Expr} {σ σ' : Heap} (hlt : ∀ s ∈ e.subexprs, s.ptr < σ.next)
    (hgrows : σ.Grows σ') : (mutate post e σ').1.ptr < (mutate post e σ').2.next := by
  have hself := (hlt e e.self_mem_subexprs).trans_le
    (hgrows.trans (post_allocating.mutate_grows e σ')).next
  cases hleaf : e.isLeaf with
  | true => rw [mutate_leaf hleaf] at hself ⊢; exact hself
  | false =>
    cases hrewrites : rewrites σ e with
    | false =>
      rcases mutate_unrewritten hleaf hrewrites hlt hgrows with ⟨-, hnew⟩ | ⟨-, hnext, hnew⟩
      · rw [hnew] at hself ⊢; exact hself
      · rw [hnext, hnew, (Expr.withChildren_spec hleaf (mutateList_length post e.children σ')).1]
        exact Nat.lt_succ_self _
    | true =>
      cases e with
      | call id op args attrs origin =>
        rcases mutate_call hlt hgrows with ⟨-, υ, _, -, hnext, hnew⟩ | ⟨-, -, υ, -, -, hnext, hnew⟩ |
          ⟨hcomm, hcopies, -⟩
        · rw [hnext, hnew]; exact Nat.lt_succ_self _
        · rw [hnext, hnew]; exact Nat.lt_succ_self _
        · simp only [rewrites, hcomm, hcopies, Bool.or_false] at hrewrites
          cases hrewrites
      | _ => cases hrewrites

/-! ### The visit on devices before and after the inserter -/

/-- The states agree on the addresses below `n` and on the kernels. -/
structure Agree (n : Nat) (st st' : DeviceState) : Prop where
  known : ∀ p < n, st'.known p = st.known p
  bound : ∀ v < n, st'.bound v = st.bound v
  kernels : st'.kernels = st.kernels

/-- No address of a range has an entry in the memo table. -/
def DeviceState.Unknown (st : DeviceState) (a b : Nat) : Prop :=
  ∀ p, a ≤ p → p < b → st.known p = none

/-- Visits that find the same devices, the second from `st'`, and add no entries from `n` on to the
memo table but in `[a, b)`. -/
structure VisitAgrees {α : Type} (n a b : Nat) (st' : DeviceState) (r r' : α × DeviceState) :
    Prop where
  device : r'.1 = r.1
  agree : Agree n r.2 r'.2
  frame : ∀ p, n ≤ p → (p < a ∨ b ≤ p) → r'.2.known p = st'.known p

theorem VisitAgrees.widen {α : Type} {n a b a' b' : Nat} {st' : DeviceState}
    {r r' : α × DeviceState} (h : VisitAgrees n a b st' r r') (ha : a' ≤ a) (hb : b ≤ b') :
    VisitAgrees n a' b' st' r r' :=
  ⟨h.device, h.agree, fun p hp hout => h.frame p hp (by omega)⟩

theorem DeviceState.Unknown.mono {st : DeviceState} {a b a' b' : Nat} (h : st.Unknown a b)
    (ha : a ≤ a') (hb : b' ≤ b) : st.Unknown a' b' :=
  fun p hp hp' => h p (ha.trans hp) (hp'.trans_le hb)

/-- After the visits of a range, what comes after it is still unknown. -/
theorem VisitAgrees.unknown {α : Type} {n a b c : Nat} {st' : DeviceState}
    {r r' : α × DeviceState} (h : VisitAgrees n a b st' r r') (hn : n ≤ b) (hab : a ≤ b)
    (hunknown : st'.Unknown a c) : r'.2.Unknown b c := fun p hp hp' =>
  (h.frame p (hn.trans hp) (Or.inr hp)).trans (hunknown p (hab.trans hp) hp')

theorem Agree.bind {n : Nat} {st st' : DeviceState} (h : Agree n st st') (v : Var)
    {device device' : Option VirtualDevice} (hdevice : v.id < n → device' = device) :
    Agree n (st.bind v device) (st'.bind v device') where
  known := h.known
  bound w hw := by
    by_cases heq : w = v.id
    · subst heq
      simp only [DeviceState.bind, Function.update_self]
      exact hdevice hw
    · simp only [DeviceState.bind, Function.update_of_ne heq]
      exact h.bound w hw
  kernels := h.kernels

theorem Agree.emit {n : Nat} {st st' : DeviceState} (h : Agree n st st')
    {own own' : Option VirtualDevice} {inputs inputs' : List (Option VirtualDevice)}
    (hown : own' = own) (hinputs : inputs' = inputs) :
    Agree n (st.emit own inputs) (st'.emit own' inputs') :=
  ⟨h.known, h.bound, by rw [DeviceState.emit, DeviceState.emit, h.kernels, hown, hinputs]⟩

/-- The memo table is read and written alike: for a kept node at its address, and for a new node
not at all or at an address that nobody asks for again. -/
theorem remember_agrees {σ τ : Heap} {e e' : Expr} {a b : Nat} {st st' : DeviceState}
    {visit visit' : DeviceState → Option VirtualDevice × DeviceState}
    (h : Agree σ.next st st') (hunknown : st'.Unknown a b) (ha : σ.next ≤ a)
    (haddr : (kept σ e = true ∧ e'.ptr = e.ptr ∧ e.ptr < σ.next) ∨
      (kept σ e = false ∧ a ≤ e'.ptr ∧ e'.ptr < b))
    (hvisit : VisitAgrees σ.next a b st' (visit st) (visit' st')) :
    VisitAgrees σ.next a b st' (rememberDevice σ.source e visit st)
      (rememberDevice τ.reader e' visit' st') := by
  rcases haddr with ⟨hkept, hptr, hlt⟩ | ⟨hkept, hlo, hhi⟩
  · have hsame : st'.known e'.ptr = st.known e.ptr := by rw [hptr, h.known _ hlt]
    cases hknown : st.known e.ptr with
    | some device =>
      rw [rememberDevice_known hkept hknown, rememberDevice_known rfl (hsame.trans hknown)]
      exact ⟨rfl, h, fun _ _ _ => rfl⟩
    | none =>
      rw [rememberDevice_new hkept hknown, rememberDevice_new rfl (hsame.trans hknown), hptr]
      refine ⟨hvisit.device, ⟨fun p hp => ?_, hvisit.agree.bound, hvisit.agree.kernels⟩,
        fun p hp hout => ?_⟩
      · by_cases heq : p = e.ptr
        · subst heq
          simp only [DeviceState.learn, Function.update_self, hvisit.device]
        · simp only [DeviceState.learn, Function.update_of_ne heq]
          exact hvisit.agree.known p hp
      · simp only [DeviceState.learn, Function.update_of_ne (show p ≠ e.ptr by omega)]
        exact hvisit.frame p hp hout
  · rw [rememberDevice_unshared hkept, rememberDevice_new rfl (hunknown _ hlo hhi)]
    refine ⟨hvisit.device, ⟨fun p hp => ?_, hvisit.agree.bound, hvisit.agree.kernels⟩,
      fun p hp hout => ?_⟩
    · simp only [DeviceState.learn, Function.update_of_ne (show p ≠ e'.ptr by omega)]
      exact hvisit.agree.known p hp
    · simp only [DeviceState.learn, Function.update_of_ne (show p ≠ e'.ptr by omega)]
      exact hvisit.frame p hp hout

/-- The visits of `e` and of what a run from `σ'` makes of it, on the final heap `τ`, agree. -/
def VisitsAgree (σ τ : Heap) (e : Expr) : Prop :=
  ∀ σ' st st', σ.Grows σ' → (mutate post e σ').2.Grows τ → Agree σ.next st st' →
    st'.Unknown σ'.next (mutate post e σ').2.next →
    VisitAgrees σ.next σ'.next (mutate post e σ').2.next st' (deviceVisit σ.source e st)
      (deviceVisit τ.reader (mutate post e σ').1 st')

theorem visitList_agrees {σ τ σ' : Heap} {es : List Expr} {st st' : DeviceState}
    (hes : ∀ e ∈ es, VisitsAgree σ τ e) (hgrows : σ.Grows σ')
    (hτ : (mutateList post es σ').2.Grows τ) (h : Agree σ.next st st')
    (hunknown : st'.Unknown σ'.next (mutateList post es σ').2.next) :
    VisitAgrees σ.next σ'.next (mutateList post es σ').2.next st'
      (deviceVisitList σ.source es st)
      (deviceVisitList τ.reader (mutateList post es σ').1 st') := by
  induction es generalizing σ' st st' with
  | nil => exact ⟨rfl, h, fun _ _ _ => rfl⟩
  | cons e es ih =>
    have hfirst := post_allocating.mutate_grows e σ'
    have hrest := post_allocating.mutateList_grows es (mutate post e σ').2
    have h1 := hes e (by simp) σ' st st' hgrows (hrest.trans hτ) h
      (hunknown.mono le_rfl hrest.next)
    have h2 := ih (fun a ha => hes a (by simp [ha])) (hgrows.trans hfirst) hτ h1.agree
      (h1.unknown (hgrows.trans hfirst).next hfirst.next hunknown)
    refine ⟨congrArg₂ List.cons h1.device h2.device, h2.agree, fun p hp hout => ?_⟩
    have hnext := hfirst.next
    have hnext' := hrest.next
    simp only [mutateList] at hout
    rw [← h1.frame p hp (by omega)]
    exact h2.frame p hp (by omega)

/-- A copy is visited after its argument, and its value has the device of the consumer. -/
theorem visit_copyCall {τ υ : Heap} (consumer_vd : Option VirtualDevice) {arg : Expr}
    {st' : DeviceState} (hτ : (copyCall consumer_vd arg υ).2.Grows τ)
    (hunknown : st'.known υ.next = none) :
    deviceVisit τ.reader (copyCall consumer_vd arg υ).1 st' =
      (consumer_vd, (deviceVisit τ.reader arg st').2.learn υ.next consumer_vd) := by
  have hown : GetVirtualDeviceFromExpr τ (copyCall consumer_vd arg υ).1 = consumer_vd :=
    GetVirtualDeviceFromExpr_new rfl rfl hτ
  have hcomm : IsCommunicationOpName (GetCallOpName (Op.Get υ "device.copy")) = true := by
    simp only [Op.Get, GetCallOpName]
    decide
  simp only [copyCall, Heap.new] at hown ⊢
  simp only [deviceVisit, deviceVisitList, rememberDevice, Heap.reader, if_true, Expr.ptr,
    hunknown, if_pos hcomm, hown]

/-- The visits of the arguments of a call that copies some of them: its values have the devices
that the call reads for its arguments. -/
theorem visitList_copyArgs {σ τ σ' υ : Heap} {e : Expr} {args : List Expr} {st st' : DeviceState}
    (hcopies : ∀ a ∈ args, copiesArgument σ e a =
      needsCopy (nodeDevice σ a) (GetVirtualDeviceFromExpr σ e))
    (hargs : ∀ a ∈ args, VisitsAgree σ τ a)
    (hlt : ∀ a ∈ args, ∀ s ∈ a.subexprs, s.ptr < σ.next) (hgrows : σ.Grows σ')
    (hυ : (mutateList post args σ').2.Grows υ)
    (hτ : (copyArgs (GetVirtualDeviceFromExpr σ e) (mutateList post args σ').1 υ).heap.Grows τ)
    (h : Agree σ.next st st') (hunknown : st'.Unknown σ'.next (mutateList post args σ').2.next)
    (hcopied : st'.Unknown υ.next
      (copyArgs (GetVirtualDeviceFromExpr σ e) (mutateList post args σ').1 υ).heap.next) :
    let inputs := deviceVisitList σ.source args st
    let copied := copyArgs (GetVirtualDeviceFromExpr σ e) (mutateList post args σ').1 υ
    let inputs' := deviceVisitList τ.reader copied.new_args st'
    inputs'.1 = List.zipWith (σ.source.operand e) args inputs.1 ∧
      Agree σ.next inputs.2 inputs'.2 ∧
      ∀ p, σ.next ≤ p → (p < σ'.next ∨ (mutateList post args σ').2.next ≤ p) →
        (p < υ.next ∨ copied.heap.next ≤ p) → inputs'.2.known p = st'.known p := by
  induction args generalizing σ' υ st st' with
  | nil => exact ⟨rfl, h, fun _ _ _ _ => rfl⟩
  | cons a as ih =>
    have hfirst := post_allocating.mutate_grows a σ'
    have hrest := post_allocating.mutateList_grows as (mutate post a σ').2
    have hυ' : (mutateList post as (mutate post a σ').2).2.Grows υ := hυ
    have hdevice := mutate_device (hlt a (by simp)) hgrows (hrest.trans hυ')
    have hheap := copyArgs_grows (GetVirtualDeviceFromExpr σ e) (mutateList post (a :: as) σ').1 υ
    have h1 := hargs a (by simp) σ' st st' hgrows ((hrest.trans hυ').trans (hheap.trans hτ)) h
      (hunknown.mono le_rfl hrest.next)
    have hn := hgrows.next
    have hn1 := hfirst.next
    have hn2 := hrest.next
    have hn3 := hυ'.next
    have hunknown1 := h1.unknown (hgrows.trans hfirst).next hfirst.next hunknown
    intro inputs copied inputs'
    change (deviceVisitList τ.reader copied.new_args st').1 = _ ∧
      Agree σ.next inputs.2 (deviceVisitList τ.reader copied.new_args st').2 ∧
      ∀ p, σ.next ≤ p → (p < σ'.next ∨ (mutateList post as (mutate post a σ').2).2.next ≤ p) →
        (p < υ.next ∨ copied.heap.next ≤ p) →
        (deviceVisitList τ.reader copied.new_args st').2.known p = st'.known p
    rcases copyArgs_cons (GetVirtualDeviceFromExpr σ e) (mutate post a σ').1
      (mutateList post as (mutate post a σ').2).1 υ with ⟨hcopy, heq⟩ | ⟨hcopy, heq⟩
    · rw [hdevice, ← hcopies a (by simp)] at hcopy
      have hheap_eq : copied.heap = (copyArgs (GetVirtualDeviceFromExpr σ e)
        (mutateList post as (mutate post a σ').2).1 υ).heap := (congrArg CopiedArgs.heap heq :)
      have hnew : copied.new_args = (mutate post a σ').1 :: (copyArgs (GetVirtualDeviceFromExpr σ e)
        (mutateList post as (mutate post a σ').2).1 υ).new_args := (congrArg CopiedArgs.new_args heq :)
      rw [hheap_eq] at hcopied hτ
      have h2 := ih (fun b hb => hcopies b (by simp [hb])) (fun b hb => hargs b (by simp [hb]))
        (fun b hb => hlt b (by simp [hb])) (hgrows.trans hfirst) hυ' hτ h1.agree hunknown1
        fun p hp hp' => (h1.frame p (by omega) (by omega)).trans (hcopied p hp hp')
      rw [hnew, hheap_eq]
      refine ⟨congrArg₂ List.cons ?_ h2.1, h2.2.1, fun p hp hout hout' => ?_⟩
      · exact h1.device.trans (by simp [Heap.source, hcopy])
      · exact (h2.2.2 p hp (by omega) hout').trans (h1.frame p hp (by omega))
    · rw [hdevice, ← hcopies a (by simp)] at hcopy
      obtain ⟨-, -, hnext, hgrows1⟩ :=
        copyCall_spec (GetVirtualDeviceFromExpr σ e) (mutate post a σ').1 υ
      generalize hcopy_call : copyCall (GetVirtualDeviceFromExpr σ e) (mutate post a σ').1 υ = copy
        at heq hnext hgrows1
      have hheap1 := copyArgs_grows (GetVirtualDeviceFromExpr σ e)
        (mutateList post as (mutate post a σ').2).1 copy.2
      have hn4 := hheap1.next
      have hheap_eq : copied.heap = (copyArgs (GetVirtualDeviceFromExpr σ e)
        (mutateList post as (mutate post a σ').2).1 copy.2).heap := (congrArg CopiedArgs.heap heq :)
      have hnew : copied.new_args = copy.1 :: (copyArgs (GetVirtualDeviceFromExpr σ e)
        (mutateList post as (mutate post a σ').2).1 copy.2).new_args :=
        (congrArg CopiedArgs.new_args heq :)
      rw [hheap_eq] at hcopied hτ
      rw [hnext] at hn4
      -- the copy is at `υ.next`, which is in none of the ranges of the other arguments
      have hcall := visit_copyCall (GetVirtualDeviceFromExpr σ e)
        (by rw [hcopy_call]; exact hheap1.trans hτ) (hcopied υ.next le_rfl hn4)
      rw [hcopy_call] at hcall
      have hframe : ∀ p ≠ υ.next, (deviceVisit τ.reader copy.1 st').2.known p =
          (deviceVisit τ.reader (mutate post a σ').1 st').2.known p := by
        intro p hp
        rw [hcall]
        exact Function.update_of_ne hp _ _
      have hagree : Agree σ.next (deviceVisit σ.source a st).2
          (deviceVisit τ.reader copy.1 st').2 := by
        refine ⟨fun p hp => (hframe p (by omega)).trans (h1.agree.known p hp), ?_, ?_⟩
        · rw [hcall]; exact h1.agree.bound
        · rw [hcall]; exact h1.agree.kernels
      have h2 := ih (fun b hb => hcopies b (by simp [hb])) (fun b hb => hargs b (by simp [hb]))
        (fun b hb => hlt b (by simp [hb])) (hgrows.trans hfirst) (hυ'.trans hgrows1) hτ hagree
        (fun p hp hp' => (hframe p (by omega)).trans (hunknown1 p hp hp'))
        fun p hp hp' => by
          rw [hnext] at hp
          rw [hframe p (by omega), h1.frame p (by omega) (by omega)]
          exact hcopied p (by omega) hp'
      rw [hnew, hheap_eq]
      refine ⟨congrArg₂ List.cons ?_ h2.1, h2.2.1, fun p hp hout hout' => ?_⟩
      · rw [hcall]
        simp [Heap.source, hcopy]
      · refine (h2.2.2 p hp (by omega) (by omega)).trans ((hframe p (by omega)).trans ?_)
        exact h1.frame p hp (by omega)

/-- Where the memo table is read for `e`: at its address if the inserter keeps it, else at a new
one. -/
theorem mutate_address {e : Expr} {σ σ' : Heap} (hlt : ∀ s ∈ e.subexprs, s.ptr < σ.next)
    (hgrows : σ.Grows σ') :
    (kept σ e = true ∧ (mutate post e σ').1.ptr = e.ptr ∧ e.ptr < σ.next) ∨
      (kept σ e = false ∧ σ'.next ≤ (mutate post e σ').1.ptr ∧
        (mutate post e σ').1.ptr < (mutate post e σ').2.next) := by
  have hcases := mutate_kept_or_fresh hlt hgrows
  cases hkept : kept σ e with
  | true => exact Or.inl ⟨rfl, by rw [hcases.1 hkept], hlt e e.self_mem_subexprs⟩
  | false => exact Or.inr ⟨rfl, hcases.2 hkept, mutate_lt hlt hgrows⟩

/-- A node that is not rewritten keeps its kind, over its mutated children. -/
theorem mutate_shape {e : Expr} {σ σ' : Heap} (hleaf : e.isLeaf = false)
    (h : rewrites σ e = false) (hlt : ∀ s ∈ e.subexprs, s.ptr < σ.next) (hgrows : σ.Grows σ') :
    ∃ i, (mutate post e σ').1 = e.withChildren i (mutateList post e.children σ').1 ∧
      (mutateList post e.children σ').2.Grows (mutate post e σ').2 := by
  have hheap : (mutateList post e.children σ').2.Grows (mutate post e σ').2 := by
    obtain ⟨i, υ, heq, hυ, -⟩ := mutate_own hleaf hlt hgrows
    rw [heq]
    exact hυ.trans (post_allocating.grows _ _ υ)
  rcases mutate_unrewritten hleaf h hlt hgrows with ⟨hcs, hnew⟩ | ⟨-, -, hnew⟩
  · exact ⟨e.ptr, by rw [hnew, hcs, Expr.withChildren_self hleaf], hheap⟩
  · exact ⟨_, hnew, hheap⟩

/-- Without copies, a call reads the values of its arguments. -/
theorem zipWith_source {σ : Heap} {e : Expr} {args : List Expr}
    {devices : List (Option VirtualDevice)} (hlen : devices.length = args.length)
    (h : args.any (copiesArgument σ e) = false) :
    List.zipWith (σ.source.operand e) args devices = devices := by
  induction args generalizing devices with
  | nil => cases devices with
    | nil => rfl
    | cons => cases hlen
  | cons a args ih =>
    cases devices with
    | nil => cases hlen
    | cons d devices =>
      rw [List.any_cons, Bool.or_eq_false_iff] at h
      simp only [List.zipWith_cons_cons, ih (Nat.succ.inj hlen) h.2]
      simp [Heap.source, h.1]

/-- The visit on devices finds in the rewritten graph what it reads from the input graph. -/
theorem visits_agree {σ τ : Heap} {e : Expr} (hlt : ∀ s ∈ e.subexprs, s.ptr < σ.next) :
    VisitsAgree σ τ e := by
  have hchild : ∀ {e c : Expr}, (∀ s ∈ e.subexprs, s.ptr < σ.next) → c ∈ e.children →
      ∀ s ∈ c.subexprs, s.ptr < σ.next := fun hlt hc s hs =>
    hlt s (Expr.subexprs_trans (Expr.child_mem_subexprs hc) hs)
  induction e using Expr.induction with
  | undef => exact fun σ' st st' _ _ h _ => ⟨rfl, h, fun _ _ _ => rfl⟩
  | constant id data =>
    intro σ' st st' hgrows hτ h hunknown
    refine remember_agrees h hunknown hgrows.next (mutate_address hlt hgrows) ?_
    exact ⟨mutate_device hlt hgrows hτ, h, fun _ _ _ => rfl⟩
  | var v =>
    intro σ' st st' hgrows hτ h hunknown
    refine remember_agrees h hunknown hgrows.next (mutate_address hlt hgrows) ?_
    exact ⟨h.bound v.id (hlt _ (Expr.self_mem_subexprs _)), h, fun _ _ _ => rfl⟩
  | op id name =>
    intro σ' st st' hgrows hτ h hunknown
    exact remember_agrees h hunknown hgrows.next (mutate_address hlt hgrows)
      ⟨rfl, h, fun _ _ _ => rfl⟩
  | call id callee args attrs origin _ iha =>
    intro σ' st st' hgrows hτ h hunknown
    have haddr := mutate_address hlt hgrows
    have hown := mutate_device hlt hgrows hτ
    have hargs : ∀ a ∈ args, VisitsAgree σ τ a :=
      fun a ha => iha a ha (hchild hlt (List.mem_cons_of_mem _ ha))
    have hfirst := post_allocating.mutate_grows callee σ'
    have hopname := mutate_opName callee σ'
    have hheap : (mutateList post args (mutate post callee σ').2).2.Grows
        (mutate post (.call id callee args attrs origin) σ').2 := by
      obtain ⟨i, υ, heq, hυ, -⟩ := mutate_own rfl hlt hgrows
      rw [heq]
      exact hυ.trans (post_allocating.grows _ _ υ)
    have hrest := visitList_agrees hargs (hgrows.trans hfirst) (hheap.trans hτ) h
      (hunknown.mono hfirst.next hheap.next)
    rcases mutate_call hlt hgrows with ⟨hcomm, υ, attrs', hυ, -, hnew⟩ |
      ⟨hcomm, hcopies, υ, hυ, hcopied, -, hnew⟩ | ⟨hcomm, hcopies, hcases⟩
    · rw [hnew] at haddr hown ⊢
      refine remember_agrees h hunknown hgrows.next haddr ?_
      simp only [hopname, if_pos hcomm]
      exact ⟨hown, hrest.agree, (hrest.widen hfirst.next hheap.next).frame⟩
    · rw [hnew] at haddr hown ⊢
      refine remember_agrees h hunknown hgrows.next haddr ?_
      have heach : ∀ a ∈ args, copiesArgument σ (.call id callee args attrs origin) a =
          needsCopy (nodeDevice σ a)
            (GetVirtualDeviceFromExpr σ (.call id callee args attrs origin)) := by
        simp only [any_copiesArgument, Bool.and_eq_true] at hcopies
        obtain ⟨⟨⟨hname, -⟩, hsome⟩, -⟩ := hcopies
        intro a _
        simp only [copiesArgument, hname, hcomm, hsome, Bool.not_false, Bool.true_and]
      have hnext := hυ.next
      have hnext1 := hfirst.next
      have hnext2 := (post_allocating.mutateList_grows args (mutate post callee σ').2).next
      have hinputs := visitList_copyArgs heach hargs
        (fun a ha => hchild hlt (List.mem_cons_of_mem _ ha)) (hgrows.trans hfirst) hυ
        (hcopied.trans hτ) h (hunknown.mono hfirst.next hheap.next)
        (hunknown.mono (by omega) hcopied.next)
      have hnext3 := (copyArgs_grows (GetVirtualDeviceFromExpr σ
        (.call id callee args attrs origin)) (mutateList post args (mutate post callee σ').2).1
        υ).next
      have hnext4 := hcopied.next
      simp only [hopname, hcomm, Bool.false_eq_true, if_false]
      refine ⟨hown, hinputs.2.1.emit hown ?_, fun p hp hout =>
        hinputs.2.2 p hp (by omega) (by omega)⟩
      rw [zipWith_operand]
      exact hinputs.1
    · have hshape : ∃ i, (mutate post (.call id callee args attrs origin) σ').1 =
          .call i (mutate post callee σ').1
            (mutateList post args (mutate post callee σ').2).1 attrs origin := by
        rcases hcases with ⟨hop, has, hnew⟩ | ⟨-, -, hnew⟩
        · exact ⟨id, by rw [hnew, hop, has]⟩
        · exact ⟨_, hnew⟩
      obtain ⟨i, hnew⟩ := hshape
      rw [hnew] at haddr hown ⊢
      refine remember_agrees h hunknown hgrows.next haddr ?_
      simp only [hopname, hcomm, Bool.false_eq_true, if_false]
      refine ⟨hown, hrest.agree.emit hown ?_, (hrest.widen hfirst.next hheap.next).frame⟩
      rw [zipWith_operand, zipWith_source (deviceVisitList_length _ _ _) hcopies]
      exact hrest.device
  | function id params body ih =>
    intro σ' st st' hgrows hτ h hunknown
    obtain ⟨i, hnew, hnext⟩ := mutate_shape rfl rfl hlt hgrows
    have haddr := mutate_address hlt hgrows
    rw [hnew] at haddr ⊢
    refine remember_agrees h hunknown hgrows.next haddr ?_
    have hbody := ih (hchild hlt (by simp [Expr.children])) σ' st st' hgrows (hnext.trans hτ) h
      (hunknown.mono le_rfl hnext.next)
    exact hbody.widen le_rfl hnext.next
  | ifE id c t f =>
    intro σ' st st' hgrows hτ h hunknown
    obtain ⟨i, hnew, -⟩ := mutate_shape rfl rfl hlt hgrows
    have haddr := mutate_address hlt hgrows
    rw [hnew] at haddr ⊢
    exact remember_agrees h hunknown hgrows.next haddr ⟨rfl, h, fun _ _ _ => rfl⟩
  | letE id v value body ihv ihb =>
    intro σ' st st' hgrows hτ h hunknown
    obtain ⟨i, hnew, hnext⟩ := mutate_shape rfl rfl hlt hgrows
    have haddr := mutate_address hlt hgrows
    rw [hnew] at haddr ⊢
    refine remember_agrees h hunknown hgrows.next haddr ?_
    have hfirst := post_allocating.mutate_grows value σ'
    have hsecond := post_allocating.mutate_grows body (mutate post value σ').2
    have hunknown' := hunknown.mono le_rfl hnext.next
    have h1 := ihv (hchild hlt (by simp [Expr.children])) σ' st st' hgrows
      (hsecond.trans (hnext.trans hτ)) h (hunknown'.mono le_rfl hsecond.next)
    have hbind := h1.agree.bind v fun _ => h1.device
    have h2 := ihb (hchild hlt (by simp [Expr.children])) _ _ _ (hgrows.trans hfirst)
      (hnext.trans hτ) hbind
      (h1.unknown (hgrows.trans hfirst).next hfirst.next hunknown')
    have hexit := h2.agree.bind v fun hv => congrArg Annotations.virtual_device_
      ((hgrows.trans (hfirst.trans (hsecond.trans (hnext.trans hτ)))).ann v.id hv)
    refine ⟨h2.device, hexit, fun p hp hout => ?_⟩
    have hn1 := hfirst.next
    have hn2 := hsecond.next
    have hn3 : (mutate post body (mutate post value σ').2).2.next ≤ _ := hnext.next
    exact (h2.frame p hp (by omega)).trans (h1.frame p hp (by omega))
  | tuple id fields ih =>
    intro σ' st st' hgrows hτ h hunknown
    obtain ⟨i, hnew, hnext⟩ := mutate_shape rfl rfl hlt hgrows
    have haddr := mutate_address hlt hgrows
    have hown := mutate_device hlt hgrows hτ
    rw [hnew] at haddr hown ⊢
    refine remember_agrees h hunknown hgrows.next haddr ?_
    have hfields := visitList_agrees (fun a ha => ih a ha (hchild hlt ha)) hgrows
      (hnext.trans hτ) h (hunknown.mono le_rfl hnext.next)
    exact ⟨hown, hfields.agree.emit hown hfields.device, (hfields.widen le_rfl hnext.next).frame⟩
  | tupleGetItem id t index ih =>
    intro σ' st st' hgrows hτ h hunknown
    obtain ⟨i, hnew, hnext⟩ := mutate_shape rfl rfl hlt hgrows
    have haddr := mutate_address hlt hgrows
    have hown := mutate_device hlt hgrows hτ
    rw [hnew] at haddr hown ⊢
    refine remember_agrees h hunknown hgrows.next haddr ?_
    have htuple := ih (hchild hlt (by simp [Expr.children])) σ' st st' hgrows (hnext.trans hτ) h
      (hunknown.mono le_rfl hnext.next)
    exact ⟨hown, htuple.agree.emit hown (congrArg (fun d => [d]) htuple.device),
      (htuple.widen le_rfl hnext.next).frame⟩

end Kxc.Relay

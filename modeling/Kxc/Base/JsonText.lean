import Kxc.Base.Json
import Kxc.Lib.DecimalText

/-! The text of a JSON value without spaces, and that the reader reads it as the value. -/

namespace Kxc.Json

open Lib

/-- A string between quotation marks. -/
def quoted (s : String) : List Char := '"' :: (s.toList.flatMap escChar ++ ['"'])

namespace J

/-- Induction on values, with one hypothesis for the parts of each. -/
@[elab_as_elim]
theorem induction {P : J → Prop} (null : P N) (bool : ∀ b, P (B b)) (int : ∀ i, P (I i))
    (str : ∀ s, P (S s)) (arr : ∀ a, (∀ v ∈ a, P v) → P (A a))
    (obj : ∀ o, (∀ p ∈ o, P p.2) → P (O o)) (v : J) : P v :=
  @J.rec P (fun a => ∀ v ∈ a, P v) (fun o => ∀ p ∈ o, P p.2) (fun p => P p.2) null bool int str
    (fun a ha => arr a ha) (fun o ho => obj o ho) (fun _ hv => absurd hv List.not_mem_nil)
    (fun _ _ hhead htail v hv => by
      rcases List.mem_cons.mp hv with rfl | hv
      · exact hhead
      · exact htail v hv)
    (fun _ hp => absurd hp List.not_mem_nil)
    (fun _ _ hhead htail p hp => by
      rcases List.mem_cons.mp hp with rfl | hp
      · exact hhead
      · exact htail p hp)
    (fun _ _ hv => hv) v

mutual

/-- The text without spaces. -/
def text : J → List Char
  | N => "null".toList
  | B b => if b then "true".toList else "false".toList
  | I i => i.toInt.repr.toList
  | S s => quoted s
  | A [] => ['[', ']']
  | A (v :: vs) => '[' :: (v.text ++ elements vs)
  | O [] => ['\x7b', '\x7d']
  | O ((key, v) :: o) => '\x7b' :: (quoted key ++ ':' :: (v.text ++ members o))

/-- The elements of an array after the first one, and its end. -/
def elements : List J → List Char
  | [] => [']']
  | v :: vs => ',' :: (v.text ++ elements vs)

/-- The members of an object after the first one, and its end. -/
def members : List (String × J) → List Char
  | [] => ['\x7d']
  | (key, v) :: o => ',' :: (quoted key ++ ':' :: (v.text ++ members o))

end

mutual

/-- No object has two members of one name. -/
def Distinct : J → Prop
  | A a => AllDistinct a
  | O o => (o.map Prod.fst).Nodup ∧ MembersDistinct o
  | _ => True

def AllDistinct : List J → Prop
  | [] => True
  | v :: vs => v.Distinct ∧ AllDistinct vs

def MembersDistinct : List (String × J) → Prop
  | [] => True
  | (_, v) :: o => v.Distinct ∧ MembersDistinct o

end

theorem allDistinct_iff {a : List J} : AllDistinct a ↔ ∀ v ∈ a, v.Distinct := by
  induction a with
  | nil => simp [AllDistinct]
  | cons v vs ih => rw [AllDistinct, ih, List.forall_mem_cons]

theorem membersDistinct_iff {o : List (String × J)} :
    MembersDistinct o ↔ ∀ p ∈ o, p.2.Distinct := by
  induction o with
  | nil => simp [MembersDistinct]
  | cons p o ih => rw [MembersDistinct, ih, List.forall_mem_cons]

end J

/-! ### What the scanners read -/

section Reading

open P hiding True False

variable {size : Nat} {α : Type} {text : List Char} {follow : List Char → Prop} {w : α}

/-- What may come after a value: the end, or a separator. -/
def Ends (rest : List Char) : Prop := ∀ c ∈ rest.head?, c = ',' ∨ c = ']' ∨ c = '\x7d'

theorem ends_cons {c : Char} (hc : c = ',' ∨ c = ']' ∨ c = '\x7d') (rest : List Char) :
    Ends (c :: rest) := by
  intro d hd
  obtain rfl := Option.some.inj hd
  exact hc

theorem reads_get {f : Char → M α} {c : Char} (h : Reads (f c) text w follow) :
    Reads (Get size >>= f) (c :: text) w follow := fun rest hrest => h rest hrest

theorem reads_peek {f : Char → M α} {c : Char} (h : Reads (f c) (c :: text) w follow) :
    Reads (Peek >>= f) (c :: text) w follow := fun rest hrest => h rest hrest

theorem reads_ws {f : Unit → M α} {c : Char} (hc : isspace c = false)
    (h : Reads (f ()) (c :: text) w follow) : Reads (WS >>= f) (c :: text) w follow := by
  intro rest hrest
  have hws : WS (c :: text ++ rest) = .ok ((), c :: text ++ rest) := by
    simp [WS, hc]
  change (WS (c :: text ++ rest) >>= fun r => f r.1 r.2) = _
  rw [hws]
  exact h rest hrest

theorem reads_expect {f : Unit → M α} {c : Char} (h : Reads (f ()) text w follow) :
    Reads (Expect size c >>= f) (c :: text) w follow := by
  intro rest hrest
  have hexpect : Expect size c (c :: text ++ rest) = .ok ((), text ++ rest) := by
    simp only [Expect, Get, bind, StateT.bind, Except.bind, List.cons_append]
    rw [if_neg (not_not_intro rfl)]
    rfl
  change (Expect size c (c :: text ++ rest) >>= fun r => f r.1 r.2) = _
  rw [hexpect]
  exact h rest hrest

theorem Lit_reads (cs : List Char) : Reads (Lit size cs) cs () follow := by
  induction cs with
  | nil => exact .pure () follow
  | cons c cs ih =>
    refine reads_get ?_
    rw [if_neg (by simp)]
    exact ih

/-! ### Strings -/

theorem hexValue_digitChar : ∀ d < 16, hexValue (Nat.digitChar d) = some d := by decide

theorem hexLoop_reads {n cp d : Nat} (hd : d < 16) {cp' : Nat}
    (h : Reads (hexLoop size n (cp * 16 + d)) text cp' follow) :
    Reads (hexLoop size (n + 1) cp) (Nat.digitChar d :: text) cp' follow := by
  rw [hexLoop]
  refine reads_get ?_
  rw [hexValue_digitChar d hd]
  exact h

/-- The escape of a character is read as the character. -/
theorem strChar_reads (c : Char) :
    Reads (strChar size) (escChar c) (some c) fun _ => True := by
  rw [escChar]
  split
  · subst_vars; exact fun _ _ => rfl
  split
  · subst_vars; exact fun _ _ => rfl
  split
  · subst_vars; exact fun _ _ => rfl
  split
  · subst_vars; exact fun _ _ => rfl
  split
  · subst_vars; exact fun _ _ => rfl
  split
  · subst_vars; exact fun _ _ => rfl
  split
  · subst_vars; exact fun _ _ => rfl
  split
  · -- a control character without an escape of its own
    rename_i hcontrol
    have hcode : (((0 * 16 + 0) * 16 + 0) * 16 + c.toNat / 16) * 16 + c.toNat % 16 = c.toNat := by
      omega
    have hhex : Reads (hexLoop size 4 0)
        ['0', '0', Nat.digitChar (c.toNat / 16), Nat.digitChar (c.toNat % 16)] c.toNat
        fun _ => True := by
      have hlast : Reads (hexLoop size 0
          ((((0 * 16 + 0) * 16 + 0) * 16 + c.toNat / 16) * 16 + c.toNat % 16)) [] c.toNat
          fun _ => True := by
        rw [hcode]
        exact .pure _ _
      exact hexLoop_reads (d := 0) (by decide) (hexLoop_reads (d := 0) (by decide)
        (hexLoop_reads (by omega) (hexLoop_reads (by omega) hlast)))
    have hchar : unicodeChar c.toNat = c := by
      rw [unicodeChar, if_pos (by omega), Char.ofNat_toNat]
    refine reads_get (reads_get ?_)
    have hreturn : Reads (pure (some (unicodeChar c.toNat)) : M (Option Char)) [] (some c)
        fun _ => True := by
      rw [hchar]
      exact .pure _ _
    exact hhex.bind hreturn fun _ _ => trivial
  · rename_i hquote hslash _ _ _ _ _ _
    refine reads_get ?_
    rw [if_neg hquote, if_neg hslash]
    exact .pure _ _

theorem strLoop_reads (cs : List Char) {fuel : Nat} (hfuel : cs.length < fuel) (s : List Char) :
    Reads (strLoop size fuel s) (cs.flatMap escChar ++ ['"']) (s ++ cs) fun _ => True := by
  induction cs generalizing fuel s with
  | nil =>
    obtain ⟨fuel, rfl⟩ := Nat.exists_eq_add_of_lt hfuel
    rw [strLoop, List.append_nil]
    exact fun rest _ => rfl
  | cons c cs ih =>
    obtain ⟨fuel, rfl⟩ : ∃ n, fuel = n + 1 := ⟨fuel - 1, by omega⟩
    rw [strLoop, List.flatMap_cons, List.append_assoc]
    refine (strChar_reads c).bind ?_ fun _ _ => trivial
    have hrest := ih (Nat.lt_of_succ_lt_succ hfuel) (s ++ [c])
    rwa [List.append_assoc, List.singleton_append] at hrest

theorem escChar_ne_nil (c : Char) : escChar c ≠ [] := by
  rw [escChar]
  repeat' split
  all_goals simp

theorem length_le_escaped (cs : List Char) : cs.length ≤ (cs.flatMap escChar).length := by
  induction cs with
  | nil => exact Nat.le_refl 0
  | cons c cs ih =>
    have := List.length_pos_of_ne_nil (escChar_ne_nil c)
    simp only [List.flatMap_cons, List.length_append, List.length_cons]
    omega

theorem Str_reads {s : String} (hsize : (quoted s).length ≤ size) :
    Reads (Str size) (quoted s) s fun _ => True := by
  have hlen := length_le_escaped s.toList
  have hquoted : (quoted s).length = (s.toList.flatMap escChar).length + 2 := by simp [quoted]
  rw [Str, quoted]
  refine reads_expect ?_
  rw [← List.append_nil (_ ++ _)]
  refine (strLoop_reads s.toList (by omega) []).bind ?_ fun _ _ => trivial
  rw [List.nil_append, String.ofList_toList]
  exact .pure _ _

/-! ### Numbers -/

theorem toDigits_head {n : Nat} (hn : 0 < n) :
    ∃ c ds, Nat.toDigits 10 n = c :: ds ∧ c ≠ '0' ∧ c.isDigit = true := by
  induction n using Nat.strongRecOn with
  | ind n ih =>
    by_cases hlt : n < 10
    · rw [Nat.toDigits_of_lt_base hlt]
      refine ⟨_, _, rfl, ?_⟩
      have hdigit : ∀ d < 10, 0 < d → d.digitChar ≠ '0' ∧ d.digitChar.isDigit = true := by decide
      exact hdigit n hlt hn
    · obtain ⟨c, ds, hds, hc⟩ := ih (n / 10) (by omega) (by omega)
      rw [Nat.toDigits_of_base_le (by decide) (by omega), hds]
      exact ⟨c, _, rfl, hc⟩

/-- After a numeral comes no digit, and nothing that makes it another numeral. -/
theorem ends_head {rest : List Char} (h : Ends rest) :
    (rest.headD '\x00').isDigit = false ∧ rest.headD '\x00' ≠ '.' ∧ rest.headD '\x00' ≠ 'e' ∧
      rest.headD '\x00' ≠ 'E' := by
  cases rest with
  | nil => decide
  | cons c rest =>
    rw [List.headD_cons]
    rcases h c rfl with rfl | rfl | rfl
    · decide
    · decide
    · decide

theorem digits_reads {ds : List Char} (hds : ∀ c ∈ ds, c.isDigit = true) :
    Reads digits ds ds Ends := by
  intro rest hrest
  have hhead := (ends_head hrest).1
  have hstop : rest.takeWhile Char.isDigit = [] ∧ rest.dropWhile Char.isDigit = rest := by
    cases rest with
    | nil => exact ⟨rfl, rfl⟩
    | cons c rest =>
      have hc : c.isDigit = false := hhead
      simp [hc]
  rw [digits, List.takeWhile_append_of_pos hds, List.dropWhile_append_of_pos hds, hstop.1, hstop.2,
    List.append_nil]

theorem magnitude_reads (n : Nat) :
    Reads (magnitude size) (Nat.toDigits 10 n) (Nat.toDigits 10 n) Ends := by
  by_cases hn : n = 0
  · subst hn
    exact fun rest _ => rfl
  · obtain ⟨c, ds, hds, hc, hdigit⟩ := toDigits_head (Nat.pos_of_ne_zero hn)
    have hall : ∀ d ∈ c :: ds, d.isDigit = true := by
      intro d hd
      exact Nat.isDigit_of_mem_toDigits (by decide) (by decide) (hds ▸ hd)
    rw [hds, magnitude]
    refine reads_peek ?_
    rw [if_neg hc, if_pos hdigit]
    exact digits_reads hall

theorem stoll_toDigits (i : Int64) :
    stoll (decide (i.toInt < 0)) (Nat.toDigits 10 i.toInt.natAbs) = some i := by
  rw [stoll, Nat.ofDigitChars_ten_toDigits]
  have hvalue : (if decide (i.toInt < 0) = true then -(i.toInt.natAbs : Int)
      else (i.toInt.natAbs : Int)) = i.toInt := by
    split
    · rename_i h
      have := of_decide_eq_true h
      omega
    · rename_i h
      have : ¬i.toInt < 0 := fun hlt => h (decide_eq_true hlt)
      omega
  simp only [hvalue]
  have hmin := Int64.minValue_le_toInt i
  have hmax := Int64.toInt_le i
  rw [if_pos, Int64.ofInt_toInt]
  exact ⟨by simpa using hmin, by simpa using hmax⟩

theorem toList_repr (i : Int) :
    i.repr.toList = (if i < 0 then ['-'] else []) ++ Nat.toDigits 10 i.natAbs := by
  cases i with
  | ofNat n =>
    rw [if_neg (by simp)]
    exact Nat.toList_repr
  | negSucc n =>
    rw [if_pos (Int.negSucc_lt_zero n)]
    simp [Int.repr, Nat.toList_repr]

theorem sign_reads (i : Int) :
    Reads (sign size) (if i < 0 then ['-'] else []) (decide (i < 0))
      fun rest => rest.headD '\x00' ≠ '-' := by
  intro rest hrest
  by_cases hi : i < 0
  · rw [if_pos hi, decide_eq_true hi]
    rfl
  · rw [if_neg hi, decide_eq_false hi]
    have hpeek : sign size rest = (if rest.headD '\x00' = '-' then
        (do let _ ← Get size; return true : M Bool) else return false) rest := rfl
    rw [List.nil_append, hpeek, if_neg hrest]
    rfl

theorem head_toDigits (n : Nat) : ∃ c ds, Nat.toDigits 10 n = c :: ds ∧ c.isDigit = true := by
  have hne := Nat.toDigits_ne_nil (n := n) (b := 10)
  obtain ⟨c, ds, hds⟩ := List.exists_cons_of_ne_nil hne
  exact ⟨c, ds, hds, Nat.isDigit_of_mem_toDigits (by decide) (by decide)
    (hds ▸ List.mem_cons_self)⟩

theorem Num_reads (i : Int64) : Reads (Num size) i.toInt.repr.toList (.I i) Ends := by
  rw [toList_repr, P.Num]
  refine (sign_reads i.toInt).bind ?_ fun rest _ => ?_
  · rw [← List.append_nil (Nat.toDigits _ _)]
    refine (magnitude_reads _).bind ?_ fun _ hrest => hrest
    -- nothing is read any more, but the next character is looked at
    intro rest hrest
    obtain ⟨-, hdot, he, hE⟩ := ends_head hrest
    have hpeek : ∀ f : Char → M J, (Peek >>= f) rest = f (rest.headD '\x00') rest := fun _ => rfl
    have hstop :
        ¬(rest.headD '\x00' = '.' ∨ rest.headD '\x00' = 'e' ∨ rest.headD '\x00' = 'E') := by
      rintro (h | h | h)
      · exact hdot h
      · exact he h
      · exact hE h
    rw [List.nil_append, hpeek, if_neg hstop, stoll_toDigits]
    rfl
  · obtain ⟨c, ds, hds, hdigit⟩ := head_toDigits i.toInt.natAbs
    rw [hds]
    rintro rfl
    exact absurd hdigit (by decide)

/-! ### Values -/

theorem digit_first {c : Char} (h : c.isDigit = true) :
    isspace c = false ∧ c ≠ '\x7b' ∧ c ≠ '[' ∧ c ≠ '"' ∧ c ≠ 't' ∧ c ≠ 'f' ∧ c ≠ 'n' := by
  have hne : ∀ d : Char, d.isDigit = false → c ≠ d := by
    rintro d hd rfl
    rw [h] at hd
    cases hd
  refine ⟨?_, hne _ rfl, hne _ rfl, hne _ rfl, hne _ rfl, hne _ rfl, hne _ rfl⟩
  rw [isspace]
  simp only [Bool.or_eq_false_iff, beq_eq_false_iff_ne]
  exact ⟨⟨⟨⟨⟨hne _ rfl, hne _ rfl⟩, hne _ rfl⟩, hne _ rfl⟩, hne _ rfl⟩, hne _ rfl⟩

/-- A text starts with no space, and not with the end of an array. -/
theorem text_head (v : J) : ∃ c text, v.text = c :: text ∧ isspace c = false ∧ c ≠ ']' := by
  cases v with
  | N => exact ⟨_, _, rfl, rfl, by decide⟩
  | B b =>
    cases b with
    | true => exact ⟨_, _, rfl, rfl, by decide⟩
    | false => exact ⟨_, _, rfl, rfl, by decide⟩
  | I i =>
    rw [J.text, toList_repr]
    split
    · exact ⟨_, _, rfl, rfl, by decide⟩
    · obtain ⟨c, ds, hds, hdigit⟩ := head_toDigits i.toInt.natAbs
      refine ⟨c, ds, hds, (digit_first hdigit).1, ?_⟩
      rintro rfl
      cases hdigit
  | S s => exact ⟨_, _, rfl, rfl, by decide⟩
  | A a => cases a <;> exact ⟨_, _, rfl, rfl, by decide⟩
  | O o => cases o <;> exact ⟨_, _, rfl, rfl, by decide⟩

theorem length_le_elements {vs : List J} {v : J} (hv : v ∈ vs) :
    v.text.length ≤ (J.elements vs).length := by
  induction vs with
  | nil => cases hv
  | cons x xs ih =>
    rw [J.elements, List.length_cons, List.length_append]
    rcases List.mem_cons.mp hv with rfl | hv
    · omega
    · have := ih hv
      omega

theorem length_le_members {o : List (String × J)} {p : String × J} (hp : p ∈ o) :
    p.2.text.length ≤ (J.members o).length := by
  induction o with
  | nil => cases hp
  | cons q o ih =>
    obtain ⟨key, v⟩ := q
    simp only [J.members, List.length_cons, List.length_append]
    rcases List.mem_cons.mp hp with rfl | hp
    · dsimp only
      omega
    · have := ih hp
      omega

/-- The loop over the elements of an array. -/
theorem arrLoop_reads {v : J} {vs : List J} {fuel : Nat} (a : List J)
    (hfuel : 2 * (v.text ++ J.elements vs).length ≤ fuel)
    (hread : ∀ x ∈ v :: vs, ∀ k, 2 * x.text.length ≤ k → Reads (V size k) x.text x Ends) :
    Reads (arrLoop size fuel a) (v.text ++ J.elements vs) (a ++ v :: vs) fun _ => True := by
  induction vs generalizing v fuel a with
  | nil =>
    rw [List.length_append, J.elements, List.length_singleton] at hfuel
    obtain ⟨fuel, rfl⟩ : ∃ n, fuel = n + 1 := ⟨fuel - 1, by omega⟩
    rw [arrLoop, J.elements]
    refine (hread v List.mem_cons_self fuel (by omega)).bind ?_ fun rest _ => ?_
    · exact reads_ws rfl (reads_get (.pure _ _))
    · exact ends_cons (Or.inr (Or.inl rfl)) rest
  | cons y ys ih =>
    rw [List.length_append, J.elements, List.length_cons] at hfuel
    obtain ⟨fuel, rfl⟩ : ∃ n, fuel = n + 1 := ⟨fuel - 1, by omega⟩
    obtain ⟨c, text, htext, hspace, -⟩ := text_head y
    rw [arrLoop, J.elements]
    refine (hread v List.mem_cons_self fuel (by omega)).bind ?_ fun rest _ => ?_
    · refine reads_ws rfl (reads_get ?_)
      rw [if_neg (by decide), if_neg (by decide)]
      have hless : 2 * (y.text ++ J.elements ys).length ≤ fuel := by omega
      have hrest := ih (a ++ [v]) hless fun x hx => hread x (List.mem_cons_of_mem _ hx)
      rw [List.append_assoc, List.singleton_append] at hrest
      rw [htext] at hrest ⊢
      exact reads_ws hspace hrest
    · exact ends_cons (Or.inl rfl) _

/-- A name is new among the members that have been read. -/
theorem contains_names (o : List (String × J)) (key : String)
    (hnodup : (o.map Prod.fst ++ [key]).Nodup) : (o.map Prod.fst).contains key = false := by
  obtain ⟨-, -, hdisjoint⟩ := List.nodup_append.mp hnodup
  have hnew : key ∉ o.map Prod.fst := fun hmem => hdisjoint key hmem key (by simp) rfl
  simpa using hnew

/-- The loop over the members of an object. -/
theorem objLoop_reads {key : String} {v : J} {ps : List (String × J)} {fuel : Nat}
    (o : List (String × J))
    (hfuel : 2 * (quoted key ++ ':' :: (v.text ++ J.members ps)).length ≤ fuel)
    (hsize : (quoted key ++ ':' :: (v.text ++ J.members ps)).length ≤ size)
    (hnodup : ((o ++ (key, v) :: ps).map Prod.fst).Nodup)
    (hread : ∀ p ∈ (key, v) :: ps, ∀ k, 2 * p.2.text.length ≤ k →
      Reads (V size k) p.2.text p.2 Ends) :
    Reads (objLoop size fuel o) (quoted key ++ ':' :: (v.text ++ J.members ps))
      (o ++ (key, v) :: ps) fun _ => True := by
  induction ps generalizing key v fuel o with
  | nil =>
    simp only [List.length_append, List.length_cons] at hfuel hsize
    obtain ⟨fuel, rfl⟩ : ∃ n, fuel = n + 1 := ⟨fuel - 1, by omega⟩
    have hnew := contains_names o key (by simpa using hnodup)
    rw [objLoop, J.members]
    refine (Str_reads (by omega)).bind ?_ fun _ _ => trivial
    refine reads_ws rfl (reads_expect ?_)
    refine (hread _ List.mem_cons_self fuel (by dsimp only; omega)).bind ?_ fun rest _ => ?_
    · rw [if_neg (by rw [hnew]; exact Bool.false_ne_true)]
      exact reads_ws rfl (reads_get (.pure _ _))
    · exact ends_cons (Or.inr (Or.inr rfl)) rest
  | cons p ps ih =>
    obtain ⟨key', y⟩ := p
    simp only [List.length_append, List.length_cons, J.members] at hfuel hsize
    obtain ⟨fuel, rfl⟩ : ∃ n, fuel = n + 1 := ⟨fuel - 1, by omega⟩
    have hnew := contains_names o key ?_
    · rw [objLoop, J.members]
      refine (Str_reads (by omega)).bind ?_ fun _ _ => trivial
      refine reads_ws rfl (reads_expect ?_)
      refine (hread _ List.mem_cons_self fuel (by dsimp only; omega)).bind ?_ fun rest _ => ?_
      · rw [if_neg (by rw [hnew]; exact Bool.false_ne_true)]
        refine reads_ws rfl (reads_get ?_)
        rw [if_neg (by decide), if_neg (by decide)]
        have hless : 2 * (quoted key' ++ ':' :: (y.text ++ J.members ps)).length ≤ fuel := by
          simp only [List.length_append, List.length_cons]
          omega
        have hrest := ih (o ++ [(key, v)]) hless
          (by simp only [List.length_append, List.length_cons]; omega)
          (by simpa using hnodup) fun x hx => hread x (List.mem_cons_of_mem _ hx)
        rw [List.append_assoc, List.singleton_append] at hrest
        exact reads_ws rfl hrest
      · exact ends_cons (Or.inl rfl) _
    · simp only [List.map_append, List.map_cons] at hnodup
      rw [show o.map Prod.fst ++ key :: key' :: ps.map Prod.fst =
        (o.map Prod.fst ++ [key]) ++ key' :: ps.map Prod.fst by simp] at hnodup
      exact (List.nodup_append.mp hnodup).1

/-- The text of a value is read as the value, whatever comes after it. -/
theorem V_reads {v : J} (hv : v.Distinct) (hsize : v.text.length ≤ size) {fuel : Nat}
    (hfuel : 2 * v.text.length ≤ fuel) : Reads (V size fuel) v.text v Ends := by
  induction v using J.induction generalizing fuel with
  | null =>
    obtain ⟨fuel, rfl⟩ : ∃ n, fuel = n + 1 := ⟨fuel - 1, by simp [J.text] at hfuel; omega⟩
    rw [V]
    refine reads_ws rfl (reads_peek ?_)
    exact (Lit_reads "null".toList).map fun _ => J.N
  | bool b =>
    cases b with
    | true =>
      obtain ⟨fuel, rfl⟩ : ∃ n, fuel = n + 1 := ⟨fuel - 1, by simp [J.text] at hfuel; omega⟩
      rw [V]
      refine reads_ws rfl (reads_peek ?_)
      exact (Lit_reads "true".toList).map fun _ => J.B true
    | false =>
      obtain ⟨fuel, rfl⟩ : ∃ n, fuel = n + 1 := ⟨fuel - 1, by simp [J.text] at hfuel; omega⟩
      rw [V]
      refine reads_ws rfl (reads_peek ?_)
      exact (Lit_reads "false".toList).map fun _ => J.B false
  | int i =>
    obtain ⟨fuel, rfl⟩ : ∃ n, fuel = n + 1 := by
      obtain ⟨c, text, htext, -⟩ := text_head (.I i)
      rw [htext, List.length_cons] at hfuel
      exact ⟨fuel - 1, by omega⟩
    have hnum := @Num_reads size i
    rw [J.text, V]
    rw [toList_repr] at hnum ⊢
    by_cases hneg : i.toInt < 0
    · rw [if_pos hneg] at hnum ⊢
      exact reads_ws rfl (reads_peek hnum)
    · obtain ⟨c, ds, hds, hdigit⟩ := head_toDigits i.toInt.natAbs
      rw [if_neg hneg, hds] at hnum ⊢
      obtain ⟨hspace, hobj, harr, hstr, htrue, hfalse, hnull⟩ := digit_first hdigit
      refine reads_ws hspace (reads_peek ?_)
      rw [if_neg hobj, if_neg harr, if_neg hstr, if_neg htrue, if_neg hfalse, if_neg hnull,
        if_pos (Or.inr hdigit)]
      exact hnum
  | str s =>
    obtain ⟨fuel, rfl⟩ : ∃ n, fuel = n + 1 := ⟨fuel - 1, by simp [J.text, quoted] at hfuel; omega⟩
    rw [V]
    refine reads_ws rfl (reads_peek ?_)
    exact ((Str_reads hsize).mono fun _ _ => trivial).map J.S
  | arr a ih =>
    obtain ⟨fuel, rfl⟩ : ∃ n, fuel = n + 2 := by
      cases a <;> simp [J.text] at hfuel <;> exact ⟨fuel - 2, by omega⟩
    rw [V]
    cases a with
    | nil =>
      refine reads_ws rfl (reads_peek ?_)
      have harr : Reads (Arr size (fuel + 1)) ['[', ']'] [] Ends := by
        rw [Arr]
        exact reads_expect (reads_ws rfl (reads_peek (reads_get (.pure _ _))))
      exact harr.map J.A
    | cons x xs =>
      rw [J.text, List.length_cons] at hfuel hsize
      obtain ⟨c, text, htext, hspace, hend⟩ := text_head x
      have hparts : ∀ y ∈ x :: xs, y.text.length ≤ (x.text ++ J.elements xs).length := by
        intro y hy
        rw [List.length_append]
        rcases List.mem_cons.mp hy with rfl | hy
        · omega
        · have := length_le_elements hy
          omega
      have hloop : Reads (arrLoop size fuel []) (x.text ++ J.elements xs) (x :: xs) fun _ => True :=
        arrLoop_reads [] (by omega) fun y hy k hk =>
          ih y hy (J.allDistinct_iff.mp hv y hy)
            (Nat.le_trans (hparts y hy) (Nat.le_of_succ_le hsize)) hk
      refine reads_ws rfl (reads_peek ?_)
      have harr : Reads (Arr size (fuel + 1)) ('[' :: (x.text ++ J.elements xs)) (x :: xs)
          Ends := by
        rw [Arr]
        rw [htext] at hloop ⊢
        refine reads_expect (reads_ws hspace (reads_peek ?_))
        rw [if_neg hend]
        exact hloop.mono fun _ _ => trivial
      exact harr.map J.A
  | obj o ih =>
    obtain ⟨fuel, rfl⟩ : ∃ n, fuel = n + 2 := by
      cases o <;> simp [J.text] at hfuel <;> exact ⟨fuel - 2, by omega⟩
    rw [V]
    cases o with
    | nil =>
      refine reads_ws rfl (reads_peek ?_)
      have hobj : Reads (Obj size (fuel + 1)) ['\x7b', '\x7d'] [] Ends := by
        rw [Obj]
        exact reads_expect (reads_ws rfl (reads_peek (reads_get (.pure _ _))))
      exact hobj.map J.O
    | cons p ps =>
      obtain ⟨key, x⟩ := p
      rw [J.text, List.length_cons] at hfuel hsize
      have hparts : ∀ q ∈ (key, x) :: ps,
          q.2.text.length ≤ (quoted key ++ ':' :: (x.text ++ J.members ps)).length := by
        intro q hq
        simp only [List.length_append, List.length_cons]
        rcases List.mem_cons.mp hq with rfl | hq
        · dsimp only
          omega
        · have := length_le_members hq
          omega
      have hloop : Reads (objLoop size fuel []) (quoted key ++ ':' :: (x.text ++ J.members ps))
          ((key, x) :: ps) fun _ => True :=
        objLoop_reads [] (by omega) (by omega) hv.1 fun q hq k hk =>
          ih q hq (J.membersDistinct_iff.mp hv.2 q hq)
            (Nat.le_trans (hparts q hq) (Nat.le_of_succ_le hsize)) hk
      refine reads_ws rfl (reads_peek ?_)
      have hobj : Reads (Obj size (fuel + 1))
          ('\x7b' :: (quoted key ++ ':' :: (x.text ++ J.members ps))) ((key, x) :: ps) Ends := by
        rw [Obj]
        exact reads_expect (reads_ws rfl (reads_peek (hloop.mono fun _ _ => trivial)))
      exact hobj.map J.O

/-- The reader is an inverse of the text of values without repeated names. -/
theorem Parse_text {v : J} (hv : v.Distinct) : P.Parse (String.ofList v.text) = .ok v := by
  have hwhole : Reads (whole v.text.length) v.text v (· = []) := by
    obtain ⟨c, text, htext, hspace, -⟩ := text_head v
    have hread := V_reads hv (Nat.le_refl _) (by omega : 2 * v.text.length ≤ 3 * v.text.length + 2)
    generalize v.text.length = size at hread
    have hends : ∀ rest : List Char, rest = [] → Ends rest := by
      rintro rest rfl c hc
      cases hc
    have hdone : Reads (do
        WS
        let rest ← get
        if rest ≠ [] then Err size "trailing characters"
        return v : M J) [] v (· = []) := by
      rintro rest rfl
      rfl
    rw [whole, htext]
    rw [htext] at hread
    refine reads_ws hspace ?_
    rw [← List.append_nil (c :: text)]
    exact (hread.mono hends).bind hdone fun rest hrest => hrest
  have hparse := hwhole [] rfl
  rw [List.append_nil] at hparse
  rw [P.Parse, String.toList_ofList, hparse]
  rfl

end Reading

end Kxc.Json

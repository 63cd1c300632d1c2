import Mathlib.Data.List.Basic

/-! Scanners of texts: programs that read a prefix of a list, with errors. A scanner reads a text as
a value if it returns the value and the rest whenever what follows the text is of an expected
kind. -/

namespace Kxc.Lib

variable {α ε β γ : Type}

abbrev Scanner (α ε β : Type) := StateT (List α) (Except ε) β

/-- `p` reads `text` as `v` wherever what follows is in `follow`. -/
def Reads (p : Scanner α ε β) (text : List α) (v : β) (follow : List α → Prop) : Prop :=
  ∀ rest, follow rest → p (text ++ rest) = .ok (v, rest)

variable {p : Scanner α ε β} {f : β → Scanner α ε γ} {text text' : List α} {v : β} {w : γ}
  {follow follow' : List α → Prop}

theorem Reads.pure (v : β) (follow : List α → Prop) :
    Reads (Pure.pure v : Scanner α ε β) [] v follow := fun _ _ => rfl

theorem Reads.mono (h : Reads p text v follow) (hsub : ∀ rest, follow' rest → follow rest) :
    Reads p text v follow' := fun rest hrest => h rest (hsub rest hrest)

/-- One scanner after another reads one text after another. -/
theorem Reads.bind (hp : Reads p text v follow) (hf : Reads (f v) text' w follow')
    (hfollow : ∀ rest, follow' rest → follow (text' ++ rest)) :
    Reads (p >>= f) (text ++ text') w follow' := by
  intro rest hrest
  have hrun : (p >>= f) (text ++ text' ++ rest) =
      p (text ++ (text' ++ rest)) >>= fun r => f r.1 r.2 := by
    rw [List.append_assoc]
    rfl
  rw [hrun, hp _ (hfollow rest hrest)]
  exact hf rest hrest

/-- A scanner and a function of what it reads. -/
theorem Reads.map (hp : Reads p text v follow) (g : β → γ) :
    Reads (p >>= fun x => Pure.pure (g x)) text (g v) follow := by
  intro rest hrest
  have hrun : (p >>= fun x => Pure.pure (g x)) (text ++ rest) =
      p (text ++ rest) >>= fun r => .ok (g r.1, r.2) := rfl
  rw [hrun, hp rest hrest]
  rfl

end Kxc.Lib

import Mathlib.Algebra.GroupWithZero.Nat

/-! Writing the entries of a list at given places, one after the other. -/

namespace Kxc.Lib

variable {α β : Type} {places : List Nat} {xs ys : List α} {n : Nat}

/-- The entries `xs`, each at its place, over `ys`. -/
def scatterFrom (ys : List α) (places : List Nat) (xs : List α) : List α :=
  (places.zip xs).foldl (fun ys (place, x) => ys.set place x) ys

/-- The entries `xs`, each at its place among `n`, and `blank` elsewhere. -/
def scatter (blank : α) (n : Nat) (places : List Nat) (xs : List α) : List α :=
  scatterFrom (List.replicate n blank) places xs

theorem length_scatterFrom : (scatterFrom ys places xs).length = ys.length := by
  induction places generalizing xs ys with
  | nil => rfl
  | cons place places ih =>
    cases xs with
    | nil => rfl
    | cons x xs => exact (@ih xs (ys.set place x)).trans List.length_set

theorem length_scatter (blank : α) : (scatter blank n places xs).length = n := by
  rw [scatter, length_scatterFrom, List.length_replicate]

theorem map_scatterFrom (f : α → β) :
    (scatterFrom ys places xs).map f = scatterFrom (ys.map f) places (xs.map f) := by
  induction places generalizing xs ys with
  | nil => rfl
  | cons place places ih =>
    cases xs with
    | nil => rfl
    | cons x xs =>
      have hnext := @ih xs (ys.set place x)
      rw [List.map_set] at hnext
      exact hnext

theorem map_scatter (f : α → β) (blank : α) :
    (scatter blank n places xs).map f = scatter (f blank) n places (xs.map f) := by
  rw [scatter, map_scatterFrom, List.map_replicate, scatter]

theorem getElem?_scatterFrom_of_notMem {p : Nat} (h : p ∉ places) :
    (scatterFrom ys places xs)[p]? = ys[p]? := by
  induction places generalizing xs ys with
  | nil => rfl
  | cons place places ih =>
    obtain ⟨hne, hrest⟩ := not_or.mp (List.mem_cons.not.mp h)
    cases xs with
    | nil => rfl
    | cons x xs =>
      exact (@ih xs (ys.set place x) hrest).trans (List.getElem?_set_ne (Ne.symm hne))

/-- Of different places, each holds its entry. -/
theorem getElem?_scatterFrom (hnodup : places.Nodup) (hplaces : ∀ p ∈ places, p < ys.length)
    (hlen : places.length = xs.length) {i p : Nat} (hp : places[i]? = some p) :
    (scatterFrom ys places xs)[p]? = xs[i]? := by
  induction places generalizing xs ys i with
  | nil => simp at hp
  | cons place places ih =>
    obtain ⟨hplace, hrest⟩ := List.forall_mem_cons.mp hplaces
    obtain ⟨hnot, hnodup⟩ := List.nodup_cons.mp hnodup
    obtain ⟨x, xs, rfl⟩ := List.exists_cons_of_length_eq_add_one hlen.symm
    show (scatterFrom (ys.set place x) places xs)[p]? = _
    cases i with
    | zero =>
      obtain rfl : place = p := by simpa using hp
      rw [getElem?_scatterFrom_of_notMem hnot, List.getElem?_set_self hplace]
      rfl
    | succ i =>
      exact ih hnodup (by simpa using hrest) (Nat.succ.inj hlen) (by simpa using hp)

theorem getElem?_scatter (blank : α) (hnodup : places.Nodup) (hplaces : ∀ p ∈ places, p < n)
    (hlen : places.length = xs.length) {i p : Nat} (hp : places[i]? = some p) :
    (scatter blank n places xs)[p]? = xs[i]? :=
  getElem?_scatterFrom hnodup (by simpa using hplaces) hlen hp

end Kxc.Lib

import Mathlib.Algebra.GroupWithZero.Nat
import Mathlib.Algebra.Order.BigOperators.Group.List
import Mathlib.Tactic.Common

/-!
# Tables of objects with identities of their own

`alloc` puts an object under an identity that was never in use, `free` takes it out for
good: `fresh` only grows, so two objects never share an identity, not even one after
the other.  `total f` sums a weight over the objects in the table; references are
counted with it.

    s.get i = some x → (s.set i y).total f + f x = s.total f + f y        (total_set)
    s.get i = some x → (s.free i).total f + f x = s.total f               (total_free)
-/

structure Slots (α : Type*) where
  slots : List (Option α) := []
  deriving DecidableEq

namespace Slots

variable {α β : Type*} {s t : Slots α} {i j : Nat} {x y : α} {f g : α → Nat}

def get (s : Slots α) (i : Nat) : Option α := s.slots[i]?.join

/-- The identity that the next object gets. -/
def fresh (s : Slots α) : Nat := s.slots.length

def alloc (s : Slots α) (x : α) : Slots α := ⟨s.slots ++ [some x]⟩

def set (s : Slots α) (i : Nat) (x : α) : Slots α := ⟨s.slots.set i (some x)⟩

def free (s : Slots α) (i : Nat) : Slots α := ⟨s.slots.set i none⟩

def map (h : α → β) (s : Slots α) : Slots β := ⟨s.slots.map (Option.map h)⟩

def total (f : α → Nat) (s : Slots α) : Nat := (s.slots.map fun o => o.elim 0 f).sum

/-! ## What is in the table -/

theorem get_empty (i : Nat) : (Slots.mk [] : Slots α).get i = none := rfl

theorem slots_of_get (h : s.get i = some x) : s.slots[i]? = some (some x) :=
  Option.join_eq_some_iff.mp h

theorem lt_fresh (h : s.get i = some x) : i < s.fresh :=
  (List.getElem?_eq_some_iff.mp (slots_of_get h)).1

theorem get_fresh (s : Slots α) : s.get s.fresh = none := by
  unfold get fresh
  rw [List.getElem?_eq_none (le_refl _)]
  rfl

theorem ext_get (hfresh : s.fresh = t.fresh) (hget : ∀ i, s.get i = t.get i) : s = t := by
  obtain ⟨s⟩ := s
  obtain ⟨t⟩ := t
  have hlen : s.length = t.length := hfresh
  rw [mk.injEq]
  refine List.ext_getElem hlen fun i hs ht => ?_
  have h := hget i
  unfold get at h
  rwa [List.getElem?_eq_getElem hs, List.getElem?_eq_getElem ht] at h

@[simp] theorem fresh_alloc : (s.alloc x).fresh = s.fresh + 1 := by
  simp [fresh, alloc]

@[simp] theorem fresh_set : (s.set i x).fresh = s.fresh := by
  simp [fresh, set]

@[simp] theorem fresh_free : (s.free i).fresh = s.fresh := by
  simp [fresh, free]

@[simp] theorem fresh_map (h : α → β) : (s.map h).fresh = s.fresh := by
  simp [fresh, map]

theorem get_alloc (s : Slots α) (x : α) (j : Nat) :
    (s.alloc x).get j = if j = s.fresh then some x else s.get j := by
  unfold get alloc fresh
  by_cases hlt : j < s.slots.length
  · rw [List.getElem?_append_left hlt, if_neg (by omega)]
  · by_cases heq : j = s.slots.length
    · rw [if_pos heq, heq]
      simp
    · rw [if_neg heq, List.getElem?_eq_none (by simp; omega), List.getElem?_eq_none (by omega)]

theorem get_set (h : s.get i = some x) (y : α) (j : Nat) :
    (s.set i y).get j = if j = i then some y else s.get j := by
  have hi := lt_fresh h
  unfold get set
  by_cases hj : j = i
  · subst hj
    rw [if_pos rfl, List.getElem?_set_self hi]
    rfl
  · rw [if_neg hj, List.getElem?_set_ne (Ne.symm hj)]

theorem get_free (s : Slots α) (i j : Nat) :
    (s.free i).get j = if j = i then none else s.get j := by
  unfold get free
  by_cases hj : j = i
  · subst hj
    rw [if_pos rfl]
    by_cases hlt : j < s.slots.length
    · rw [List.getElem?_set_self hlt]
      rfl
    · rw [List.getElem?_eq_none (by simp; omega)]
      rfl
  · rw [if_neg hj, List.getElem?_set_ne (Ne.symm hj)]

theorem set_alloc (s : Slots α) (x y : α) : (s.alloc x).set s.fresh y = s.alloc y := by
  have hx : (s.alloc x).get s.fresh = some x := by rw [get_alloc, if_pos rfl]
  refine ext_get (by simp) fun j => ?_
  rw [get_set hx, get_alloc, get_alloc]
  split <;> rfl

theorem set_set (s : Slots α) (i : Nat) (x y : α) : (s.set i x).set i y = s.set i y := by
  unfold set
  rw [List.set_set]

theorem alloc_set (h : s.get i = some x) (y z : α) : (s.alloc z).set i y = (s.set i y).alloc z := by
  unfold alloc set
  rw [List.set_append_left _ _ (lt_fresh h)]

theorem get_map (h : α → β) (s : Slots α) (i : Nat) : (s.map h).get i = (s.get i).map h := by
  unfold get map
  rw [List.getElem?_map]
  rcases s.slots[i]? with _ | o <;> rfl

theorem set_get (h : s.get i = some x) : s.set i x = s := by
  refine ext_get fresh_set fun j => ?_
  rw [get_set h]
  split
  · next hj => rw [hj, h]
  · rfl

/-! ## Sums over the table -/

private theorem sum_set_eq : ∀ {l : List (Option α)} {i : Nat} {o : Option α} (p : Option α),
    l[i]? = some o →
      ((l.set i p).map fun o => o.elim 0 f).sum + o.elim 0 f =
        (l.map fun o => o.elim 0 f).sum + p.elim 0 f
  | [], _, _, _, h => by simp at h
  | q :: l, 0, o, p, h => by
    have hq : q = o := by simpa using h
    subst hq
    simp only [List.set_cons_zero, List.map_cons, List.sum_cons]
    omega
  | q :: l, i + 1, o, p, h => by
    have hrest := sum_set_eq p (show l[i]? = some o by simpa using h)
    simp only [List.set_cons_succ, List.map_cons, List.sum_cons]
    omega

theorem total_set (h : s.get i = some x) (y : α) :
    (s.set i y).total f + f x = s.total f + f y :=
  sum_set_eq (some y) (slots_of_get h)

theorem total_free (h : s.get i = some x) : (s.free i).total f + f x = s.total f :=
  sum_set_eq none (slots_of_get h)

@[simp] theorem total_alloc : (s.alloc x).total f = s.total f + f x := by
  simp [total, alloc]

theorem total_map (h : α → α) (hf : ∀ x, f (h x) = f x) : (s.map h).total f = s.total f := by
  unfold total map
  rw [List.map_map]
  refine congrArg List.sum (List.map_congr_left fun o _ => ?_)
  cases o with
  | none => rfl
  | some x => exact hf x

theorem le_total (h : s.get i = some x) : f x ≤ s.total f := by
  have hsum := total_free (f := f) h
  omega

theorem total_eq_zero (h : ∀ i x, s.get i = some x → f x = 0) : s.total f = 0 := by
  refine List.sum_eq_zero fun n hn => ?_
  obtain ⟨o, ho, rfl⟩ := List.mem_map.mp hn
  obtain ⟨i, hi, ho⟩ := List.mem_iff_getElem.mp ho
  cases o with
  | none => rfl
  | some x =>
    refine h i x ?_
    unfold get
    rw [List.getElem?_eq_getElem hi, ho]
    rfl

end Slots

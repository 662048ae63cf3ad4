import Mathlib.Data.List.Basic
import Mathlib.Data.List.Induction
import Mathlib.Logic.Function.Basic
import Mathlib.Tactic.Common

/-!
# Taking keyed entries off the end of a list

`removeLast key k l` is `l` without its last entry under the key `k`, and
`subtract key l ks` takes such an entry off for every key of `ks`.  A single pass from
the end that counts down how many entries of each key are still to go does the same.

    subtract key l ks = (sweep key (tally ks) l.reverse).reverse            (subtract_eq_sweep)
    subtract key (l ++ l') (l'.map key) = l                                 (subtract_append)
-/

namespace KeyedLists

variable {α κ : Type*} [DecidableEq κ] {key : α → κ} {k : κ} {l : List α}

/-- Without the last entry under `k`, if there is one. -/
def removeLast (key : α → κ) (k : κ) (l : List α) : List α :=
  (l.reverse.eraseP fun x => key x = k).reverse

def subtract (key : α → κ) (l : List α) (ks : List κ) : List α :=
  ks.foldl (fun l k => removeLast key k l) l

/-- How often each key is asked for. -/
def tally (ks : List κ) (k : κ) : Nat := ks.count k

theorem tally_cons (k : κ) (ks : List κ) :
    tally (k :: ks) = Function.update (tally ks) k (tally ks k + 1) := by
  funext j
  unfold tally
  by_cases hj : j = k
  · subst hj
    simp
  · rw [Function.update_of_ne hj, List.count_cons_of_ne (Ne.symm hj)]

/-- Drops an entry as long as its key is still asked for. -/
def sweep (key : α → κ) : (κ → Nat) → List α → List α
  | _, [] => []
  | need, x :: l =>
    if 0 < need (key x) then sweep key (Function.update need (key x) (need (key x) - 1)) l
    else x :: sweep key need l

theorem removeLast_concat (x : α) :
    removeLast key k (l ++ [x]) = if key x = k then l else removeLast key k l ++ [x] := by
  unfold removeLast
  rw [List.reverse_append, List.reverse_singleton, List.singleton_append, List.eraseP_cons]
  by_cases hk : key x = k
  · rw [if_pos hk, decide_eq_true hk, cond_true, List.reverse_reverse]
  · rw [if_neg hk, decide_eq_false hk, cond_false, List.reverse_cons]

theorem tally_append (ks ks' : List κ) (k : κ) : tally (ks ++ ks') k = tally ks k + tally ks' k :=
  List.count_append

theorem tally_singleton (k j : κ) : tally [k] j = if k = j then 1 else 0 := by
  unfold tally
  rw [List.count_singleton]
  simp only [beq_iff_eq]

theorem exists_tally_pos {ks : List κ} : (∃ k, 0 < tally ks k) ↔ ks ≠ [] := by
  unfold tally
  simp only [List.count_pos_iff]
  exact ⟨fun ⟨_, hk⟩ => List.ne_nil_of_mem hk, List.exists_mem_of_ne_nil ks⟩

theorem tally_removeLast (k j : κ) (l : List α) :
    tally ((removeLast key k l).map key) j = tally (l.map key) j - if k = j then 1 else 0 := by
  induction l using List.reverseRecOn with
  | nil => exact (Nat.zero_sub _).symm
  | append_singleton l x ih =>
    rw [removeLast_concat, List.map_append, tally_append, List.map_singleton, tally_singleton]
    by_cases hx : key x = k
    · rw [if_pos hx, hx, Nat.add_sub_cancel]
    · rw [if_neg hx, List.map_append, tally_append, ih, List.map_singleton, tally_singleton]
      by_cases hj : k = j
      · have hne : key x ≠ j := hj ▸ hx
        rw [if_neg hne]
        rfl
      · rw [if_neg hj]
        rfl

theorem sweep_congr {need need' : κ → Nat} (h : ∀ k, need k = need' k) :
    sweep key need l = sweep key need' l := by
  rw [funext h]

/-- Asking for one more `k` is taking the first `k` off before. -/
theorem sweep_succ (need : κ → Nat) (k : κ) (l : List α) :
    sweep key (Function.update need k (need k + 1)) l =
      sweep key need (l.eraseP fun x => key x = k) := by
  induction l generalizing need with
  | nil => rfl
  | cons x l ih =>
    by_cases hk : key x = k
    · subst hk
      rw [List.eraseP_cons_of_pos (by simp), sweep, if_pos (by simp)]
      refine sweep_congr fun j => ?_
      simp
    · rw [List.eraseP_cons_of_neg (by simpa using hk), sweep, sweep, Function.update_of_ne hk]
      split
      · rw [Function.update_comm (Ne.symm hk), ← ih]
        refine sweep_congr fun j => ?_
        rw [Function.update_of_ne (Ne.symm hk)]
      · rw [ih]

theorem sweep_zero (l : List α) : sweep key (fun _ => 0) l = l := by
  induction l with
  | nil => rfl
  | cons x l ih => rw [sweep, if_neg (by simp), ih]

theorem sweep_tally (ks : List κ) (l : List α) :
    sweep key (tally ks) l.reverse = (subtract key l ks).reverse := by
  induction ks generalizing l with
  | nil => exact sweep_zero l.reverse
  | cons k ks ih =>
    rw [tally_cons, sweep_succ]
    show _ = (subtract key (removeLast key k l) ks).reverse
    rw [← ih]
    unfold removeLast
    rw [List.reverse_reverse]

theorem subtract_eq_sweep (ks : List κ) (l : List α) :
    subtract key l ks = (sweep key (tally ks) l.reverse).reverse := by
  rw [sweep_tally, List.reverse_reverse]

theorem sweep_sublist (need : κ → Nat) (l : List α) : (sweep key need l).Sublist l := by
  induction l generalizing need with
  | nil => exact .slnil
  | cons x l ih =>
    rw [sweep]
    split
    · exact (ih _).cons x
    · exact (ih _).cons_cons x

theorem subtract_sublist (ks : List κ) (l : List α) : (subtract key l ks).Sublist l := by
  rw [subtract_eq_sweep]
  exact (sweep_sublist _ l.reverse).reverse.trans (by rw [List.reverse_reverse])

theorem subtract_nil (ks : List κ) : subtract key [] ks = [] :=
  List.sublist_nil.mp (subtract_sublist ks [])

/-- It does not matter in which order the keys are asked for. -/
theorem subtract_perm {ks ks' : List κ} (h : ks.Perm ks') (l : List α) :
    subtract key l ks = subtract key l ks' := by
  have htally : tally ks = tally ks' := funext fun k => h.count_eq k
  rw [subtract_eq_sweep, subtract_eq_sweep, htally]

/-- A list that is asked for as a whole is gone, and what comes behind it stays. -/
theorem sweep_append (l l' : List α) : sweep key (tally (l.map key)) (l ++ l') = l' := by
  induction l with
  | nil => exact sweep_zero l'
  | cons x l ih =>
    rw [List.map_cons, tally_cons, List.cons_append, sweep, Function.update_self,
      if_pos (Nat.succ_pos _), Function.update_idem, Nat.add_sub_cancel, Function.update_eq_self]
    exact ih

theorem subtract_append (l l' : List α) : subtract key (l ++ l') (l'.map key) = l := by
  have hperm : (l'.map key).Perm (l'.reverse.map key) := (List.reverse_perm l').symm.map key
  rw [subtract_perm hperm, subtract_eq_sweep, List.reverse_append, sweep_append,
    List.reverse_reverse]

theorem subtract_self (l : List α) : subtract key l (l.map key) = [] :=
  subtract_append [] l

end KeyedLists

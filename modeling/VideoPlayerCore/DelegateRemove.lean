import VideoPlayerCore.DelegateAdd

/-!
# Remove of method lists

`Remove` goes on with a list that shows the same entries but the last one with the key,
and for an operand list but one such entry for each of the operand's: with the same list
if there is none of them, with `nullptr` if nothing is left, else with a new list.

    h.remove k key     goes on with removeLast key (visible k)               (Inv.remove)
    h.removeList k j   goes on with subtract (visible k) (keys of visible j) (Inv.removeList)
-/

namespace VideoPlayerCore

open KeyedLists

variable {F : Type}

namespace Heap

variable {h : Heap F} {j k n : Nat} {l : MethodList} {a : SharedArray F}

/-- A list that nothing but its maker refers to, and what it shows. -/
def Shows (h : Heap F) (k : Nat) (entries : List (Method F)) : Prop :=
  (∃ l, h.lists.get k = some l ∧ l.refCount = 1) ∧ h.visible k = entries

/-- What a delegate with this `_current` goes on with, and that it shows `entries`. -/
inductive Leaves (h : Heap F) (entries : List (Method F)) : Option Nat → Heap F × Option Nat → Prop
  | same {k : Nat} : h.visible k = entries → Leaves h entries (some k) (h, some k)
  | null {current : Option Nat} : entries = [] → Leaves h entries current (h, none)
  | new {current : Option Nat} {h' : Heap F} : Edits h h' h.lists.fresh →
      Shows h' h.lists.fresh entries → entries ≠ [] →
      Leaves h entries current (h', some h.lists.fresh)

/-! ## Remove of one entry -/

theorem findLast_eq (key : Nat × Nat) (hn : n ≤ a.size) :
    (findLast a key n = some none ∧
        removeLast Method.key key (a.data.take n) = a.data.take n) ∨
      ∃ i, i < n ∧ findLast a key n = some (some i) ∧
        removeLast Method.key key (a.data.take n) =
          a.data.take i ++ (a.data.take n).drop (i + 1) := by
  induction n with
  | zero => exact .inl ⟨rfl, rfl⟩
  | succ n ih =>
    have hlt : n < a.data.length := hn
    rw [List.take_succ_eq_append_getElem hlt, removeLast_concat, findLast,
      List.getElem?_eq_getElem hlt]
    simp only [Option.bind_eq_bind, Option.bind_some]
    have hlen : (a.data.take n).length = n := by
      rw [List.length_take]
      omega
    by_cases hkey : a.data[n].key = key
    · rw [if_pos hkey, if_pos hkey]
      refine .inr ⟨n, by omega, rfl, ?_⟩
      rw [List.drop_eq_nil_of_le (by simp), List.append_nil]
    · rw [if_neg hkey, if_neg hkey]
      rcases ih (by omega) with ⟨hnone, heq⟩ | ⟨i, hi, hsome, heq⟩
      · exact .inl ⟨hnone, by rw [heq]⟩
      · refine .inr ⟨i, by omega, hsome, ?_⟩
        rw [heq, List.append_assoc, List.drop_append_of_le_length (by omega)]

/-- A copy that is shortened without a look at the array. -/
theorem Inv.shrink (hi : h.Inv) (hl : h.lists.get k = some l) (hn : n ≤ l.size) :
    Edits h { h with lists := h.lists.set k { l with size := n } } k ∧
      ({ h with lists := h.lists.set k { l with size := n } } : Heap F).visible k =
        (h.visible k).take n := by
  obtain ⟨a, ha, hsize⟩ := hi.within k l hl
  have hget : ∀ j, (h.lists.set k { l with size := n }).get j =
      if j = k then some { l with size := n } else h.lists.get j := Slots.get_set hl _
  refine ⟨hi.edits _ hget ?_ ?_ ?_ hi.roomy ?_, ?_⟩
  · rintro l' ⟨⟩
    exact ⟨a, ha, Nat.le_trans hn hsize⟩
  · intro i l' b _ _ hb
    exact ⟨b, [], hb, (List.append_nil _).symm⟩
  · intro i b hb
    have hsum : (h.lists.set k { l with size := n }).total (uses i) + uses i l =
        h.lists.total (uses i) + uses i { l with size := n } := Slots.total_set hl _
    rw [hi.counted i b hb]
    exact (Nat.add_right_cancel hsum).symm
  · show _ ≤ (h.lists.set k _).fresh
    rw [Slots.fresh_set]
  · have hk : (h.lists.set k { l with size := n }).get k = some { l with size := n } :=
      (hget k).trans (if_pos rfl)
    rw [visible_eq (h := { h with lists := h.lists.set k { l with size := n } }) hk ha,
      visible_eq hl ha, List.take_take, Nat.min_eq_left hn]

/-- A copy that gets an array of its own with the entries that are left. -/
theorem Inv.copyLeft (hi : h.Inv) (hl : h.lists.get k = some l)
    (ha : h.arrays.get l.array = some a) :
    ∃ h₁ h₂ b, h.copyList k = some (h₁, h.lists.fresh) ∧ h₁.release l.array = some h₂ ∧
      h₂.arrays.get l.array = some b ∧ b.data = a.data ∧
      ∀ temp : SharedArray F, temp.refCount = 1 → temp.data ≠ [] →
        ∃ h', h₂.install h.lists.fresh temp temp.size = some h' ∧ Edits h h' h.lists.fresh ∧
          Shows h' h.lists.fresh temp.data := by
  obtain ⟨h₁, hcopy, hedit₁, hl₁, ha₁⟩ := hi.copyList hl ha
  obtain ⟨h₂, hrelease, -, -, harr⟩ := release_eq ha₁
  have hcount : 1 ≤ a.refCount := by
    have hle := Slots.le_total (f := uses l.array) hl
    rw [hi.counted _ a ha]
    rwa [uses_of_eq rfl] at hle
  refine ⟨h₁, h₂, { a with refCount := a.refCount + 1 - 1 }, hcopy, hrelease, ?_, rfl, ?_⟩
  · rw [harr, if_pos rfl]
    exact if_neg (by show ¬a.refCount + 1 - 1 = 0; omega)
  · intro temp href hne
    have hcap : 0 < temp.capacity :=
      Nat.lt_of_lt_of_le (List.length_pos_iff.mpr hne) temp.size_le
    obtain ⟨h', hmove, hedit, hl', ha'⟩ := hedit₁.inv.reseat hl₁ temp href hcap (Nat.le_refl _)
    have hmove' : (h₁.release l.array).bind
        (fun h₂ => h₂.install h.lists.fresh temp temp.size) = some h' := hmove
    rw [hrelease, Option.bind_some] at hmove'
    refine ⟨h', hmove', hedit₁.trans hedit, ⟨_, hl', rfl⟩, ?_⟩
    rw [visible_eq hl' ha']
    exact List.take_length

theorem Inv.remove (hi : h.Inv) (hl : h.lists.get k = some l) (hpos : 0 < l.size)
    (key : Nat × Nat) :
    ∃ r, h.remove k key = some r ∧
      Leaves h (removeLast Method.key key (h.visible k)) (some k) r ∧
      (r.2 ≠ some k → (removeLast Method.key key (h.visible k)).length < (h.visible k).length) := by
  obtain ⟨a, ha, hsize⟩ := hi.within k l hl
  obtain ⟨array, size, refCount⟩ := l
  obtain ⟨count, rfl⟩ : ∃ count, size = count + 1 := ⟨size - 1, by dsimp only at hpos; omega⟩
  have hlt : count < a.data.length := hsize
  obtain ⟨last, hlast, hconcat⟩ : ∃ last, a.data[count]? = some last ∧
      a.data.take (count + 1) = a.data.take count ++ [last] :=
    ⟨_, List.getElem?_eq_getElem hlt, List.take_succ_eq_append_getElem hlt⟩
  have hvisible : h.visible k = a.data.take count ++ [last] := by
    rw [visible_eq hl ha, hconcat]
  have hlen : (a.data.take count).length = count := by
    rw [List.length_take]
    omega
  simp only [Heap.remove, hl, ha, hlast, Option.bind_eq_bind, Option.bind_some]
  rw [hvisible, removeLast_concat]
  by_cases hkey : last.key = key
  · rw [if_pos hkey, if_pos hkey]
    have hshorter : (a.data.take count).length < (a.data.take count ++ [last]).length := by
      rw [List.length_append, List.length_singleton]
      exact Nat.lt_succ_self _
    by_cases hzero : count = 0
    · rw [if_pos hzero]
      exact ⟨_, rfl, .null (by rw [hzero]; rfl), fun _ => hshorter⟩
    · obtain ⟨h₁, hcopy, hedit₁, hl₁, ha₁⟩ := hi.copyList hl ha
      obtain ⟨hedit, hshow⟩ := hedit₁.inv.shrink hl₁ (Nat.le_succ count)
      rw [if_neg hzero, hcopy, Option.bind_some]
      refine ⟨_, rfl, .new (hedit₁.trans hedit) ⟨⟨_, (Slots.get_set hl₁ _ _).trans (if_pos rfl), rfl⟩,
        ?_⟩ ?_, fun _ => hshorter⟩
      · rw [hshow, visible_eq hl₁ ha₁, List.take_take, Nat.min_eq_left (Nat.le_succ count)]
      · intro hnil
        rw [hnil] at hlen
        exact hzero hlen.symm
  · rw [if_neg hkey, if_neg hkey]
    rcases findLast_eq key (Nat.le_of_succ_le hsize) with ⟨hnone, heq⟩ | ⟨i, hlt', hsome, heq⟩
    · rw [hnone, Option.bind_some, heq]
      exact ⟨_, rfl, .same hvisible, fun hother => absurd rfl hother⟩
    · rw [hsome, Option.bind_some, heq]
      have hcount : count + 1 ≤ a.size := hsize
      have hi' : i < a.size := by omega
      obtain ⟨left, hleft, hdata₁, hcap₁, href₁⟩ := SharedArray.pushBackRange_eq (.new (count * 2))
        a 0 i (by omega) (by show 0 + i ≤ count * 2; omega)
      have hsize₁ : left.size = i := by
        unfold SharedArray.size at hi' ⊢
        rw [hdata₁]
        simp [SharedArray.new]
        omega
      obtain ⟨temp, htemp, hdata, hcap, href⟩ := SharedArray.pushBackRange_eq left a (i + 1)
        (count + 1 - i - 1) (by omega) (by rw [hsize₁, hcap₁]; show _ ≤ count * 2; omega)
      have htail : (a.data.drop (i + 1)).take (count + 1 - i - 1) =
          (a.data.take count).drop (i + 1) ++ [last] := by
        rw [← List.drop_append_of_le_length (by omega), ← hconcat, List.drop_take, Nat.sub_sub]
      have hentries : temp.data =
          a.data.take i ++ (a.data.take count).drop (i + 1) ++ [last] := by
        rw [hdata, hdata₁, htail, List.drop_zero]
        exact (List.append_assoc _ _ _).symm
      have hsize' : temp.size = count := by
        unfold SharedArray.size at hi' ⊢
        rw [hentries]
        simp
        omega
      obtain ⟨h₁, h₂, b, hcopy, hrelease, -, -, hleaves⟩ := hi.copyLeft hl ha
      obtain ⟨h', hinstall, hedit, hshow⟩ :=
        hleaves temp (href.trans href₁) (by rw [hentries]; simp)
      rw [hsize'] at hinstall
      dsimp only
      rw [hcopy, Option.bind_some, hleft, Option.bind_some, htemp, Option.bind_some, hrelease,
        Option.bind_some, hinstall, Option.bind_some]
      refine ⟨_, rfl, .new hedit ?_ (by simp), fun _ => ?_⟩
      · rw [← hentries]
        exact hshow
      · rw [← hentries, List.length_append, List.length_singleton, hlen]
        exact Nat.lt_succ_of_le (Nat.le_of_eq hsize')

/-! ## Remove of a whole list -/

/-- The map counts the entries that are still to go, under each key. -/
def SearchMap.Asks (searchMap : SearchMap) (need : Nat × Nat → Nat) : Prop :=
  ∀ pObject pMethodAdress,
    ((searchMap pObject).bind fun interMap => interMap pMethodAdress).getD 0 =
      need (pObject, pMethodAdress)

/-- Only the count under one key is written. -/
theorem SearchMap.Asks.write {searchMap : SearchMap} {need : Nat × Nat → Nat}
    (hs : searchMap.Asks need) (m : Method F) {interMap : Nat → Option Int}
    (hinter : ∀ p, (interMap p).getD 0 =
      ((searchMap m.pObject).bind fun interMap => interMap p).getD 0)
    {o : Option Int} {n : Nat} (ho : o.getD 0 = n) :
    SearchMap.Asks (Function.update searchMap m.pObject
      (some (Function.update interMap m.pMethodAdress o))) (Function.update need m.key n) := by
  intro pObject pMethodAdress
  by_cases hobj : pObject = m.pObject
  · subst hobj
    rw [Function.update_self, Option.bind_some]
    by_cases hadr : pMethodAdress = m.pMethodAdress
    · subst hadr
      rw [Function.update_self, ho]
      unfold Method.key
      rw [Function.update_self]
    · rw [Function.update_of_ne hadr, hinter, hs]
      unfold Method.key
      rw [Function.update_of_ne (by simpa using hadr)]
  · rw [Function.update_of_ne hobj, hs]
    unfold Method.key
    rw [Function.update_of_ne (fun heq => hobj (congrArg Prod.fst heq))]

theorem SearchMap.Asks.count {searchMap : SearchMap} {need : Nat × Nat → Nat}
    (hs : searchMap.Asks need) (m : Method F) :
    (searchMap.count m).Asks (Function.update need m.key (need m.key + 1)) := by
  have hinter : ∀ p, (((searchMap m.pObject).getD fun _ => none) p).getD 0 =
      ((searchMap m.pObject).bind fun interMap => interMap p).getD 0 := by
    intro p
    rcases searchMap m.pObject with _ | interMap <;> rfl
  refine hs.write m hinter ?_
  have hneed := hs m.pObject m.pMethodAdress
  rw [← hinter] at hneed
  split
  · next n hn =>
    rw [hn] at hneed
    have hcast : n = (need m.key : Int) := hneed
    rw [hcast]
    rfl
  · next hn =>
    rw [hn] at hneed
    have hcast : (0 : Int) = (need m.key : Int) := hneed
    show (1 : Int) = ((need m.key + 1 : Nat) : Int)
    omega

theorem SearchMap.Asks.counts {searchMap : SearchMap} {need : Nat × Nat → Nat}
    (hs : searchMap.Asks need) (ms : List (Method F)) :
    (ms.foldl SearchMap.count searchMap).Asks
      fun key => need key + tally (ms.map Method.key) key := by
  induction ms generalizing searchMap need with
  | nil => exact hs
  | cons m ms ih =>
    have hneed : (fun key => need key + tally ((m :: ms).map Method.key) key) =
        fun key => Function.update need m.key (need m.key + 1) key +
          tally (ms.map Method.key) key := by
      funext key
      rw [List.map_cons, tally_cons]
      by_cases hkey : key = m.key
      · subst hkey
        rw [Function.update_self, Function.update_self]
        omega
      · rw [Function.update_of_ne hkey, Function.update_of_ne hkey]
    rw [hneed]
    exact ih (hs.count m)

theorem asks_operand (ms : List (Method F)) :
    (ms.foldl SearchMap.count fun _ => none).Asks (tally (ms.map Method.key)) := by
  have hempty : SearchMap.Asks (fun _ => none) fun _ => 0 := fun _ _ => rfl
  have hcounts := hempty.counts ms
  simp only [Nat.zero_add] at hcounts
  exact hcounts

/-- The backward scan is the sweep from the end of the list. -/
theorem leftIndexes_eq {searchMap : SearchMap} {need : Nat × Nat → Nat}
    (hs : searchMap.Asks need) (hn : n ≤ a.size) :
    ∃ left, leftIndexes a searchMap n = some left ∧
      left.map (fun i => a.data[i]?) =
        (sweep Method.key need (a.data.take n).reverse).map some := by
  induction n generalizing searchMap need with
  | zero => exact ⟨[], rfl, rfl⟩
  | succ n ih =>
    have hlt : n < a.data.length := hn
    obtain ⟨m, hm, hconcat⟩ : ∃ m, a.data[n]? = some m ∧
        a.data.take (n + 1) = a.data.take n ++ [m] :=
      ⟨_, List.getElem?_eq_getElem hlt, List.take_succ_eq_append_getElem hlt⟩
    have hneed := hs m.pObject m.pMethodAdress
    have hkeep : need m.key = 0 → ∀ {sm : SearchMap}, sm.Asks need →
        ∃ left, (leftIndexes a sm n).map (n :: ·) = some left ∧
          left.map (fun i => a.data[i]?) =
            (sweep Method.key need (a.data.take (n + 1)).reverse).map some := by
      intro hzero sm hsm
      obtain ⟨left, hleft, heq⟩ := ih hsm (Nat.le_of_succ_le hn)
      refine ⟨n :: left, by rw [hleft]; rfl, ?_⟩
      rw [hconcat, List.reverse_append, List.reverse_singleton, List.singleton_append, sweep,
        if_neg (by omega), List.map_cons, List.map_cons, hm, heq]
    rw [leftIndexes, hm]
    simp only [Option.bind_eq_bind, Option.bind_some]
    split
    · next interMap hinter =>
      rw [hinter, Option.bind_some] at hneed
      have hsame : ∀ p, (interMap p).getD 0 =
          ((searchMap m.pObject).bind fun interMap => interMap p).getD 0 := by
        intro p
        rw [hinter]
        rfl
      split
      · next c hc =>
        rw [hc] at hneed
        have hcast : c = (need m.key : Int) := hneed
        split
        · next hpos =>
          have hwrite := hs.write m hsame (o := some (c - 1)) (n := need m.key - 1) (by
            show c - 1 = _
            omega)
          obtain ⟨left, hleft, heq⟩ := ih hwrite (Nat.le_of_succ_le hn)
          refine ⟨left, hleft, ?_⟩
          rw [hconcat, List.reverse_append, List.reverse_singleton, List.singleton_append, sweep,
            if_pos (by omega), heq]
        · next hpos =>
          have hzero : need m.key = 0 := by omega
          have hwrite := hs.write m hsame (o := none) (n := 0) rfl
          rw [← hzero, Function.update_eq_self] at hwrite
          exact hkeep hzero hwrite
      · next hc =>
        rw [hc] at hneed
        have hcast : (0 : Int) = (need m.key : Int) := hneed
        exact hkeep (by omega) hs
    · next hinter =>
      rw [hinter] at hneed
      have hcast : (0 : Int) = (need m.key : Int) := hneed
      exact hkeep (by omega) hs

theorem pushLeft_eq (newArray : SharedArray F) {left : List Nat} {entries : List (Method F)}
    (hleft : left.map (fun i => a.data[i]?) = entries.map some)
    (hroom : newArray.size + entries.length ≤ newArray.capacity) :
    ∃ b, pushLeft newArray a left = some b ∧ b.data = newArray.data ++ entries ∧
      b.refCount = newArray.refCount := by
  induction left generalizing entries newArray with
  | nil =>
    obtain rfl : entries = [] := by simpa using hleft.symm
    exact ⟨newArray, rfl, (List.append_nil _).symm, rfl⟩
  | cons i left ih =>
    cases entries with
    | nil => simp at hleft
    | cons m entries =>
      rw [List.map_cons, List.map_cons, List.cons.injEq] at hleft
      rw [List.length_cons] at hroom
      obtain ⟨b, hb, hdata, hcap, href⟩ := SharedArray.construct_eq newArray [m]
        (by rw [List.length_singleton]; omega)
      have hsize : b.size = newArray.size + 1 := by
        unfold SharedArray.size
        rw [hdata, List.length_append]
        rfl
      obtain ⟨c, hc, hdata', href'⟩ := ih b hleft.2 (by rw [hsize, hcap]; omega)
      refine ⟨c, ?_, by rw [hdata', hdata, List.append_assoc]; rfl, href'.trans href⟩
      rw [pushLeft, hleft.1]
      simp only [Option.bind_eq_bind, Option.bind_some, SharedArray.pushBack, hb]
      exact hc

theorem Inv.removeList (hi : h.Inv) (hl : h.lists.get k = some l) (hpos : 0 < l.size)
    {other : MethodList} (hj : h.lists.get j = some other) :
    ∃ r, h.removeList k j = some r ∧
      Leaves h (subtract Method.key (h.visible k) ((h.visible j).map Method.key)) (some k) r ∧
      (r.2 ≠ some k → (subtract Method.key (h.visible k)
        ((h.visible j).map Method.key)).length < (h.visible k).length) := by
  obtain ⟨a, ha, hsize⟩ := hi.within k l hl
  obtain ⟨b, hb, hrange⟩ := hi.operand hj
  simp only [Heap.removeList, hl, ha, hj, hb, hrange, Option.bind_eq_bind, Option.bind_some]
  split
  · next m hone =>
    rw [hone]
    exact hi.remove hl hpos m.key
  · rw [subtract_eq_sweep, visible_eq hl ha]
    obtain ⟨left, hleft, heq⟩ := leftIndexes_eq (asks_operand (h.visible j)) hsize
    generalize hkept : sweep Method.key (tally ((h.visible j).map Method.key))
      (a.data.take l.size).reverse = kept at heq
    have hlen : left.length = kept.length := by simpa using congrArg List.length heq
    have hsub : kept.reverse.Sublist (a.data.take l.size) := by
      rw [← hkept, ← subtract_eq_sweep]
      exact subtract_sublist _ _
    rw [hleft, Option.bind_some]
    by_cases hall : left.length = l.size
    · rw [if_pos hall]
      refine ⟨_, rfl, .same ?_, fun hother => absurd rfl hother⟩
      rw [visible_eq hl ha]
      refine (hsub.eq_of_length ?_).symm
      rw [List.length_reverse, ← hlen, hall, List.length_take]
      exact (Nat.min_eq_left hsize).symm
    · rw [if_neg hall]
      have hshorter : kept.reverse.length < (a.data.take l.size).length := by
        have hle := hsub.length_le
        unfold SharedArray.size at hsize
        rw [List.length_reverse, List.length_take] at *
        omega
      by_cases hnone : left.length < 1
      · rw [if_pos hnone]
        refine ⟨_, rfl, .null ?_, fun _ => hshorter⟩
        rw [List.reverse_eq_nil_iff, ← List.length_eq_zero_iff]
        omega
      · rw [if_neg hnone]
        have hne : kept.reverse ≠ [] := by
          rw [Ne, List.reverse_eq_nil_iff, ← List.length_eq_zero_iff]
          omega
        obtain ⟨h₁, h₂, b, hcopy, hrelease, hb', hdata', hleaves⟩ := hi.copyLeft hl ha
        have hentries : left.reverse.map (fun i => b.data[i]?) = kept.reverse.map some := by
          rw [hdata', List.map_reverse, heq, List.map_reverse]
        have hroom : 0 + kept.reverse.length ≤ left.length := by
          rw [List.length_reverse]
          omega
        obtain ⟨temp, htemp, hdata, href⟩ := pushLeft_eq (.new left.length) hentries hroom
        have hkeeps : temp.data = kept.reverse := hdata
        obtain ⟨h', hinstall, hedit, hshow⟩ := hleaves temp href (by rw [hkeeps]; exact hne)
        have hsize' : temp.size = left.length := by
          unfold SharedArray.size
          rw [hkeeps, List.length_reverse, hlen]
        rw [hsize'] at hinstall
        rw [hcopy, Option.bind_some, hrelease, Option.bind_some, hb', Option.bind_some, htemp,
          Option.bind_some, hinstall, Option.bind_some]
        exact ⟨_, rfl, .new hedit (by rw [← hkeeps]; exact hshow) hne, fun _ => hshorter⟩

end Heap

end VideoPlayerCore

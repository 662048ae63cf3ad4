import Mathlib.Algebra.Ring.Int.Defs
import VideoPlayerCore.Formats

/-!
# Fixed width: texts in the order of their numbers

A number that fits its width is printed with just as many digits, so that texts of one format
come in the lexicographic order of their numbers.

    0 ≤ m, n < 10 ^ width → (padded width m < padded width n ↔ m < n)      (padded_lt_iff)
    InWidths fmt ms → InWidths fmt ns → (print fmt ms < print fmt ns ↔ ms < ns)     (print_lt_iff)
-/

namespace Formats

/-! ## The lexicographic order -/

section

variable {α : Type} [LT α] {as bs cs ds : List α}

/-- The first parts decide, when they are as long as each other and differ. -/
theorem lexAppend_lt_iff (hlen : as.length = bs.length) :
    as ++ cs < bs ++ ds ↔ as < bs ∨ as = bs ∧ cs < ds := by
  induction as generalizing bs with
  | nil =>
    obtain rfl := List.length_eq_zero_iff.mp hlen.symm
    simp
  | cons a as ih =>
    cases bs with
    | nil => cases hlen
    | cons b bs =>
      rw [List.cons_append, List.cons_append, List.cons_lt_cons_iff, List.cons_lt_cons_iff,
        ih (Nat.succ.inj hlen), List.cons.injEq]
      tauto

/-- What both end with does not matter. -/
theorem lexAppend_lt_right [Std.Irrefl (· < · : α → α → Prop)]
    (hlen : as.length = bs.length) : as ++ cs < bs ++ cs ↔ as < bs := by
  rw [lexAppend_lt_iff hlen]
  exact or_iff_left fun h => List.lt_irrefl cs h.2

end

/-- A function that keeps the order of the elements keeps that of the lists. -/
theorem lexMap_lt_iff {α β : Type} [LT α] [LT β] {f : α → β} {as bs : List α}
    (h : ∀ a ∈ as, ∀ b ∈ bs, (f a < f b ↔ a < b) ∧ (f a = f b ↔ a = b)) :
    as.map f < bs.map f ↔ as < bs := by
  induction as generalizing bs with
  | nil => cases bs <;> simp
  | cons a as ih =>
    cases bs with
    | nil => simp
    | cons b bs =>
      obtain ⟨hlt, heq⟩ := h a List.mem_cons_self b List.mem_cons_self
      have hrest := ih fun a ha b hb =>
        h a (List.mem_cons_of_mem _ ha) b (List.mem_cons_of_mem _ hb)
      rw [List.map_cons, List.map_cons, List.cons_lt_cons_iff, List.cons_lt_cons_iff, hlt, heq,
        hrest]

/-! ## Digits -/

theorem isDigit_toNat {c : Char} (hc : c.isDigit = true) : 48 ≤ c.toNat ∧ c.toNat ≤ 57 := by
  have hrange : 48 ≤ c.val ∧ c.val ≤ 57 := by simpa [Char.isDigit] using hc
  exact ⟨UInt32.le_iff_toNat_le.mp hrange.1, UInt32.le_iff_toNat_le.mp hrange.2⟩

theorem ofDigitChars_first (c : Char) (digits : List Char) :
    Nat.ofDigitChars 10 (c :: digits) 0 =
      10 ^ digits.length * (c.toNat - 48) + Nat.ofDigitChars 10 digits 0 := by
  have hzero : '0'.toNat = 48 := rfl
  rw [Nat.ofDigitChars_cons, Nat.ofDigitChars_eq_ofDigitChars_zero, hzero, Nat.mul_zero,
    Nat.zero_add]

theorem ofDigitChars_lt {digits : List Char} (h : ∀ c ∈ digits, c.isDigit = true) :
    Nat.ofDigitChars 10 digits 0 < 10 ^ digits.length := by
  induction digits with
  | nil => exact Nat.one_pos
  | cons c digits ih =>
    have hc := isDigit_toNat (h c List.mem_cons_self)
    have hrest := ih fun d hd => h d (List.mem_cons_of_mem _ hd)
    rw [ofDigitChars_first, List.length_cons, Nat.pow_succ]
    have hmul : 10 ^ digits.length * (c.toNat - 48) ≤ 10 ^ digits.length * 9 :=
      Nat.mul_le_mul_left _ (by omega)
    omega

/-- As many digits come in the order of the numbers that they are. -/
theorem digits_lt_iff {as bs : List Char} (ha : ∀ c ∈ as, c.isDigit = true)
    (hb : ∀ c ∈ bs, c.isDigit = true) (hlen : as.length = bs.length) :
    as < bs ↔ Nat.ofDigitChars 10 as 0 < Nat.ofDigitChars 10 bs 0 := by
  induction as generalizing bs with
  | nil =>
    obtain rfl := List.length_eq_zero_iff.mp hlen.symm
    simp
  | cons a as ih =>
    cases bs with
    | nil => cases hlen
    | cons b bs =>
      have hlen := Nat.succ.inj hlen
      have ha' : ∀ c ∈ as, c.isDigit = true := fun c hc => ha c (List.mem_cons_of_mem _ hc)
      have hb' : ∀ c ∈ bs, c.isDigit = true := fun c hc => hb c (List.mem_cons_of_mem _ hc)
      have hda := isDigit_toNat (ha a List.mem_cons_self)
      have hdb := isDigit_toNat (hb b List.mem_cons_self)
      have hla := ofDigitChars_lt ha'
      have hlb := ofDigitChars_lt hb'
      have hlt : a < b ↔ a.toNat < b.toNat := Iff.rfl
      have heq : a = b ↔ a.toNat = b.toNat := Char.toNat_inj.symm
      rw [List.cons_lt_cons_iff, ih ha' hb' hlen, hlt, heq, ofDigitChars_first,
        ofDigitChars_first, hlen]
      rw [hlen] at hla
      -- the first digits, each less 48
      obtain ⟨x, hx⟩ : ∃ x, a.toNat = x + 48 := ⟨a.toNat - 48, by omega⟩
      obtain ⟨y, hy⟩ : ∃ y, b.toNat = y + 48 := ⟨b.toNat - 48, by omega⟩
      rw [hx, hy, Nat.add_sub_cancel, Nat.add_sub_cancel]
      rcases Nat.lt_trichotomy x y with hxy | rfl | hxy
      · have hmul : 10 ^ bs.length * (x + 1) ≤ 10 ^ bs.length * y := Nat.mul_le_mul_left _ hxy
        rw [Nat.mul_succ] at hmul
        exact iff_of_true (.inl (by omega)) (by omega)
      · omega
      · have hmul : 10 ^ bs.length * (y + 1) ≤ 10 ^ bs.length * x := Nat.mul_le_mul_left _ hxy
        rw [Nat.mul_succ] at hmul
        exact iff_of_false (by omega) (by omega)

/-! ## One number -/

variable {width : Nat} {m n : Int}

/-- A number that fits is as long as its width. -/
theorem padded_fits (hn : 0 ≤ n ∧ n < 10 ^ width) (hw : 0 < width) :
    (padded width n).length = width ∧ (∀ c ∈ padded width n, c.isDigit = true) ∧
      Nat.ofDigitChars 10 (padded width n) 0 = n.natAbs := by
  have hnat : n.natAbs < 10 ^ width := by
    obtain ⟨k, rfl⟩ := Int.eq_ofNat_of_zero_le hn.1
    have hk := hn.2
    exact_mod_cast hk
  have hdigits := (Nat.length_toDigits_le_iff (b := 10) (by decide) hw).mpr hnat
  obtain ⟨digits, heq, -, hall, hvalue⟩ := padded_eq width n
  have hsign : signOf n = [] := if_neg (Int.not_lt.mpr hn.1)
  rw [hsign, List.nil_append] at heq
  refine ⟨?_, ?_, ?_⟩
  · unfold padded
    dsimp only
    rw [hsign, List.nil_append, List.length_append, List.length_replicate, List.length_nil]
    omega
  · rw [heq]
    exact hall
  · rw [heq]
    exact hvalue

theorem padded_lt_iff (hm : 0 ≤ m ∧ m < 10 ^ width) (hn : 0 ≤ n ∧ n < 10 ^ width)
    (hw : 0 < width) : padded width m < padded width n ↔ m < n := by
  obtain ⟨hlm, hdm, hvm⟩ := padded_fits hm hw
  obtain ⟨hln, hdn, hvn⟩ := padded_fits hn hw
  rw [digits_lt_iff hdm hdn (hlm.trans hln.symm), hvm, hvn]
  omega

theorem padded_inj (hm : 0 ≤ m ∧ m < 10 ^ width) (hn : 0 ≤ n ∧ n < 10 ^ width)
    (hw : 0 < width) : padded width m = padded width n ↔ m = n := by
  refine ⟨fun heq => ?_, congrArg _⟩
  have hlt := padded_lt_iff hm hn hw
  have hgt := padded_lt_iff hn hm hw
  rw [heq] at hlt hgt
  have hself := List.lt_irrefl (padded width n)
  have hle := mt hlt.mpr hself
  have hge := mt hgt.mpr hself
  omega

/-! ## A whole format -/

/-- The numbers of a format, each within its width. -/
def InWidths : List Directive → List Int → Prop
  | [], ns => ns = []
  | .number width :: fmt, n :: ns => (0 < width ∧ 0 ≤ n ∧ n < 10 ^ width) ∧ InWidths fmt ns
  | .number _ :: _, [] => False
  | .char _ :: fmt, ns => InWidths fmt ns

/-- How long the text gets. -/
def printedLength : List Directive → Nat
  | [] => 0
  | .number width :: fmt => width + printedLength fmt
  | .char _ :: fmt => 1 + printedLength fmt

variable {fmt : List Directive} {ms ns : List Int}

theorem InWidths.length_print (h : InWidths fmt ns) :
    (print fmt ns).length = printedLength fmt := by
  induction fmt generalizing ns with
  | nil => rfl
  | cons d fmt ih =>
    cases d with
    | char c =>
      rw [print, List.length_cons, ih h, printedLength, Nat.add_comm]
    | number width =>
      cases ns with
      | nil => exact h.elim
      | cons n ns =>
        obtain ⟨⟨hw, hn⟩, hrest⟩ := h
        rw [print, List.length_append, (padded_fits hn hw).1, ih hrest, printedLength]

/-- What is printed are digits and the characters of the format. -/
theorem InWidths.mem_print (h : InWidths fmt ns) {c : Char} (hc : c ∈ print fmt ns) :
    c.isDigit = true ∨ .char c ∈ fmt := by
  induction fmt generalizing ns with
  | nil => cases hc
  | cons d fmt ih =>
    cases d with
    | char d =>
      rw [print] at hc
      rcases List.mem_cons.mp hc with rfl | hc
      · exact .inr List.mem_cons_self
      · exact (ih h hc).imp_right (List.mem_cons_of_mem _)
    | number width =>
      cases ns with
      | nil => exact h.elim
      | cons n ns =>
        obtain ⟨⟨hw, hn⟩, hrest⟩ := h
        rw [print] at hc
        rcases List.mem_append.mp hc with hc | hc
        · exact .inl ((padded_fits hn hw).2.1 c hc)
        · exact (ih hrest hc).imp_right (List.mem_cons_of_mem _)

theorem print_lt_iff (hm : InWidths fmt ms) (hn : InWidths fmt ns) :
    print fmt ms < print fmt ns ↔ ms < ns := by
  induction fmt generalizing ms ns with
  | nil =>
    obtain rfl := hm
    obtain rfl := hn
    simp [print]
  | cons d fmt ih =>
    cases d with
    | char c =>
      rw [print, print, List.cons_lt_cons_self, ih hm hn]
    | number width =>
      cases ms with
      | nil => exact hm.elim
      | cons m ms =>
        cases ns with
        | nil => exact hn.elim
        | cons n ns =>
          obtain ⟨⟨hw, hmw⟩, hms⟩ := hm
          obtain ⟨⟨-, hnw⟩, hns⟩ := hn
          have hlen := (padded_fits hmw hw).1.trans (padded_fits hnw hw).1.symm
          rw [print, print, lexAppend_lt_iff hlen, padded_lt_iff hmw hnw hw,
            padded_inj hmw hnw hw, ih hms hns, List.cons_lt_cons_iff]

end Formats

import Mathlib.Algebra.Ring.Nat
import Mathlib.Data.List.TakeWhile
import Mathlib.Tactic.Common

/-!
# Formats: printing and scanning decimal numbers

A format is a list of numbers and characters.  `print` writes it as `printf` does, a number
padded with zeros; `scan` reads it as `sscanf` does: a number begins with any blanks and one
sign, takes every digit there is, and its width is ignored; a character has to be there as
it is.  Scanning ends with the first directive that does not match.

    ¬ rest begins with a digit → scanInt (padded w n ++ rest) = some (n, rest)  (scanInt_padded)
    Delimited fmt → Alike fmt fmt' →
      scan (fmt' ++ more) (print fmt ns ++ rest) = ns ++ scan more rest         (scan_print)
-/

namespace Formats

inductive Directive
  /-- `%0wd`, or `%d` of any width -/
  | number (width : Nat)
  | char (c : Char)
  deriving DecidableEq

/-! ## Printing -/

def signOf (n : Int) : List Char := if n < 0 then ['-'] else []

/-- `%0wd` -/
def padded (width : Nat) (n : Int) : List Char :=
  let digits := Nat.toDigits 10 n.natAbs
  signOf n ++ List.replicate (width - (signOf n).length - digits.length) '0' ++ digits

def print : List Directive → List Int → List Char
  | [], _ => []
  | .number width :: fmt, n :: ns => padded width n ++ print fmt ns
  | .number _ :: _, [] => []
  | .char c :: fmt, ns => c :: print fmt ns

/-! ## Scanning -/

/-- The blanks of the C locale. -/
def isSpace (c : Char) : Bool := c = ' ' ∨ 9 ≤ c.toNat ∧ c.toNat ≤ 13

/-- The sign of a number, true for `-`, and what follows it. -/
def scanSign : List Char → Bool × List Char
  | '-' :: s => (true, s)
  | '+' :: s => (false, s)
  | s => (false, s)

/-- `%d`: the number and what follows it. -/
def scanInt (s : List Char) : Option (Int × List Char) :=
  let (negative, s) := scanSign (s.dropWhile isSpace)
  let digits := s.takeWhile Char.isDigit
  let n : Int := Nat.ofDigitChars 10 digits 0
  if digits = [] then none else some (if negative then -n else n, s.dropWhile Char.isDigit)

/-- The numbers that are stored, in order. -/
def scan : List Directive → List Char → List Int
  | [], _ => []
  | .number _ :: fmt, s =>
    match scanInt s with
    | some (n, s) => n :: scan fmt s
    | none => []
  | .char c :: fmt, d :: s => if d = c then scan fmt s else []
  | .char _ :: _, [] => []

/-! ## One number -/

variable {width k : Nat} {n : Int} {c : Char} {s rest : List Char}

/-- The text goes on with something else than a digit. -/
def NoDigit (s : List Char) : Prop := ∀ c ∈ s.head?, c.isDigit = false

theorem noDigit_cons (hc : c.isDigit = false) : NoDigit (c :: s) := by
  intro d hd
  cases hd
  exact hc

theorem takeWhile_digits {digits : List Char} (hdigits : ∀ c ∈ digits, c.isDigit = true)
    (hrest : NoDigit rest) :
    (digits ++ rest).takeWhile Char.isDigit = digits ∧
      (digits ++ rest).dropWhile Char.isDigit = rest := by
  rw [List.takeWhile_append_of_pos hdigits, List.dropWhile_append_of_pos hdigits]
  cases rest with
  | nil => exact ⟨List.append_nil _, rfl⟩
  | cons c rest =>
    have hc : ¬ c.isDigit = true := by
      rw [hrest c rfl]
      exact Bool.false_ne_true
    rw [List.takeWhile_cons_of_neg hc, List.dropWhile_cons_of_neg hc, List.append_nil]
    exact ⟨rfl, rfl⟩

/-- A digit is neither a blank nor a sign. -/
theorem scanSign_digit (hc : c.isDigit = true) :
    isSpace c = false ∧ scanSign (c :: s) = (false, c :: s) := by
  have hrange : 48 ≤ c.val ∧ c.val ≤ 57 := by simpa [Char.isDigit] using hc
  have hlow : 48 ≤ c.toNat := UInt32.le_iff_toNat_le.mp hrange.1
  refine ⟨?_, ?_⟩
  · unfold isSpace
    refine decide_eq_false fun h => ?_
    rcases h with rfl | ⟨-, hle⟩
    · exact absurd hlow (by decide)
    · omega
  · unfold scanSign
    split
    · next h =>
      cases h
      exact absurd hc (by decide)
    · next h =>
      cases h
      exact absurd hc (by decide)
    · rfl

/-- The padding and the digits of a number. -/
theorem padded_eq (width : Nat) (n : Int) : ∃ digits, padded width n = signOf n ++ digits ∧
    digits ≠ [] ∧ (∀ c ∈ digits, c.isDigit = true) ∧
      Nat.ofDigitChars 10 digits 0 = n.natAbs := by
  refine ⟨_, List.append_assoc .., ?_, fun c hc => ?_, ?_⟩
  · exact List.append_ne_nil_of_right_ne_nil _ Nat.toDigits_ne_nil
  · rcases List.mem_append.mp hc with hzero | hdigit
    · rw [List.eq_of_mem_replicate hzero]
      decide
    · exact Nat.isDigit_of_mem_toDigits (by decide) (by decide) hdigit
  · rw [Nat.ofDigitChars_append, Nat.ofDigitChars_replicate_zero, Nat.mul_zero,
      Nat.ofDigitChars_ten_toDigits]

theorem scanInt_padded (width : Nat) (n : Int) (hrest : NoDigit rest) :
    scanInt (padded width n ++ rest) = some (n, rest) := by
  obtain ⟨digits, hpadded, hne, hdigits, hvalue⟩ := padded_eq width n
  obtain ⟨htake, hdrop⟩ := takeWhile_digits hdigits hrest
  -- the sign is read off, and the digits are left
  have hsign : scanSign ((padded width n ++ rest).dropWhile isSpace) =
      (decide (n < 0), digits ++ rest) := by
    rw [hpadded]
    unfold signOf
    by_cases hn : n < 0
    · rw [if_pos hn, decide_eq_true hn]
      rfl
    · obtain ⟨c, cs, rfl⟩ := List.exists_cons_of_ne_nil hne
      obtain ⟨hspace, hnone⟩ := scanSign_digit (s := cs ++ rest)
        (hdigits c (List.mem_cons_self ..))
      rw [if_neg hn, decide_eq_false hn, List.nil_append, List.cons_append,
        List.dropWhile_cons_of_neg (by rw [hspace]; exact Bool.false_ne_true), hnone]
  unfold scanInt
  rw [hsign]
  dsimp only
  rw [htake, hdrop, hvalue, if_neg hne]
  by_cases hn : n < 0
  · rw [decide_eq_true hn, if_pos rfl]
    have habs : -(n.natAbs : Int) = n := by omega
    rw [habs]
  · rw [decide_eq_false hn, if_neg Bool.false_ne_true]
    have habs : (n.natAbs : Int) = n := by omega
    rw [habs]

/-- How long a number gets that has at most `k` digits. -/
theorem length_padded_le (width : Nat) (hk : 0 < k) (hn : n.natAbs < 10 ^ k) :
    (padded width n).length ≤ max width (k + 1) := by
  have hdigits := (Nat.length_toDigits_le_iff (b := 10) (by decide) hk).mpr hn
  have hsign : (signOf n).length ≤ 1 := by
    unfold signOf
    split
    · exact Nat.le_refl 1
    · exact Nat.zero_le 1
  unfold padded
  dsimp only
  rw [List.length_append, List.length_append, List.length_replicate]
  omega

/-! ## A whole format -/

/-- Every number of the format ends at something else than a digit. -/
def Delimited : List Directive → Prop
  | [] => True
  | [.number _] => True
  | .number _ :: .number _ :: _ => False
  | .number _ :: .char c :: fmt => c.isDigit = false ∧ Delimited fmt
  | .char _ :: fmt => Delimited fmt

/-- The same but for the widths. -/
inductive Alike : List Directive → List Directive → Prop
  | nil : Alike [] []
  | number {fmt fmt' : List Directive} (width width' : Nat) :
      Alike fmt fmt' → Alike (.number width :: fmt) (.number width' :: fmt')
  | char {fmt fmt' : List Directive} (c : Char) :
      Alike fmt fmt' → Alike (.char c :: fmt) (.char c :: fmt')

/-- How many numbers the format takes. -/
def slots : List Directive → Nat
  | [] => 0
  | .number _ :: fmt => slots fmt + 1
  | .char _ :: fmt => slots fmt

variable {fmt fmt' : List Directive} {ns : List Int}

theorem Delimited.tail {d : Directive} (h : Delimited (d :: fmt)) : Delimited fmt := by
  cases d with
  | char c => exact h
  | number width =>
    cases fmt with
    | nil => trivial
    | cons e fmt =>
      cases e with
      | number => exact h.elim
      | char c => exact h.2

/-- Behind a number of a delimited format there is no digit. -/
theorem Delimited.noDigit (h : Delimited (.number width :: fmt)) (ns : List Int)
    (hrest : NoDigit rest) : NoDigit (print fmt ns ++ rest) := by
  cases fmt with
  | nil => exact hrest
  | cons e fmt =>
    cases e with
    | number => exact h.elim
    | char c => exact noDigit_cons h.1

/-- What was printed is read back, and scanning goes on behind it. -/
theorem scan_print (halike : Alike fmt fmt') (hfmt : Delimited fmt) (hns : ns.length = slots fmt)
    (hrest : NoDigit rest) (more : List Directive) :
    scan (fmt' ++ more) (print fmt ns ++ rest) = ns ++ scan more rest := by
  induction halike generalizing ns with
  | nil =>
    obtain rfl := List.length_eq_zero_iff.mp hns
    rfl
  | number width width' _ ih =>
    cases ns with
    | nil => cases hns
    | cons n ns =>
      have hlen := Nat.succ.inj hns
      have hnumber := scanInt_padded width n (hfmt.noDigit ns hrest)
      rw [print, List.append_assoc, List.cons_append, scan, hnumber]
      dsimp only
      rw [ih hfmt.tail hlen, List.cons_append]
  | char c _ ih =>
    rw [print, List.cons_append, List.cons_append, scan, if_pos rfl, ih hfmt.tail hns]

end Formats

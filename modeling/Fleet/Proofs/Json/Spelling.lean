import Fleet.Json.Printer
import Fleet.Json.Reader
import Mathlib

/-! Strings and numbers read back as they were written.

    A written string is read up to its closing quote, whatever comes behind it. A number has no end of its own: it is
    read back when nothing behind it could belong to it (`Closed`). Doubles are left open here; a number is `Legible`
    when reading its text gives it again, and whole numbers are. -/

namespace Fleet.Json

/-! ### Strings -/

namespace Literal

variable {c : Char} {cs rest : List Char} {done : List Piece} {pieces : List Piece} {before : List Char}

/-- A piece that stands for a character: the character, or its unit if it is a control character. -/
inductive Spells : Piece → Char → Prop
  | char (c : Char) : Spells (.char c) c
  | unit {c : Char} (h : c.toNat < 0x20) : Spells (.unit c.toNat) c

/-- The hexadecimal digits of a control character are those of its number. -/
theorem unit?_control : ∀ n < 0x20, unit? '0' '0' (n / 16).digitChar (n % 16).digitChar = some n := by decide

theorem scan_escape (c : Char) : ∃ piece, Spells piece c ∧
    ∀ done rest, scan done (escape c ++ rest) = scan (piece :: done) rest := by
  unfold escape
  split
  case h_8 hquote hbackslash _ _ _ _ _ =>
    by_cases hcontrol : c.toNat < 0x20
    · refine ⟨.unit c.toNat, .unit hcontrol, fun done rest => ?_⟩
      rw [if_pos hcontrol]
      simp only [List.cons_append, List.nil_append, scan, unit?_control _ hcontrol]
    · refine ⟨.char c, .char c, fun done rest => ?_⟩
      rw [if_neg hcontrol, List.singleton_append, scan]
      · rw [if_neg hcontrol]
      · exact hquote
      · intro a b x y rest hc
        exact absurd hc hbackslash
      · intro a rest hc
        exact absurd hc hbackslash
  -- The short escapes.
  all_goals exact ⟨.char _, .char _, fun done rest => rfl⟩

/-- The pieces of a written string spell its characters one by one. -/
theorem scan_flatMap (cs : List Char) : ∃ pieces, List.Forall₂ Spells pieces cs ∧
    ∀ done rest, scan done (cs.flatMap escape ++ '"' :: rest) = some (done.reverse ++ pieces, rest) := by
  induction cs with
  | nil => exact ⟨[], .nil, fun done rest => by simp [scan]⟩
  | cons c cs ih =>
    obtain ⟨piece, hpiece, hscan⟩ := scan_escape c
    obtain ⟨pieces, hpieces, ih⟩ := ih
    refine ⟨piece :: pieces, .cons hpiece hpieces, fun done rest => ?_⟩
    rw [List.flatMap_cons, List.append_assoc, hscan, ih, List.reverse_cons, List.append_assoc, List.singleton_append]

/-- A unit that is no half of a pair is a character, whatever follows it. -/
theorem decode?_unit {u : Nat} (hu : u < 0xD800) :
    decode? before (.unit u :: pieces) = decode? (Char.ofNat u :: before) pieces := by
  have hhigh : isHigh u = false := by simp [isHigh, hu]
  have hlow : isLow u = false := by simp [isLow]; omega
  rcases pieces with _ | ⟨_ | _, _⟩ <;> simp [decode?, hhigh, hlow]

theorem decode?_of_spells (h : List.Forall₂ Spells pieces cs) : decode? before pieces = some (before.reverse ++ cs) := by
  induction h generalizing before with
  | nil => simp [decode?]
  | cons hpiece _ ih =>
    cases hpiece with
    | char c => simp [decode?, ih]
    | unit hcontrol =>
      rw [decode?_unit (Nat.lt_trans hcontrol (by decide)), ih]
      simp

/-- A written string is read up to its closing quote, and its pieces make up the string. -/
theorem scan_write (s : String) : ∃ pieces, text? pieces = some s ∧
    ∀ rest, ∃ inner, write s.toList ++ rest = '"' :: inner ∧ scan [] inner = some (pieces, rest) := by
  obtain ⟨pieces, hpieces, hscan⟩ := scan_flatMap s.toList
  refine ⟨pieces, ?_, fun rest => ⟨s.toList.flatMap escape ++ '"' :: rest, by simp [write], hscan [] rest⟩⟩
  simp [text?, decode?_of_spells hpieces]

end Literal

/-! ### Whole numbers -/

/-- Nothing at the front of `rest` could belong to a number before it. -/
def Closed (rest : List Char) : Prop :=
  ∀ c ∈ rest.head?, c.isDigit = false ∧ c ≠ '.' ∧ c ≠ 'e' ∧ c ≠ 'E'

/-- A number is read back when its text is read. No blank and no other kind of data begins as its text does. -/
structure Number.Legible (x : Number) : Prop where
  head : ∃ c cs, x.write = c :: cs ∧ (c = '-' ∨ c.isDigit = true)
  scan : ∀ {rest}, Closed rest → ∃ numeral, Numeral.scan (x.write ++ rest) = some (numeral, rest) ∧ numeral.value? = some x

namespace Numeral

variable {digits rest : List Char} {n k : Nat}

theorem scanFraction_closed (h : Closed rest) : scanFraction rest = some ([], rest) := by
  cases rest with
  | nil => rfl
  | cons c rest =>
    obtain ⟨-, hpoint, -⟩ := h c rfl
    unfold scanFraction
    split
    · rename_i heq
      cases heq
      exact absurd rfl hpoint
    · rfl

theorem scanExponent_closed (h : Closed rest) : scanExponent rest = some (none, rest) := by
  cases rest with
  | nil => rfl
  | cons c rest =>
    obtain ⟨-, -, he, hE⟩ := h c rfl
    unfold scanExponent
    split
    · rename_i heq
      cases heq
      exact absurd rfl he
    · rename_i heq
      cases heq
      exact absurd rfl hE
    · rfl

theorem digits?_append (hne : digits ≠ []) (hdigits : ∀ c ∈ digits, c.isDigit = true)
    (hrest : ∀ c ∈ rest.head?, c.isDigit = false) : digits? (digits ++ rest) = some (digits, rest) := by
  have hnone : rest.takeWhile Char.isDigit = [] ∧ rest.dropWhile Char.isDigit = rest := by
    cases rest with
    | nil => exact ⟨rfl, rfl⟩
    | cons c rest => simp [hrest c rfl]
  unfold digits?
  rw [List.takeWhile_append_of_pos hdigits, List.dropWhile_append_of_pos hdigits, hnone.1, hnone.2, List.append_nil]
  cases digits with
  | nil => exact absurd rfl hne
  | cons c digits => rfl

theorem digits?_closed (hne : digits ≠ []) (hdigits : ∀ c ∈ digits, c.isDigit = true) (h : Closed rest) :
    digits? (digits ++ rest) = some (digits, rest) :=
  digits?_append hne hdigits fun c hc => (h c hc).1

/-- Only zero is written with a zero at the front. -/
theorem head_toDigits (hn : 0 < n) : (Nat.toDigits 10 n).head? ≠ some '0' := by
  induction n using Nat.strongRecOn with
  | ind n ih =>
    by_cases hsmall : n < 10
    · rw [Nat.toDigits_of_lt_base hsmall]
      interval_cases n <;> decide
    · rw [Nat.toDigits_of_base_le (by decide) (Nat.not_lt.mp hsmall), List.head?_append_of_ne_nil _ Nat.toDigits_ne_nil]
      exact ih (n / 10) (Nat.div_lt_self hn (by decide)) (Nat.div_pos (Nat.not_lt.mp hsmall) (by decide))

theorem scanWhole_toDigits (n : Nat) (h : Closed rest) :
    scanWhole (Nat.toDigits 10 n ++ rest) = some (Nat.toDigits 10 n, rest) := by
  rcases Nat.eq_zero_or_pos n with rfl | hn
  · rfl
  · obtain ⟨c, cs, hcs⟩ := List.exists_cons_of_ne_nil (Nat.toDigits_ne_nil (n := n) (b := 10))
    have hzero : c ≠ '0' := fun hc => head_toDigits hn (by rw [hcs, hc]; rfl)
    have hdigits := digits?_closed (Nat.toDigits_ne_nil (n := n) (b := 10))
      (fun c hc => Nat.isDigit_of_mem_toDigits (by decide) le_rfl hc) h
    unfold scanWhole
    split
    · rename_i heq
      rw [hcs] at heq
      cases heq
      exact absurd rfl hzero
    · exact hdigits

/-- Digits are collected completely as long as their number fits a word. -/
theorem collect_eq (h : Nat.ofDigitChars 10 digits n < 0x10000000000000000) :
    collect n digits = (Nat.ofDigitChars 10 digits n, 0) := by
  induction digits generalizing n with
  | nil => rfl
  | cons c digits ih =>
    rw [Nat.ofDigitChars_cons] at h ⊢
    have heq : Nat.ofDigitChars 10 digits (10 * n + (c.toNat - '0'.toNat)) =
        10 ^ digits.length * (10 * n + (c.toNat - '0'.toNat)) + Nat.ofDigitChars 10 digits 0 :=
      Nat.ofDigitChars_eq_ofDigitChars_zero
    have hpow : 0 < 10 ^ digits.length := Nat.pow_pos (by decide)
    have hnext : 10 * n + (c.toNat - '0'.toNat) < 0x10000000000000000 := by nlinarith
    unfold collect
    simp only [hnext, if_true]
    exact ih h

theorem collect_toDigits (hn : n < 0x10000000000000000) : collect 0 (Nat.toDigits 10 n) = (n, 0) := by
  have hdigits : Nat.ofDigitChars 10 (Nat.toDigits 10 n) 0 = n := Nat.ofDigitChars_ten_toDigits
  rw [collect_eq (by rwa [hdigits]), hdigits]

theorem scan_nat (n : Nat) (h : Closed rest) :
    scan (Nat.toDigits 10 n ++ rest) = some (⟨false, Nat.toDigits 10 n, [], none⟩, rest) := by
  obtain ⟨c, cs, hcs⟩ := List.exists_cons_of_ne_nil (Nat.toDigits_ne_nil (n := n) (b := 10))
  have hdigit : c.isDigit = true := Nat.isDigit_of_mem_toDigits (b := 10) (n := n) (by decide) le_rfl (by simp [hcs])
  have hsign : scanSign (Nat.toDigits 10 n ++ rest) = (false, Nat.toDigits 10 n ++ rest) := by
    unfold scanSign
    split
    · rename_i heq
      rw [hcs] at heq
      cases heq
      exact absurd hdigit (by decide)
    · rfl
  unfold scan
  simp [hsign, scanWhole_toDigits n h, scanFraction_closed h, scanExponent_closed h]

theorem scan_neg (n : Nat) (h : Closed rest) :
    scan ('-' :: Nat.toDigits 10 n ++ rest) = some (⟨true, Nat.toDigits 10 n, [], none⟩, rest) := by
  unfold scan
  simp [scanSign, scanWhole_toDigits n h, scanFraction_closed h, scanExponent_closed h]

theorem value?_nat (hn : n < 0x10000000000000000) :
    value? ⟨false, Nat.toDigits 10 n, [], none⟩ = Number.whole? n := by
  unfold value?
  simp [collect_toDigits hn]

theorem value?_neg (hpos : 0 < n) (hn : n ≤ 0x8000000000000000) :
    value? ⟨true, Nat.toDigits 10 n, [], none⟩ = Number.whole? (-n) := by
  unfold value?
  simp [collect_toDigits (n := n) (by omega), hpos, hn]

end Numeral

theorem Number.legible_whole {n : Int} (fits : -0x8000000000000000 ≤ n ∧ n < 0x10000000000000000) :
    (Number.whole n fits).Legible := by
  have hwhole : Number.whole? n = some (.whole n fits) := dif_pos fits
  cases n with
  | ofNat n =>
    obtain ⟨c, cs, hcs⟩ := List.exists_cons_of_ne_nil (Nat.toDigits_ne_nil (n := n) (b := 10))
    refine ⟨⟨c, cs, hcs, .inr ?_⟩, fun {rest} hrest => ⟨_, Numeral.scan_nat n hrest, ?_⟩⟩
    · exact Nat.isDigit_of_mem_toDigits (b := 10) (n := n) (by decide) le_rfl (by simp [hcs])
    · rw [Numeral.value?_nat (by simpa using fits.2)]
      exact hwhole
  | negSucc n =>
    refine ⟨⟨'-', _, rfl, .inl rfl⟩, fun {rest} hrest => ⟨_, Numeral.scan_neg (n + 1) hrest, ?_⟩⟩
    rw [Numeral.value?_neg (Nat.succ_pos n) (by have := fits.1; omega)]
    exact hwhole

end Fleet.Json

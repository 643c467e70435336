import Fleet.Proofs.Json.Reading

/-! Doubles read back wherever they stand.

    Of a double only this is taken for granted: its own text, read alone, gives it again (`ReadsBack`). Then it is
    legible inside other data too. Each part of a numeral ends where the next character says so (`StopsByNext`), hence a
    numeral that is a whole text is read in the same way in front of anything that could not belong to it; and no blank
    is in the text of a double, so nothing of it is left over. -/

namespace Fleet.Json

variable {α β : Type} {cs rest behind : List Char} {c : Char}

namespace Numeral

variable {numeral : Numeral} {digits : List Char}

/-! ### Where the parts of a numeral end -/

/-- What a scanner takes from the front depends on the next character only, and is the same before characters that
    could not belong to a number. -/
def StopsByNext (scan : List Char → Option (α × List Char)) : Prop :=
  ∀ cs a behind, scan cs = some (a, behind) → ∃ used, cs = used ++ behind ∧
    ∀ rest, Closed rest ∨ rest.head? = behind.head? → scan (used ++ rest) = some (a, rest)

namespace StopsByNext

variable {first : List Char → Option (α × List Char)} {next : α → List Char → Option (β × List Char)}

theorem map (h : StopsByNext first) (f : α → β) : StopsByNext fun cs => (first cs).map fun x => (f x.1, x.2) := by
  intro cs b behind hb
  obtain ⟨⟨a, behind⟩, ha, heq⟩ := Option.map_eq_some_iff.mp hb
  cases heq
  obtain ⟨used, hcs, hused⟩ := h cs a behind ha
  refine ⟨used, hcs, fun rest hrest => ?_⟩
  simp only [hused rest hrest, Option.map_some]

theorem bind (h : StopsByNext first) (hnext : ∀ a, StopsByNext (next a)) :
    StopsByNext fun cs => (first cs).bind fun x => next x.1 x.2 := by
  intro cs b behind hb
  obtain ⟨⟨a, middle⟩, ha, hmiddle⟩ := Option.bind_eq_some_iff.mp hb
  obtain ⟨used, hcs, hused⟩ := h cs a middle ha
  obtain ⟨used', rfl, hused'⟩ := hnext a middle b behind hmiddle
  refine ⟨used ++ used', by rw [hcs, List.append_assoc], fun rest hrest => ?_⟩
  -- The first scanner sees the same next character as before: that of `used'`, or the one behind both.
  have hsame : Closed (used' ++ rest) ∨ (used' ++ rest).head? = (used' ++ behind).head? := by
    cases used' with
    | nil => exact hrest
    | cons c used' => exact .inr rfl
  simp only [List.append_assoc, hused _ hsame, Option.bind_some, hused' rest hrest]

end StopsByNext

/-- A head that is not `c` here is not `c` where it is the same, nor where no number goes on. -/
theorem head?_ne (hc : c = '.' ∨ c = 'e' ∨ c = 'E') (hbehind : behind.head? ≠ some c)
    (hrest : Closed rest ∨ rest.head? = behind.head?) : rest.head? ≠ some c := by
  rcases hrest with hclosed | hhead
  · intro hrest
    obtain ⟨-, hpoint, he, hE⟩ := hclosed c hrest
    rcases hc with rfl | rfl | rfl
    · exact hpoint rfl
    · exact he rfl
    · exact hE rfl
  · exact hhead ▸ hbehind

/-- The digits taken are all that are there. -/
theorem digits?_stops (h : digits? cs = some (digits, behind)) : digits ≠ [] ∧ cs = digits ++ behind ∧
    ∀ rest, Closed rest ∨ rest.head? = behind.head? → digits? (digits ++ rest) = some (digits, rest) := by
  unfold digits? at h
  split at h
  · cases h
  · rename_i hne
    cases h
    refine ⟨hne, List.takeWhile_append_dropWhile.symm, fun rest hrest => ?_⟩
    refine digits?_append hne (fun c hc => List.mem_takeWhile_imp hc) fun c hc => ?_
    rcases hrest with hclosed | hhead
    · exact (hclosed c hc).1
    · have hdrop := List.head?_dropWhile_not Char.isDigit cs
      rw [← hhead, Option.mem_def.mp hc] at hdrop
      simpa using hdrop

theorem stopsByNext_digits? : StopsByNext digits? := fun _ digits _ h =>
  have ⟨_, hcs, hstops⟩ := digits?_stops h
  ⟨digits, hcs, hstops⟩

/-- What begins with the same digits begins with the same character. -/
theorem head_of_digits (hne : digits ≠ []) {tail : List Char} (h : digits ++ rest = c :: tail) :
    ∃ tail', digits ++ behind = c :: tail' := by
  obtain ⟨d, digits, rfl⟩ := List.exists_cons_of_ne_nil hne
  cases h
  exact ⟨_, rfl⟩

theorem stopsByNext_scanWhole : StopsByNext scanWhole := by
  intro cs digits behind h
  unfold scanWhole at h
  split at h
  · cases h
    exact ⟨['0'], rfl, fun _ _ => rfl⟩
  · rename_i hzero
    obtain ⟨hne, rfl, hstops⟩ := digits?_stops h
    refine ⟨digits, rfl, fun rest hrest => ?_⟩
    rw [scanWhole.eq_2 _ fun tail heq => (head_of_digits hne heq).elim hzero]
    exact hstops rest hrest

theorem stopsByNext_scanFraction : StopsByNext scanFraction := by
  intro cs digits behind h
  unfold scanFraction at h
  split at h
  · obtain ⟨used, rfl, hused⟩ := stopsByNext_digits? _ _ _ h
    exact ⟨'.' :: used, rfl, hused⟩
  · rename_i hpoint
    cases h
    refine ⟨[], rfl, fun rest hrest => scanFraction.eq_2 rest fun tail heq => ?_⟩
    have hhead : cs.head? ≠ some '.' := fun heq => hpoint cs.tail (List.eq_cons_of_mem_head? heq)
    exact head?_ne (.inl rfl) hhead hrest (by rw [heq]; rfl)

theorem stopsByNext_scanSigned : StopsByNext scanSigned := by
  have hsigned := fun sign : Bool => stopsByNext_digits?.map fun digits => (sign, digits)
  intro cs exponent behind h
  unfold scanSigned at h
  split at h
  · obtain ⟨used, rfl, hused⟩ := hsigned false _ _ _ h
    exact ⟨'+' :: used, rfl, hused⟩
  · obtain ⟨used, rfl, hused⟩ := hsigned true _ _ _ h
    exact ⟨'-' :: used, rfl, hused⟩
  · rename_i hplus hminus
    obtain ⟨⟨digits, behind⟩, hdigits, heq⟩ := Option.map_eq_some_iff.mp h
    cases heq
    obtain ⟨hne, rfl, hstops⟩ := digits?_stops hdigits
    refine ⟨digits, rfl, fun rest hrest => ?_⟩
    rw [scanSigned.eq_3 _ (fun tail heq => (head_of_digits hne heq).elim hplus)
      fun tail heq => (head_of_digits hne heq).elim hminus, hstops rest hrest]
    rfl

theorem stopsByNext_scanExponent : StopsByNext scanExponent := by
  have hsome := stopsByNext_scanSigned.map some
  intro cs exponent behind h
  unfold scanExponent at h
  split at h
  · obtain ⟨used, rfl, hused⟩ := hsome _ _ _ h
    exact ⟨'e' :: used, rfl, hused⟩
  · obtain ⟨used, rfl, hused⟩ := hsome _ _ _ h
    exact ⟨'E' :: used, rfl, hused⟩
  · rename_i he hE
    cases h
    refine ⟨[], rfl, fun rest hrest => scanExponent.eq_3 rest (fun tail heq => ?_) fun tail heq => ?_⟩
    · have hhead : cs.head? ≠ some 'e' := fun heq => he cs.tail (List.eq_cons_of_mem_head? heq)
      exact head?_ne (.inr (.inl rfl)) hhead hrest (by rw [heq]; rfl)
    · have hhead : cs.head? ≠ some 'E' := fun heq => hE cs.tail (List.eq_cons_of_mem_head? heq)
      exact head?_ne (.inr (.inr rfl)) hhead hrest (by rw [heq]; rfl)

/-- A numeral behind its sign. -/
def scanUnsigned (negative : Bool) (cs : List Char) : Option (Numeral × List Char) :=
  (scanWhole cs).bind fun whole => (scanFraction whole.2).bind fun fraction =>
    (scanExponent fraction.2).map fun exponent => (mk negative whole.1 fraction.1 exponent.1, exponent.2)

theorem scan_eq (cs : List Char) : scan cs = scanUnsigned (scanSign cs).1 (scanSign cs).2 := by
  unfold scan scanUnsigned
  simp only [Option.bind_eq_bind, Option.pure_def, Option.map_eq_bind]
  rfl

theorem stopsByNext_scanUnsigned (negative : Bool) : StopsByNext (scanUnsigned negative) := by
  have hexponent : ∀ whole fraction, StopsByNext fun cs => (scanExponent cs).map fun exponent =>
      (mk negative whole fraction exponent.1, exponent.2) :=
    fun whole fraction => stopsByNext_scanExponent.map (mk negative whole fraction)
  have hfraction : ∀ whole, StopsByNext fun cs => (scanFraction cs).bind fun fraction =>
      (scanExponent fraction.2).map fun exponent => (mk negative whole fraction.1 exponent.1, exponent.2) :=
    fun whole => stopsByNext_scanFraction.bind (hexponent whole)
  exact stopsByNext_scanWhole.bind hfraction

theorem scanSign_cons (h : c ≠ '-') : scanSign (c :: cs) = (false, c :: cs) :=
  scanSign.eq_2 _ fun _ heq => h (List.cons.inj heq).1

/-- A numeral that takes a whole text is read in the same way in front of what could not belong to it. -/
theorem scan_append (h : scan cs = some (numeral, [])) (hrest : Closed rest) :
    scan (cs ++ rest) = some (numeral, rest) := by
  cases cs with
  | nil => cases h
  | cons c cs =>
    -- The sign is the first character or is left out; the rest of the text is unsigned.
    have hsign : scanSign (c :: cs ++ rest) = ((scanSign (c :: cs)).1, (scanSign (c :: cs)).2 ++ rest) := by
      by_cases hc : c = '-'
      · subst hc
        rfl
      · rw [List.cons_append, scanSign_cons hc, scanSign_cons hc]
        rfl
    rw [scan_eq] at h ⊢
    rw [hsign]
    obtain ⟨used, hcs, hused⟩ := stopsByNext_scanUnsigned _ _ _ _ h
    rw [hcs, List.append_nil]
    exact hused rest (.inl hrest)

/-- What is left behind a numeral is the end of the text. -/
theorem scan_suffix (h : scan cs = some (numeral, behind)) : behind <:+ cs := by
  rw [scan_eq] at h
  obtain ⟨used, hcs, -⟩ := stopsByNext_scanUnsigned _ _ _ _ h
  have hsign : (scanSign cs).2 <:+ cs := by
    unfold scanSign
    split
    · exact List.suffix_cons _ _
    · exact List.suffix_refl _
  exact (hcs ▸ List.suffix_append _ _).trans hsign

end Numeral

/-! ### The text of a number -/

/-- The characters that a written number is made of. -/
def Plain (c : Char) : Prop :=
  c.isDigit = true ∨ c = '-' ∨ c = '.' ∨ c = 'e' ∨ c = '+'

instance : DecidablePred Plain := fun _ => inferInstanceAs (Decidable (_ ∨ _))

theorem Plain.not_blank (h : Plain c) : isBlank c = false := by
  rcases h with h | rfl | rfl | rfl | rfl
  · exact (not_blank_of_numeral (.inr h)).1
  all_goals rfl

theorem plain_toDigits (n : Nat) : ∀ c ∈ Nat.toDigits 10 n, Plain c :=
  fun _ hc => .inl (Nat.isDigit_of_mem_toDigits (by decide) le_rfl hc)

section Notation

open Decimal

variable {digits : List Char} {place : Int}

theorem plain_positional (h : ∀ c ∈ digits, Plain c) : ∀ c ∈ Notation.positional digits place, Plain c := by
  have hzero : Plain '0' := by decide
  have hpoint : Plain '.' := by decide
  unfold Notation.positional
  split
  · simp only [List.cons_append, List.forall_mem_cons, List.forall_mem_append]
    exact ⟨hzero, hpoint, fun c hc => List.eq_of_mem_replicate hc ▸ hzero, h⟩
  · split
    · simp only [List.forall_mem_append, List.forall_mem_cons]
      exact ⟨⟨h, fun c hc => List.eq_of_mem_replicate hc ▸ hzero⟩, hpoint, hzero, fun _ hc => nomatch hc⟩
    · simp only [List.forall_mem_append, List.forall_mem_cons]
      exact ⟨fun c hc => h c (List.mem_of_mem_take hc), hpoint, fun c hc => h c (List.mem_of_mem_drop hc)⟩

theorem plain_exponential (h : ∀ c ∈ digits, Plain c) : ∀ c ∈ Notation.exponential digits place, Plain c := by
  have hpoint : Plain '.' := by decide
  have hexponent : Plain 'e' := by decide
  have hsign : Plain (if place - 1 < 0 then '-' else '+') := by split <;> decide
  have hfraction : ∀ c ∈ if (digits.drop 1).isEmpty then [] else '.' :: digits.drop 1, Plain c := by
    split
    · exact fun _ hc => nomatch hc
    · exact List.forall_mem_cons.mpr ⟨hpoint, fun c hc => h c (List.mem_of_mem_drop hc)⟩
  unfold Notation.exponential
  simp only [List.forall_mem_append, List.forall_mem_cons]
  exact ⟨⟨⟨fun c hc => h c (List.mem_of_mem_take hc), hfraction⟩, hexponent, hsign, fun _ hc => nomatch hc⟩,
    plain_toDigits _⟩

theorem plain_notation (style : Notation) (x : Float) : ∀ c ∈ style.write x, Plain c := by
  have hzero : ∀ c ∈ ['0', '.', '0'], Plain c := by simp [Plain]
  have hsign : ∀ c ∈ if x.toBits.toNat < 0x8000000000000000 then [] else ['-'], Plain c := by split <;> simp [Plain]
  unfold Notation.write
  dsimp only
  split
  · exact List.forall_mem_append.mpr ⟨hsign, hzero⟩
  · refine List.forall_mem_append.mpr ⟨hsign, ?_⟩
    split
    · exact plain_positional (plain_toDigits _)
    · exact plain_exponential (plain_toDigits _)

end Notation

theorem Number.plain_write (n : Number) : ∀ c ∈ n.write, Plain c := by
  cases n with
  | whole n fits =>
    cases n with
    | ofNat n => exact plain_toDigits n
    | negSucc n => exact List.forall_mem_cons.mpr ⟨by decide, plain_toDigits (n + 1)⟩
  | double x finite => exact plain_notation doubles x

/-! ### Doubles inside other data -/

/-- The number is what its own text, read alone, gives. -/
def Number.ReadsBack (n : Number) : Prop :=
  Value.parse? (Value.number n).canonical = some (.number n)

theorem skipBlanks_of_plain (h : ∀ c ∈ cs, Plain c) : skipBlanks cs = cs := by
  cases cs with
  | nil => rfl
  | cons c cs => exact skipBlanks_of_not_blank (h c List.mem_cons_self).not_blank

theorem Form.toValue?_eq_number {form : Form} {depth : Nat} {n : Number} (h : form.toValue? depth = some (.number n)) :
    form = .number (some n) := by
  cases form <;> cases depth <;> simp_all [Form.toValue?]

/-- Only a numeral is read as a number. -/
theorem scan_eq_number {fuel : Nat} {n : Number} (hplain : ∀ c ∈ cs, Plain c)
    (h : Form.scan fuel cs = some (.number (some n), rest)) :
    ∃ numeral, Numeral.scan cs = some (numeral, rest) ∧ numeral.value? = some n := by
  cases fuel with
  | zero => cases h
  | succ fuel =>
    unfold Form.scan at h
    rw [skipBlanks_of_plain hplain] at h
    split at h
    case h_7 =>
      obtain ⟨⟨numeral, behind⟩, hscan, heq⟩ := Option.bind_eq_some_iff.mp h
      obtain ⟨hvalue, rfl⟩ := Prod.mk.inj (Option.some.inj heq)
      exact ⟨numeral, hscan, Form.number.inj hvalue⟩
    -- What else there is begins with other characters.
    all_goals exact absurd (hplain _ List.mem_cons_self) (by decide)

/-- Read alone, the text of a number is one numeral. -/
theorem Number.ReadsBack.scan {n : Number} (h : n.ReadsBack) :
    ∃ numeral, Numeral.scan n.write = some (numeral, []) ∧ numeral.value? = some n := by
  unfold ReadsBack Value.parse? Form.parse? at h
  simp only [Option.bind_eq_bind, Option.bind_eq_some_iff] at h
  obtain ⟨form, ⟨⟨form', rest⟩, hfirst, hrest⟩, hvalue⟩ := h
  obtain rfl := Form.toValue?_eq_number hvalue
  have htext : (Value.number n).canonical.toList = n.write := String.toList_ofList
  rw [htext] at hfirst
  split at hrest
  · rename_i hblank
    cases hrest
    obtain ⟨numeral, hscan, hnumeral⟩ := scan_eq_number n.plain_write hfirst
    -- What is left over is blank, but there is no blank in the text.
    rw [skipBlanks_of_plain fun c hc => n.plain_write c ((Numeral.scan_suffix hscan).mem hc)] at hblank
    rw [hblank] at hscan
    exact ⟨numeral, hscan, hnumeral⟩
  · cases hrest

theorem Number.legible_of_scan {n : Number} {numeral : Numeral} (hscan : Numeral.scan n.write = some (numeral, []))
    (hvalue : numeral.value? = some n) : n.Legible := by
  refine ⟨?_, fun hrest => ⟨numeral, Numeral.scan_append hscan hrest, hvalue⟩⟩
  obtain ⟨c, cs, hwrite⟩ : ∃ c cs, n.write = c :: cs := by
    refine List.exists_cons_of_ne_nil fun hnil => ?_
    rw [hnil] at hscan
    cases hscan
  rw [hwrite] at hscan
  refine ⟨c, cs, hwrite, ?_⟩
  -- No numeral begins with a point, the letter of an exponent or a plus.
  rcases n.plain_write c (hwrite ▸ List.mem_cons_self) with hc | rfl | rfl | rfl | rfl
  · exact .inr hc
  · exact .inl rfl
  all_goals cases hscan

/-- A number reads back alone exactly if it reads back inside other data. -/
theorem Number.readsBack_iff {n : Number} : n.ReadsBack ↔ n.Legible := by
  constructor
  · intro h
    obtain ⟨numeral, hscan, hvalue⟩ := h.scan
    exact legible_of_scan hscan hvalue
  · intro h
    have hparse : Form.parse? (Value.number n).canonical = some (.number (some n)) := (Value.Legible.number h).parse?
    unfold ReadsBack Value.parse?
    rw [hparse]
    rfl

end Fleet.Json

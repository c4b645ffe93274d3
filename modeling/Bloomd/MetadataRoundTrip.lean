import Bloomd.FilterView
import Bloomd.MetadataGrammar

/-! The text of a record that the daemon writes, and what the reader makes of it. -/

namespace Bloomd

open CrashLogic Framing Prog

section Printing

theorem length_natText_le {n size : Nat} (positive : 0 < size) (small : n < 10 ^ size) :
    (natText n).length ≤ size := by
  rw [natText, List.length_map]
  exact (Nat.length_toDigits_le_iff (by decide) positive).mpr small

theorem stripZeros_sublist (text : Bytes) : (stripZeros text).Sublist text := by
  unfold stripZeros
  have kept := (List.dropWhile_sublist (fun char : UInt8 => decide (char = 48)) (l := text.reverse)).reverse
  rwa [List.reverse_reverse] at kept

theorem fractionText_bounds (text : Bytes) : (fractionText text).length ≤ text.length + 1 ∧
    ∀ char ∈ fractionText text, char = 46 ∨ char ∈ text := by
  have kept := stripZeros_sublist text
  unfold fractionText
  split
  · exact ⟨Nat.zero_le _, nofun⟩
  · constructor
    · have shorter := kept.length_le
      rw [List.length_cons]
      omega
    · rintro char (_ | ⟨_, member⟩)
      · exact .inl rfl
      · exact .inr (kept.subset member)

/-- The characters of a printed number -/
def numeric (char : UInt8) : Bool := (48 ≤ char && char ≤ 57) || char == 46 || char == 101 || char == 45 || char == 43

theorem numeric_natText {n : Nat} {char : UInt8} (member : char ∈ natText n) : numeric char = true := by
  have digit := natText_digit member
  simp [numeric, digit]

/-- The seventeen digits of a double below one -/
theorem significantDigits_small {value : Nat × Nat} {far : Nat} (below : value.1 < value.2) (near : far < 400)
    (reach : value.2 ≤ value.1 * 10 ^ far) : (significantDigits value).1 < 10 ^ 17 ∧
    -400 ≤ (significantDigits value).2 ∧ (significantDigits value).2 ≤ 0 := by
  have found : ∃ k, (List.range 400).find? (fun k => value.2 ≤ value.1 * 10 ^ k) = some k := by
    apply Option.isSome_iff_exists.mp
    rw [List.find?_isSome]
    exact ⟨far, List.mem_range.mpr near, decide_eq_true reach⟩
  obtain ⟨k, first⟩ := found
  have exponent : decimalExponent value = -(k : Int) := by
    unfold decimalExponent
    rw [if_neg (by omega), first]
    rfl
  obtain ⟨enough, member, earlier⟩ := List.find?_range_eq_some.mp first
  have bound : k < 400 := List.mem_range.mp member
  have reached : value.2 ≤ value.1 * 10 ^ k := by simpa using enough
  have nonzero : k ≠ 0 := by
    rintro rfl
    simp at reached
    omega
  have short : value.1 * 10 ^ (k - 1) < value.2 := by
    by_contra long
    have refuted := earlier (k - 1) (by omega)
    simp at refuted
    omega
  have quotient : value.1 * 10 ^ (k + 16) / value.2 < 10 ^ 17 := by
    apply Nat.div_lt_of_lt_mul
    have shape : value.1 * 10 ^ (k + 16) = value.1 * 10 ^ (k - 1) * 10 ^ 17 := by
      rw [Nat.mul_assoc, ← Nat.pow_add]
      congr 2
      omega
    rw [shape]
    exact Nat.mul_lt_mul_of_pos_right short (Nat.pow_pos (by decide))
  have digits : roundHalfEven (value.1 * 10 ^ (k + 16)) value.2 ≤ 10 ^ 17 := by
    unfold roundHalfEven
    split
    · omega
    · omega
  have shift : (16 - -(k : Int)).toNat = k + 16 := by omega
  have upward : 0 ≤ 16 - -(k : Int) := by omega
  have whole : significantDigits value = if roundHalfEven (value.1 * 10 ^ (k + 16)) value.2 = 10 ^ 17 then
      (10 ^ 16, -(k : Int) + 1) else (roundHalfEven (value.1 * 10 ^ (k + 16)) value.2, -(k : Int)) := by
    simp only [significantDigits, exponent, if_pos upward, shift]
  rw [whole]
  split
  · exact ⟨Nat.pow_lt_pow_right (by decide) (by decide), by omega, by omega⟩
  · exact ⟨by omega, by omega, by omega⟩

theorem two_pow_le (n : Nat) : 2 ^ (3 * n) ≤ 10 ^ n := by
  rw [Nat.pow_mul]
  exact Nat.pow_le_pow_left (by decide) n

theorem doubleFraction_small {bits : UInt64} (inRange : rateInRange bits = true) :
    (doubleFraction bits).1 < (doubleFraction bits).2 ∧
    (doubleFraction bits).2 ≤ (doubleFraction bits).1 * 10 ^ 358 := by
  have bounds : 0 < bits.toNat ∧ bits.toNat < 1023 * 2 ^ 52 := by
    simp only [rateInRange, Bool.and_eq_true, decide_eq_true_eq, UInt64.lt_iff_toNat_lt] at inRange
    exact inRange
  have exponent : bits.toNat / 2 ^ 52 % 2 ^ 11 = bits.toNat / 2 ^ 52 := Nat.mod_eq_of_lt (by omega)
  have low : bits.toNat / 2 ^ 52 < 1023 := by omega
  have parts : ∃ significand scale, doubleFraction bits = (significand, 2 ^ (1075 - scale)) ∧ 0 < significand ∧
      significand < 2 ^ 53 ∧ 1 ≤ scale ∧ scale ≤ 1022 := by
    unfold doubleFraction
    rw [exponent]
    by_cases subnormal : bits.toNat / 2 ^ 52 = 0
    · refine ⟨bits.toNat % 2 ^ 52, 1, ?_, by omega, by omega, le_refl 1, by omega⟩
      simp only [subnormal, ↓reduceIte]
      rw [if_neg (by omega)]
    · refine ⟨bits.toNat % 2 ^ 52 + 2 ^ 52, bits.toNat / 2 ^ 52, ?_, by omega, by omega, by omega, by omega⟩
      simp only [subnormal, ↓reduceIte]
      rw [if_neg (by omega)]
  obtain ⟨significand, scale, whole, positive, small, least, most⟩ := parts
  rw [whole]
  constructor
  · calc significand < 2 ^ 53 := small
      _ ≤ 2 ^ (1075 - scale) := Nat.pow_le_pow_right (by decide) (by omega)
  · calc 2 ^ (1075 - scale) ≤ 2 ^ (3 * 358) := Nat.pow_le_pow_right (by decide) (by omega)
      _ ≤ 10 ^ 358 := two_pow_le 358
      _ ≤ significand * 10 ^ 358 := Nat.le_mul_of_pos_left _ positive

/-- A double that passes the check is printed as a short text of the characters of numbers. -/
theorem formatG17_bounds {bits : UInt64} (inRange : rateInRange bits = true) :
    (formatG17 bits).length ≤ 40 ∧ formatG17 bits ≠ [] ∧ ∀ char ∈ formatG17 bits, numeric char = true := by
  obtain ⟨below, reach⟩ := doubleFraction_small inRange
  obtain ⟨few, least, most⟩ := significantDigits_small below (by decide) reach
  have nonzero : bits.toNat ≠ 0 := by
    simp only [rateInRange, Bool.and_eq_true, decide_eq_true_eq, UInt64.lt_iff_toNat_lt] at inRange
    exact Nat.pos_iff_ne_zero.mp inRange.1
  unfold formatG17
  rw [if_neg nonzero]
  generalize significantDigits (doubleFraction bits) = printed at few least most ⊢
  obtain ⟨digits, exponent⟩ := printed
  simp only at few least most ⊢
  have short : (natText digits).length ≤ 17 := length_natText_le (by decide) few
  have nonempty := List.length_pos_of_ne_nil (natText_ne_nil digits)
  have plain : ∀ char ∈ natText digits, numeric char = true := fun char => numeric_natText
  have fraction : ∀ text : Bytes, (∀ char ∈ text, numeric char = true) →
      (fractionText text).length ≤ text.length + 1 ∧ ∀ char ∈ fractionText text, numeric char = true := by
    intro text numbers
    obtain ⟨length, chars⟩ := fractionText_bounds text
    refine ⟨length, fun char member => ?_⟩
    rcases chars char member with rfl | inside
    · rfl
    · exact numbers char inside
  have taken : ∀ n, ∀ char ∈ (natText digits).take n, numeric char = true :=
    fun n char member => plain char (List.mem_of_mem_take member)
  have dropped : ∀ n, ∀ char ∈ (natText digits).drop n, numeric char = true :=
    fun n char member => plain char (List.mem_of_mem_drop member)
  split
  · have magnitude : (natText exponent.natAbs).length ≤ 3 := length_natText_le (by decide) (by omega)
    obtain ⟨length, chars⟩ := fraction _ (dropped 1)
    have padded : (if (natText exponent.natAbs).length < 2 then 48 :: natText exponent.natAbs
          else natText exponent.natAbs).length ≤ 4 ∧
        ∀ char ∈ (if (natText exponent.natAbs).length < 2 then 48 :: natText exponent.natAbs
          else natText exponent.natAbs), numeric char = true := by
      split
      · refine ⟨by rw [List.length_cons]; omega, ?_⟩
        rintro char (_ | ⟨_, member⟩)
        · rfl
        · exact numeric_natText member
      · exact ⟨by omega, fun char => numeric_natText⟩
    have sign : numeric (if exponent < 0 then 45 else 43) = true := by
      split <;> rfl
    rw [List.length_drop] at length
    refine ⟨?_, ?_, ?_⟩
    · simp only [List.length_append, List.length_take, List.length_cons, List.length_nil]
      omega
    · simp
    · intro char member
      simp only [List.mem_append, List.mem_cons, List.not_mem_nil, or_false] at member
      rcases member with ((first | later) | rfl | rfl) | last
      · exact taken 1 char first
      · exact chars char later
      · rfl
      · exact sign
      · exact padded.2 char last
  · split
    · have numbers : ∀ char ∈ List.replicate (exponent.natAbs - 1) 48 ++ natText digits, numeric char = true := by
        intro char member
        rcases List.mem_append.mp member with zero | digit
        · rw [List.eq_of_mem_replicate zero]
          rfl
        · exact plain char digit
      obtain ⟨length, chars⟩ := fraction _ numbers
      rw [List.length_append, List.length_replicate] at length
      refine ⟨by rw [List.length_cons]; omega, by simp, ?_⟩
      rintro char (_ | ⟨_, member⟩)
      · rfl
      · exact chars char member
    · obtain ⟨length, chars⟩ := fraction _ (dropped (exponent.toNat + 1))
      rw [List.length_drop] at length
      refine ⟨?_, ?_, ?_⟩
      · rw [List.length_append, List.length_take]
        omega
      · intro empty
        have gone := congrArg List.length (List.append_eq_nil_iff.mp empty).1
        rw [List.length_take, List.length_nil] at gone
        omega
      · intro char member
        rcases List.mem_append.mp member with first | later
        · exact taken _ char first
        · exact chars char later

end Printing

section Reading

variable [Strto]

/-- What the conversions do with numbers that `printf` wrote: they read a decimal number
in their range to its end, and the double that was printed. A subnormal makes `strtod` set
`errno`. -/
structure Strto.Rereads (rate : UInt64) : Prop where
  unsigned : ∀ n < 2 ^ 64, Strto.strtoul (natText n) = (n.toUInt64, (natText n).length, false)
  unsignedLong : ∀ n < 2 ^ 64, Strto.strtoull (natText n) = (n.toUInt64, (natText n).length, false)
  double : Strto.strtod (formatG17 rate) = (rate, (formatG17 rate).length, false)
  underflow : rateIsNormal rate = false → (Strto.strtod (formatG17 rate)).2.2 = true

theorem Strto.Rereads.normal {rate : UInt64} (rereads : Strto.Rereads rate) : rateIsNormal rate = true := by
  by_contra subnormal
  have reported := rereads.underflow (Bool.eq_false_of_not_eq_true subnormal)
  rw [rereads.double] at reported
  cases reported

omit [Strto] in
theorem converted_whole {α : Type} {value : Bytes} (nonempty : value ≠ []) (parsed : α) :
    converted value (parsed, value.length, false) = some parsed := by
  simp [converted, nonempty]

section Numbers

variable {rate : UInt64} (rereads : Strto.Rereads rate)

include rereads

theorem metaParseU32_natText {n : Nat} (small : n < 2 ^ 32) : metaParseU32 (natText n) = some n := by
  have value : n.toUInt64.toNat = n := by
    rw [Nat.toUInt64_eq, UInt64.toNat_ofNat', Nat.mod_eq_of_lt (by omega)]
  unfold metaParseU32
  rw [rereads.unsigned n (by omega), converted_whole (natText_ne_nil n)]
  simp only [value]
  rw [if_neg (by omega)]

theorem metaParseU64_natText {n : Nat} (small : n < 2 ^ 64) : metaParseU64 (natText n) = some n := by
  unfold metaParseU64
  rw [rereads.unsignedLong n small, converted_whole (natText_ne_nil n), Option.map_some, Nat.toUInt64_eq,
    UInt64.toNat_ofNat',
    Nat.mod_eq_of_lt small]

theorem metaParseFlag_flagText (flag : Bool) : metaParseFlag (flagText flag) = some flag := by
  unfold metaParseFlag
  cases flag with
  | false =>
    have zero : metaParseU32 (flagText false) = some 0 := @metaParseU32_natText _ _ rereads 0 (by decide)
    rw [zero]
    rfl
  | true =>
    have one : metaParseU32 (flagText true) = some 1 := @metaParseU32_natText _ _ rereads 1 (by decide)
    rw [one]
    rfl

end Numbers

/-- The loop over a whole text -/
def readAll (content : Bytes) (fields : MetaFields) : Option MetaFields := readLines content.length content fields

omit [Strto] in
theorem fgets_shorter {input : Bytes} (nonempty : input ≠ []) : (fgets input).2.length < input.length := by
  have positive := List.length_pos_of_ne_nil nonempty
  simp only [fgets, List.splitAt_eq, List.length_drop, List.length_take]
  omega

theorem readLines_enough (fuel : Nat) : ∀ {content : Bytes} (fields : MetaFields), content.length ≤ fuel →
    readLines fuel content fields = readAll content fields := by
  induction fuel using Nat.strongRecOn with
  | ind fuel ih =>
    intro content fields bound
    by_cases empty : content = []
    · subst empty
      cases fuel with
      | zero => rfl
      | succ fuel => rfl
    · have positive := List.length_pos_of_ne_nil empty
      have shorter := fgets_shorter empty
      obtain ⟨less, rfl⟩ : ∃ less, fuel = less + 1 := ⟨fuel - 1, by omega⟩
      obtain ⟨length, same⟩ : ∃ length, content.length = length + 1 := ⟨content.length - 1, by omega⟩
      rw [readAll, same, readLines, readLines, if_neg empty, if_neg empty]
      cases readLine fields (lineText (fgets content).1) with
      | none => rfl
      | some later =>
        simp only
        rw [ih less (by omega) later (by omega)]
        by_cases equal : length = less
        · rw [equal, ih less (by omega) later (by omega)]
        · rw [ih length (by omega) later (by omega)]

/-- The loop takes one line, and then the rest. -/
theorem readAll_eq {content : Bytes} (nonempty : content ≠ []) (fields : MetaFields) :
    readAll content fields = (readLine fields (lineText (fgets content).1)).bind (readAll (fgets content).2) := by
  have positive := List.length_pos_of_ne_nil nonempty
  have shorter := fgets_shorter nonempty
  obtain ⟨length, same⟩ : ∃ length, content.length = length + 1 := ⟨content.length - 1, by omega⟩
  rw [readAll, same, readLines, if_neg nonempty]
  cases readLine fields (lineText (fgets content).1) with
  | none => rfl
  | some later => exact readLines_enough length later (by omega)

omit [Strto] in
theorem lineText_plain {line : Bytes} (plain : 0 ∉ line) : lineText line = trimNewline line := by
  unfold lineText
  congr 1
  apply List.takeWhile_eq_self_iff.mpr
  intro char member
  apply decide_eq_true
  rintro rfl
  exact plain member

/-- A value that the writer puts on a line of its own -/
structure Printable (value : Bytes) : Prop where
  short : value.length ≤ 1000
  plain : 0 ∉ value ∧ 10 ∉ value ∧ 13 ∉ value

omit [Strto] in
theorem MetaKey.text_chars (key : MetaKey) : key.text.length ≤ 10 ∧ 0 ∉ key.text ∧ 10 ∉ key.text ∧
    skipped (key.text ++ [61]) = false := by
  cases key <;> decide

omit [Strto] in
theorem skipped_entryText (key : MetaKey) (value : Bytes) : skipped (entryText (key, value)) = false := by
  have front := key.text_chars.2.2.2
  simp only [skipped, entryText, Bool.or_eq_false_iff, beq_eq_false_iff_ne] at front ⊢
  refine ⟨by simp, ?_⟩
  cases text : key.text with
  | nil => simp
  | cons first rest =>
    rw [text] at front
    exact front.2

/-- The reader takes a line of the writer as the value of its key. -/
theorem readAll_metaLine {key : MetaKey} {name : String} {value : Bytes} {parsed : key.Value} {fields : MetaFields}
    (named : bytes name = key.text) (printable : Printable value) (parses : key.parse value = some parsed)
    (unseen : fields key = none) (rest : Bytes) :
    readAll (metaLine name value ++ rest) fields = readAll rest (Function.update fields key (some parsed)) := by
  obtain ⟨short, nul, newline, carriage⟩ := printable
  obtain ⟨small, keyNul, keyNewline, -⟩ := key.text_chars
  have line : metaLine name value = entryText (key, value) ++ [10] := by
    simp [metaLine, entryText, named]
  have plain : 10 ∉ entryText (key, value) := by
    simp [entryText, keyNewline, newline]
  have fits : (entryText (key, value) ++ [10]).length ≤ 1023 := by
    simp only [entryText, List.length_append, List.length_cons, List.length_nil]
    omega
  have clean : 0 ∉ entryText (key, value) ++ [10] := by
    simp [entryText, keyNul, nul]
  have whole : fgets (entryText (key, value) ++ [10] ++ rest) = (entryText (key, value) ++ [10], rest) :=
    fgets_line fits (.inl ⟨_, rfl, plain⟩)
  have ending : trimNewline (entryText (key, value)) = entryText (key, value) := by
    rcases List.eq_nil_or_concat value with rfl | ⟨front, last, rfl⟩
    · exact trimNewline_of_last key.text ⟨by decide, by decide⟩
    · rw [List.concat_eq_append] at newline carriage ⊢
      have shape : entryText (key, front ++ [last]) = key.text ++ 61 :: front ++ [last] := by simp [entryText]
      rw [shape]
      apply trimNewline_of_last
      constructor
      · rintro rfl
        exact newline (List.mem_append_right _ List.mem_cons_self)
      · rintro rfl
        exact carriage (List.mem_append_right _ List.mem_cons_self)
  rw [line, readAll_eq (by simp), whole]
  simp only [lineText_plain clean]
  rw [trimNewline_append, ending]
  unfold readLine
  rw [skipped_entryText]
  have cut : splitLine (entryText (key, value)) = some (key.text, value) := splitLine_eq_some.mpr ⟨rfl, key.plain_text⟩
  have known : MetaKey.ofText key.text = some key := MetaKey.ofText_eq_some.mpr rfl
  have fed : MetaKey.feed key (fields key) value = some (some parsed) := by
    have free : MetaKey.seen key none = false := by cases key <;> rfl
    rw [MetaKey.feed, unseen, free, parses]
    rfl
  simp only [cut, known, fed, Bool.false_eq_true, ↓reduceIte]
  rfl

/-- With every key seen, the loop passes over the rest or fails. -/
theorem readLines_seen {fields : MetaFields} (seen : ∀ key, MetaKey.seen key (fields key) = true) (fuel : Nat) :
    ∀ {input : Bytes}, input.length ≤ fuel → 0 ∉ input →
      readLines fuel input fields = if onlySkipped fuel input then some fields else none := by
  induction fuel with
  | zero =>
    intro input bound _
    obtain rfl := List.length_eq_zero_iff.mp (Nat.le_zero.mp bound)
    rfl
  | succ fuel ih =>
    intro input bound plain
    by_cases empty : input = []
    · subst empty
      rfl
    · have split := fgets_append input
      have shorter := fgets_shorter empty
      have linePlain : 0 ∉ (fgets input).1 := fun member => plain (split ▸ List.mem_append_left _ member)
      have restPlain : 0 ∉ (fgets input).2 := fun member => plain (split ▸ List.mem_append_right _ member)
      rw [readLines, if_neg empty, lineText_plain linePlain, onlySkipped]
      by_cases skip : skipped (trimNewline (fgets input).1) = true
      · have passed : readLine fields (trimNewline (fgets input).1) = some fields := by
          unfold readLine
          rw [if_pos skip]
        simp only [passed, ih (by omega : (fgets input).2.length ≤ fuel) restPlain]
        simp only [skipped] at skip
        rw [skip]
        simp [empty]
      · have refused : readLine fields (trimNewline (fgets input).1) = none := by
          apply Option.eq_none_iff_forall_ne_some.mpr
          intro later read
          obtain ⟨key, value, field, -, fed, -⟩ := (readLine_eq_some (Bool.eq_false_iff.mpr skip)).mp read
          rw [MetaKey.feed, seen key] at fed
          cases fed
        simp only [refused]
        simp only [skipped] at skip
        rw [Bool.eq_false_iff.mpr skip]
        simp [empty]

omit [Strto] in
theorem trimNewline_behind (front : Bytes) {char : UInt8} (plain : char ≠ 10 ∧ char ≠ 13) (rest : Bytes) :
    trimNewline (front ++ [char] ++ rest) = front ++ [char] ++ trimNewline rest := by
  unfold trimNewline
  rw [List.reverse_append, List.reverse_append, List.reverse_singleton, List.singleton_append, List.dropWhile_append]
  split
  · rename_i gone
    rw [List.isEmpty_iff.mp gone]
    simp [plain]
  · simp

omit [Strto] in
/-- The line of the pin path keeps its key. -/
theorem fgets_pinLine (path : Bytes) : ∃ front, (fgets (metaLine "pin_path" path)).1 = bytes "pin_path=" ++ front ∧
    front.length ≤ 1014 := by
  have text : metaLine "pin_path" path = bytes "pin_path=" ++ (path ++ [10]) := by simp [metaLine, bytes]
  have nine : (bytes "pin_path=").length = 9 := rfl
  rw [text]
  have room : (bytes "pin_path=" ++ (path ++ [10])).take 1023 = bytes "pin_path=" ++ (path ++ [10]).take 1014 := by
    rw [List.take_append, List.take_of_length_le (by omega), nine]
  have index : (bytes "pin_path=" ++ (path ++ [10]).take 1014).idxOf 10 = ((path ++ [10]).take 1014).idxOf 10 + 9 := by
    rw [List.idxOf_append_of_notMem (by decide), nine, Nat.add_comm]
  have enough : 9 ≤ (fgets (bytes "pin_path=" ++ (path ++ [10]))).1.length := by
    simp only [fgets, room, index, List.splitAt_eq, List.length_take, List.length_append, nine]
    omega
  have short := length_fgets (bytes "pin_path=" ++ (path ++ [10]))
  have split := fgets_append (bytes "pin_path=" ++ (path ++ [10]))
  generalize (fgets (bytes "pin_path=" ++ (path ++ [10]))).1 = line at enough short split ⊢
  have cut : line.take 9 = bytes "pin_path=" := by
    have front := congrArg (List.take 9) split
    rw [List.take_append_of_le_length enough, ← nine, List.take_left] at front
    exact front
  refine ⟨line.drop 9, ?_, ?_⟩
  · rw [← cut, List.take_append_drop]
  · rw [List.length_drop]
    omega

/-- The last line of the writer, and what follows it -/
theorem readAll_pinLine {fields : MetaFields} {path : Bytes} (plain : 0 ∉ path) (unseen : fields .pinPath = none)
    (seen : ∀ key, key ≠ .pinPath → MetaKey.seen key (fields key) = true) :
    readAll (metaLine "pin_path" path) fields =
      if onlySkipped (fgets (metaLine "pin_path" path)).2.length (fgets (metaLine "pin_path" path)).2 then
        some (Function.update fields .pinPath (some ((trimNewline (fgets (metaLine "pin_path" path)).1).drop 9)))
      else none := by
  obtain ⟨front, line, short⟩ := fgets_pinLine path
  have split := fgets_append (metaLine "pin_path" path)
  have clean : 0 ∉ metaLine "pin_path" path := by
    rw [metaLine]
    simp [plain, bytes]
  have linePlain : 0 ∉ (fgets (metaLine "pin_path" path)).1 :=
    fun member => clean (split ▸ List.mem_append_left _ member)
  have restPlain : 0 ∉ (fgets (metaLine "pin_path" path)).2 :=
    fun member => clean (split ▸ List.mem_append_right _ member)
  have trimmed : trimNewline (fgets (metaLine "pin_path" path)).1 = entryText (.pinPath, trimNewline front) := by
    rw [line]
    exact trimNewline_behind (bytes "pin_path") ⟨by decide, by decide⟩ front
  have value : (entryText (.pinPath, trimNewline front)).drop 9 = trimNewline front := rfl
  have size := (trimNewline_front front).length_le
  have parses : MetaKey.parse .pinPath (trimNewline front) = some (trimNewline front) := by
    simp only [MetaKey.parse, metaAssignString]
    rw [if_neg]
    simp only [pathMax]
    omega
  have taken : readLine fields (entryText (.pinPath, trimNewline front)) =
      some (Function.update fields .pinPath (some (trimNewline front))) := by
    apply (readLine_eq_some (skipped_entryText _ _)).mpr
    refine ⟨.pinPath, trimNewline front, some (trimNewline front), rfl, ?_, rfl⟩
    rw [MetaKey.feed, unseen, parses]
    rfl
  have all : ∀ key, MetaKey.seen key (Function.update fields .pinPath (some (trimNewline front)) key) = true := by
    intro key
    by_cases same : key = .pinPath
    · subst same
      rw [Function.update_self]
      rfl
    · rw [Function.update_of_ne same]
      exact seen key same
  rw [readAll_eq (by simp [metaLine]), lineText_plain linePlain, trimmed, taken, Option.bind_some, value]
  exact readLines_seen all _ (le_refl _) restPlain

omit [Strto] in
theorem printable_of_numeric {value : Bytes} (short : value.length ≤ 1000)
    (numbers : ∀ char ∈ value, numeric char = true) : Printable value := by
  refine ⟨short, ?_, ?_, ?_⟩
  all_goals
    intro member
    exact absurd (numbers _ member) (by decide)

omit [Strto] in
theorem printable_natText {n : Nat} (small : n < 2 ^ 64) : Printable (natText n) := by
  have length : (natText n).length ≤ 20 := length_natText_le (by decide) (Nat.lt_trans small (by decide))
  exact printable_of_numeric (by omega) fun char => numeric_natText

omit [Strto] in
theorem printable_flagText (flag : Bool) : Printable (flagText flag) := by
  cases flag with
  | false => exact ⟨by decide, by decide⟩
  | true => exact ⟨by decide, by decide⟩

omit [Strto] in
theorem printable_name {name : Bytes} (valid : nameIsValid name = true) : Printable name := by
  have short := length_of_valid valid
  simp only [maxNameLen] at short
  exact ⟨by omega, not_mem_of_valid valid (by decide), not_mem_of_valid valid (by decide),
    not_mem_of_valid valid (by decide)⟩

omit [Strto] in
/-- The conditions of the reader, one by one -/
theorem MetaRecord.isValid_parts {record : MetaRecord} (valid : record.isValid = true) :
    record.version = metadataVersion ∧ nameIsValid record.name = true ∧ record.backend = backendName ∧
      record.digest = digestName ∧ record.valueSize = digestSize ∧ record.capacity < 2 ^ 64 ∧ record.hashes ≤ 15 ∧
      rateInRange record.errorRate = true := by
  simp only [MetaRecord.isValid, Bool.and_eq_true, beq_iff_eq, decide_eq_true_eq] at valid
  obtain ⟨⟨⟨⟨⟨⟨⟨⟨version, name⟩, backend⟩, digest⟩, valueSize⟩, -⟩, capacity⟩, hashes⟩, rate⟩ := valid
  exact ⟨version, name, backend, digest, valueSize, capacity, hashes, rate⟩

/-- The fields after the ten lines that the writer puts before the pin path -/
def writtenFields (record : MetaRecord) : MetaFields
  | .version => some record.version
  | .name => some record.name
  | .backend => some record.backend
  | .digest => some record.digest
  | .capacity => some record.capacity
  | .errorRate => some record.errorRate
  | .hashes => some record.hashes
  | .valueSize => some record.valueSize
  | .hasData => some record.hasData
  | .logClean => some record.logClean
  | .pinPath => none

theorem readAll_metaBody {record : MetaRecord} (rereads : Strto.Rereads record.errorRate)
    (valid : record.isValid = true) :
    readAll (metaBody record) .none = readAll (metaLine "pin_path" record.pinPath) (writtenFields record) := by
  obtain ⟨version, name, backend, digest, valueSize, capacity, hashes, rate⟩ := MetaRecord.isValid_parts valid
  have current : record.version < 2 ^ 32 := by rw [version]; decide
  have block : record.valueSize < 2 ^ 32 := by rw [valueSize]; decide
  have rounds : record.hashes < 2 ^ 32 := by omega
  obtain ⟨short, nonempty, numbers⟩ := formatG17_bounds rate
  have rateParses : MetaKey.parse .errorRate (formatG17 record.errorRate) = some record.errorRate := by
    simp only [MetaKey.parse, metaParseDouble]
    rw [rereads.double, converted_whole nonempty]
  have nameParses : MetaKey.parse .name record.name = some record.name := by
    have length := length_of_valid name
    simp only [MetaKey.parse, metaAssignString]
    rw [if_neg (by omega)]
  have backendParses : MetaKey.parse .backend record.backend = some record.backend := by
    rw [backend]
    rfl
  have digestParses : MetaKey.parse .digest record.digest = some record.digest := by
    rw [digest]
    rfl
  have backendPrintable : Printable record.backend := by
    rw [backend]
    exact ⟨by decide, by decide⟩
  have digestPrintable : Printable record.digest := by
    rw [digest]
    exact ⟨by decide, by decide⟩
  have shape : metaBody record = metaLine "version" (natText record.version) ++ (metaLine "name" record.name ++
      (metaLine "backend" record.backend ++ (metaLine "digest" record.digest ++
      (metaLine "capacity" (natText record.capacity) ++ (metaLine "error_rate" (formatG17 record.errorRate) ++
      (metaLine "hashes" (natText record.hashes) ++ (metaLine "value_size" (natText record.valueSize) ++
      (metaLine "has_data" (flagText record.hasData) ++ (metaLine "log_clean" (flagText record.logClean) ++
      metaLine "pin_path" record.pinPath))))))))) := by
    simp only [metaBody, List.append_assoc]
  rw [shape]
  rw [@readAll_metaLine _ .version _ _ record.version _ rfl (printable_natText (by omega))
    (metaParseU32_natText rereads current) rfl]
  rw [@readAll_metaLine _ .name _ _ record.name _ rfl (printable_name name) nameParses rfl]
  rw [@readAll_metaLine _ .backend _ _ record.backend _ rfl backendPrintable backendParses rfl]
  rw [@readAll_metaLine _ .digest _ _ record.digest _ rfl digestPrintable digestParses rfl]
  rw [@readAll_metaLine _ .capacity _ _ record.capacity _ rfl (printable_natText capacity)
    (metaParseU64_natText rereads capacity) rfl]
  rw [@readAll_metaLine _ .errorRate _ _ record.errorRate _ rfl
    (printable_of_numeric (by omega) numbers) rateParses rfl]
  rw [@readAll_metaLine _ .hashes _ _ record.hashes _ rfl (printable_natText (by omega))
    (metaParseU32_natText rereads rounds) rfl]
  rw [@readAll_metaLine _ .valueSize _ _ record.valueSize _ rfl (printable_natText (by omega))
    (metaParseU32_natText rereads block) rfl]
  rw [@readAll_metaLine _ .hasData _ _ record.hasData _ rfl (printable_flagText _)
    (metaParseFlag_flagText rereads record.hasData) rfl]
  rw [@readAll_metaLine _ .logClean _ _ record.logClean _ rfl (printable_flagText _)
    (metaParseFlag_flagText rereads record.logClean) rfl]
  congr 1
  funext key
  cases key <;> rfl

/-- The reader of the text does what the model of the files says. -/
theorem metaReadText_metaBody {record : MetaRecord} (rereads : Strto.Rereads record.errorRate)
    (valid : record.isValid = true)
    (plain : 0 ∉ record.pinPath) : metaReadText (metaBody record) = record.readBack := by
  have version : record.version = 1 := (MetaRecord.isValid_parts valid).1
  have seen : ∀ key, key ≠ .pinPath → MetaKey.seen key (writtenFields record key) = true := by
    intro key other
    cases key with
    | version => simp [MetaKey.seen, writtenFields, version]
    | pinPath => exact absurd rfl other
    | _ => rfl
  have read : readLines (metaBody record).length (metaBody record) .none =
      readAll (metaLine "pin_path" record.pinPath) (writtenFields record) := readAll_metaBody rereads valid
  unfold metaReadText MetaRecord.readBack
  rw [read, readAll_pinLine plain rfl seen, valid, rereads.normal]
  simp only [Bool.true_and]
  split
  · have tells : ∀ path, MetaFields.record (Function.update (writtenFields record) .pinPath (some path)) =
        some { record with pinPath := path } := fun path => rfl
    have still : ∀ path, MetaRecord.isValid { record with pinPath := path } = true := fun path => valid
    simp only [Option.bind_eq_bind, Option.bind_some, tells, still, ↓reduceIte]
    rfl
  · rfl

end Reading

section RoundTrip

variable {roots : Config} {metadata : FilterMeta}

/-- The metadata that the daemon builds for a filter -/
structure Buildable (roots : Config) (metadata : FilterMeta) : Prop where
  name : nameIsValid metadata.name = true
  backend : metadata.backend = backendName
  digest : metadata.digest = digestName
  capacity : 1 ≤ metadata.capacity ∧ metadata.capacity < 2 ^ 32
  errorRate : rateInRange metadata.errorRate = true
  hashes : metadata.hashes ≤ 15
  valueSize : metadata.valueSize = digestSize
  version : metadata.version = metadataVersion
  pinPath : metadata.pinPath = roots.pinPathOf metadata.name
  pinRoot : 10 ∉ roots.pinRoot ∧ 0 ∉ roots.pinRoot
  metaPath : metadata.metaPath = roots.metaPathOf metadata.name
  logPath : metadata.logPath = roots.logPathOf metadata.name

theorem Buildable.isValid (buildable : Buildable roots metadata) : metadata.toMetaRecord.isValid = true := by
  obtain ⟨name, backend, digest, capacity, errorRate, hashes, valueSize, version, -, -, -, -⟩ := buildable
  simp only [MetaRecord.isValid, version, name, backend, digest, valueSize, errorRate, beq_self_eq_true, Bool.and_true,
    Bool.true_and, Bool.and_eq_true, bne_iff_ne, decide_eq_true_eq]
  omega

theorem Buildable.placed (buildable : Buildable roots metadata) : Placed roots metadata := by
  refine ⟨buildable.name, buildable.metaPath, buildable.logPath, ?_⟩
  rw [buildable.pinPath]
  exact leaf_pinPathOf roots buildable.name

theorem Buildable.plain (buildable : Buildable roots metadata) : 10 ∉ metadata.pinPath ∧ 0 ∉ metadata.pinPath := by
  obtain ⟨newline, nul⟩ := buildable.pinRoot
  have nameNewline : 10 ∉ metadata.name := not_mem_of_valid buildable.name (by decide)
  have nameNul : 0 ∉ metadata.name := not_mem_of_valid buildable.name (by decide)
  rw [buildable.pinPath]
  simp [Config.pinPathOf, joined, slash, newline, nul, nameNewline, nameNul]

/-- The file that was written is read, and yields the metadata that was written. -/
structure ReadsBack [Strto] (metadata : FilterMeta) (world : World) : Prop where
  stored : world.fileAt metadata.metaPath = some (some metadata.toMetaRecord)
  text : metaReadText (metaBody metadata.toMetaRecord) = some metadata.toMetaRecord
  file : ∀ env answer rest, env.reads metadata.metaPath = .ok →
    metaReadFile env metadata.metaPath world (answer :: rest) =
    .returned (.ok { metadata with logPath := [] }) world rest

/-- Metadata that was written is read back exactly when its pin path leaves the line of the
reader room for its key. -/
theorem metaWriteAtomic_readsBack_iff [Strto] {world after : World} {answers rest : List Answer}
    (buildable : Buildable roots metadata) (rereads : Strto.Rereads metadata.errorRate)
    (written : metaWriteAtomic metadata world answers = .returned (.ok ()) after rest) :
    ReadsBack metadata after ↔ metadata.pinPath.length ≤ 1014 := by
  obtain ⟨newline, nul⟩ := buildable.plain
  have same := metaReadText_metaBody rereads buildable.isValid nul
  have fits := readBack_eq_self_iff buildable.isValid buildable.name buildable.pinPath
  have stored : after.fileAt metadata.metaPath = some (some metadata.toMetaRecord) := by
    have seen := (wp_metaWriteAtomic buildable.placed).returned written
    rw [buildable.metaPath]
    exact congrArg View.file seen
  constructor
  · intro reads
    have back := reads.text
    rw [same] at back
    exact (fits.mp back).2.1
  · intro short
    have back : metadata.toMetaRecord.readBack = some metadata.toMetaRecord :=
      fits.mpr ⟨rereads.normal, short, newline⟩
    refine ⟨stored, same.trans back, ?_⟩
    intro env answer rest reads
    simp only [metaReadFile, Prog.call, reads, stored, back]

end RoundTrip

section Exact

theorem digitsValue_natText (n : Nat) : digitsValue (natText n) = n := by
  have digits : ∀ digit ∈ Nat.toDigits 10 n, (digit.toNat.toUInt8.toNat : Nat) = digit.toNat := by
    intro digit member
    have decimal : digit.isDigit = true := Nat.isDigit_of_mem_toDigits (by decide) (by decide) member
    have bound : digit.toNat ≤ 57 := by
      simp only [Char.isDigit, Bool.and_eq_true, decide_eq_true_eq] at decimal
      exact decimal.2
    rw [Nat.toUInt8_eq, UInt8.toNat_ofNat', Nat.mod_eq_of_lt (by omega)]
  have folded : ∀ (text : List Char) (start : Nat), (∀ digit ∈ text, (digit.toNat.toUInt8.toNat : Nat) = digit.toNat) →
      (text.map fun digit => digit.toNat.toUInt8).foldl (fun total char => 10 * total + (char.toNat - 48)) start =
        Nat.ofDigitChars 10 text start := by
    intro text
    induction text with
    | nil => exact fun _ _ => rfl
    | cons digit rest ih =>
      intro start plain
      rw [List.map_cons, List.foldl_cons, plain digit List.mem_cons_self, Nat.ofDigitChars_cons]
      exact ih _ fun other member => plain other (List.mem_cons_of_mem _ member)
  rw [digitsValue, natText, folded _ _ digits, Nat.ofDigitChars_ten_toDigits]

theorem leadingDigits_natText (n : Nat) : leadingDigits (natText n) = natText n := by
  apply List.takeWhile_eq_self_iff.mpr
  intro char member
  simpa using natText_digit member

theorem rereads_exactStrto : @Strto.Rereads exactStrto 0x3f847ae147ae147b := by
  have whole : ∀ n < 2 ^ 64, ((digitsValue (leadingDigits (natText n))).toUInt64, (leadingDigits (natText n)).length,
      decide (2 ^ 64 ≤ digitsValue (leadingDigits (natText n)))) = (n.toUInt64, (natText n).length, false) := by
    intro n small
    rw [leadingDigits_natText, digitsValue_natText, decide_eq_false (Nat.not_le.mpr small)]
  exact @Strto.Rereads.mk exactStrto _ whole whole (by decide +kernel) nofun

/-- An installation whose pin root has directories with names of the given lengths, and
metadata in it -/
def longRoots (lengths : List Nat) : Config :=
  ⟨lengths.flatMap fun length => slash :: List.replicate length 97, bytes "/m", .always⟩

def longMeta (lengths : List Nat) : FilterMeta :=
  { demoRecord with
    pinPath := (longRoots lengths).pinPathOf demoName
    metaPath := (longRoots lengths).metaPathOf demoName
    logPath := (longRoots lengths).logPathOf demoName }

theorem buildable_longMeta (lengths : List Nat) : Buildable (longRoots lengths) (longMeta lengths) := by
  have capacity : 1 ≤ demoRecord.capacity ∧ demoRecord.capacity < 2 ^ 32 := by decide
  have hashes : demoRecord.hashes ≤ 15 := by decide
  refine ⟨rfl, rfl, rfl, capacity, rfl, hashes, rfl, rfl, rfl, ?_, rfl, rfl⟩
  simp [longRoots, slash, List.mem_replicate]

theorem length_longMeta (lengths : List Nat) :
    (longMeta lengths).pinPath.length = (lengths.map (· + 1)).sum + 2 := by
  simp [longMeta, Config.pinPathOf, joined, longRoots, demoName, bytes, List.length_flatMap]

/-- The lengths of directory names that make a pin path of 1015 bytes -/
def deepLengths : List Nat := [252, 252, 252, 253]

/-- A pin path of 1015 bytes is written, and then the file cannot be read. -/
theorem metaWriteAtomic_long_unread : (∀ length ∈ deepLengths, length ≤ 255) ∧
    Buildable (longRoots deepLengths) (longMeta deepLengths) ∧
    @Strto.Rereads exactStrto (longMeta deepLengths).errorRate ∧
    ∃ after rest, metaWriteAtomic (longMeta deepLengths) .empty plenty = .returned (.ok ()) after rest ∧
      ¬ @ReadsBack exactStrto (longMeta deepLengths) after := by
  have buildable := buildable_longMeta deepLengths
  have rereads : @Strto.Rereads exactStrto (longMeta deepLengths).errorRate := rereads_exactStrto
  have done : (metaWriteAtomic (longMeta deepLengths) .empty plenty).value = some (.ok ()) := by decide +kernel
  refine ⟨by decide, buildable, rereads, ?_⟩
  cases run : metaWriteAtomic (longMeta deepLengths) .empty plenty with
  | crashed after =>
    rw [run] at done
    cases done
  | returned value after rest =>
    rw [run] at done
    obtain rfl := Option.some.inj done
    refine ⟨after, rest, rfl, fun reads => ?_⟩
    have back := @ReadsBack.text exactStrto _ _ reads
    rw [@metaReadText_metaBody exactStrto _ rereads buildable.isValid buildable.plain.2] at back
    have short := ((readBack_eq_self_iff buildable.isValid buildable.name buildable.pinPath).mp back).2.1
    rw [length_longMeta] at short
    exact absurd short (by decide)

theorem metaWriteAtomic_short_reads : ∃ after rest,
    metaWriteAtomic (longMeta [1]) .empty plenty = .returned (.ok ()) after rest ∧
      @ReadsBack exactStrto (longMeta [1]) after := by
  have done : (metaWriteAtomic (longMeta [1]) .empty plenty).value = some (.ok ()) := by decide +kernel
  cases run : metaWriteAtomic (longMeta [1]) .empty plenty with
  | crashed after =>
    rw [run] at done
    cases done
  | returned value after rest =>
    rw [run] at done
    obtain rfl := Option.some.inj done
    refine ⟨after, rest, rfl, ?_⟩
    apply (@metaWriteAtomic_readsBack_iff (longRoots [1]) (longMeta [1]) exactStrto _ _ _ _ (buildable_longMeta [1])
      rereads_exactStrto run).mpr
    rw [length_longMeta]
    decide

end Exact

end Bloomd

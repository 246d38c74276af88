import Mathlib
import EstreePrinter.Json.Reader
import EstreePrinter.Json.Writer

/-!
# Written values are read back

What `Json.write` writes is a text that stands for the value and for nothing else: a reader of JSON
gets the value back, in whatever style it reads, if no whole number is too long for it
(**`readAs_write`**).

**Strings** go character by character: whatever stands for one character is read as that character
and leaves the reader inside the string (`stringFrom_escapeChar`).

**Numbers** have no mark where they end.  A digit, a point or an exponent behind them would be read
as theirs, so what is said of reading a value is said for texts that go on with what `Stops` allows,
and that is all that ever stands behind a value.

**Values** nest.  The steps of the reader are counted in characters of the text: each step goes one
level down or one element on, and each level and each element has a character of its own
(`value_write`).  Objects must not have a key twice, because the second value would replace the
first, and doubles are left out, because they are not whole.
-/

namespace EstreePrinter

namespace Json

namespace Reader

/-! ## Strings -/

section

variable {half : Nat → Char}

/-- A control character has a code of four digits. -/
lemma hexDigits_of_lt {n : Nat} (h : n < 0x20) : ∃ c d, hexDigits 4 n = ['0', '0', c, d] ∧
    hexQuad? '0' '0' c d = some n := by
  have hall : ∀ n < 0x20, hexDigits 4 n = ['0', '0', (n / 16).digitChar, (n % 16).digitChar] ∧
      hexQuad? '0' '0' (n / 16).digitChar (n % 16).digitChar = some n := by decide
  exact ⟨_, _, hall n h⟩

/-- **One character of a string** is read as that character. -/
lemma stringFrom_escapeChar (done : List Nat) (c : Char) (rest : List Char) :
    stringFrom half done (Writer.escapeChar c ++ rest) = stringFrom half (c.toNat :: done) rest := by
  unfold Writer.escapeChar
  split_ifs with hquote hbackslash hfeed hreturn htab hback hform hcontrol
  · subst hquote; rfl
  · subst hbackslash; rfl
  · subst hfeed; rfl
  · subst hreturn; rfl
  · subst htab; rfl
  · rw [hback]; rfl
  · rw [hform]; rfl
  · obtain ⟨x, y, hdigits, hvalue⟩ := hexDigits_of_lt hcontrol
    rw [hdigits]
    simp [stringFrom, hvalue]
  · rw [List.singleton_append, stringFrom, if_neg hcontrol]
    · exact hquote
    · exact fun _ _ _ _ _ h => absurd h hbackslash
    · exact fun _ _ h => absurd h hbackslash

/-- Code points that are no halves of a pair stand for themselves. -/
lemma joinUnits_map_toNat (text : List Char) :
    joinUnits half none (text.map Char.toNat) = text := by
  induction text with
  | nil => rfl
  | cons c rest ih =>
      have hvalid : c.toNat < 0xD800 ∨ 0xDFFF < c.toNat ∧ c.toNat < 0x110000 := c.valid
      have hhigh : ¬(0xD800 ≤ c.toNat ∧ c.toNat < 0xDC00) := by omega
      have hhalf : ¬(0xD800 ≤ c.toNat ∧ c.toNat < 0xE000) := by omega
      rw [List.map_cons, joinUnits]
      simp only [if_neg hhigh, unitChar, if_neg hhalf, Char.ofNat_toNat, ih]

/-- **A string is read up to its closing quote**, whatever follows it. -/
lemma stringFrom_escaped (text : List Char) (done : List Nat) (rest : List Char) :
    stringFrom half done (text.flatMap Writer.escapeChar ++ '"' :: rest) =
      some (String.ofList (joinUnits half none (done.reverse ++ text.map Char.toNat)), rest) := by
  induction text generalizing done with
  | nil => rw [List.flatMap_nil, List.nil_append, stringFrom, List.map_nil, List.append_nil]
  | cons c text ih =>
      rw [List.flatMap_cons, List.append_assoc, stringFrom_escapeChar, ih, List.reverse_cons,
        List.append_assoc, List.singleton_append, List.map_cons]

lemma toList_string (s : String) :
    (Writer.string s).toList = '"' :: s.toList.flatMap Writer.escapeChar ++ ['"'] :=
  String.toList_ofList

lemma stringFrom_string (s : String) (rest : List Char) :
    stringFrom half [] (s.toList.flatMap Writer.escapeChar ++ '"' :: rest) = some (s, rest) := by
  rw [stringFrom_escaped, List.reverse_nil, List.nil_append, joinUnits_map_toNat,
    String.ofList_toList]

end

/-! ## Whole numbers -/

/-- What may stand behind a value: nothing, or a character that separates or closes. -/
def Stops (rest : List Char) : Prop := ∀ c ∈ rest.head?, c = ',' ∨ c = ']' ∨ c = '\x7d'

lemma stops_cons {c : Char} (h : c = ',' ∨ c = ']' ∨ c = '\x7d') (rest : List Char) :
    Stops (c :: rest) := by
  intro d hd
  obtain rfl : c = d := Option.some.inj hd
  exact h

/-- The first digit of a number other than zero is no zero. -/
lemma exists_toDigits_eq_cons {n : Nat} (h : n ≠ 0) :
    ∃ c rest, Nat.toDigits 10 n = c :: rest ∧ c ≠ '0' := by
  induction n using Nat.strongRecOn with
  | ind n ih =>
      by_cases hn : n < 10
      · have hall : ∀ n < 10, n ≠ 0 → n.digitChar ≠ '0' := by decide
        exact ⟨n.digitChar, [], Nat.toDigits_of_lt_base hn, hall n hn h⟩
      · obtain ⟨c, rest, hdigits, hc⟩ := ih (n / 10) (by omega) (by omega)
        refine ⟨c, rest ++ [Nat.digitChar (n % 10)], ?_, hc⟩
        rw [Nat.toDigits_of_base_le (by decide) (by omega), hdigits, List.cons_append]

lemma isDigit_toDigits (n : Nat) : ∀ c ∈ Nat.toDigits 10 n, c.isDigit = true := fun _ hc =>
  Nat.isDigit_of_mem_toDigits (by decide) (by decide) hc

lemma digitsValue_toDigits (n : Nat) : Decimal.digitsValue (Nat.toDigits 10 n) = n := by
  have h := Nat.ofDigitChars_ten_toDigits (n := n)
  rwa [Nat.ofDigitChars_eq_foldl] at h

/-- The digits of a number end where what may stand behind it begins. -/
lemma span_toDigits (digits : List Char) (h : ∀ c ∈ digits, c.isDigit = true) {rest : List Char}
    (hrest : Stops rest) : (digits ++ rest).takeWhile Char.isDigit = digits ∧
      (digits ++ rest).dropWhile Char.isDigit = rest := by
  have hstop : rest.takeWhile Char.isDigit = [] ∧ rest.dropWhile Char.isDigit = rest := by
    cases rest with
    | nil => exact ⟨rfl, rfl⟩
    | cons c rest =>
        have hc : c.isDigit = false := by
          rcases hrest c rfl with rfl | rfl | rfl <;> rfl
        simp [hc]
  rw [List.takeWhile_append_of_pos h, List.dropWhile_append_of_pos h, hstop.1, hstop.2,
    List.append_nil]
  exact ⟨rfl, rfl⟩

lemma wholePart_toDigits (n : Nat) {rest : List Char} (hrest : Stops rest) :
    wholePart (Nat.toDigits 10 n ++ rest) = some (Nat.toDigits 10 n, rest) := by
  by_cases hn : n = 0
  · subst hn; rfl
  · obtain ⟨c, digits, hdigits, hc⟩ := exists_toDigits_eq_cons hn
    have hall := isDigit_toDigits n
    rw [hdigits, List.forall_mem_cons] at hall
    obtain ⟨htake, hdrop⟩ := span_toDigits digits hall.2 hrest
    rw [hdigits, List.cons_append, wholePart, if_pos hall.1, htake, hdrop]
    exact hc

lemma fractionPart_of_stops {rest : List Char} (hrest : Stops rest) :
    fractionPart rest = (none, rest) := by
  cases rest with
  | nil => rfl
  | cons c rest => rcases hrest c rfl with rfl | rfl | rfl <;> rfl

lemma exponentPart_of_stops {rest : List Char} (hrest : Stops rest) :
    exponentPart rest = (none, rest) := by
  cases rest with
  | nil => rfl
  | cons c rest => rcases hrest c rfl with rfl | rfl | rfl <;> rfl

/-- Whether a number does not have more digits than the bound allows. -/
def Fits (limit : Option Nat) (n : Nat) : Prop :=
  ∀ most ∈ limit, (Nat.toDigits 10 n).length ≤ most

/-- **Digits are read up to their end.** -/
lemma number_toDigits {limit : Option Nat} {n : Nat} (h : Fits limit n) (negative : Bool)
    {rest : List Char} (hrest : Stops rest) :
    number limit negative (Nat.toDigits 10 n ++ rest) =
      .ok (.int (if negative then -n else n), rest) := by
  have hfits : limit.any (· < (Nat.toDigits 10 n).length) = false := by
    cases limit with
    | none => rfl
    | some most => simpa using h most rfl
  simp only [number, wholePart_toDigits n hrest, fractionPart_of_stops hrest,
    exponentPart_of_stops hrest, numberOf, hfits, digitsValue_toDigits]
  rfl

lemma toList_toString_int (n : Int) :
    (toString n).toList = (if n < 0 then ['-'] else []) ++ Nat.toDigits 10 n.natAbs := by
  cases n with
  | ofNat m =>
      show m.repr.toList = _
      rw [Nat.toList_repr]
      rfl
  | negSucc m =>
      show ("-" ++ m.succ.repr).toList = _
      rw [String.toList_append, Nat.toList_repr, if_pos (Int.negSucc_lt_zero m)]
      rfl

lemma exists_toString_int_eq_cons (n : Int) :
    ∃ c digits, (toString n).toList = c :: digits ∧ (c = '-' ∨ c.isDigit = true) := by
  obtain ⟨c, digits, hdigits⟩ := List.exists_cons_of_ne_nil (Nat.toDigits_ne_nil (b := 10))
  rw [toList_toString_int, hdigits]
  split
  · exact ⟨_, _, rfl, .inl rfl⟩
  · exact ⟨c, digits, rfl, .inr (isDigit_toDigits n.natAbs c (by rw [hdigits]; simp))⟩

/-- The only word that begins with a sign goes on with a letter. -/
lemma word_minus_digit {c : Char} (h : c.isDigit = true) (text : List Char) :
    word ('-' :: c :: text) = none := by
  have hne : c ≠ 'I' := by
    rintro rfl
    cases h
  simp [word, words, dropWord?, hne.symm]

lemma scalar_int {style : ReadStyle} {n : Int} (h : Fits style.maxDigits n.natAbs)
    {rest : List Char} (hrest : Stops rest) :
    scalar style ((toString n).toList ++ rest) = .ok (.int n, rest) := by
  have hnumber (negative : Bool) := number_toDigits h negative hrest
  have hall := isDigit_toDigits n.natAbs
  rw [toList_toString_int]
  obtain ⟨c, digits, hdigits⟩ := List.exists_cons_of_ne_nil (Nat.toDigits_ne_nil (b := 10))
  rw [hdigits, List.cons_append] at hnumber
  rw [hdigits, List.forall_mem_cons] at hall
  by_cases hn : n < 0
  · have hvalue : -(n.natAbs : Int) = n := by omega
    rw [if_pos hn, hdigits, List.singleton_append, List.cons_append, List.cons_append,
      scalar, word_minus_digit hall.1]
    have hread := hnumber true
    rwa [if_pos rfl, hvalue] at hread
  · have hvalue : (n.natAbs : Int) = n := by omega
    rw [if_neg hn, hdigits, List.nil_append, List.cons_append, scalar, if_pos hall.1]
    · have hread := hnumber false
      rwa [if_neg Bool.false_ne_true, hvalue] at hread
    · rintro rfl
      cases hall.1
    · rintro rfl
      cases hall.1

end Reader

/-! ## Values -/

open Reader

mutual

/-- Whether a value has one written form: no number in it is a double, no whole number has more
digits than the bound allows, and no two fields of an object have the same key. -/
def IsExact (limit : Option Nat) : Json → Prop
  | .int n => Fits limit n.natAbs
  | .float _ => False
  | .arr items => AreExact limit items
  | .obj fields => (fields.map Prod.fst).Nodup ∧ HaveExact limit fields
  | _ => True

/-- The same for the elements of a list. -/
def AreExact (limit : Option Nat) : List Json → Prop
  | [] => True
  | v :: rest => IsExact limit v ∧ AreExact limit rest

/-- The same for the fields of an object. -/
def HaveExact (limit : Option Nat) : List (String × Json) → Prop
  | [] => True
  | (_, v) :: rest => IsExact limit v ∧ HaveExact limit rest

end

/-- What no value begins with: blanks, and the bracket that closes a list. -/
def notOpening : List Char := [' ', '\t', '\n', '\r', ']']

lemma exists_write_eq_cons {limit : Option Nat} {v : Json} (h : v.IsExact limit) :
    ∃ c rest, v.write.toList = c :: rest ∧ c ∉ notOpening := by
  cases v with
  | null => exact ⟨_, _, rfl, by decide⟩
  | bool b => cases b <;> exact ⟨_, _, rfl, by decide⟩
  | int n =>
      obtain ⟨c, digits, hdigits, hc⟩ := exists_toString_int_eq_cons n
      refine ⟨c, digits, by rw [write, hdigits], fun hmem => ?_⟩
      simp only [notOpening, List.mem_cons, List.not_mem_nil, or_false] at hmem
      rcases hmem with rfl | rfl | rfl | rfl | rfl <;> simp at hc
  | float x => exact h.elim
  | str s => exact ⟨_, _, toList_string s, by decide⟩
  | arr items =>
      rw [write, String.toList_append, String.toList_append]
      exact ⟨_, _, rfl, by decide⟩
  | obj fields =>
      rw [write, String.toList_append, String.toList_append]
      exact ⟨_, _, rfl, by decide⟩

lemma insertField_of_notMem {key : String} {fields : List (String × Json)}
    (h : key ∉ fields.map Prod.fst) (v : Json) :
    insertField key v fields = fields ++ [(key, v)] := by
  induction fields with
  | nil => rfl
  | cons field rest ih =>
      obtain ⟨k, w⟩ := field
      rw [List.map_cons, List.mem_cons, not_or] at h
      rw [insertField, if_neg (Ne.symm h.1), ih h.2, List.cons_append]

lemma skipBlanks_cons {c : Char} (h : c ∉ notOpening) (text : List Char) :
    skipBlanks (c :: text) = c :: text := by
  simp only [notOpening, List.mem_cons, not_or] at h
  simp [skipBlanks, h]

lemma value_of_ne (style : ReadStyle) (steps : Nat) {c : Char} (hbracket : c ≠ '[')
    (hbrace : c ≠ '\x7b') (text : List Char) :
    value style (steps + 1) (c :: text) = scalar style (c :: text) := by
  rw [value]
  · exact fun _ h => hbracket (List.cons.inj h).1
  · exact fun _ h => hbrace (List.cons.inj h).1

/-- A list that is not closed at once is read element by element. -/
lemma value_bracket (style : ReadStyle) (steps : Nat) {c : Char}
    (h : c ∉ notOpening) (text : List Char) :
    value style (steps + 1) ('[' :: c :: text) =
      (items style steps (c :: text)).map fun r => (.arr r.1, r.2) := by
  rw [value, skipBlanks_cons h]
  split
  · rename_i heq
    obtain rfl : c = ']' := (List.cons.inj heq).1
    exact absurd h (by decide)
  · rfl

lemma value_brace (style : ReadStyle) (steps : Nat) (text : List Char) :
    value style (steps + 1) ('\x7b' :: '"' :: text) =
      (fields style steps [] ('"' :: text)).map fun r => (.obj r.1, r.2) := by
  rw [value]
  rfl

lemma items_of_bracket {style : ReadStyle} {steps : Nat} {text rest : List Char} {v : Json}
    (h : value style steps text = .ok (v, ']' :: rest)) :
    items style (steps + 1) text = .ok ([v], rest) := by
  rw [items, h]
  rfl

lemma items_of_comma {style : ReadStyle} {steps : Nat} {text rest : List Char} {v : Json}
    (h : value style steps text = .ok (v, ',' :: rest)) :
    items style (steps + 1) text =
      (items style steps (skipBlanks rest)).map fun r => (v :: r.1, r.2) := by
  rw [items, h]
  rfl

/-- A key and the value behind it. -/
lemma fields_of_brace {style : ReadStyle} {steps : Nat} {v : Json} {text rest : List Char}
    (key : String) (done : List (String × Json))
    (h : value style steps (skipBlanks text) = .ok (v, '\x7d' :: rest)) :
    fields style (steps + 1) done
        ('"' :: (key.toList.flatMap Writer.escapeChar ++ '"' :: ':' :: text)) =
      .ok (insertField key v done, rest) := by
  simp [fields, stringFrom_string, skipBlanks, h]

lemma fields_of_comma {style : ReadStyle} {steps : Nat} {v : Json} {text rest : List Char}
    (key : String) (done : List (String × Json))
    (h : value style steps (skipBlanks text) = .ok (v, ',' :: rest)) :
    fields style (steps + 1) done
        ('"' :: (key.toList.flatMap Writer.escapeChar ++ '"' :: ':' :: text)) =
      fields style steps (insertField key v done) (skipBlanks rest) := by
  simp [fields, stringFrom_string, skipBlanks, h]

/-- Texts with commas between them. -/
def joined (texts : List String) : List Char := (String.intercalate "," texts).toList

lemma joined_singleton (text : String) : joined [text] = text.toList := by
  rw [joined, String.intercalate_singleton]

lemma joined_cons_cons (text next : String) (more : List String) :
    joined (text :: next :: more) = text.toList ++ ',' :: joined (next :: more) := by
  rw [joined, String.intercalate_cons_cons, String.toList_append, String.toList_append,
    List.append_assoc]
  rfl

lemma exists_joined_eq_append (text : String) (more : List String) :
    ∃ rest, joined (text :: more) = text.toList ++ rest := by
  cases more with
  | nil => exact ⟨[], by rw [joined_singleton, List.append_nil]⟩
  | cons next more => exact ⟨_, joined_cons_cons text next more⟩

/-- No blanks stand before a written value. -/
lemma skipBlanks_write {limit : Option Nat} {v : Json} (h : v.IsExact limit) (rest : List Char) :
    skipBlanks (v.write.toList ++ rest) = v.write.toList ++ rest := by
  obtain ⟨c, text, hwrite, hc⟩ := exists_write_eq_cons h
  rw [hwrite, List.cons_append, skipBlanks_cons hc]

lemma skipBlanks_joined {limit : Option Nat} {v : Json} (h : v.IsExact limit) (more : List String)
    (rest : List Char) :
    skipBlanks (joined (v.write :: more) ++ rest) = joined (v.write :: more) ++ rest := by
  obtain ⟨text, hjoined⟩ := exists_joined_eq_append v.write more
  rw [hjoined, List.append_assoc, skipBlanks_write h]

lemma toList_writeField (key : String) (v : Json) :
    (Writer.string key ++ ":" ++ v.write).toList =
      '"' :: (key.toList.flatMap Writer.escapeChar ++ '"' :: ':' :: v.write.toList) := by
  rw [String.toList_append, String.toList_append, toList_string]
  simp

lemma skipBlanks_key (key : String) (v : Json) (more : List String) (rest : List Char) :
    skipBlanks (joined ((Writer.string key ++ ":" ++ v.write) :: more) ++ rest) =
      joined ((Writer.string key ++ ":" ++ v.write) :: more) ++ rest := by
  obtain ⟨text, hjoined⟩ := exists_joined_eq_append (Writer.string key ++ ":" ++ v.write) more
  rw [hjoined, toList_writeField, List.cons_append, List.cons_append, skipBlanks_cons (by decide)]

lemma toList_write_arr (items : List Json) :
    (arr items).write.toList = '[' :: (joined (writeItems items) ++ [']']) := by
  rw [write, String.toList_append, String.toList_append]
  rfl

lemma toList_write_obj (fields : List (String × Json)) :
    (obj fields).write.toList = '\x7b' :: (joined (writeFields fields) ++ ['\x7d']) := by
  rw [write, String.toList_append, String.toList_append]
  rfl

mutual

/-- **A value is read up to its end**, in no more steps than its text has characters. -/
lemma value_write {style : ReadStyle} {v : Json} (h : v.IsExact style.maxDigits) {steps : Nat}
    (hsteps : v.write.toList.length ≤ steps) {rest : List Char} (hrest : Stops rest) :
    value style steps (v.write.toList ++ rest) = .ok (v, rest) := by
  obtain ⟨steps, rfl⟩ : ∃ k, steps = k + 1 := by
    obtain ⟨c, text, hwrite, -⟩ := exists_write_eq_cons h
    rw [hwrite, List.length_cons] at hsteps
    exact Nat.exists_eq_add_of_le' (by omega)
  cases v with
  | null => rw [write]; rfl
  | bool b => cases b <;> rfl
  | int n =>
      have hread := scalar_int h hrest
      obtain ⟨c, digits, hdigits, hc⟩ := exists_toString_int_eq_cons n
      rw [write]
      rw [hdigits, List.cons_append] at hread ⊢
      have hbracket : c ≠ '[' ∧ c ≠ '\x7b' := by
        constructor <;> rintro rfl <;> simp at hc
      rw [value_of_ne style steps hbracket.1 hbracket.2, hread]
  | float x => exact h.elim
  | str s =>
      rw [write, toList_string, List.append_assoc, List.cons_append]
      simp [value, scalar, stringFrom_string, ReadError.orMalformed]
  | arr items =>
      rw [toList_write_arr, List.length_cons, List.length_append, List.length_singleton] at hsteps
      have hfewer : (joined (writeItems items)).length < steps := by omega
      have hread := items_write h hfewer rest
      rw [toList_write_arr, List.cons_append, List.append_assoc, List.singleton_append]
      cases items with
      | nil => rfl
      | cons v more =>
          obtain ⟨c, text, hwrite, hc⟩ := exists_write_eq_cons h.1
          obtain ⟨text', hjoined⟩ := exists_joined_eq_append v.write (writeItems more)
          rw [writeItems, hjoined, hwrite, List.cons_append, List.cons_append] at hread ⊢
          rw [value_bracket style steps hc, hread (List.cons_ne_nil _ _)]
          rfl
  | obj fields =>
      rw [toList_write_obj, List.length_cons, List.length_append, List.length_singleton] at hsteps
      have hkeys : (([] ++ fields).map Prod.fst).Nodup := h.1
      have hfewer : (joined (writeFields fields)).length < steps := by omega
      have hread := fields_write h.2 hkeys hfewer rest
      rw [toList_write_obj, List.cons_append, List.append_assoc, List.singleton_append]
      cases fields with
      | nil => rfl
      | cons field more =>
          obtain ⟨key, v⟩ := field
          obtain ⟨text, hjoined⟩ :=
            exists_joined_eq_append (Writer.string key ++ ":" ++ v.write) (writeFields more)
          rw [writeFields, hjoined, toList_writeField, List.cons_append,
            List.cons_append] at hread ⊢
          rw [value_brace, hread (List.cons_ne_nil _ _)]
          rfl

lemma items_write {style : ReadStyle} {items : List Json} (h : AreExact style.maxDigits items)
    {steps : Nat} (hsteps : (joined (writeItems items)).length < steps) (rest : List Char)
    (hne : items ≠ []) :
    Reader.items style steps (joined (writeItems items) ++ ']' :: rest) = .ok (items, rest) := by
  obtain ⟨steps, rfl⟩ : ∃ k, steps = k + 1 := Nat.exists_eq_add_of_le' (by omega)
  cases items with
  | nil => exact absurd rfl hne
  | cons v more =>
      obtain ⟨hv, hmore⟩ := h
      have hitems (hfewer : (joined (writeItems more)).length < steps) :=
        items_write hmore hfewer
      cases more with
      | nil =>
          rw [writeItems, writeItems, joined_singleton] at hsteps ⊢
          exact items_of_bracket
            (value_write hv (Nat.le_of_lt_succ hsteps) (stops_cons (.inr (.inl rfl)) rest))
      | cons w others =>
          have hskip := skipBlanks_joined hmore.1 (writeItems others) (']' :: rest)
          rw [writeItems] at hitems
          rw [writeItems, writeItems, joined_cons_cons] at hsteps ⊢
          rw [List.length_append, List.length_cons] at hsteps
          rw [List.append_assoc, List.cons_append, items_of_comma
            (value_write hv (by omega) (stops_cons (.inl rfl) _)), hskip,
            hitems (by omega) rest (List.cons_ne_nil _ _)]
          rfl

lemma fields_write {style : ReadStyle} {fields done : List (String × Json)}
    (h : HaveExact style.maxDigits fields) (hkeys : ((done ++ fields).map Prod.fst).Nodup)
    {steps : Nat} (hsteps : (joined (writeFields fields)).length < steps) (rest : List Char)
    (hne : fields ≠ []) :
    Reader.fields style steps done (joined (writeFields fields) ++ '\x7d' :: rest) =
      .ok (done ++ fields, rest) := by
  obtain ⟨steps, rfl⟩ : ∃ k, steps = k + 1 := Nat.exists_eq_add_of_le' (by omega)
  cases fields with
  | nil => exact absurd rfl hne
  | cons field more =>
      obtain ⟨key, v⟩ := field
      obtain ⟨hv, hmore⟩ := h
      have hinsert : insertField key v done = done ++ [(key, v)] := by
        refine insertField_of_notMem (fun hmem => ?_) v
        rw [List.map_append, List.nodup_append] at hkeys
        exact hkeys.2.2 key hmem key (by simp) rfl
      have hkeys' : ((done ++ [(key, v)] ++ more).map Prod.fst).Nodup := by
        rwa [List.append_assoc, List.singleton_append]
      have hfields (hfewer : (joined (writeFields more)).length < steps) :=
        fields_write hmore hkeys' hfewer
      have hskip := skipBlanks_write hv
      cases more with
      | nil =>
          rw [writeFields, writeFields, joined_singleton, toList_writeField] at hsteps ⊢
          simp only [List.length_cons, List.length_append] at hsteps
          have hfewer : v.write.toList.length ≤ steps := by omega
          have hvalue := value_write hv hfewer (stops_cons (.inr (.inr rfl)) rest)
          rw [← hskip] at hvalue
          have hfield := fields_of_brace key done hvalue
          rw [hinsert] at hfield
          simpa using hfield
      | cons w others =>
          obtain ⟨next, w⟩ := w
          rw [writeFields, writeFields, joined_cons_cons, toList_writeField] at hsteps ⊢
          simp only [List.length_cons, List.length_append] at hsteps
          rw [writeFields] at hfields
          have hfewer : v.write.toList.length ≤ steps := by omega
          have hvalue := value_write hv hfewer (stops_cons (.inl rfl)
            (joined ((Writer.string next ++ ":" ++ w.write) :: writeFields others) ++
              '\x7d' :: rest))
          rw [← hskip] at hvalue
          have hfield := fields_of_comma key done hvalue
          rw [hinsert, skipBlanks_key, hfields (by omega) rest (List.cons_ne_nil _ _)] at hfield
          simpa using hfield

end

/-- **What is written is read back**, in any style that allows numbers as long as its own. -/
theorem readAs_write {style : ReadStyle} {v : Json} (h : v.IsExact style.maxDigits) :
    readAs style v.write.toList = .ok v := by
  have hend : Stops [] := by simp [Stops]
  have hvalue := value_write h (Nat.le_succ _) hend
  have hskip := skipBlanks_write h []
  rw [List.append_nil] at hvalue hskip
  rw [readAs, hskip, hvalue]
  rfl

end Json

end EstreePrinter

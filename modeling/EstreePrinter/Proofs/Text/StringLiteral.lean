import Mathlib
import EstreePrinter.Json.Reader
import EstreePrinter.Options
import EstreePrinter.Literal

/-!
# Reading string literals back

The value of a string literal of the language is a list of code units, two for a character beyond
the first plane.  `StringLiteral.read` reads a literal off the front of a text, as the lexical
grammar of the language says: it knows escapes of every form, lines that are continued, and what may
not stand in a literal.  The old octal escapes are not among them, since modules and strict code
have none.

What `Text.quoted` writes is read back, whatever text follows it (**`read_quoted`**): the reader
stops at the closing quote, and the code units are those of the value, which they determine
(`units_injective`).  The argument goes character by character (`readBody_escapeChar`): whatever
stands for one character is read as that character, and leaves the reader inside the literal.

A value is a text here, so that all of its code points are characters.  Half of a surrogate pair
without its other half is none, and is left out; `Text.escapeChar` has no escape for one.
-/

namespace EstreePrinter

namespace StringLiteral

open Json.Reader (hexValue? hexQuad? joinUnits unitChar)

/-! ## Code units -/

/-- The code units of a code point. -/
def pointUnits (n : Nat) : List Nat :=
  if n < 0x10000 then [n]
  else [0xD800 + (n - 0x10000) / 0x400, 0xDC00 + (n - 0x10000) % 0x400]

/-- The code units of a text. -/
def units (text : List Char) : List Nat := text.flatMap fun c => pointUnits c.toNat

section

variable (half : Nat → Char)

/-- A character is found again in its code units, whatever units follow. -/
lemma joinUnits_pointUnits (c : Char) (rest : List Nat) :
    joinUnits half none (pointUnits c.toNat ++ rest) = c :: joinUnits half none rest := by
  have hself : Char.ofNat c.toNat = c := Char.ofNat_toNat c
  have hvalid : c.toNat < 0xD800 ∨ 0xDFFF < c.toNat ∧ c.toNat < 0x110000 := c.valid
  unfold pointUnits
  split
  · -- no character is half of a pair
    have hhigh : ¬(0xD800 ≤ c.toNat ∧ c.toNat < 0xDC00) := by omega
    have hhalf : ¬(0xD800 ≤ c.toNat ∧ c.toNat < 0xE000) := by omega
    rw [List.singleton_append, joinUnits]
    simp only [if_neg hhigh, unitChar, if_neg hhalf, hself]
  · have hhigh : 0xD800 ≤ 0xD800 + (c.toNat - 0x10000) / 0x400 ∧
        0xD800 + (c.toNat - 0x10000) / 0x400 < 0xDC00 := by omega
    have hlow : 0xDC00 ≤ 0xDC00 + (c.toNat - 0x10000) % 0x400 ∧
        0xDC00 + (c.toNat - 0x10000) % 0x400 < 0xE000 := by omega
    have hpair : 0x10000 + (0xD800 + (c.toNat - 0x10000) / 0x400 - 0xD800) * 0x400 +
        (0xDC00 + (c.toNat - 0x10000) % 0x400 - 0xDC00) = c.toNat := by omega
    rw [List.cons_append, List.cons_append, List.nil_append, joinUnits]
    simp only [if_pos hhigh]
    rw [joinUnits]
    simp only [if_pos hlow, hpair, hself]

/-- The code units of a text stand for that text. -/
lemma joinUnits_units (text : List Char) : joinUnits half none (units text) = text := by
  induction text with
  | nil => rfl
  | cons c rest ih =>
      rw [units, List.flatMap_cons, joinUnits_pointUnits]
      exact congrArg (c :: ·) ih

end

/-- **Code units determine their text.** -/
theorem units_injective : Function.Injective units :=
  Function.LeftInverse.injective (joinUnits_units Char.ofNat)

/-! ## The lexical grammar -/

/-- Whether a character ends a line. -/
def isLineTerminator (c : Char) : Bool :=
  c == '\n' || c == '\r' || c.toNat == 0x2028 || c.toNat == 0x2029

/-- What a character behind a backslash stands for, if it begins no longer escape. -/
def escapedUnits : Char → List Nat
  | 'b' => [0x8]
  | 't' => [0x9]
  | 'n' => [0xA]
  | 'v' => [0xB]
  | 'f' => [0xC]
  | 'r' => [0xD]
  | c => pointUnits c.toNat

/-- Read two hexadecimal digits. -/
def readPair : List Char → Option (List Nat × List Char)
  | a :: b :: rest => do some ([(← hexValue? a) * 16 + (← hexValue? b)], rest)
  | _ => none

/-- Read the hexadecimal digits of a code point, up to a closing brace. -/
def readPoint (value : Nat) : List Char → Option (List Nat × List Char)
  | [] => none
  | c :: rest =>
    if c = '\x7d' then if value < 0x110000 then some (pointUnits value, rest) else none
    else
      match hexValue? c with
      | none => none
      | some digit => readPoint (value * 16 + digit) rest

/-- Read what follows the letter of an escape for a code unit or a code point. -/
def readUnicode : List Char → Option (List Nat × List Char)
  | '\x7b' :: c :: rest => do
    let digit ← hexValue? c
    readPoint digit rest
  | a :: b :: c :: d :: rest => do some ([← hexQuad? a b c d], rest)
  | _ => none

/-- Read an escape that begins with the character `c` behind its backslash.  A line that is
continued stands for nothing. -/
def readEscape (c : Char) (rest : List Char) : Option (List Nat × List Char) :=
  if c = 'x' then readPair rest
  else if c = 'u' then readUnicode rest
  else if c.isDigit then
    if c = '0' && !rest.head?.any Char.isDigit then some ([0], rest) else none
  else if c = '\r' then some ([], if rest.head? = some '\n' then rest.tail else rest)
  else if isLineTerminator c then some ([], rest)
  else some (escapedUnits c, rest)

lemma length_le_of_readPoint {value : Nat} {text : List Char} {found : List Nat × List Char}
    (h : readPoint value text = some found) : found.2.length ≤ text.length := by
  induction text generalizing value with
  | nil => cases h
  | cons c rest ih =>
      rw [readPoint] at h
      split_ifs at h
      · cases h
        exact Nat.le_succ _
      · split at h
        · cases h
        · exact (ih h).trans (Nat.le_succ _)

lemma length_le_of_readPair {text : List Char} {found : List Nat × List Char}
    (h : readPair text = some found) : found.2.length ≤ text.length := by
  unfold readPair at h
  split at h
  · simp only [Option.bind_eq_bind, Option.bind_eq_some_iff] at h
    obtain ⟨_, -, _, -, h⟩ := h
    obtain rfl := Option.some.inj h
    simp only [List.length_cons]
    omega
  · cases h

lemma length_le_of_readUnicode {text : List Char} {found : List Nat × List Char}
    (h : readUnicode text = some found) : found.2.length ≤ text.length := by
  unfold readUnicode at h
  split at h
  · obtain ⟨_, -, h⟩ := Option.bind_eq_some_iff.mp h
    have := length_le_of_readPoint h
    simp only [List.length_cons]
    omega
  · obtain ⟨_, -, h⟩ := Option.bind_eq_some_iff.mp h
    obtain rfl := Option.some.inj h
    simp only [List.length_cons]
    omega
  · cases h

/-- Reading an escape does not go back. -/
lemma length_le_of_readEscape {c : Char} {rest : List Char} {found : List Nat × List Char}
    (h : readEscape c rest = some found) : found.2.length ≤ rest.length := by
  unfold readEscape at h
  split_ifs at h with _ _ _ _ _ hfeed
  · exact length_le_of_readPair h
  · exact length_le_of_readUnicode h
  all_goals obtain rfl := Option.some.inj h
  · exact le_rfl
  · simp
  all_goals exact le_rfl

/-- Read what stands between the quotes of a literal, and the closing quote: the code units of its
value, and the text behind it.  Neither a line feed nor a carriage return may stand in it. -/
def readBody (quote : Char) (text : List Char) : Option (List Nat × List Char) :=
  match text with
  | [] => none
  | c :: rest =>
    if c = quote then some ([], rest)
    else if c = '\\' then
      match rest with
      | [] => none
      | e :: behind =>
        match _hread : readEscape e behind with
        | none => none
        | some (found, next) =>
          (readBody quote next).map fun (others, left) => (found ++ others, left)
    else if c = '\n' ∨ c = '\r' then none
    else (readBody quote rest).map fun (others, left) => (pointUnits c.toNat ++ others, left)
termination_by text.length
decreasing_by
  · have hle : next.length ≤ behind.length := length_le_of_readEscape _hread
    simp only [List.length_cons]
    omega
  · exact Nat.lt_succ_self _

/-- **Read a string literal** off the front of a text: the code units of its value, and the text
behind it. -/
def read : List Char → Option (List Nat × List Char)
  | [] => none
  | quote :: rest => if quote = '\'' ∨ quote = '"' then readBody quote rest else none

/-! ## What is written -/

variable {quote : Char} {rest : List Char}

/-- An escape that is read, and the text behind it. -/
lemma readBody_escape (hquote : quote ≠ '\\') {e : Char} {behind next : List Char}
    {found : List Nat}
    (h : readEscape e behind = some (found, next)) :
    readBody quote ('\\' :: e :: behind) =
      (readBody quote next).map fun (others, left) => (found ++ others, left) := by
  rw [readBody, if_neg hquote.symm, if_pos rfl]
  split
  · rename_i hnone
    rw [h] at hnone
    cases hnone
  · rename_i hfound
    rw [h] at hfound
    cases hfound
    rfl

/-- **What stands for a character is read as that character**, whatever follows. -/
lemma readBody_escapeChar (hquote : quote = '\'' ∨ quote = '"') (c : Char) :
    readBody quote (Text.escapeChar quote c ++ rest) =
      (readBody quote rest).map fun (others, left) => (pointUnits c.toNat ++ others, left) := by
  have hbackslash : quote ≠ '\\' := by rcases hquote with rfl | rfl <;> decide
  unfold Text.escapeChar
  split_ifs with h₁ h₂ h₃ h₄ h₅ h₆
  · subst h₁
    exact readBody_escape hbackslash rfl
  · subst h₂
    rcases hquote with rfl | rfl <;> exact readBody_escape hbackslash rfl
  · subst h₃
    exact readBody_escape hbackslash rfl
  · subst h₄
    exact readBody_escape hbackslash rfl
  · rw [h₅]
    exact readBody_escape hbackslash rfl
  · rw [h₆]
    exact readBody_escape hbackslash rfl
  · rw [List.singleton_append, readBody.eq_def]
    simp only [if_neg h₂, if_neg h₁, if_neg (not_or_intro h₃ h₄)]

lemma readBody_escaped (hquote : quote = '\'' ∨ quote = '"') (value : List Char) :
    readBody quote (Text.escape quote value ++ quote :: rest) = some (units value, rest) := by
  induction value with
  | nil =>
      show readBody quote (quote :: rest) = _
      rw [readBody.eq_def]
      exact if_pos rfl
  | cons c value ih =>
      rw [Text.escape, List.flatMap_cons, List.append_assoc, readBody_escapeChar hquote]
      rw [show readBody quote (value.flatMap (Text.escapeChar quote) ++ quote :: rest) = _ from ih]
      rfl

/-- No character is written so that it ends a line. -/
lemma not_isLineTerminator_of_mem_escapeChar (hquote : quote = '\'' ∨ quote = '"') {c d : Char}
    (h : d ∈ Text.escapeChar quote c) : isLineTerminator d = false := by
  have hfixed : ∀ text : List Char, text.any isLineTerminator = false →
      d ∈ text → isLineTerminator d = false := fun text hnone hmem =>
    eq_false_of_ne_true fun hd => by
      rw [List.any_eq_true.mpr ⟨d, hmem, hd⟩] at hnone
      cases hnone
  unfold Text.escapeChar at h
  split_ifs at h with h₁ h₂ h₃ h₄ h₅ h₆
  · exact hfixed _ (by decide) h
  · subst h₂
    rcases hquote with rfl | rfl <;> exact hfixed _ (by decide) h
  · exact hfixed _ (by decide) h
  · exact hfixed _ (by decide) h
  · exact hfixed _ (by decide) h
  · exact hfixed _ (by decide) h
  · -- the four characters that end a line were escaped before
    obtain rfl := List.mem_singleton.mp h
    simp [isLineTerminator, h₃, h₄, h₅, h₆]

/-- **A quoted text is read back.**  Whatever text follows, a lexer reads exactly the literal, finds
the code units of the value, and leaves the text that follows; and no line ends in the literal. -/
theorem read_quoted (style : QuoteStyle) (value rest : String) :
    read (Text.quoted style.char value ++ rest).toList =
        some (units value.toList, rest.toList) ∧
      ∀ c ∈ (Text.quoted style.char value).toList, isLineTerminator c = false := by
  have hquote : style.char = '\'' ∨ style.char = '"' := by cases style <;> simp [QuoteStyle.char]
  have htext : (Text.quoted style.char value).toList =
      style.char :: Text.escape style.char value.toList ++ [style.char] := String.toList_ofList
  constructor
  · rw [String.toList_append, htext, List.append_assoc, List.singleton_append, List.cons_append, read,
      if_pos hquote]
    exact readBody_escaped hquote value.toList
  · intro c hc
    have hstyle : isLineTerminator style.char = false := by cases style <;> rfl
    rw [htext, List.mem_append, List.mem_cons, List.mem_singleton] at hc
    obtain (rfl | hc) | rfl := hc
    · exact hstyle
    · obtain ⟨d, -, hd⟩ := List.mem_flatMap.mp hc
      exact not_isLineTerminator_of_mem_escapeChar hquote hd
    · exact hstyle

end StringLiteral

end EstreePrinter

import Mathlib
import EstreePrinter.Node
import EstreePrinter.Proofs.Outcome

/-!
# Trees whose texts stay on a line

`Json.isInline` asks of a tree that no text in it has a line feed, but for the texts of literals and
of the pieces of templates (`literalKeys`), which are printed as they are and may take several
lines.

A rule that prints a text of such a tree, in whatever form it is shown, prints no line feed
(`lineFeed_notMem_display`).
-/

namespace EstreePrinter

namespace Json

/-- The fields that hold the text of a literal or of a piece of a template. -/
def literalKeys : List String := ["raw", "value", "cooked", "pattern", "flags", "bigint"]

/-- Whether a value is a text. -/
def isString : Json → Bool
  | .str _ => true
  | _ => false

mutual

/-- Whether no text in a value has a line feed, but for those of literals and of templates. -/
def isInline : Json → Bool
  | .str s => !s.toList.contains '\n'
  | .arr items => areInline items
  | .obj fields => haveInline fields
  | _ => true

/-- The same for the elements of a list. -/
def areInline : List Json → Bool
  | [] => true
  | v :: rest => v.isInline && areInline rest

/-- The same for the fields of an object. -/
def haveInline : List (String × Json) → Bool
  | [] => true
  | (key, v) :: rest =>
    !key.toList.contains '\n' && (v.isInline || (literalKeys.contains key && v.isString)) &&
      haveInline rest

end

/-- A value that is such a tree, or a text of any kind. -/
def IsTidy (v : Json) : Prop := v.isString = true ∨ v.isInline = true

lemma isInline_of_mem {items : List Json} (h : areInline items = true) {v : Json} (hv : v ∈ items) :
    v.isInline = true := by
  induction items with
  | nil => cases hv
  | cons w rest ih =>
      rw [areInline, Bool.and_eq_true] at h
      rcases List.mem_cons.mp hv with rfl | hv
      · exact h.1
      · exact ih h.2 hv

/-- What a field of such a tree is called, and what it holds. -/
lemma haveInline_of_mem {fields : List (String × Json)} (h : haveInline fields = true)
    {key : String} {v : Json} (hv : (key, v) ∈ fields) :
    '\n' ∉ key.toList ∧ (v.isInline = true ∨ (key ∈ literalKeys ∧ v.isString = true)) := by
  induction fields with
  | nil => cases hv
  | cons field rest ih =>
      obtain ⟨k, w⟩ := field
      simp only [haveInline, Bool.and_eq_true, Bool.or_eq_true, Bool.not_eq_true',
        List.contains_eq_mem, decide_eq_false_iff_not, decide_eq_true_eq] at h
      rcases List.mem_cons.mp hv with heq | hv
      · obtain ⟨rfl, rfl⟩ := Prod.mk.inj heq
        exact h.1
      · exact ih h.2 hv

/-- **What is inside of such a tree** is such a tree, or a text. -/
lemma IsTidy.inside {v w : Json} (h : w.IsTidy) (hv : v.Inside w) : v.IsTidy := by
  have hchild {v w : Json} (h : w.IsTidy) (hv : Child v w) : v.IsTidy := by
    cases hv with
    | element hmem =>
        rcases h with h | h
        · cases h
        · exact Or.inr (isInline_of_mem h hmem)
    | field hmem =>
        rcases h with h | h
        · cases h
        · exact (haveInline_of_mem h hmem).2.elim Or.inr fun h => Or.inl h.2
    | key hmem => exact Or.inl rfl
  induction hv using Relation.TransGen.head_induction_on with
  | single hv => exact hchild h hv
  | head hv _ ih => exact hchild ih hv

/-! ## What is read from such a tree -/

/-- A field that is no text of a literal. -/
lemma isInline_of_field? {node : Json} (h : node.IsTidy) {key : String} (hkey : key ∉ literalKeys)
    {part : Part node} (hpart : node.field? key = some part) : part.1.isInline = true := by
  cases node with
  | obj fields =>
      obtain ⟨found, -, rfl⟩ := Option.map_eq_some_iff.mp hpart
      rcases h with h | h
      · cases h
      · exact (haveInline_of_mem h found.2).2.elim id fun h => absurd h.1 hkey
  | _ => cases hpart

lemma isInline_of_require {node : Json} (h : node.IsTidy) {key : String} (hkey : key ∉ literalKeys)
    {part : Part node} (hpart : node.require key = .ok part) : part.1.isInline = true := by
  unfold require at hpart
  split at hpart
  · split at hpart
    · rename_i found hfound
      obtain rfl : found = part := Except.ok.inj hpart
      exact isInline_of_field? h hkey hfound
    · cases hpart
  · cases hpart

lemma isInline_of_getValue {node v : Json} (h : node.IsTidy) {key : String}
    (hkey : key ∉ literalKeys) (hv : node.getValue key = .ok v) : v.isInline = true := by
  obtain ⟨found, hfound, hv⟩ := bind_eq_ok_iff.mp hv
  cases found with
  | none =>
      obtain rfl : Json.null = v := Except.ok.inj hv
      rfl
  | some part =>
      obtain rfl : part.1 = v := Except.ok.inj hv
      unfold get at hfound
      split at hfound
      · exact isInline_of_field? h hkey (Except.ok.inj hfound)
      · cases hfound

/-- **What a value tells of its lines**: it has a line feed just if it is a text with one. -/
def TellsLines (content : Json) : Prop :=
  ∀ b, content.hasLineFeed = .ok b → (b = true ↔ ∃ s, content = .str s ∧ '\n' ∈ s.toList)

lemma tellsLines_str (s : String) : (Json.str s).TellsLines := by
  intro b hb
  obtain rfl : s.toList.contains '\n' = b := Except.ok.inj hb
  simp

/-- Only texts have a line feed of their own. -/
lemma IsTidy.tellsLines {content : Json} (h : content.IsTidy) : content.TellsLines := by
  cases content with
  | str s => exact tellsLines_str s
  | arr items =>
      intro b hb
      obtain rfl : (items.any fun v => v.isText "\n") = b := Except.ok.inj hb
      have hnone : (items.any fun v => v.isText "\n") = false := by
        refine List.any_eq_false.mpr fun v hv htext => ?_
        rcases h with h | h
        · cases h
        · have hinline := isInline_of_mem h hv
          cases v with
          | str s =>
              obtain rfl : s = "\n" := by simpa [isText] using htext
              exact absurd hinline (by decide)
          | _ => cases htext
      simp [hnone]
  | obj fields =>
      intro b hb
      obtain rfl : ((fields.map fun f => Json.str f.1).any fun v => v.isText "\n") = b :=
        Except.ok.inj hb
      have hnone : ((fields.map fun f => Json.str f.1).any fun v => v.isText "\n") = false := by
        refine List.any_eq_false.mpr fun v hv htext => ?_
        obtain ⟨field, hfield, rfl⟩ := List.mem_map.mp hv
        rcases h with h | h
        · cases h
        · have hkey : field.1 = "\n" := by simpa [isText] using htext
          exact (haveInline_of_mem h hfield).1 (by rw [hkey]; decide)
      simp [hnone]
  | _ =>
      intro b hb
      cases hb

/-! ## Shown values -/

lemma digitChar_ne_lineFeed (n : Nat) : n.digitChar ≠ '\n' := by
  by_cases h : n < 16
  · have hall : ∀ n < 16, n.digitChar ≠ '\n' := by decide
    exact hall n h
  · obtain ⟨m, rfl⟩ := Nat.exists_eq_add_of_le (not_lt.mp h)
    rw [Nat.add_comm]
    have hstar : (m + 16).digitChar = '*' := rfl
    rw [hstar]
    decide

lemma lineFeed_notMem_toDigits (base n : Nat) : '\n' ∉ Nat.toDigits base n := by
  have hcore (fuel n : Nat) {rest : List Char} (hrest : '\n' ∉ rest) :
      '\n' ∉ Nat.toDigitsCore base fuel n rest := by
    induction fuel generalizing n rest with
    | zero => exact hrest
    | succ fuel ih =>
        have hcons : '\n' ∉ (n % base).digitChar :: rest := by
          rw [List.mem_cons, not_or]
          exact ⟨(digitChar_ne_lineFeed _).symm, hrest⟩
        rw [Nat.toDigitsCore]
        split
        · exact hcons
        · exact ih _ hcons
  exact hcore _ _ List.not_mem_nil

lemma lineFeed_notMem_shownChar {quote : Char} (hquote : quote ≠ '\n') (c : Char) :
    '\n' ∉ shownChar quote c := by
  have hhex (width n : Nat) : '\n' ∉ hexDigits width n := by
    simp only [hexDigits, List.mem_append, not_or]
    exact ⟨fun h => absurd (List.eq_of_mem_replicate h) (by decide), lineFeed_notMem_toDigits _ _⟩
  unfold shownChar
  split_ifs with hself hfeed
  · rcases hself with rfl | rfl
    · simpa [eq_comm] using hquote
    · decide
  · decide
  · decide
  · decide
  · simpa [eq_comm] using hfeed
  · simpa using hhex 2 _
  · simpa using hhex 4 _
  · simpa using hhex 8 _

lemma lineFeed_notMem_shownText (s : String) : '\n' ∉ (shownText s).toList := by
  have hquote (quote : Char) (h : quote ≠ '\n') :
      '\n' ∉ (String.ofList (quote :: s.toList.flatMap (shownChar quote) ++ [quote])).toList := by
    have hbody : '\n' ∉ s.toList.flatMap (shownChar quote) := fun hmem => by
      obtain ⟨c, -, hc⟩ := List.mem_flatMap.mp hmem
      exact lineFeed_notMem_shownChar h c hc
    simp [hbody, eq_comm, h]
  have hne (double : Bool) : (if double then '"' else '\'') ≠ '\n' := by
    cases double <;> decide
  exact hquote _ (hne _)

lemma lineFeed_notMem_write (x : Float) : '\n' ∉ (floatStyle.write x).toList := by
  have hzeros (n : Nat) : '\n' ∉ Decimal.zeros n := fun h =>
    absurd (List.eq_of_mem_replicate h) (by decide)
  have hexponent (width : Nat) (e : Int) : '\n' ∉ Decimal.exponentText width e := by
    simp only [Decimal.exponentText, List.mem_cons, List.mem_append, not_or]
    refine ⟨⟨by decide, ?_, hzeros _⟩, lineFeed_notMem_toDigits _ _⟩
    split <;> decide
  have hdigits (d : Decimal.Scientific) : '\n' ∉ floatStyle.digits d := by
    have hall := lineFeed_notMem_toDigits 10 d.digits
    have htake (n : Nat) : '\n' ∉ (Nat.toDigits 10 d.digits).take n := fun h =>
      hall (List.mem_of_mem_take h)
    have hdrop (n : Nat) : '\n' ∉ (Nat.toDigits 10 d.digits).drop n := fun h =>
      hall (List.mem_of_mem_drop h)
    simp only [Decimal.Style.digits]
    split_ifs
    · simp [hzeros, hall]
    · simp [hzeros, hall]
    · simp [htake, hdrop]
    · refine fun h => (List.mem_append.mp h).elim ?_ (hexponent _ _)
      split
      · rename_i heq
        rw [heq] at hall
        simpa [not_or] using hall
      · exact hall
  unfold Decimal.Style.write
  split
  · decide
  · split <;> decide
  · rename_i negative m q _
    have htext : '\n' ∉ (if m = 0 then ['0', '.', '0']
        else floatStyle.digits (Decimal.shortest m q)) := by
      split
      · decide
      · exact hdigits _
    rw [String.toList_ofList]
    split
    · simpa using htext
    · exact htext

lemma lineFeed_notMem_intercalate {texts : List String} (h : ∀ text ∈ texts, '\n' ∉ text.toList) :
    '\n' ∉ (String.intercalate ", " texts).toList := by
  rw [String.toList_intercalate]
  induction texts with
  | nil => simp
  | cons text rest ih =>
      have htext := h text List.mem_cons_self
      have hrest := ih fun t ht => h t (List.mem_cons_of_mem _ ht)
      cases rest with
      | nil => simpa using htext
      | cons next rest =>
          have hsplit : (", ".toList).intercalate ((text :: next :: rest).map String.toList) =
              text.toList ++ ", ".toList ++
                (", ".toList).intercalate ((next :: rest).map String.toList) := by
            simp [List.intercalate]
          rw [hsplit]
          simp only [List.mem_append, not_or]
          exact ⟨⟨htext, by decide⟩, hrest⟩

mutual

/-- **A value that is shown** has no line feed in it. -/
lemma lineFeed_notMem_shown (v : Json) : '\n' ∉ v.shown.toList := by
  cases v with
  | null => simp [shown]
  | bool b => cases b <;> simp [shown]
  | int n =>
      rw [shown]
      cases n with
      | ofNat m =>
          show '\n' ∉ m.repr.toList
          rw [Nat.toList_repr]
          exact lineFeed_notMem_toDigits _ _
      | negSucc m =>
          show '\n' ∉ ("-" ++ m.succ.repr).toList
          rw [String.toList_append, Nat.toList_repr]
          have hdigits := lineFeed_notMem_toDigits 10 m.succ
          simpa using hdigits
  | float x => simpa [shown] using lineFeed_notMem_write x
  | str s => simpa [shown] using lineFeed_notMem_shownText s
  | arr items =>
      have hitems := lineFeed_notMem_intercalate (lineFeed_notMem_shownItems items)
      simpa [shown] using hitems
  | obj fields =>
      have hfields := lineFeed_notMem_intercalate (lineFeed_notMem_shownFields fields)
      simpa [shown] using hfields

lemma lineFeed_notMem_shownItems (items : List Json) :
    ∀ text ∈ shownItems items, '\n' ∉ text.toList := by
  cases items with
  | nil => simp [shownItems]
  | cons v rest =>
      rw [shownItems, List.forall_mem_cons]
      exact ⟨lineFeed_notMem_shown v, lineFeed_notMem_shownItems rest⟩

lemma lineFeed_notMem_shownFields (fields : List (String × Json)) :
    ∀ text ∈ shownFields fields, '\n' ∉ text.toList := by
  cases fields with
  | nil => simp [shownFields]
  | cons field rest =>
      obtain ⟨key, v⟩ := field
      rw [shownFields, List.forall_mem_cons]
      refine ⟨?_, lineFeed_notMem_shownFields rest⟩
      have hkey := lineFeed_notMem_shownText key
      have hv := lineFeed_notMem_shown v
      simpa using ⟨hkey, hv⟩

end

lemma lineFeed_notMem_display {v : Json} (h : v.isInline = true) : '\n' ∉ v.display.toList := by
  cases v with
  | str s => simpa [isInline, display] using h
  | _ => exact lineFeed_notMem_shown _

end Json

end EstreePrinter

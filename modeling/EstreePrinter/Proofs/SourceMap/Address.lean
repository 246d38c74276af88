import Mathlib
import EstreePrinter.SourceMap
import EstreePrinter.Proofs.Json.RoundTrip
import EstreePrinter.Proofs.Text.Base64

/-!
# Reading the address of a map

The address of a map is its document, three times encoded: as JSON text, as bytes in UTF-8, and in
Base64.  `SourceMap.documentOf?` takes the three encodings off again, each by a reader of its own,
and `documentOf?_address` says that this gives the document back, whatever texts and whole numbers
are in it.
-/

namespace EstreePrinter

/-- The list of a text's bytes is all there is of them. -/
lemma mk_toArray_toList (bytes : ByteArray) : ByteArray.mk bytes.toList.toArray = bytes := by
  -- the bytes are collected one by one, so the induction is on how many are left
  have hloop (left i : Nat) (done : List UInt8) (h : bytes.size - i = left) :
      ByteArray.toList.loop bytes i done = done.reverse ++ bytes.data.toList.drop i := by
    induction left generalizing i done with
    | zero =>
        have hend : bytes.data.toList.length ≤ i := by
          rw [Array.length_toList]
          exact Nat.sub_eq_zero_iff_le.mp h
        have hstop : ¬ i < bytes.size := by omega
        rw [ByteArray.toList.loop.eq_1, if_neg hstop, List.drop_of_length_le hend, List.append_nil]
    | succ left ih =>
        have hlt : i < bytes.size := by omega
        have hlist : i < bytes.data.toList.length := by rwa [Array.length_toList]
        have hget : bytes.get! i = bytes.data.toList[i] := by
          rw [Array.getElem_toList]
          exact getElem!_pos bytes.data i hlt
        rw [ByteArray.toList.loop.eq_1, if_pos hlt, ih _ _ (by omega), List.reverse_cons,
          List.append_assoc, List.drop_eq_getElem_cons hlist, List.singleton_append, hget]
  rw [ByteArray.toList, hloop _ 0 [] rfl, List.reverse_nil, List.nil_append, List.drop_zero,
    Array.toArray_toList]

namespace SourceMap

/-- The document that an address stands for. -/
def documentOf? (address : String) : Option Json := do
  let digits ← Json.Reader.dropWord? addressStart address.toList
  let bytes ← Base64.decode? digits
  let text ← String.fromUTF8? ⟨bytes.toArray⟩
  (Json.readAs { maxDigits := none } text.toList).toOption

/-- A list of texts, where each may be left out. -/
def IsTexts (v : Json) : Prop :=
  ∃ texts : List (Option String), v = .arr (texts.map fun text => text.elim .null .str)

/-- A map as the format describes it: its mappings are in compact form or lists of segments, which
are lists of whole numbers. -/
structure IsStandard (m : SourceMap) : Prop where
  mappings : (∃ text, m.mappings = .str text) ∨
    ∃ lines : List (List (List Int)), m.mappings = Segment.mappingsToJson lines
  sources : IsTexts m.sources
  sourcesContent : IsTexts m.sourcesContent
  names : IsTexts m.names
  version : ∃ n, m.version = .int n

lemma areExact_of_forall {limit : Option Nat} {items : List Json}
    (h : ∀ v ∈ items, v.IsExact limit) : Json.AreExact limit items := by
  induction items with
  | nil => trivial
  | cons v rest ih =>
      rw [List.forall_mem_cons] at h
      exact ⟨h.1, ih h.2⟩

lemma isExact_of_isTexts {v : Json} (h : IsTexts v) : v.IsExact none := by
  obtain ⟨texts, rfl⟩ := h
  refine areExact_of_forall fun v hv => ?_
  obtain ⟨text, -, rfl⟩ := List.mem_map.mp hv
  cases text <;> trivial

lemma isExact_mappingsToJson (lines : List (List (List Int))) :
    (Segment.mappingsToJson lines).IsExact none := by
  refine areExact_of_forall fun line hline => ?_
  obtain ⟨segments, -, rfl⟩ := List.mem_map.mp hline
  refine areExact_of_forall fun segment hsegment => ?_
  obtain ⟨numbers, -, rfl⟩ := List.mem_map.mp hsegment
  refine areExact_of_forall fun number hnumber => ?_
  obtain ⟨n, -, rfl⟩ := List.mem_map.mp hnumber
  exact fun most hmost => absurd hmost (Option.not_mem_none most)

lemma IsStandard.isExact {m : SourceMap} (h : m.IsStandard) : m.toJson.IsExact none := by
  obtain ⟨n, hversion⟩ := h.version
  have hmappings : m.mappings.IsExact none := by
    rcases h.mappings with ⟨text, htext⟩ | ⟨lines, hlines⟩
    · rw [htext]
      trivial
    · rw [hlines]
      exact isExact_mappingsToJson lines
  refine ⟨?_, ?_, isExact_of_isTexts h.names, isExact_of_isTexts h.sources,
    isExact_of_isTexts h.sourcesContent, hmappings, trivial⟩
  · have hkeys : ["version", "names", "sources", "sourcesContent", "mappings"].Nodup := by decide
    exact hkeys
  · rw [hversion]
    exact fun most hmost => absurd hmost (Option.not_mem_none most)

lemma dropWord?_append (word : String) (rest : List Char) :
    Json.Reader.dropWord? word (word.toList ++ rest) = some rest := by
  have hprefix : word.toList.isPrefixOf (word.toList ++ rest) = true :=
    List.isPrefixOf_iff_prefix.mpr (List.prefix_append _ _)
  rw [Json.Reader.dropWord?, if_pos hprefix, ← String.length_toList, List.drop_left]

/-- **The document is read back from its address.** -/
theorem documentOf?_address (m : SourceMap) (h : m.IsStandard) :
    documentOf? m.address = some m.toJson := by
  have hbytes : Base64.decode? (Base64.encode m.text.toUTF8.toList) = some m.text.toUTF8.toList :=
    Base64.decode?_encode _
  have htext : String.fromUTF8? ⟨m.text.toUTF8.toList.toArray⟩ = some m.text := by
    rw [mk_toArray_toList]
    have hvalid : m.text.toUTF8.IsValidUTF8 := m.text.isValidUTF8
    rw [String.fromUTF8?, dif_pos hvalid]
    rfl
  have hstart : Json.Reader.dropWord? addressStart m.address.toList =
      some (Base64.encode m.text.toUTF8.toList) := by
    rw [address, String.toList_append, String.toList_ofList, dropWord?_append]
  have hdocument : Json.readAs { maxDigits := none } m.text.toList = .ok m.toJson :=
    Json.readAs_write h.isExact
  rw [documentOf?, hstart, Option.bind_eq_bind, Option.bind_some, hbytes, Option.bind_eq_bind,
    Option.bind_some, htext, Option.bind_eq_bind, Option.bind_some, hdocument]
  rfl

/-- A map with quotes, a backslash, control characters and characters of two, three and four bytes,
and with numbers below zero and above all machine words. -/
def crowdedMap : SourceMap where
  mappings := Segment.mappingsToJson [[[0, 0, -1, 18446744073709551616], [4]], [], [[-7]]]
  sources := .arr [.str "a\"b\\c/d.js", .null]
  sourcesContent := .arr [.str "é\n\x01中😀\t", .str ""]

theorem documentOf?_address_crowdedMap : crowdedMap.IsStandard ∧
    documentOf? crowdedMap.address = some crowdedMap.toJson := by
  have h : crowdedMap.IsStandard :=
    { mappings := .inr ⟨_, rfl⟩
      sources := ⟨[some "a\"b\\c/d.js", none], rfl⟩
      sourcesContent := ⟨[some "é\n\x01中😀\t", some ""], rfl⟩
      names := ⟨[], rfl⟩
      version := ⟨3, rfl⟩ }
  exact ⟨h, documentOf?_address crowdedMap h⟩

end SourceMap

end EstreePrinter

import Mathlib
import EstreePrinter.Proofs.Grammar.AccessTree
import EstreePrinter.Proofs.Grammar.Printed
import EstreePrinter.Printer

/-!
# Printed accesses and calls are read back

**The invariant.**  `PrintsAccess s node e` says that what is printed for a node is a passage from
which the tree `e` is derived at its level.  There is one lemma for each kind of node; the three
kinds of links share `prints_link`.

**The result.**  `handle_access`: what is printed for a tree of accesses and calls is read as
tokens, and the tokens derive the tree, if every `new` of the tree sees the call in its head.  A
`new` that misses one is printed without the parentheses it needs (`new_misses_call`).
-/

namespace EstreePrinter

namespace Grammar

open Json (Part)
open Render (Gives read_bind tree_of_isPlain partsOf)

/-- The signs of expressions, and where they stand beside accesses and calls.  A closing brace is no
sign of its own here but goes on with a template. -/
def accessAlphabet : Alphabet where
  signs := punctuators.erase "\x7d"
  plain := plain_punctuators
  openers := ["("]
  closers := [")", "]"]
  before := ["(", "[", "?."]
  behind := [")", "]", ",", ".", "?.", "[", "("]
  mem_signs := by decide
  apart_before := by decide
  apart_behind := by decide

/-! ## Passages of accesses and calls -/

section Passages

variable {e : Access} {k : Link} {ls ms : List Lexeme}

lemma passage_parens (h : Passage accessAlphabet (DerivesAccess .leftHand · e) ls) :
    Passage accessAlphabet (DerivesAccess .member · e)
      (.token "(" :: (ls ++ [Lexeme.token ")"])) := by
  exact h.content.bracketed (by decide) (by decide) (by decide) (by decide)
    fun _ _ _ hts => .unit (m := .primary) (by decide) (.parens hts)

/-- A link, with the mark that it is optional before it. -/
lemma suffix_optional (h : Suffix accessAlphabet (DerivesLink false · k) ms)
    (hk : ∀ p, k ≠ .member p) (isOptional : Bool) :
    Suffix accessAlphabet (DerivesLink isOptional · k)
      ((if isOptional then [.token "?."] else []) ++ ms) := by
  cases isOptional with
  | false => exact h
  | true => exact h.behindSign (by decide) (by decide) fun _ hts => .optional hts hk

/-- **A tree goes on with a link** at the level of its head, or at a higher one. -/
lemma DerivesAccess.linked {isOptional : Bool} {ts us : List Token}
    (h : DerivesAccess e.headLevel ts e) (hk : DerivesLink isOptional us k) :
    DerivesAccess (Access.link isOptional e k).level (ts ++ us) (.link isOptional e k) := by
  cases isOptional with
  | true =>
      have hl : e.headLevel = .member ∨ e.headLevel = .call ∨ e.headLevel = .optional := by
        cases hopen : e.isOpen with
        | true => simp [Access.headLevel_of_isOpen hopen]
        | false => exact (Access.headLevel_cases hopen).imp_right Or.inl
      exact .optional hl h hk
  | false =>
      cases hopen : e.isOpen with
      | true =>
          have hlevel : (Access.link false e k).level = .optional := by
            simp [Access.level, Access.isChain, Access.headLevel, Access.isOpen, hopen]
          rw [Access.headLevel_of_isOpen hopen] at h
          exact hlevel ▸ .further h hk
      | false =>
          have hl := Access.headLevel_cases hopen
          cases hcall : k.isCall with
          | true =>
              have hlevel : (Access.link false e k).level = .call := by
                simp [Access.level, Access.isChain, Access.headLevel, Access.isOpen,
                  Access.hidesCall, hopen, hcall]
              exact hlevel ▸ .call hl h hk hcall
          | false =>
              have hlevel : (Access.link false e k).level = e.headLevel := by
                simp [Access.level, Access.isChain, Access.headLevel, Access.isOpen,
                  Access.hidesCall, hopen, hcall]
              exact hlevel ▸ .access hl h hk hcall

/-- What a whole tree, or the head of a link, is derived at is enough for a tag. -/
lemma DerivesAccess.withTemplate {ts us : List Token} {texts : List String} {holes : List Access}
    (hwhole : e.IsWhole) (h : DerivesAccess e.headLevel ts e)
    (hquasi : DerivesTemplate "`" us texts holes) :
    DerivesAccess (Access.tagged e texts holes).level (ts ++ us) (.tagged e texts holes) := by
  have hopen : e.isOpen = false := hwhole
  have hlevel : (Access.tagged e texts holes).level = e.headLevel := by
    simp [Access.level, Access.isChain, Access.headLevel, Access.isOpen, Access.hidesCall, hopen]
  exact hlevel ▸ .tagged (Access.headLevel_cases hopen) h hquasi

/-- A whole tree is a left-hand side. -/
lemma passage_leftHand (h : Passage accessAlphabet (DerivesAccess e.level · e) ls)
    (hwhole : e.IsWhole) : Passage accessAlphabet (DerivesAccess .leftHand · e) ls :=
  h.mono fun _ hts => hts.leftHand hwhole

end Passages

/-! ## Templates -/

/-- The lexemes of a template from the character `front` on. -/
def templateLexemes : String → List String → List (List Lexeme) → List Lexeme
  | front, raw :: texts, ls :: lss =>
    .token (front ++ raw ++ "$\x7b") :: (ls ++ templateLexemes "\x7d" texts lss)
  | front, raw :: _, [] => [.token (front ++ raw ++ "`")]
  | _, [], _ => []

/-- **A template**, put together from what stands in its holes. -/
lemma suffix_template {front : String} (hfront : front = "`" ∨ front = "\x7d")
    {texts : List String} (htexts : ∀ raw ∈ texts, IsRaw raw) {lss : List (List Lexeme)}
    {holes : List Access}
    (h : List.Forall₂ (fun ls e => Passage accessAlphabet (DerivesAccess .leftHand · e) ls) lss
      holes)
    (hcount : texts.length = holes.length + 1) :
    Suffix accessAlphabet (DerivesTemplate front · texts holes)
      (templateLexemes front texts lss) := by
  induction h generalizing front texts with
  | nil =>
      obtain ⟨raw, rfl⟩ := List.length_eq_one_iff.mp (by simpa using hcount)
      have hraw := htexts raw (by simp)
      have htoken := isTemplate_of_isRaw hraw hfront (Or.inl (Eq.refl "`"))
      exact ⟨legible_token (Or.inr (Or.inr htoken)), ⟨_, rfl, Or.inr htoken⟩,
        ⟨_, rfl, Or.inr (Or.inr htoken)⟩, .last hraw⟩
  | @cons ls e lss holes hls hlss ih =>
      obtain ⟨raw, texts, rfl⟩ := List.exists_cons_of_length_eq_add_one hcount
      have hraw := htexts raw (by simp)
      have htoken := isTemplate_of_isRaw hraw hfront (Or.inr (Eq.refl "$\x7b"))
      have htexts' : ∀ raw ∈ texts, IsRaw raw := fun raw hmem => htexts raw (by simp [hmem])
      have hrest := ih (Or.inr (Eq.refl "\x7d")) htexts' (by simpa using hcount)
      have hboth : Passage accessAlphabet (fun ts => ∃ us vs, ts = us ++ vs ∧
          DerivesAccess .leftHand us e ∧ DerivesTemplate "\x7d" vs texts holes)
          (ls ++ templateLexemes "\x7d" texts lss) :=
        hls.followedBy hrest fun us vs hus hvs => ⟨us, vs, rfl, hus, hvs⟩
      refine ⟨hboth.legible.lead (Or.inr htoken) (Or.inl hboth.starts), ⟨_, rfl, Or.inr htoken⟩,
        hboth.ends.append [_], ?_⟩
      obtain ⟨us, vs, htokens, hus, hvs⟩ := hboth.holds false
      simp only [templateLexemes, tokensOf, htokens]
      exact .hole hraw hus hvs

/-- The same lexemes as they are printed: the signs of a hole are texts of their own. -/
def templatePieces : List String → List (List Lexeme) → List Lexeme
  | raw :: texts, ls :: lss =>
    .token raw :: .token "$\x7b" :: (ls ++ .token "\x7d" :: templatePieces texts lss)
  | raw :: _, [] => [.token raw]
  | [], _ => []

/-- The printed pieces look like the lexemes of a template. -/
lemma renders_templateLexemes {front : String} {texts : List String} {lss : List (List Lexeme)}
    (hcount : texts.length = lss.length + 1) {text : List Char}
    (h : Renders (.token front :: (templatePieces texts lss ++ [Lexeme.token "`"])) text) :
    Renders (templateLexemes front texts lss) text := by
  induction lss generalizing front texts text with
  | nil =>
      obtain ⟨raw, rfl⟩ := List.length_eq_one_iff.mp (by simpa using hcount)
      exact h.fuse.fuse
  | cons ls lss ih =>
      obtain ⟨raw, texts, rfl⟩ := List.exists_cons_of_length_eq_add_one hcount
      simp only [templatePieces, List.cons_append, List.append_assoc] at h
      obtain ⟨first, others, rfl, hfirst, hothers⟩ := h.fuse.fuse
      obtain ⟨inside, rest, rfl, hinside, hrest⟩ := renders_append_iff.mp hothers
      exact ⟨first, _, rfl, hfirst,
        hinside.append (ih (by simpa using hcount) hrest)⟩

section Printed

variable {s : Setting} {node : Json}

/-- The element of a list at an index. -/
lemma element_arr {items : List Json} {hinside : (Json.arr items).Inside node}
    {list : List (Part node)} (hlist : Json.parts (⟨.arr items, hinside⟩ : Part node) = .ok list)
    (i : Nat) : Json.element (⟨.arr items, hinside⟩ : Part node) i = .ok list[i]? := by
  have hlength : list.length = items.length := by
    obtain ⟨list', hlist', hval⟩ := parts_arr hinside
    obtain rfl : list' = list := Except.ok.inj (hlist'.symm.trans hlist)
    rw [← hval, List.length_map]
  by_cases hi : i < items.length
  · simp [Json.element, Json.length?, orMalformed, hi, hlist]
  · simp [Json.element, Json.length?, orMalformed, hi, hlength]

/-- **The texts of a template with its holes**, from some text on. -/
lemma gives_quasis {items : List Json} {hinside : (Json.arr items).Inside node}
    {list : List (Part node)} (hlist : Json.parts (⟨.arr items, hinside⟩ : Part node) = .ok list)
    {quasis : List (Part node)} {texts : List String}
    (htexts : List.Forall₂ (fun quasi raw => quasi.1.IsQuasi raw) quasis texts) {i : Nat}
    {lss : List (List Lexeme)}
    (hholes : List.Forall₂ (fun part ls => Gives s ((partsOf node).value part) ls) (list.drop i)
      lss)
    (hcount : texts.length = lss.length + 1) :
    Gives s (Rules.quasis Render.chunk (partsOf node).value ⟨.arr items, hinside⟩ i quasis)
      (templatePieces texts lss) := by
  induction htexts generalizing i lss with
  | nil => simp at hcount
  | @cons quasi raw quasis texts hquasi hquasis ih =>
      obtain ⟨value, ⟨hin, hvalue⟩, hin', hraw⟩ := hquasi.value
      have hcontent : Rules.quasiText quasi.1 = .ok (.str raw) := by
        simp [Rules.quasiText, hvalue, hraw]
      have hfeed : (Json.str raw).hasLineFeed = .ok (raw.toList.contains '\n') := rfl
      have hmark : Gives s (Render.raiseIf (raw.toList.contains '\n')) [] :=
        ⟨_, rfl, rfl, Command.spells_nil⟩
      rw [Rules.quasis, read_bind hcontent]
      simp only [read_bind hfeed, Rules.hole, read_bind (element_arr hlist i)]
      cases lss with
      | nil =>
          obtain rfl : texts = [] := by simpa using hcount
          cases hquasis
          have hend : list[i]? = none := by
            rw [← List.head?_drop, List.forall₂_nil_right_iff.mp hholes]
            rfl
          simp only [hend]
          exact (gives_chunk hquasi.placed).andThen (hmark.andThen
            (Render.gives_pure.andThen Render.gives_pure))
      | cons ls lss =>
          cases hdrop : list.drop i with
          | nil =>
              rw [hdrop] at hholes
              cases hholes
          | cons part rest =>
              rw [hdrop] at hholes
              cases hholes with
              | cons hpart hrest =>
                  have hhere : list[i]? = some part := by
                    rw [← List.head?_drop, hdrop]
                    rfl
                  have hnext : list.drop (i + 1) = rest := by
                    rw [← List.tail_drop, hdrop]
                    rfl
                  have hopen := Render.gives_text (s := s) (t := "$\x7b") [.token "$\x7b"] rfl
                    (by simp)
                  have hclose := Render.gives_text (s := s) (t := "\x7d") [.token "\x7d"] rfl
                    (by simp)
                  rw [← hnext] at hrest
                  have hothers := ih hrest (by simpa using hcount)
                  simp only [hhere]
                  simpa [templatePieces] using (gives_chunk hquasi.placed).andThen (hmark.andThen
                    ((hopen.andThen (hpart.andThen hclose)).andThen hothers))

/-- A template is printed as one. -/
lemma gives_template {quasis items : List Json} {texts : List String}
    (hnode : node.IsNode "TemplateLiteral") (hquasis : node.Has "quasis" (.arr quasis))
    (hitems : node.Has "expressions" (.arr items))
    (htexts : List.Forall₂ Json.IsQuasi quasis texts) {lss : List (List Lexeme)}
    (hholes : List.Forall₂ (fun item ls => Gives s (Render.tree .value item) ls) items lss)
    (hcount : texts.length = lss.length + 1) :
    Gives s (Render.tree .value node) (templateLexemes "`" texts lss) := by
  obtain ⟨hinside, hread⟩ := hquasis
  obtain ⟨hinside', hread'⟩ := hitems
  obtain ⟨quasiList, hquasiList, rfl⟩ := parts_arr hinside
  obtain ⟨list, hlist, rfl⟩ := parts_arr hinside'
  have hlists := List.forall₂_map_left_iff.mp hholes
  have hpieces := gives_quasis (s := s) (i := 0) hlist (List.forall₂_map_left_iff.mp htexts)
    hlists hcount
  have hmark := Render.gives_text (s := s) (t := "`") [.token "`"] rfl (by simp)
  rw [tree_of_isPlain "TemplateLiteral" hnode.toIsPlain hnode.kind_eq rfl, Rules.template,
    read_bind hread, read_bind hread', read_bind hquasiList]
  exact (hmark.andThen (hpieces.andThen hmark)).mono fun _ => renders_templateLexemes hcount

/-! ## Nodes -/

/-- **A node that is printed as a tree of accesses and calls.** -/
def PrintsAccess (s : Setting) (node : Json) (e : Access) : Prop :=
  ∃ ls, Gives s (Render.tree .value node) ls ∧
    Passage accessAlphabet (DerivesAccess e.level · e) ls

/-- **The head of an access, a call or a tag**: a whole chain goes in parentheses there. -/
lemma access_head {child : Json} (hinside : child.Inside node) {e : Access}
    (h : PrintsAccess s child e) :
    ∃ ls, Gives s ((partsOf node).wrapped ⟨child, hinside⟩ e.isChain) ls ∧
      Passage accessAlphabet (DerivesAccess e.headLevel · e) ls := by
  obtain ⟨ls, hgives, hpassage⟩ := h
  refine ⟨_, Render.gives_wrapped hgives e.isChain, ?_⟩
  cases hchain : e.isChain with
  | false =>
      have hlevel : e.level = e.headLevel := by rw [Access.level, hchain]
      exact hlevel ▸ hpassage
  | true =>
      obtain ⟨f, rfl⟩ : ∃ f, e = .chain f := by
        cases e with
        | chain f => exact ⟨f, rfl⟩
        | _ => simp [Access.isChain] at hchain
      exact passage_parens hpassage

/-- The mark of an optional link. -/
lemma gives_optional {isOptional : Bool} (h : node.flag "optional" = .ok isOptional) :
    Gives s (Render.textIf node "optional" "?.") (if isOptional then [.token "?."] else []) :=
  Render.gives_textIf h (Render.gives_text [.token "?."] rfl (by simp))

/-- Arguments are passages of left-hand sides. -/
lemma exists_accesses {items : List Json} {args : List Access}
    (h : List.Forall₂ (PrintsAccess s) items args) (hwhole : ∀ a ∈ args, a.IsWhole) :
    ∃ lss, List.Forall₂ (fun item ls => Gives s (Render.tree .value item) ls) items lss ∧
      List.Forall₂ (fun ls e => Passage accessAlphabet (DerivesAccess .leftHand · e) ls) lss
        args := by
  induction h with
  | nil => exact ⟨[], .nil, .nil⟩
  | @cons item e items args hitem hitems ih =>
      obtain ⟨ls, hgives, hpassage⟩ := hitem
      obtain ⟨lss, hall, hpassages⟩ := ih fun a ha => hwhole a (by simp [ha])
      exact ⟨ls :: lss, .cons hgives hall,
        .cons (passage_leftHand hpassage (hwhole e (by simp))) hpassages⟩

/-- **An argument list.** -/
lemma gives_arguments {items : List Json} {args : List Access}
    (hitems : node.Has "arguments" (.arr items))
    (h : List.Forall₂ (PrintsAccess s) items args) (hwhole : ∀ a ∈ args, a.IsWhole) :
    ∃ ms, Gives s (Rules.callArguments (partsOf node)) ms ∧
      Suffix accessAlphabet (DerivesLink false · (.call args)) ms := by
  obtain ⟨lss, hgives, hpassages⟩ := exists_accesses h hwhole
  obtain ⟨b, harguments⟩ := gives_argumentList hitems hgives
  have hlist := (Content.listed (hpassages.imp fun _ _ h => h.padded) (by decide) b).inset b
  exact ⟨_, harguments, hlist.suffix (by decide) (by decide) (by decide) (by decide)
    fun _ _ => .call⟩

/-- **A head and a link.** -/
lemma prints_link {isOptional : Bool} {e : Access} {k : Link} {ls ms : List Lexeme}
    (hgives : Gives s (Render.tree .value node) (ls ++ ms))
    (h : Passage accessAlphabet (DerivesAccess e.headLevel · e) ls)
    (hk : Suffix accessAlphabet (DerivesLink isOptional · k) ms) :
    PrintsAccess s node (.link isOptional e k) :=
  ⟨_, hgives, h.followedBy hk fun _ _ => DerivesAccess.linked⟩

lemma printsAccess_member {head property : Json} {isOptional : Bool} {p : String} {e : Access}
    (hnode : node.IsNode "MemberExpression") (hcomputed : node.flag "computed" = .ok false)
    (hoptional : node.flag "optional" = .ok isOptional) (hhead : node.Has "object" head)
    (hproperty : node.Has "property" property) (h : DescribesAccess head e)
    (hp : NamesMember property p) (hprints : PrintsAccess s head e) :
    PrintsAccess s node (.link isOptional e (.member p)) := by
  obtain ⟨hinside, hread⟩ := hhead
  obtain ⟨ls, hgives, hpassage⟩ := access_head hinside hprints
  obtain ⟨hword, hname⟩ := gives_namesMember (s := s) hp
  have hsuffix : Suffix accessAlphabet (DerivesLink isOptional · (.member p))
      [.token (if isOptional then "?." else "."), .token p] :=
    suffix_word (by cases isOptional <;> decide) hword (.member hword)
  refine prints_link ?_ hpassage hsuffix
  have hdot : Gives s (Render.text (if isOptional then "?." else "."))
      [.token (if isOptional then "?." else ".")] := by
    cases isOptional with
    | true => exact Render.gives_text [.token "?."] rfl (by simp)
    | false => exact Render.gives_text [.token "."] rfl (by simp)
  rw [tree_of_isPlain "MemberExpression" hnode.toIsPlain hnode.kind_eq rfl, Rules.member,
    read_bind hread, read_bind (wrapsAsHead_of_access h Precedence.member rfl), field_eq hproperty]
  simp only [read_bind hcomputed, read_bind hoptional, Bool.false_eq_true, if_false]
  exact hgives.andThen (hdot.andThen hname)

lemma printsAccess_index {head property : Json} {isOptional : Bool} {e f : Access}
    (hnode : node.IsNode "MemberExpression") (hcomputed : node.flag "computed" = .ok true)
    (hoptional : node.flag "optional" = .ok isOptional) (hhead : node.Has "object" head)
    (hproperty : node.Has "property" property) (h : DescribesAccess head e)
    (hwhole : f.IsWhole) (hprints : PrintsAccess s head e) (hprints' : PrintsAccess s property f) :
    PrintsAccess s node (.link isOptional e (.index f)) := by
  obtain ⟨hinside, hread⟩ := hhead
  obtain ⟨ls, hgives, hpassage⟩ := access_head hinside hprints
  obtain ⟨ms, hgives', hpassage'⟩ := hprints'
  have hbrackets : Suffix accessAlphabet (DerivesLink false · (.index f))
      (between "[" "]" ms) :=
    (passage_leftHand hpassage' hwhole).content.suffix (by decide) (by decide) (by decide)
      (by decide) fun _ _ => .index
  refine prints_link ?_ hpassage (suffix_optional hbrackets (by simp) isOptional)
  have hopen := Render.gives_text (s := s) (t := "[") [.token "["] rfl (by simp)
  have hclose := Render.gives_text (s := s) (t := "]") [.token "]"] rfl (by simp)
  rw [tree_of_isPlain "MemberExpression" hnode.toIsPlain hnode.kind_eq rfl, Rules.member,
    read_bind hread, read_bind (wrapsAsHead_of_access h Precedence.member rfl), field_eq hproperty]
  simp only [read_bind hcomputed, if_true]
  exact hgives.andThen ((gives_optional hoptional).andThen
    (hopen.andThen (hgives'.andThen hclose)))

lemma printsAccess_call {head : Json} {items : List Json} {isOptional : Bool} {e : Access}
    {args : List Access} (hnode : node.IsNode "CallExpression")
    (hoptional : node.flag "optional" = .ok isOptional)
    (hgeneric : node.givenOr "typeArguments" "typeParameters" = .ok none)
    (hhead : node.Has "callee" head) (hitems : node.Has "arguments" (.arr items))
    (h : DescribesAccess head e) (hwhole : ∀ a ∈ args, a.IsWhole)
    (hprints : PrintsAccess s head e) (hprints' : List.Forall₂ (PrintsAccess s) items args) :
    PrintsAccess s node (.link isOptional e (.call args)) := by
  obtain ⟨hinside, hread⟩ := hhead
  obtain ⟨ls, hgives, hpassage⟩ := access_head hinside hprints
  obtain ⟨ms, hgives', hsuffix⟩ := gives_arguments hitems hprints' hwhole
  refine prints_link ?_ hpassage (suffix_optional hsuffix (by simp) isOptional)
  have hrule : Render.tree .value node = (do
      (partsOf node).wrapped ⟨head, hinside⟩ e.isChain
      Render.textIf node "optional" "?."
      (partsOf node).typeIf none
      Rules.callArguments (partsOf node)) := by
    rw [tree_of_isPlain "CallExpression" hnode.toIsPlain hnode.kind_eq rfl, Rules.call,
      if_neg Bool.false_ne_true, read_bind hread,
      read_bind (wrapsAsHead_of_access h Precedence.call rfl), Rules.typeArguments,
      read_bind hgeneric]
    cases e.isChain with
    | true => exact pure_bind true _
    | false => exact pure_bind false _
  rw [hrule]
  exact hgives.andThen ((gives_optional hoptional).andThen (Render.gives_pure.andThen hgives'))

/-- **The head of a `new`** stands at the level of members, if the call in it is seen. -/
lemma make_head {child : Json} (hinside : child.Inside node) {e : Access} (hwhole : e.IsWhole)
    (hsees : e.hidesCall = true → e.hasCall = true) (h : PrintsAccess s child e) :
    ∃ ls, Gives s ((partsOf node).wrapped ⟨child, hinside⟩ (e.isChain || e.hasCall)) ls ∧
      Passage accessAlphabet (DerivesAccess .member · e) ls := by
  obtain ⟨ls, hgives, hpassage⟩ := h
  refine ⟨_, Render.gives_wrapped hgives _, ?_⟩
  cases hwrap : e.isChain || e.hasCall with
  | true => exact passage_parens (passage_leftHand hpassage hwhole)
  | false =>
      obtain ⟨hchain, hcall⟩ := Bool.or_eq_false_iff.mp hwrap
      have hhides : e.hidesCall = false := by
        by_contra hhides
        simp [hsees (by simpa using hhides)] at hcall
      have hlevel : e.level = .member := by
        rw [Access.level, hchain, Access.headLevel, show e.isOpen = false from hwhole, hhides]
      exact hlevel ▸ hpassage

lemma printsAccess_make {head : Json} {items : List Json} {e : Access} {args : List Access}
    (hnode : node.IsNode "NewExpression") (hoptional : node.flag "optional" = .ok false)
    (hgeneric : node.givenOr "typeArguments" "typeParameters" = .ok none)
    (hhead : node.Has "callee" head) (hitems : node.Has "arguments" (.arr items))
    (h : DescribesAccess head e) (hwhole : e.IsWhole)
    (hsees : e.hidesCall = true → e.hasCall = true) (hwholes : ∀ a ∈ args, a.IsWhole)
    (hprints : PrintsAccess s head e) (hprints' : List.Forall₂ (PrintsAccess s) items args) :
    PrintsAccess s node (.make e args) := by
  obtain ⟨hinside, hread⟩ := hhead
  obtain ⟨ls, hgives, hpassage⟩ := make_head hinside hwhole hsees hprints
  obtain ⟨ms, hgives', hsuffix⟩ := gives_arguments hitems hprints' hwholes
  have hboth := hpassage.followedBy hsuffix
    (R := fun us => ∀ c, DerivesAccess .member (⟨"new", c⟩ :: us) (.make e args))
    fun _ _ hts hus _ => .make hts hus
  refine ⟨.token "new" :: .gap false :: (ls ++ ms), ?_,
    hboth.behindPadding (Or.inl isWord_new) (isPadding_gap false) (by simp) fun c _ hts => hts c⟩
  have hword := Render.gives_text (s := s) (t := "new ") [.token "new", .gap false] rfl (by simp)
  have hrule : Render.tree .value node = (do
      Render.text "new "
      (partsOf node).wrapped ⟨head, hinside⟩ (e.isChain || e.hasCall)
      Render.textIf node "optional" "?."
      (partsOf node).typeIf none
      Rules.callArguments (partsOf node)) := by
    rw [tree_of_isPlain "NewExpression" hnode.toIsPlain hnode.kind_eq rfl, Rules.call, if_pos rfl,
      read_bind hread, read_bind (wrapsAsHead_of_access h Precedence.call rfl), Rules.typeArguments,
      read_bind hgeneric]
    congr 1
    funext _
    cases e.isChain with
    | true => exact pure_bind true _
    | false =>
        simp only [Bool.false_eq_true, if_false, if_true, read_bind (hasCall_of_access h)]
        rfl
  rw [hrule]
  exact hword.andThen (hgives.andThen ((gives_optional hoptional).andThen
    (Render.gives_pure.andThen hgives')))

lemma printsAccess_tagged {head quasi : Json} {quasis items : List Json} {e : Access}
    {texts : List String} {holes : List Access}
    (hnode : node.IsNode "TaggedTemplateExpression")
    (hgeneric : node.givenOr "typeArguments" "typeParameters" = .ok none)
    (hhead : node.Has "tag" head) (hquasi : node.Has "quasi" quasi) (h : DescribesAccess head e)
    (hwhole : e.IsWhole) (htemplate : quasi.IsNode "TemplateLiteral")
    (hquasis : quasi.Has "quasis" (.arr quasis)) (hitems : quasi.Has "expressions" (.arr items))
    (htexts : List.Forall₂ Json.IsQuasi quasis texts) (hwholes : ∀ a ∈ holes, a.IsWhole)
    (hcount : texts.length = holes.length + 1) (hprints : PrintsAccess s head e)
    (hprints' : List.Forall₂ (PrintsAccess s) items holes) :
    PrintsAccess s node (.tagged e texts holes) := by
  obtain ⟨hinside, hread⟩ := hhead
  obtain ⟨ls, hgives, hpassage⟩ := access_head hinside hprints
  obtain ⟨lss, hgives', hpassages⟩ := exists_accesses hprints' hwholes
  have hsuffix := suffix_template (Or.inl rfl) (fun _ => isRaw_of_mem htexts) hpassages hcount
  refine ⟨_, ?_, hpassage.followedBy hsuffix fun _ _ => DerivesAccess.withTemplate hwhole⟩
  have hquasi' := gives_template (s := s) htemplate hquasis hitems htexts hgives'
    (by rw [hcount, hpassages.length_eq])
  rw [tree_of_isPlain "TaggedTemplateExpression" hnode.toIsPlain hnode.kind_eq rfl,
    Rules.taggedTemplate, read_bind hread,
    read_bind (wrapsAsHead_of_access h Precedence.member rfl), Rules.typeArguments,
    read_bind hgeneric, field_eq hquasi]
  exact hgives.andThen (Render.gives_pure.andThen hquasi')

lemma isWord_import : IsWord "import" := by decide

/-- **An import**, with what stands between its parentheses. -/
lemma printsAccess_load {args : List Access} (hnode : node.IsNode "ImportExpression")
    (hplaced : node.IsPlaced) (hcount : args.length = 1 ∨ args.length = 2)
    {options : Option (Part node)} (hoptions : node.givenOr "options" "attributes" = .ok options)
    {lss : List (List Lexeme)}
    (h : List.Forall₂ (fun ls e => Passage accessAlphabet (DerivesAccess .leftHand · e) ls) lss
      args)
    (hgives : Gives s (do
      (partsOf node).field "source"
      (partsOf node).valueAfter ", " options) (commaList false lss)) :
    PrintsAccess s node (.load args) := by
  have hword : Passage accessAlphabet (fun ts => ∃ b, ts = [⟨"import", b⟩])
      [.token "import"] := Passage.word isWord_import fun b => ⟨b, rfl⟩
  have hlist := Content.listed (h.imp fun _ _ h => h.padded) (by decide) false
  have hparens : Suffix accessAlphabet (fun us => ∃ c d ts, us = ⟨"(", c⟩ :: (ts ++ [⟨")", d⟩]) ∧
      DerivesListed (DerivesAccess .leftHand) ts args)
      (between "(" ")" (commaList false lss)) :=
    hlist.suffix (by decide) (by decide) (by decide) (by decide)
      fun d ts hts => ⟨_, d, ts, rfl, hts⟩
  refine ⟨[Lexeme.token "import"] ++ between "(" ")" (commaList false lss), ?_,
    hword.followedBy hparens ?_⟩
  · rw [tree_of_isPlain "ImportExpression" hnode.toIsPlain hnode.kind_eq rfl, Rules.importCall]
    simp only [read_bind hoptions]
    have hinside := Render.gives_parens hgives
    simp only [bind_assoc] at hinside
    exact (gives_chunk hplaced).andThen hinside
  · rintro ts us ⟨b, rfl⟩ ⟨c, d, vs, rfl, hvs⟩
    exact .load hcount hvs

/-- A whole chain is printed like what it is made of. -/
lemma printsAccess_chain {inner : Json} {e : Access} (hnode : node.IsNode "ChainExpression")
    (hinner : node.Has "expression" inner) (hopen : e.isOpen = true)
    (hprints : PrintsAccess s inner e) : PrintsAccess s node (.chain e) := by
  obtain ⟨ls, hgives, hpassage⟩ := hprints
  have hchain : e.isChain = false := by
    cases e with
    | link isOptional head k => rfl
    | _ => simp [Access.isOpen] at hopen
  have hlevel : e.level = .optional := by
    rw [Access.level, hchain, Access.headLevel_of_isOpen hopen]
  rw [hlevel] at hpassage
  refine ⟨ls, ?_, hpassage.mono fun _ => .chain⟩
  rw [tree_of_isPlain "ChainExpression" hnode.toIsPlain hnode.kind_eq rfl, Rules.transparent,
    field_eq hinner]
  exact hgives

/-! ## All trees -/

/-- The parts of a list are printed if all smaller trees are. -/
lemma printsAccess_items {items : List Json} {args : List Access}
    (h : List.Forall₂ DescribesAccess items args) (hsee : newsSeeAll args = true)
    (hprints : ∀ item ∈ items, ∀ e, DescribesAccess item e → e.newsSee = true →
      PrintsAccess s item e) :
    List.Forall₂ (PrintsAccess s) items args := by
  induction h with
  | nil => exact .nil
  | cons hitem hitems ih =>
      obtain ⟨hfirst, hrest⟩ := Bool.and_eq_true_iff.mp hsee
      exact .cons (hprints _ (by simp) _ hitem hfirst)
        (ih hrest fun item hmem => hprints item (by simp [hmem]))

/-- **Every described tree is printed as its tree**, if no `new` misses the call in its head. -/
theorem prints_of_access {node : Json} {e : Access} (h : DescribesAccess node e)
    (hsee : e.newsSee = true) : PrintsAccess s node e := by
  induction hn : sizeOf node using Nat.strong_induction_on generalizing node e with
  | _ n ih =>
      subst hn
      have hpart {key : String} {value : Json} (hvalue : node.Has key value) {f : Access}
          (hf : DescribesAccess value f) (hsee : f.newsSee = true) : PrintsAccess s value f :=
        ih _ hvalue.sizeOf_lt hf hsee rfl
      have hlist {whole : Json} {key : String} {items : List Json}
          (hsize : sizeOf whole ≤ sizeOf node) (hvalue : whole.Has key (.arr items))
          {args : List Access} (hargs : List.Forall₂ DescribesAccess items args)
          (hsee : newsSeeAll args = true) :
          List.Forall₂ (PrintsAccess s) items args := by
        refine printsAccess_items hargs hsee fun item hmem f hf hsee => ih _ ?_ hf hsee rfl
        have := List.sizeOf_lt_of_mem hmem
        have := hvalue.sizeOf_lt
        simp only [Json.arr.sizeOf_spec] at this
        omega
      cases h with
      | parens hnode hinner h =>
          rw [PrintsAccess, tree_parens hnode hinner]
          exact hpart hinner h hsee
      | @name _ name h hs =>
          have hname (b : Bool) : DerivesAccess .member [⟨name, b⟩] (.name name) :=
            .unit (m := .primary) (by decide) (.name hs)
          exact ⟨_, gives_identifier h, Passage.word hs.1 hname⟩
      | member hnode hcomputed hoptional hhead hproperty h hp =>
          obtain ⟨hsee, -⟩ := Bool.and_eq_true_iff.mp hsee
          exact printsAccess_member hnode hcomputed hoptional hhead hproperty h hp
            (hpart hhead h hsee)
      | index hnode hcomputed hoptional hhead hproperty h hf hwhole =>
          obtain ⟨hsee, hsee'⟩ := Bool.and_eq_true_iff.mp hsee
          exact printsAccess_index hnode hcomputed hoptional hhead hproperty h hwhole
            (hpart hhead h hsee) (hpart hproperty hf hsee')
      | call hnode hoptional hgeneric hhead hitems h hargs hwhole =>
          obtain ⟨hsee, hsee'⟩ := Bool.and_eq_true_iff.mp hsee
          exact printsAccess_call hnode hoptional hgeneric hhead hitems h hwhole
            (hpart hhead h hsee) (hlist (le_refl _) hitems hargs hsee')
      | make hnode hoptional hgeneric hhead hitems h hwhole hargs hwholes =>
          simp only [Access.newsSee, Bool.and_eq_true, Bool.or_eq_true, Bool.not_eq_true'] at hsee
          obtain ⟨⟨hcall, hsee⟩, hsee'⟩ := hsee
          refine printsAccess_make hnode hoptional hgeneric hhead hitems h hwhole (fun hhides => ?_)
            hwholes (hpart hhead h hsee) (hlist (le_refl _) hitems hargs hsee')
          exact hcall.resolve_right (by simp [hhides])
      | tagged hnode hgeneric hhead hquasi h hwhole htemplate hquasis hitems htexts hholes hwholes
          hcount =>
          obtain ⟨hsee, hsee'⟩ := Bool.and_eq_true_iff.mp hsee
          exact printsAccess_tagged hnode hgeneric hhead hquasi h hwhole htemplate hquasis hitems
            htexts hwholes hcount (hpart hhead h hsee)
            (hlist (le_of_lt hquasi.sizeOf_lt) hitems hholes hsee')
      | load hnode hplaced hsource hoptions h hwhole =>
          obtain ⟨hsee, -⟩ := Bool.and_eq_true_iff.mp hsee
          obtain ⟨ls, hgives, hpassage⟩ := hpart hsource h hsee
          refine printsAccess_load hnode hplaced (Or.inl rfl) hoptions
            (.cons (passage_leftHand hpassage hwhole) .nil) ?_
          have hsource' := hgives.andThen Render.gives_pure
          rw [List.append_nil] at hsource'
          rw [field_eq hsource]
          exact hsource'
      | @loadWith _ _ options hinside _ _ hnode hplaced hsource hoptions h hwhole hf hwhole' =>
          simp only [Access.newsSee, newsSeeAll, Bool.and_true, Bool.and_eq_true] at hsee
          obtain ⟨ls, hgives, hpassage⟩ := hpart hsource h hsee.1
          obtain ⟨ms, hgives', hpassage'⟩ := ih _ hinside.sizeOf_lt hf hsee.2 rfl
          have hcomma := Render.gives_text (s := s) (t := ", ") [.token ",", .gap false] rfl
            (by simp)
          refine printsAccess_load hnode hplaced (Or.inr rfl) hoptions
            (.cons (passage_leftHand hpassage hwhole)
              (.cons (passage_leftHand hpassage' hwhole') .nil)) ?_
          rw [field_eq hsource]
          exact hgives.andThen (hcomma.andThen hgives')
      | chain hnode hinner h hopen =>
          exact printsAccess_chain hnode hinner hopen (hpart hinner h hsee)

end Printed

/-- **Printed accesses and calls are read back.**  Whatever the width, the tree of a whole
expression of accesses and calls is rendered without a fault and without a comment left over, if
every `new` in it sees the call in its head; whatever the indentation, the commands are written as a
text; that text consists of tokens; and the tokens derive the tree, in which the parentheses of the
tree do not occur. -/
theorem handle_access (quote : Char) (width : Int) {node : Json} {e : Access}
    (h : DescribesAccess node e) (hwhole : e.IsWhole) (hsee : e.newsSee = true) :
    ∃ after, ({ setting := { quote, width } } : Rendering).handle .value node = .ok after ∧
      after.draft.queue = [] ∧
      ∀ indent, BlankIndent indent → indent ≠ "" →
        ∃ code marks, linearize after.draft.commands indent = .ok (code, marks) ∧
          ∃ tokens, scan accessAlphabet.toVocabulary false code.toList = some tokens ∧
            DerivesAccess .leftHand tokens e := by
  obtain ⟨ls, hgives, hpassage⟩ := prints_of_access (s := { quote, width }) h hsee
  exact handle_of_content hgives (passage_leftHand hpassage hwhole).content

/-! ## An optional chain as the head of a `new`, and a call below a tag -/

/-- The tree of a member access. -/
def memberNode (isOptional : Bool) (head : Json) (p : String) : Json :=
  .obj [("type", .str "MemberExpression"), ("object", head), ("property", nameNode p),
    ("optional", .bool isOptional)]

/-- The tree of an optional chain. -/
def chainNode (inner : Json) : Json :=
  .obj [("type", .str "ChainExpression"), ("expression", inner)]

/-- The tree of a `new`. -/
def makeNode (callee : Json) (arguments : List Json) : Json :=
  .obj [("type", .str "NewExpression"), ("callee", callee), ("arguments", .arr arguments)]

/-- The tree of `new (a?.b)(c).d`. -/
def madeOfChain : Json :=
  memberNode false (makeNode (chainNode (memberNode true (nameNode "a") "b")) [nameNode "c"]) "d"

lemma describes_memberNode {isOptional : Bool} {head : Json} {e : Access} {p : String}
    (hp : IsWord p) (h : DescribesAccess head e) :
    DescribesAccess (memberNode isOptional head p) (.link isOptional e (.member p)) :=
  .member (.ofPlain ⟨rfl, rfl⟩ rfl) rfl (by cases isOptional <;> rfl) ⟨_, rfl⟩ ⟨_, rfl⟩ h
    (.name (isIdentifier_nameNode p) hp)

lemma describes_chainNode {inner : Json} {e : Access} (h : DescribesAccess inner e)
    (hopen : e.isOpen = true) : DescribesAccess (chainNode inner) (.chain e) :=
  .chain (.ofPlain ⟨rfl, rfl⟩ rfl) ⟨_, rfl⟩ h hopen

lemma describes_makeNode {callee : Json} {items : List Json} {e : Access} {args : List Access}
    (h : DescribesAccess callee e) (hwhole : e.IsWhole)
    (hargs : List.Forall₂ DescribesAccess items args) (hwholes : ∀ a ∈ args, a.IsWhole) :
    DescribesAccess (makeNode callee items) (.make e args) :=
  .make (.ofPlain ⟨rfl, rfl⟩ rfl) rfl rfl ⟨_, rfl⟩ ⟨_, rfl⟩ h hwhole hargs hwholes

theorem handle_access_madeOfChain :
    ∃ e, DescribesAccess madeOfChain e ∧
      e = .link false (.make (.chain (.link true (.name "a") (.member "b"))) [.name "c"])
        (.member "d") ∧ e.IsWhole ∧ e.newsSee = true ∧
      ∃ after, ({ setting := { quote := '"', width := 0 } } : Rendering).handle .value madeOfChain
          = .ok after ∧
        ∃ code marks, linearize after.draft.commands "\t" = .ok (code, marks) ∧
          ∃ tokens, scan accessAlphabet.toVocabulary false code.toList = some tokens ∧
            DerivesAccess .leftHand tokens e := by
  obtain ⟨ha, hb, hc, hd⟩ : IsName "a" ∧ IsName "b" ∧ IsName "c" ∧ IsName "d" := by
    unfold IsName
    decide
  have hlink : DescribesAccess (memberNode true (nameNode "a") "b") _ :=
    describes_memberNode hb.1 (.name (isIdentifier_nameNode "a") ha)
  have hchain := describes_chainNode hlink rfl
  have hmake := describes_makeNode hchain rfl (.cons (.name (isIdentifier_nameNode "c") hc) .nil)
    (by decide)
  have h : DescribesAccess madeOfChain _ := describes_memberNode hd.1 hmake
  obtain ⟨after, hafter, -, hcode⟩ := handle_access '"' 0 h (by decide) (by decide)
  refine ⟨_, h, rfl, by decide, by decide, after, hafter, hcode "\t" ?_ (by decide)⟩
  simp [BlankIndent, isBlank]

/-- The tree of ``new (a()`x`)()``. -/
def madeOfTagged : Json :=
  makeNode
    (.obj [("type", .str "TaggedTemplateExpression"),
      ("tag", .obj [("type", .str "CallExpression"), ("callee", nameNode "a"),
        ("arguments", .arr [])]),
      ("quasi", .obj [("type", .str "TemplateLiteral"),
        ("quasis", .arr [.obj [("value", .obj [("raw", .str "x")])]]), ("expressions", .arr [])])])
    []

/-- The call below the tag is not seen: without parentheses its argument list is the one of the
`new`. -/
theorem new_misses_call :
    (printTree {} madeOfTagged).toOption.map Output.code = some "new a()`x`()" := by
  decide +kernel

end Grammar

end EstreePrinter

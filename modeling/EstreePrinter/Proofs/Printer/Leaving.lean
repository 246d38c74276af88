import Mathlib
import EstreePrinter.Proofs.Linearizer.Written
import EstreePrinter.Proofs.Printer.Opening

/-!
# What a `return` gives stays behind its keyword

A line break between `return` or `throw` and the expression behind it ends the statement, and the
expression is cut off.  Only comments stand between the two: those of the nodes that are open at the
first text of the expression (`Render.exists_lead`).  The printer looks at the comments of the
expression itself and puts it in parentheses if one of them spans lines.

If one of them does, that is always enough.  If none does, it is enough as long as all comments of
the parts with which the expression begins, and those of the expression itself, stay on their lines
(`leave_keeps_line`).  It is not enough otherwise: see `leave_loses_argument`.
-/

namespace EstreePrinter

open Json (Part)
open Command (leavesAll openers)

/-! ## Comments that stay on their line -/

/-- The characters that end a line. -/
def IsLineEnd (c : Char) : Prop := c = '\n' ∨ c = '\r' ∨ c = '\u2028' ∨ c = '\u2029'

instance (c : Char) : Decidable (IsLineEnd c) := inferInstanceAs (Decidable (_ ∨ _))

namespace Json

/-- A comment before a node after which, and in which, no line ends. -/
structure StaysOnLine (comment node : Json) : Prop where
  after : Render.endsLine comment node = .ok false
  inside : ∀ s, comment.commentText = .ok (.str s) → ∀ c ∈ s.toList, ¬IsLineEnd c

/-- All comments before a node stay on their line. -/
def KeepsLine (node : Json) : Prop :=
  ∀ comments, node.comments "leadingComments" = .ok comments →
    ∀ comment ∈ comments, comment.StaysOnLine node

/-- No comment before a node spans lines, as a line comment does, or a text with a line feed in it.
-/
def NoneSpans (node : Json) : Prop :=
  ∀ comments, node.comments "leadingComments" = .ok comments →
    ∀ comment ∈ comments, comment.spansLines = .ok false

instance (comment node : Json) : Decidable (comment.StaysOnLine node) :=
  decidable_of_iff
    ((Render.endsLine comment node).toOption = some false ∧
      (match comment.commentText with
        | .ok (.str s) => s.toList.all fun c => !decide (IsLineEnd c)
        | _ => true) = true)
    (by
      constructor
      · rintro ⟨hafter, hinside⟩
        refine ⟨?_, fun s hs => by simpa [hs] using hinside⟩
        cases h : Render.endsLine comment node with
        | error fault => simp [h, Except.toOption] at hafter
        | ok breaks => simpa [h, Except.toOption] using hafter
      · rintro ⟨hafter, hinside⟩
        refine ⟨by simp [hafter, Except.toOption], ?_⟩
        split
        · rename_i s hs
          simpa using hinside s hs
        · rfl)

instance (node : Json) : Decidable node.KeepsLine :=
  decidable_of_iff
    ((match node.comments "leadingComments" with
      | .ok comments => comments.all fun comment => decide (comment.StaysOnLine node)
      | .error _ => true) = true)
    (by
      unfold KeepsLine
      cases node.comments "leadingComments" with
      | error fault => simp
      | ok comments => simp)

/-- It is enough to look at the objects inside of a node: nothing else has comments. -/
lemma keepsLine_of_within {node owner : Json} (hnode : node.isObject = true)
    (h : ∀ part ∈ node.within, part.KeepsLine) (hinside : owner.Inside node) : owner.KeepsLine := by
  by_cases hobject : owner.isObject = true
  · have hmem := mem_nodes_of_inside hobject hinside
    rw [nodes_eq_cons hnode] at hmem
    rcases Multiset.mem_cons.mp hmem with rfl | hmem
    · exact absurd hinside.sizeOf_lt (Nat.lt_irrefl _)
    · exact h owner hmem
  · intro comments hcomments
    simp [Json.comments, given, get, hobject] at hcomments

/-- Whether a node may stand in an expression: it is no program, and if it is an arrow function with
type parameters these are declared as such. -/
def isInner (node : Json) : Bool :=
  node.kindName? != some "Program" &&
    (node.kindName? != some "ArrowFunctionExpression" ||
      match node.given "typeParameters" with
      | .ok (some part) => part.1.kindName? == some "TSTypeParameterDeclaration"
      | _ => true)

/-- All nodes of a tree may stand in an expression. -/
def IsInner (tree : Json) : Prop := ∀ node ∈ tree.nodes, node.isInner = true

lemma IsInner.part {node : Json} (h : node.IsInner) (part : Part node) : part.1.IsInner :=
  fun n hn => h n (Multiset.mem_of_le (nodes_le_of_inside part.2) hn)

lemma IsInner.self {node : Json} (h : node.IsInner) (hobject : node.isObject = true) :
    node.isInner = true :=
  h node (by simp [nodes_eq_cons hobject])

lemma kindName?_eq_some_iff {node : Json} {name : String} :
    node.kindName? = some name ↔ node.kind = .ok (.str name) := by
  constructor
  · intro h
    unfold kindName? at h
    split at h
    · rename_i found hinside hfield
      obtain rfl := Option.some.inj h
      obtain ⟨fields, rfl, -⟩ := field?_eq_some hfield
      simp [kind, getValue, get, isObject, hfield]
    · cases h
  · intro h
    have hobject := Render.isObject_of_kind h
    rw [kind, getValue, get_eq hobject, ok_bind] at h
    unfold kindName?
    cases hfield : node.field? "type" with
    | none => simp [hfield] at h
    | some part =>
        simp only [hfield, pure_eq_ok, Except.ok.injEq] at h
        obtain ⟨v, hinside⟩ := part
        obtain rfl : v = .str name := h
        rfl

end Json

/-! ## What stands before the first text -/

namespace Render

variable {node : Json} {s : Setting}

/-- **What stands before the first text of an output**, by the nodes that are open there: for each a
note and the comments before it, from the outside to the inside. -/
inductive Led : List Json → List Command → Prop
  | own {node : Json} {comments : List Json} {leads : List Command}
      (hcomments : node.comments "leadingComments" = .ok comments)
      (hleads : leading false node comments = .ok leads) :
      Led [node] (.bracket node true :: leads)
  | part {node : Json} {comments opened : List Json} {leads inside : List Command}
      (hcomments : node.comments "leadingComments" = .ok comments)
      (hleads : leading false node comments = .ok leads) (hinside : Led opened inside) :
      Led (opened ++ [node]) (.bracket node true :: (leads ++ inside))

/-- What stands among the comments before a node. -/
lemma mem_leading {comments : List Json} {leads : List Command}
    (h : leading false node comments = .ok leads) {d : Command} (hd : d ∈ leads) :
    ∃ comment ∈ comments, ∃ breaks : Bool, endsLine comment node = .ok breaks ∧
      d = .comment comment (if breaks then .newline else .space) := by
  induction comments generalizing leads with
  | nil =>
      obtain rfl := Except.ok.inj h
      cases hd
  | cons comment rest ih =>
      rw [leading, if_neg Bool.false_ne_true] at h
      obtain ⟨breaks, hbreaks, h⟩ := EstreePrinter.bind_eq_ok_iff.mp h
      obtain ⟨others, hothers, h⟩ := EstreePrinter.bind_eq_ok_iff.mp h
      obtain rfl := Except.ok.inj h
      rcases List.mem_cons.mp hd with rfl | hd
      · exact ⟨comment, List.mem_cons_self, breaks, hbreaks, rfl⟩
      · obtain ⟨found, hfound, h⟩ := ih hothers hd
        exact ⟨found, List.mem_cons_of_mem _ hfound, h⟩

/-- The nodes are open at the first text that follows. -/
lemma Led.openers {opened : List Json} {leads : List Command} (h : Led opened leads)
    {c : Command} (hc : c.isCode = true) (stack : List Json) (rest : List Command) :
    openers stack (leavesAll (leads ++ c :: rest)) = some (opened ++ stack) := by
  have hbracket (node : Json) : Command.leaves (.bracket node true) = [.bracket node true] := by
    simp [Command.bracket, Command.leaves]
  induction h generalizing stack with
  | own hcomments hleads =>
      simp [hbracket, Command.openers_leading hleads, Command.leaves_of_isCode hc,
        Command.openers_of_isCode hc]
  | @part node _ _ _ _ hcomments hleads hinside ih =>
      have hrest := ih (node :: stack)
      simp only [Command.leavesAll_append] at hrest
      simpa [hbracket, Command.openers_leading hleads] using hrest

/-- Each of the comments is one of a node that is open. -/
lemma Led.mem_unnoted {opened : List Json} {leads : List Command} (h : Led opened leads)
    {d : Command} (hd : d ∈ Command.unnoted leads) :
    ∃ owner ∈ opened, ∃ comments, owner.comments "leadingComments" = .ok comments ∧
      ∃ comment ∈ comments, ∃ breaks : Bool, endsLine comment owner = .ok breaks ∧
        d = .comment comment (if breaks then .newline else .space) := by
  have hunnoted {d : Command} {leads : List Command} (hd : d ∈ Command.unnoted leads) :
      d ∈ leads := List.mem_of_mem_filter hd
  induction h with
  | own hcomments hleads =>
      simp only [Command.unnoted_cons, Command.noted?_bracket, Option.isNone_some,
        Bool.false_eq_true, if_false] at hd
      exact ⟨_, List.mem_singleton_self _, _, hcomments, mem_leading hleads (hunnoted hd)⟩
  | part hcomments hleads hinside ih =>
      simp only [Command.unnoted_cons, Command.noted?_bracket, Option.isNone_some,
        Bool.false_eq_true, if_false, Command.unnoted_append, List.mem_append] at hd
      rcases hd with hd | hd
      · exact ⟨_, by simp, _, hcomments, mem_leading hleads (hunnoted hd)⟩
      · obtain ⟨owner, howner, h⟩ := ih hd
        exact ⟨owner, List.mem_append_left _ howner, h⟩

/-- The type parameters of an arrow function begin with a text. -/
lemma opensTypes_of_isInner {node : Json} (hinner : node.isInner = true)
    (hkind : node.kindName? = some "ArrowFunctionExpression") :
    Rules.OpensTypes (partsWith announced node) s := by
  intro part hpart q e he
  have hdeclared : part.1.kindName? = some "TSTypeParameterDeclaration" := by
    simpa [Json.isInner, hkind, hpart] using hinner
  have hfind : Rules.find (Role.rules .type) (.str "TSTypeParameterDeclaration") =
      .ok (some Rules.angleBrackets) := rfl
  have hrun : Rules.angleBrackets part.1 (partsWith announced part.1) s q = .ok e := by
    have hrule : treeWith announced .type part.1 = _ :=
      treeWith_of_find (Json.kindName?_eq_some_iff.mp hdeclared) hfind
    exact (congrFun (congrFun hrule s) q).symm.trans he
  obtain ⟨first, htext, second, -, rfl⟩ := bind_eq_ok_iff.mp hrun
  obtain rfl := Except.ok.inj htext
  exact ⟨_, _, rfl, rfl⟩

/-- **What is emitted for a node that may stand in an expression** begins with comments of nodes
that are open, and then a text.  The induction is on the size of the tree. -/
lemma exists_lead {node : Json} (hinner : node.IsInner) {q : List Json} {e : Emission Unit}
    (he : treeWith announced .value node s q = .ok e) :
    ∃ opened leads c rest, Led (opened ++ [node]) leads ∧ e.commands = leads ++ c :: rest ∧
      c.isCode = true ∧ ∀ owner ∈ opened, owner.Inside node := by
  induction hn : sizeOf node using Nat.strong_induction_on generalizing node q e with
  | h n ih =>
      obtain ⟨kind, rule, hkind, hfound, hrun⟩ := rule_of_treeWith he
      obtain ⟨name, rfl, hmem⟩ := Rules.mem_of_find hfound
      have hname := Json.kindName?_eq_some_iff.mpr hkind
      have hself := hinner.self (isObject_of_kind hkind)
      have hprogram : name ≠ "Program" := by
        rintro rfl
        simp [Json.isInner, hname] at hself
      obtain ⟨comments, leads, own, hcomments, hleads, hown, heq⟩ :=
        announced_eq_ok (by decide) hrun
      obtain ⟨first, -, hfirst⟩ := Rules.starts_valueRules _ hmem hprogram node _ s
        (fun harrow => opensTypes_of_isInner hself (harrow ▸ hname)) q own hown
      cases first with
      | none =>
          obtain ⟨c, rest, hcommands, hc⟩ := hfirst
          exact ⟨[], _, c, rest ++ [Command.bracket node false], .own (hcomments rfl) hleads,
            by simp [heq, hcommands], hc, by simp⟩
      | some part =>
          obtain ⟨q', e', rest, he', hcommands⟩ := hfirst
          obtain ⟨opened, inside, c, more, hled, hinside, hc, howners⟩ :=
            ih _ (hn ▸ part.2.sizeOf_lt) (hinner.part part) he' rfl
          refine ⟨opened ++ [part.1], _, c, more ++ rest ++ [Command.bracket node false],
            .part (hcomments rfl) hleads hled, by simp [heq, hcommands, hinside], hc, ?_⟩
          intro owner howner
          rcases List.mem_append.mp howner with howner | howner
          · exact (howners owner howner).trans part.2
          · exact List.mem_singleton.mp howner ▸ part.2

/-- The nodes that are open at the first text, but for the node itself, are parts of it. -/
lemma inside_of_beginsWith (hinner : node.IsInner) {q : List Json} {emission : Emission Unit}
    {opened : List Json} (h : BeginsWith .value node s q emission opened) {owner : Json}
    (howner : owner ∈ opened) (hself : owner ≠ node) : owner.Inside node := by
  obtain ⟨run, hrun, -, hopened⟩ := h
  obtain ⟨parts, leads, c, more, hled, hleads, hc, howners⟩ := exists_lead hinner hrun
  have hopeners := hled.openers hc [] more
  rw [← hleads, hopened, List.append_nil] at hopeners
  obtain rfl := Option.some.inj hopeners
  rcases List.mem_append.mp howner with howner | howner
  · exact howners owner howner
  · exact absurd (List.mem_singleton.mp howner) hself

end Render

/-! ## The text of comments -/

/-- A comment that stays on its line is written without a line end in it. -/
lemma Json.StaysOnLine.commentAt {comment node : Json} (h : comment.StaysOnLine node)
    (indent : String) (depth : Nat) : ∀ c ∈ commentAt indent depth comment, ¬IsLineEnd c := by
  have hspans : comment.spansLines = .ok false := by
    have hafter := h.after
    unfold Render.endsLine at hafter
    obtain ⟨spans, hspans, hafter⟩ := bind_eq_ok_iff.mp hafter
    cases spans with
    | true => cases hafter
    | false => exact hspans
  have hblock : comment.isLineComment = .ok false := by
    unfold Json.spansLines at hspans
    obtain ⟨line, hline, hspans⟩ := bind_eq_ok_iff.mp hspans
    cases line with
    | true => cases hspans
    | false => exact hline
  have hmarks : ∀ c ∈ "/*".toList ++ "*/".toList, ¬IsLineEnd c := by simp [IsLineEnd]
  intro c hc
  unfold EstreePrinter.commentAt at hc
  rw [hblock] at hc
  cases htext : comment.commentText with
  | error fault => simp [htext] at hc
  | ok v =>
      cases v with
      | str s =>
          simp only [htext, List.mem_append, List.mem_flatMap] at hc
          rcases hc with (hc | ⟨d, hd, hc⟩) | hc
          · exact hmarks c (List.mem_append_left _ hc)
          · have hd' := h.inside s htext d hd
            have hline : d ≠ '\n' := fun heq => hd' (Or.inl heq)
            rw [if_neg hline, List.mem_singleton] at hc
            exact hc ▸ hd'
          · exact hmarks c (List.mem_append_right _ hc)
      | _ => simp [htext] at hc

/-- Comments that stay on their lines, with a blank behind each. -/
lemma written_of_stays {gap : List Command}
    (h : ∀ d ∈ gap, ∃ comment node, comment.StaysOnLine node ∧ d = .comment comment .space)
    (indent : String) (depth : Nat) : ∀ c ∈ written indent depth gap, ¬IsLineEnd c := by
  induction gap with
  | nil => simp [written]
  | cons d rest ih =>
      obtain ⟨comment, node, hstays, rfl⟩ := h d List.mem_cons_self
      intro c hc
      simp only [written, Command.textAt, Command.depthAfter, breakAt, List.mem_append,
        List.mem_singleton] at hc
      rcases hc with (hc | rfl) | hc
      · exact hstays.commentAt indent depth c hc
      · decide
      · exact ih (fun d hd => h d (List.mem_cons_of_mem _ hd)) c hc

/-! ## Statements that leave -/

namespace Rules

/-- The statements that leave a function, with their keywords. -/
def leavers : List (String × String) := [("ReturnStatement", "return"), ("ThrowStatement", "throw")]

lemma lookup_leavers {kind keyword : String} (h : (kind, keyword) ∈ leavers) :
    valueRules.lookup kind = some (leave keyword) ∧ (Json.str kind).isGiven = true := by
  simp only [leavers, List.mem_cons, Prod.mk.injEq, List.not_mem_nil, or_false] at h
  rcases h with ⟨rfl, rfl⟩ | ⟨rfl, rfl⟩ <;> exact ⟨rfl, rfl⟩

lemma spansLines_of_anySpansLines {comments : List Json} (h : anySpansLines comments = .ok false) :
    ∀ comment ∈ comments, comment.spansLines = .ok false := by
  induction comments with
  | nil => simp
  | cons comment rest ih =>
      unfold anySpansLines at h
      obtain ⟨spans, hspans, h⟩ := bind_eq_ok_iff.mp h
      cases spans with
      | true => cases h
      | false =>
          intro found hfound
          rcases List.mem_cons.mp hfound with rfl | hfound
          · exact hspans
          · exact ih h found hfound

end Rules

/-- **A keyword keeps its argument** if a parenthesis follows on the same line, or if no line ends
between the keyword and the first text behind it. -/
def KeepsArgument (keyword : String) (commands : List Command) : Prop :=
  ∃ before, (∀ c ∈ before, ∃ comment after, c = .comment comment after) ∧
    ((∃ rest, commands = before ++ .text (keyword ++ " (") :: rest) ∨
      ∃ gap c rest, commands = before ++ .text (keyword ++ " ") :: (gap ++ c :: rest) ∧
        c.isCode = true ∧ (∀ d ∈ gap, ∃ comment after, d = .comment comment after) ∧
        ∀ indent depth, ∀ d ∈ written indent depth gap, ¬IsLineEnd d)

namespace Render

variable {node : Json} {s : Setting}

/-- Comments of nodes that keep their lines are followed by a blank. -/
lemma Led.stays {opened : List Json} {leads : List Command} (h : Led opened leads)
    (hkeeps : ∀ owner ∈ opened, owner.KeepsLine) :
    ∀ d ∈ Command.unnoted leads, ∃ comment owner,
      comment.StaysOnLine owner ∧ d = .comment comment .space := by
  intro d hd
  obtain ⟨owner, howner, comments, hcomments, comment, hmem, breaks, hbreaks, rfl⟩ :=
    h.mem_unnoted hd
  have hstays : comment.StaysOnLine owner := hkeeps owner howner comments hcomments comment hmem
  obtain rfl : false = breaks := Except.ok.inj (hstays.after.symm.trans hbreaks)
  exact ⟨comment, owner, hstays, rfl⟩

/-- The rule of such a statement, for the argument it has. -/
lemma leave_keeps {keyword : String} {argument : Part node} {q : List Json} {e : Emission Unit}
    (hargument : node.present "argument" = .ok (some argument)) (hinner : argument.1.IsInner)
    (hspine : argument.1.NoneSpans → ∀ emission opened,
      BeginsWith .value argument.1 s q emission opened → ∀ owner ∈ opened, owner.KeepsLine)
    (he : Rules.leave keyword node (partsOf node) s q = .ok e) :
    KeepsArgument keyword e.commands := by
  obtain ⟨found, hfound, he⟩ := read_bind_eq_ok_iff.mp he
  obtain rfl : some argument = found := Except.ok.inj (hargument.symm.trans hfound)
  obtain ⟨comments, hcomments, he⟩ := read_bind_eq_ok_iff.mp he
  obtain ⟨spans, hspans, he⟩ := read_bind_eq_ok_iff.mp he
  cases spans with
  | true =>
      obtain ⟨_, htext, rest, -, rfl⟩ := bind_eq_ok_iff.mp he
      obtain rfl := Except.ok.inj htext
      exact ⟨[], by simp, Or.inl ⟨rest.commands, rfl⟩⟩
  | false =>
      obtain ⟨_, htext, rest, hrest, rfl⟩ := bind_eq_ok_iff.mp he
      obtain rfl := Except.ok.inj htext
      obtain ⟨emission, hemission, last, hlast, rfl⟩ := bind_eq_ok_iff.mp hrest
      obtain ⟨run, hrun, -, hcommands, -⟩ :=
        mirrors_tree_announced .value argument.1 s q emission hemission
      obtain ⟨opened, leads, c, more, hled, hleads, hc, howners⟩ := exists_lead hinner hrun
      have hopeners := hled.openers hc [] more
      rw [← hleads, List.append_nil] at hopeners
      have hnone : argument.1.NoneSpans := by
        intro list hlist
        obtain rfl : comments = list := Except.ok.inj (hcomments.symm.trans hlist)
        exact Rules.spansLines_of_anySpansLines hspans
      have hstays := hled.stays (hspine hnone emission _ ⟨run, hrun, hcommands, hopeners⟩)
      have hcode : c.noted?.isNone = true := by simp [Command.noted?_of_isCode hc]
      refine ⟨[], by simp, Or.inr ⟨Command.unnoted leads, c, Command.unnoted more ++ last.commands,
        ?_, hc, ?_, written_of_stays hstays⟩⟩
      · simp [Emission.andThen, ← hcommands, hleads, hcode]
      · intro d hd
        obtain ⟨comment, owner, -, rfl⟩ := hstays d hd
        exact ⟨comment, .space, rfl⟩

end Render

/-- **A `return` or `throw` keeps its argument.**  Between the keyword and the first text of the
argument no line ends, or a parenthesis follows the keyword on its line.  If no comment of the
argument itself spans lines, the comments of the parts with which the argument begins have to stay
on their lines. -/
theorem leave_keeps_line {kind keyword : String} (hkeyword : (kind, keyword) ∈ Rules.leavers)
    {role : Role} (hrole : role ≠ .type) {node : Json} (hkind : node.kindName? = some kind)
    {argument : Part node} (hargument : node.present "argument" = .ok (some argument))
    (hinner : argument.1.IsInner) {s : Setting} {q : List Json}
    (hspine : argument.1.NoneSpans → ∀ emission opened,
      Render.BeginsWith .value argument.1 s q emission opened → ∀ owner ∈ opened, owner.KeepsLine)
    {e : Emission Unit} (he : Render.tree role node s q = .ok e) :
    KeepsArgument keyword e.commands := by
  obtain ⟨hlookup, hgiven⟩ := Rules.lookup_leavers hkeyword
  have hfind : Rules.find role.rules (.str kind) = .ok (some (Rules.leave keyword)) := by
    have hrules : role.rules = Rules.valueRules := by
      cases role with
      | type => exact absurd rfl hrole
      | _ => rfl
    simp [Rules.find, hgiven, Json.key, hrules, hlookup]
  rw [← Render.treeWith_dressed,
    Render.treeWith_of_find (Json.kindName?_eq_some_iff.mp hkind) hfind] at he
  have hparts : Render.partsWith Render.dressed node = Render.partsOf node := by
    simp only [Render.partsWith, Render.partsOf, Render.treeWith_dressed]
  rw [hparts] at he
  have hkeeps {own : Emission Unit}
      (hown' : Rules.leave keyword node (Render.partsOf node) s q = .ok own) :
      KeepsArgument keyword own.commands :=
    Render.leave_keeps hargument hinner hspine hown'
  cases role with
  | type => exact absurd rfl hrole
  | bare =>
      obtain ⟨own, hrun, hcommands⟩ := Render.dressed_bare_eq_ok he
      exact hcommands ▸ hkeeps hrun
  | value =>
      obtain ⟨comments, leads, own, -, hleads, hrun, hcommands⟩ := Render.dressed_value_eq_ok he
      obtain ⟨before, hbefore, h⟩ := hkeeps hrun
      refine ⟨leads ++ before, fun c hc => ?_, ?_⟩
      · rcases List.mem_append.mp hc with hc | hc
        · obtain ⟨comment, -, breaks, -, rfl⟩ := Render.mem_leading hleads hc
          exact ⟨comment, _, rfl⟩
        · exact hbefore c hc
      · rcases h with ⟨rest, hrest⟩ | ⟨gap, c, rest, hrest, h⟩
        · exact Or.inl ⟨rest, by rw [hcommands, hrest, List.append_assoc]⟩
        · exact Or.inr ⟨gap, c, rest, by rw [hcommands, hrest, List.append_assoc], h⟩

/-- A comment without a place. -/
def placelessComment (kind text : String) : Json :=
  .obj [("type", .str kind), ("value", .str text)]

/-- The sum `a + b` with a comment before `a` and one before the whole. -/
def notedSum (inside outside : Json) : Json :=
  .obj [("type", .str "BinaryExpression"),
    ("left", .obj [("type", .str "Identifier"), ("name", .str "a"),
      ("leadingComments", .arr [inside])]),
    ("operator", .str "+"), ("right", .obj [("type", .str "Identifier"), ("name", .str "b")]),
    ("leadingComments", .arr [outside])]

/-- The statement that returns it. -/
def returnOfSum (inside outside : Json) : Json :=
  .obj [("type", .str "ReturnStatement"), ("argument", notedSum inside outside)]

/-- Comments that stay on their lines, and a line comment on the left that the parenthesis for the
one of the whole takes care of. -/
theorem leave_keeps_line_returnOfSum :
    (∃ e, Render.tree .bare (returnOfSum (placelessComment "Block" " c ")
      (placelessComment "Block" " d ")) {} [] = .ok e ∧ KeepsArgument "return" e.commands) ∧
    ∃ e, Render.tree .bare (returnOfSum (placelessComment "Line" " c")
      (placelessComment "Line" " d")) {} [] = .ok e ∧ KeepsArgument "return" e.commands := by
  have hrenders (inside outside : Json)
      (hfits : (returnOfSum inside outside).fits (.node ["ReturnStatement"]) = true) :
      ∃ e, Render.tree .bare (returnOfSum inside outside) {} [] = .ok e := by
    obtain ⟨kind, -, hkind⟩ := Json.isA_of_fits hfits
    obtain ⟨e, he, -⟩ := Render.safe_tree .bare (by decide) hkind {} [] (by simp)
    exact ⟨e, he⟩
  have hargument (inside outside : Json) : ∃ part : Part (returnOfSum inside outside),
      part.1 = notedSum inside outside ∧
        (returnOfSum inside outside).present "argument" = .ok (some part) :=
    ⟨⟨_, _⟩, rfl, rfl⟩
  have hkeyword : ("ReturnStatement", "return") ∈ Rules.leavers := by decide
  constructor
  · obtain ⟨e, he⟩ := hrenders (placelessComment "Block" " c ") (placelessComment "Block" " d ")
      (by decide)
    obtain ⟨part, hpart, hpresent⟩ :=
      hargument (placelessComment "Block" " c ") (placelessComment "Block" " d ")
    have hinner : part.1.IsInner := by
      rw [hpart]
      unfold Json.IsInner
      decide
    have hself : part.1.KeepsLine := by
      rw [hpart]
      decide
    have hwithin : ∀ owner ∈ part.1.within, owner.KeepsLine := by
      rw [hpart]
      decide
    refine ⟨e, he, leave_keeps_line hkeyword (by decide) rfl hpresent hinner
      (fun _ emission opened h owner howner => ?_) he⟩
    by_cases howns : owner = part.1
    · exact howns ▸ hself
    · exact Json.keepsLine_of_within (hpart ▸ rfl) hwithin
        (Render.inside_of_beginsWith hinner h howner howns)
  · obtain ⟨e, he⟩ := hrenders (placelessComment "Line" " c") (placelessComment "Line" " d")
      (by decide)
    obtain ⟨part, hpart, hpresent⟩ :=
      hargument (placelessComment "Line" " c") (placelessComment "Line" " d")
    have hinner : part.1.IsInner := by
      rw [hpart]
      unfold Json.IsInner
      decide
    have hspans : ¬part.1.NoneSpans := by
      intro hnone
      rw [hpart] at hnone
      have hline := hnone _ rfl (placelessComment "Line" " d") (by simp)
      cases hline
    exact ⟨e, he, leave_keeps_line hkeyword (by decide) rfl hpresent hinner
      (fun hnone => absurd hnone hspans) he⟩

/-- A line comment before the part with which the argument begins is not looked at, and ends the
statement behind its keyword. -/
theorem leave_loses_argument :
    (printTree {} (returnOfSum (placelessComment "Line" " c")
      (placelessComment "Block" " d "))).toOption.map Output.code =
        some "return /* d */ // c\na + b;" := by
  decide +kernel

end EstreePrinter

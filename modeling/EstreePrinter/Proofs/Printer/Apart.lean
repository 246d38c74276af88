import Mathlib
import EstreePrinter.Proofs.Command.Apart
import EstreePrinter.Proofs.Printer.Legible
import EstreePrinter.Proofs.Printer.Members

/-!
# Comments stay separate

In a print, two comments that follow one another with no code between them have whitespace between
them, and a line feed if the first is a line comment (`print_parts_comments`), as long as there is
no program in the tree but at its root.

There are two exceptions, and `print_glues_comments` and `print_joins_comments` are prints in which
they occur.

**The end of a list.**  Several comments may wait behind the last item of a list: one of the item
and others of nodes inside of it.  They are written with nothing between them, since no separator
follows them (`Command.endsList`).

**The end of the program.**  The comment behind a program goes on the line on which its last
statement ends, behind a blank only, and that line may end with a line comment.
-/

namespace EstreePrinter

open Command (owedWatch endsList gap parts leavesAll)
open Render (Leads)
open Json (Part)

/-! ## What stands between two comments -/

/-- Whether a leaf is neither code nor a comment. -/
def Command.isLayout : Command → Bool
  | .text s => isBlankText s
  | .chunk s _ => isBlankText s
  | .comment _ _ => false
  | _ => true

/-- **A text parts two comments**, the first of which may be a line comment. -/
structure Separates (line : Bool) (text : List Char) : Prop where
  blank : ∀ c ∈ text, isBlank c = true
  nonempty : text ≠ []
  lineFeed : line = true → '\n' ∈ text

namespace Command

lemma comment?_of_isLayout {c : Command} (h : c.isLayout = true) : c.comment? = none := by
  cases c with
  | comment c after => cases h
  | _ => rfl

variable {indent : String} {between : List Command}

lemma written_blank (hindent : BlankIndent indent) (h : ∀ c ∈ between, c.isLayout = true)
    (depth : Nat) : ∀ x ∈ written indent depth between, isBlank x = true := by
  induction between generalizing depth with
  | nil => simp [written]
  | cons c rest ih =>
      have hc : ∀ x ∈ c.textAt indent depth, isBlank x = true := by
        have hlayout := h c List.mem_cons_self
        cases c with
        | text s => exact List.all_eq_true.mp hlayout
        | chunk s span => exact List.all_eq_true.mp hlayout
        | newline => exact lineBreakAt_blank hindent depth
        | comment c after => cases hlayout
        | _ => exact List.forall_mem_nil _
      exact List.forall_mem_append.mpr ⟨hc, ih (fun d hd => h d (List.mem_cons_of_mem _ hd)) _⟩

lemma gap_blank (hindent : BlankIndent indent) (h : ∀ c ∈ between, c.isLayout = true)
    (depth : Nat) (after : Break) : ∀ x ∈ gap indent depth after between, isBlank x = true := by
  refine List.forall_mem_append.mpr ⟨?_, written_blank hindent h depth⟩
  cases after with
  | none => exact List.forall_mem_nil _
  | space => simp [breakAt, isBlank]
  | newline => exact lineBreakAt_blank hindent depth

/-- What parts two comments if it is blank. -/
lemma separates_of_parts {line : Bool} {text : List Char} (hblank : ∀ c ∈ text, isBlank c = true)
    (h : text.any (parts line) = true) : Separates line text := by
  obtain ⟨c, hc, hparts⟩ := List.any_eq_true.mp h
  refine ⟨hblank, List.ne_nil_of_mem hc, fun hline => ?_⟩
  obtain rfl : c = '\n' := by simpa [parts, hline, hblank c hc] using hparts
  exact hc

/-- A comment with a blank before it, behind leaves that keep their comments apart. -/
lemma gap_of_scan_behind {leaves front back : List Command} {comment first second : Json}
    {after behind : Break} {o : Owed} (hscan : owedWatch.scan .nothing leaves = some o)
    (ho : o.isOpen = true) (hbetween : ∀ c ∈ between, c.comment? = none)
    (h : leaves ++ [Command.text " ", .comment comment .none] =
      front ++ .comment first after :: (between ++ .comment second behind :: back)) :
    (after = .none ∧ between = [] ∧ endsList (.comment second behind :: back) = true) ∨
      (∀ indent depth, (gap indent depth after between).any (parts first.isLine) = true) ∨
      back = [] ∧ second = comment ∧ ∀ indent depth, gap indent depth after between ≠ [] := by
  have hconcat (xs ys : List Command) (c d : Command) (h : xs ++ [c] = ys ++ [d]) :
      xs = ys ∧ c = d := by
    obtain ⟨hxs, hcd⟩ := List.append_inj' h rfl
    exact ⟨hxs, by simpa using hcd⟩
  rcases List.eq_nil_or_concat back with rfl | ⟨back, last, rfl⟩
  · -- the second comment is the one behind
    obtain ⟨hfront, hlast⟩ := hconcat (leaves ++ [Command.text " "])
      (front ++ .comment first after :: between) (.comment comment .none) (.comment second behind)
      (by simpa using h)
    obtain ⟨rfl, -⟩ := Command.comment.inj hlast
    refine .inr (.inr ⟨rfl, rfl, fun indent depth => ?_⟩)
    rcases List.eq_nil_or_concat between with rfl | ⟨between, blank, rfl⟩
    · cases (hconcat leaves front _ _ hfront).2
    · obtain ⟨-, rfl⟩ := hconcat leaves (front ++ .comment first after :: between) (.text " ") blank
        (by simpa using hfront)
      simp [gap, written_append, written, textAt]
  · obtain ⟨hleaves, -⟩ := hconcat (leaves ++ [Command.text " "])
      (front ++ .comment first after :: (between ++ .comment second behind :: back))
      (.comment comment .none) last (by simpa using h)
    rcases List.eq_nil_or_concat back with rfl | ⟨back, blank, rfl⟩
    · cases (hconcat leaves (front ++ .comment first after :: between) (.text " ")
        (.comment second behind) (by simpa using hleaves)).2
    · -- both comments are among the leaves before it
      obtain ⟨hwhole, -⟩ := hconcat leaves
        (front ++ .comment first after :: (between ++ .comment second behind :: back)) (.text " ")
        blank (by simpa using hleaves)
      obtain ⟨hafter, hnone, hends⟩ | hparts := gap_of_scan (hwhole ▸ hscan) ho hbetween
      · exact .inl ⟨hafter, hnone, by simpa using endsList_append hends [blank, last]⟩
      · exact .inr (.inl hparts)

end Command

namespace Render

variable {s : Setting} {node : Json} {inner : Inner node}

/-- Behind statements no comment waits. -/
lemma queue_bodyAfter {before : Option Printed} {statements : List (Part node)} {e : Emission Unit}
    (h : bodyAfter inner before statements s [] = .ok e) : e.queue = [] := by
  induction statements generalizing before e with
  | nil =>
      obtain rfl := Except.ok.inj h
      rfl
  | cons statement rest ih =>
      obtain ⟨kind, -, h⟩ := bodyAfter_cons_eq_ok h
      split at h
      · exact ih h
      · obtain ⟨_, -, _, -, held, -, drained, hdrained, others, hothers, -, hqueue⟩ := h
        obtain ⟨_, -, rfl⟩ := drainAfterStatement_eq_ok_iff.mp hdrained
        exact hqueue.trans (ih hothers)

/-- Behind a program its own comment waits, and no other. -/
lemma queue_program {root : Json} (hkind : root.kind = .ok (.str "Program")) {e : Emission Unit}
    (h : tree .value root s [] = .ok e) : e.queue = root.commentBehind.toList := by
  obtain ⟨_, own, hown, -, hqueue, -, -⟩ := handled_eq_ok hkind rfl h
  obtain ⟨_, -, hown⟩ := read_bind_eq_ok_iff.mp hown
  obtain ⟨_, -, hown⟩ := read_bind_eq_ok_iff.mp hown
  simpa [queue_bodyAfter hown] using hqueue

end Render

/-! ## Whole prints -/

/-- **What stands between two comments of a print**: they are parted, or stand at the end of a list,
or the second is the comment behind a program. -/
lemma gap_of_commandsOf {options : Options} {root : Json} {commands : List Command}
    (hroot : ∀ part : Json, part.Inside root → part.kind ≠ .ok (.str "Program"))
    (h : commandsOf options root = .ok commands) {front between back : List Command}
    {first second : Json} {after behind : Break} (hbetween : ∀ c ∈ between, c.comment? = none)
    (hsplit : leavesAll commands =
      front ++ .comment first after :: (between ++ .comment second behind :: back)) :
    (after = .none ∧ between = [] ∧ endsList (.comment second behind :: back) = true) ∨
      (∀ indent depth, (gap indent depth after between).any (parts first.isLine) = true) ∨
      root.kind = .ok (.str "Program") ∧ root.commentBehind = some second ∧ back = [] ∧
        ∀ indent depth, gap indent depth after between ≠ [] := by
  obtain ⟨e, he, rfl⟩ := exists_render_of_commandsOf h
  by_cases hkind : root.kind = .ok (.str "Program")
  · obtain ⟨rendered, hrendered, drained, hdrained, rfl⟩ := Render.bind_eq_ok_iff.mp he
    obtain ⟨o, hscan, ho⟩ := Render.leads_tree Command.allows_owedWatch hroot _ _ _ hrendered
    obtain ⟨commands, hcommands, rfl⟩ := Render.drainAfterStatement_eq_ok_iff.mp hdrained
    rw [Render.queue_program hkind hrendered] at hcommands
    cases hcomment : root.commentBehind with
    | none =>
        rw [hcomment] at hcommands
        obtain rfl := Except.ok.inj hcommands
        have hall : owedWatch.scan owedWatch.rest (front ++ .comment first after ::
            (between ++ .comment second behind :: back)) = some o := by
          rw [← hsplit]
          simpa [Emission.andThen] using hscan
        exact (Command.gap_of_scan hall ho hbetween).imp_right .inl
    | some comment =>
        rw [hcomment] at hcommands
        obtain ⟨_, -, hcommands⟩ := bind_eq_ok_iff.mp hcommands
        obtain ⟨_, hnone, hcommands⟩ := bind_eq_ok_iff.mp hcommands
        obtain rfl := Except.ok.inj hnone
        obtain rfl := Except.ok.inj hcommands
        have hleaves : leavesAll rendered.commands ++ [Command.text " ", .comment comment .none] =
            front ++ .comment first after :: (between ++ .comment second behind :: back) := by
          rw [← hsplit]
          simp [Emission.andThen, Command.leaves]
        refine (Command.gap_of_scan_behind hscan ho hbetween hleaves).imp_right (Or.imp_right ?_)
        rintro ⟨hback, rfl, hgap⟩
        exact ⟨hkind, rfl, hback, hgap⟩
  · have hwhole : Leads owedWatch .nothing (renderWhole root) fun o => o.isOpen = true :=
      Leads.after (Render.rests_tree Command.allows_owedWatch .value fun node hnode =>
        hnode.elim (fun heq => heq ▸ hkind) (hroot node)) fun _ =>
        Render.leads_drainAfterStatement Command.allows_owedWatch
    obtain ⟨o, hscan, ho⟩ := hwhole _ _ _ he
    exact (Command.gap_of_scan (hsplit ▸ hscan) ho hbetween).imp_right .inl

/-- **The comments among commands stay separate** in the code that is written.  Take two comments
that follow one another among the leaves, with no code between them.  Then the code has the two with
`gap` between them, and `gap` separates them: it is blank, it is not empty, and it has a line feed
in it if the first is a line comment.  There are two exceptions: comments at the end of a list,
which have nothing between them; and the comment behind a program, which may stand behind a line
comment with blanks only. -/
def KeepsApart (indent : String) (root : Json) (commands : List Command) (code : String) : Prop :=
  ∀ front first after between second behind back,
    leavesAll commands =
      front ++ .comment first after :: (between ++ .comment second behind :: back) →
    (∀ c ∈ between, c.isLayout = true) →
    ∃ start depth depth' stop,
      code.toList = start ++ commentAt indent depth first ++ gap indent depth after between ++
        (commentAt indent depth' second ++ stop) ∧
      ((after = .none ∧ between = [] ∧ endsList (.comment second behind :: back) = true) ∨
        Separates first.isLine (gap indent depth after between) ∨
        root.kind = .ok (.str "Program") ∧ root.commentBehind = some second ∧ back = [] ∧
          Separates false (gap indent depth after between))

/-- **Comments stay separate.**  If a tree holds no program but at its root and can be printed,
under whatever options, then the comments among its commands stay separate in the printed code. -/
theorem print_parts_comments (options : Options) (tree : Json) (out : Output)
    (htree : ∀ node : Json, node.Inside tree → node.kind ≠ .ok (.str "Program"))
    (h : printTree options tree = .ok out) :
    ∃ root commands, asProgram tree = .ok root ∧ commandsOf options root = .ok commands ∧
      KeepsApart options.indent root commands out.code := by
  obtain ⟨root, commands, marks, hroot, hcommands, hlinear⟩ := stages_of_print h
  have hinside := Json.kind_ne_program_of_asProgram htree hroot
  refine ⟨root, commands, hroot, hcommands, fun front first after between second behind back hsplit
    hlayout => ?_⟩
  have hblank := Command.gap_blank options.blankIndent hlayout
  let depth := front.foldl Command.depthAfter 0
  let depth' := between.foldl Command.depthAfter depth
  refine ⟨written options.indent 0 front, depth, depth',
    breakAt options.indent depth' behind ++ written options.indent depth' back, ?_, ?_⟩
  · rw [(linearize_eq_ok hlinear).1, hsplit]
    simp [written_append, written, Command.textAt, Command.depthAfter, gap, depth, depth']
  · obtain hends | hparts | ⟨hkind, hcomment, hback, hgap⟩ := gap_of_commandsOf hinside hcommands
      (fun c hc => Command.comment?_of_isLayout (hlayout c hc)) hsplit
    · exact .inl hends
    · exact .inr (.inl (Command.separates_of_parts (hblank _ _) (hparts _ _)))
    · exact .inr (.inr ⟨hkind, hcomment, hback, hblank _ _, hgap _ _, fun h => by cases h⟩)

/-- The statement `a;` with a line comment behind the name and a block comment behind the statement.
-/
def remarkedName : Json :=
  let node (kind : String) (fields : List (String × Json)) : Json :=
    .obj (("type", .str kind) :: fields)
  let remark (kind s : String) : String × Json :=
    ("trailingComments", .arr [node kind [("value", .str s)]])
  node "ExpressionStatement" [("expression", node "Identifier" [("name", .str "a"),
    remark "Line" "first"]), remark "Block" "second"]

theorem print_parts_comments_remarkedName :
    (∀ node : Json, node.Inside remarkedName → node.kind ≠ .ok (.str "Program")) ∧
      ∃ out, printTree {} remarkedName = .ok out ∧
        ∃ root commands, asProgram remarkedName = .ok root ∧ commandsOf {} root = .ok commands ∧
          KeepsApart ({} : Options).indent root commands out.code := by
  have hprograms : ∀ node ∈ remarkedName.nodes, node.kind ≠ .ok (.str "Program") := by
    simp [remarkedName, Json.nodes, Json.nodesOf, Json.nodesAmong, Json.kind, Json.getValue,
      Json.get, Json.field?, Json.lookup, Json.isObject]
  have htree : ∀ node : Json, node.Inside remarkedName → node.kind ≠ .ok (.str "Program") :=
    fun node hnode hkind =>
      hprograms node (Json.mem_nodes_of_inside (Render.isObject_of_kind hkind) hnode) hkind
  obtain ⟨out, hout⟩ := exists_print {} (show remarkedName.isEstree = true by decide)
  exact ⟨htree, out, hout, print_parts_comments {} remarkedName out htree hout⟩

/-- The list `[a + b]` with a line comment behind the name `b` and another one behind the sum. -/
def remarkedSum : Json :=
  let node (kind : String) (fields : List (String × Json)) : Json :=
    .obj (("type", .str kind) :: fields)
  let remark (s : String) : String × Json :=
    ("trailingComments", .arr [node "Line" [("value", .str s)]])
  let name (s : String) (fields : List (String × Json)) : Json :=
    node "Identifier" (("name", .str s) :: fields)
  node "ExpressionStatement" [("expression", node "ArrayExpression" [("elements", .arr
    [node "BinaryExpression" [("operator", .str "+"), ("left", name "a" []),
      ("right", name "b" [remark " x"]), remark " y"]])])]

/-- At the end of a list two comments are one. -/
theorem print_glues_comments :
    (printTree {} remarkedSum).toOption.map Output.code = some "[\n\ta + b // x// y\n];" := by
  decide +kernel

/-- The program `a;` with a line comment behind the statement and a block comment behind the
program. -/
def remarkedProgram : Json :=
  let node (kind : String) (fields : List (String × Json)) : Json :=
    .obj (("type", .str kind) :: fields)
  let remark (kind s : String) : String × Json :=
    ("trailingComments", .arr [node kind [("value", .str s)]])
  node "Program" [("body", .arr [node "ExpressionStatement"
    [("expression", node "Identifier" [("name", .str "a")]), remark "Line" " x"]]),
    remark "Block" "y"]

/-- The comment behind a program is swallowed by a line comment. -/
theorem print_joins_comments :
    (printTree {} remarkedProgram).toOption.map Output.code = some "a; // x /*y*/" := by
  decide +kernel

end EstreePrinter

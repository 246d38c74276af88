import Mathlib
import EstreePrinter.Proofs.Estree.Opening
import EstreePrinter.Proofs.Printer.Total

/-!
# How statements, arrow bodies and default exports begin

An expression that begins with a brace, a function or a class is read as something else at the start
of a statement, behind an arrow and behind `export default`.  The printer asks
`Precedence.startsWith` and puts the expression in parentheses if the answer is yes.

The question is answered rightly: the nodes that are open at the first text of the output are one of
the kinds asked for exactly if the answer is yes (`Render.exists_openers`, by induction on the size
of the tree).  Hence in none of the three positions an expression begins as it must not
(`startsWith_iff_openers`).  Inside the head of a loop a bare `in` gets parentheses that the
question does not know of; there the answer may be yes although nothing of the kind comes first, but
never no if it does.

**Targets of assignments.**  An assignment whose target is a pattern with a default, as in
`{} = c = d`, is left out (`Json.AssignsToTargets`): a default belongs to a part of a pattern, and
no expression of the language has it as the target itself.  The question does not look into such a
pattern, so there the answer is no whatever comes first (`patternTarget`).
-/

namespace EstreePrinter

open Json (Part)
open Command (leavesAll openers)

namespace Render

variable {node : Json} {kind : String} {s : Setting} {options : List String}

/-! ## The first text of an expression -/

/-- The rule for a kind of expressions, and with what it begins. -/
lemma exists_leads (h : node.IsA kind) (hkind : kind ∈ Precedence.headKinds)
    (hparen : kind ≠ "ParenthesizedExpression") (htarget : node.hasTarget = true)
    (inner : Inner node) : ∃ rule, Rules.find (Role.rules .value) (.str kind) = .ok (some rule) ∧
      Opens inner (Precedence.Leads node kind s) s (rule node inner) := by
  obtain ⟨rule, hrule, hopens⟩ := Rules.leadsOn_headKinds (s := s) kind hkind hparen
  refine ⟨rule, ?_, hopens node inner h htarget⟩
  simp [Rules.find, h.isGiven_kind, Json.key, Role.rules, hrule]

/-- A text of its own comes first. -/
lemma openers_of_begins_none {inner : Inner node} {commands : List Command}
    (h : inner.Begins s none commands) (stack : List Json) (more : List Command) :
    openers stack (leavesAll commands ++ more) = some stack := by
  obtain ⟨c, rest, rfl, hc⟩ := h
  rw [Command.leavesAll_cons, Command.leaves_of_isCode hc]
  exact Command.openers_of_isCode hc _ _

/-- **The first text of an expression.**  The nodes that are open there are `opened`, whatever was
open before; if one of them is of a kind asked for the answer is yes, and outside of the heads of
loops the other way around. -/
structure Opened (options : List String) (s : Setting) (node : Json) (commands : List Command)
    (opened : List Json) (answer : Bool) : Prop where
  question : Precedence.startsWith node options = .ok answer
  openers : ∀ stack more, openers stack (leavesAll commands ++ more) = some (opened ++ stack)
  complete : (∃ n ∈ opened, n.IsKindIn options) → answer = true
  sound : s.noIn = false → answer = true → ∃ n ∈ opened, n.IsKindIn options

/-- The first text is one of the node's own. -/
lemma opened_own (h : node.IsA kind) (hparen : kind ≠ "ParenthesizedExpression") {answer : Bool}
    (hanswer : Precedence.startsWith node options = .ok answer)
    (hleftmost : s.noIn = true ∨ Precedence.leftmost node (.str kind) = .ok none)
    {commands : List Command}
    (hopeners : ∀ stack more,
      openers stack (leavesAll commands ++ more) = some ([node] ++ stack)) :
    Opened options s node commands [node] answer where
  question := hanswer
  openers := hopeners
  complete := by
    rintro ⟨n, hn, hkind⟩
    obtain rfl := List.mem_singleton.mp hn
    rw [Precedence.startsWith_of_isA h hparen, if_pos (h.isKindIn_iff.mp hkind)] at hanswer
    exact (Except.ok.inj hanswer).symm
  sound hnoIn hyes := by
    have hnone := hleftmost.resolve_left (by simp [hnoIn])
    refine ⟨node, List.mem_singleton.mpr rfl, h.isKindIn_iff.mpr ?_⟩
    by_contra hmem
    rw [Precedence.startsWith_of_isA h hparen, if_neg hmem, hnone] at hanswer
    simp [← Except.ok.inj hanswer] at hyes

/-- The first text is that of a part, of which the same question is asked. -/
lemma opened_part (h : node.IsA kind) {part : Part node} {answer : Bool}
    {own commands : List Command} {opened : List Json}
    (hpart : Opened options s part.1 own opened answer)
    (hanswer : Precedence.startsWith node options =
      if kind ∈ options then .ok true else .ok answer)
    (hopeners : ∀ stack more, ∃ rest,
      openers stack (leavesAll commands ++ more) = openers (node :: stack) (leavesAll own ++ rest)) :
    ∃ answer', Opened options s node commands (opened ++ [node]) answer' := by
  have hall (stack : List Json) (more : List Command) :
      openers stack (leavesAll commands ++ more) = some (opened ++ [node] ++ stack) := by
    obtain ⟨rest, hrest⟩ := hopeners stack more
    rw [hrest, hpart.openers, List.append_assoc]
    rfl
  by_cases hkind : kind ∈ options
  · exact ⟨true,
      { question := by rw [hanswer, if_pos hkind]
        openers := hall
        complete := fun _ => rfl
        sound := fun _ _ => ⟨node, by simp, h.isKindIn_iff.mpr hkind⟩ }⟩
  · refine ⟨answer,
      { question := by rw [hanswer, if_neg hkind]
        openers := hall
        complete := ?_
        sound := fun hnoIn hyes => ?_ }⟩
    · rintro ⟨n, hn, hn'⟩
      rcases List.mem_append.mp hn with hn | hn
      · exact hpart.complete ⟨n, hn, hn'⟩
      · obtain rfl := List.mem_singleton.mp hn
        exact absurd (h.isKindIn_iff.mp hn') hkind
    · obtain ⟨n, hn, hn'⟩ := hpart.sound hnoIn hyes
      exact ⟨n, List.mem_append_left _ hn, hn'⟩

/-- Names and decorators begin with a text of their own. -/
lemma startsWith_plain (hoptions : ∀ k ∈ options, k ∈ Rules.statementHeaded) (h : node.IsA kind)
    (hkind : kind ∈ ["Identifier", "Decorator"]) :
    Precedence.startsWith node options = .ok false := by
  have hfacts : ∀ k ∈ ["Identifier", "Decorator"],
      k ≠ "ParenthesizedExpression" ∧ k ∉ Rules.statementHeaded := by decide
  obtain ⟨hparen, hother⟩ := hfacts kind hkind
  have hleftmost : Precedence.leftmost node (.str kind) = .ok none := by
    simp only [List.mem_cons, List.not_mem_nil, or_false] at hkind
    rcases hkind with rfl | rfl <;> rfl
  rw [Precedence.startsWith_of_isA h hparen, if_neg fun hmem => hother (hoptions kind hmem),
    hleftmost]
  rfl

/-- **The question is answered rightly.**  The induction is on the size of the tree; the rule for
the node says with which part it begins. -/
theorem exists_openers (hoptions : ∀ k ∈ options, k ∈ Rules.statementHeaded) (h : node.IsA kind)
    (hkind : kind ∈ Precedence.headKinds) (htargets : node.AssignsToTargets) {q : List Json}
    {e : Emission Unit} (he : treeWith announced .value node s q = .ok e) :
    ∃ opened answer, Opened options s node e.commands opened answer := by
  induction hn : sizeOf node using Nat.strong_induction_on generalizing node kind q e with
  | h n ih =>
      have hrecurse {part : Part node} {inner : String} (hpart : part.1.IsA inner)
          (hinner : inner ∈ Precedence.headKinds) {q : List Json} {e : Emission Unit}
          (he : (partsWith announced node).value part s q = .ok e) :
          ∃ opened answer, Opened options s part.1 e.commands opened answer :=
        ih _ (hn ▸ part.2.sizeOf_lt) hpart hinner (htargets.part part) he rfl
      -- what the rule emits begins with what a part emits
      have hbegins {part : Part node} {inner : String} (hpart : part.1.IsA inner)
          (hinner : inner ∈ Precedence.headKinds) {own commands : List Command}
          (hown : (partsWith announced node).Begins s (some part) own)
          (hopeners : ∀ stack more, ∃ rest, openers stack (leavesAll commands ++ more) =
            openers (node :: stack) (leavesAll own ++ rest))
          (hanswer : ∀ answer, Precedence.startsWith part.1 options = .ok answer →
            Precedence.startsWith node options = if kind ∈ options then .ok true else .ok answer) :
          ∃ opened answer, Opened options s node commands opened answer := by
        obtain ⟨q', e', rest, he', rfl⟩ := hown
        obtain ⟨opened, answer, hopened⟩ := hrecurse hpart hinner he'
        refine ⟨opened ++ [node], opened_part h hopened (hanswer answer hopened.question) ?_⟩
        intro stack more
        obtain ⟨behind, hbehind⟩ := hopeners stack more
        exact ⟨leavesAll rest ++ behind, by rw [hbehind, Command.leavesAll_append,
          List.append_assoc]⟩
      by_cases hparen : kind = "ParenthesizedExpression"
      · -- the parentheses of the tree are not printed
        subst hparen
        have hother : "ParenthesizedExpression" ∉ options := fun hmem =>
          absurd (hoptions _ hmem) (by decide)
        have hfind : Rules.find (Role.rules .value) (.str "ParenthesizedExpression") =
            .ok (some Rules.transparent) := rfl
        rw [treeWith_of_find h.kind_eq hfind] at he
        obtain ⟨own, hown, hopeners⟩ := openers_of_announced (by decide) he
        have hopens : Opens (partsWith announced node)
            (fun first => ∃ part, node.require "expression" = .ok part ∧ first = some part) s
            (Rules.transparent node (partsWith announced node)) :=
          Rules.opens_transparent fun part hpart => ⟨part, hpart, rfl⟩
        obtain ⟨_, ⟨part, hpart, rfl⟩, hown⟩ := hopens q own hown
        obtain ⟨inner, hmem, hinner⟩ := Precedence.isA_of_require h rfl rfl hpart
        refine hbegins hinner (List.mem_append_right _ hmem) hown hopeners fun answer hanswer => ?_
        rw [Precedence.startsWith_parenthesized h hpart, hanswer, if_neg hother]
      · obtain ⟨rule, hfind, hopens⟩ :=
          exists_leads h hkind hparen (htargets.self h.isObject) (partsWith announced node)
        rw [treeWith_of_find h.kind_eq hfind] at he
        obtain ⟨own, hown, hopeners⟩ := openers_of_announced (by decide) he
        obtain ⟨first, hleads, hfirst⟩ := hopens q own hown
        obtain ⟨answer, hanswer⟩ := Precedence.exists_startsWith h options
        have hquestion : Precedence.startsWith node options = _ :=
          Precedence.startsWith_of_isA h hparen
        have hself (hleftmost : s.noIn = true ∨ Precedence.leftmost node (.str kind) = .ok none)
            (hfirst : (partsWith announced node).Begins s none own.commands) :
            Opened options s node e.commands [node] answer := by
          refine opened_own h hparen hanswer hleftmost fun stack more => ?_
          obtain ⟨rest, hrest⟩ := hopeners stack more
          rw [hrest, openers_of_begins_none hfirst]
          rfl
        cases hleads with
        | own hleftmost => exact ⟨_, _, hself (.inr hleftmost) hfirst⟩
        | hidden hnoIn => exact ⟨_, _, hself (.inl hnoIn) hfirst⟩
        | part hleftmost hpart hinner =>
            refine hbegins hpart hinner hfirst hopeners fun answer hanswer => ?_
            rw [hquestion, hleftmost, ← hanswer]
            rfl
        | plain hleftmost hpart hinner =>
            have hheads : ∀ k ∈ ["Identifier", "Decorator"], k ∈ Precedence.headKinds := by decide
            refine hbegins hpart (hheads _ hinner) hfirst hopeners fun answer hanswer => ?_
            rw [startsWith_plain hoptions hpart hinner] at hanswer
            rw [hquestion, hleftmost, ← Except.ok.inj hanswer]
            rfl

/-! ## Three positions -/

/-- An expression that goes in parentheses if the answer is yes does not begin as it must not. -/
lemma exists_openers_wrapped (hoptions : ∀ k ∈ options, k ∈ Rules.statementHeaded)
    {part : Part node} (h : part.1.IsA kind) (hkind : kind ∈ Precedence.headKinds)
    (htargets : node.AssignsToTargets) {wrap : Bool}
    (hanswer : Precedence.startsWith part.1 options = .ok wrap) {q : List Json} {e : Emission Unit}
    (he : (partsWith announced node).wrapped part wrap s q = .ok e) :
    ∃ opened, (∀ stack more, openers stack (leavesAll e.commands ++ more) = some (opened ++ stack)) ∧
      ∀ n ∈ opened, ¬n.IsKindIn options := by
  cases wrap with
  | true =>
      obtain ⟨first, hfirst, second, -, rfl⟩ := bind_eq_ok_iff.mp he
      obtain rfl := Except.ok.inj hfirst
      exact ⟨[], fun stack more => Command.openers_of_isCode rfl _ _, by simp⟩
  | false =>
      obtain ⟨opened, answer, hopened⟩ := exists_openers hoptions h hkind (htargets.part part) he
      obtain rfl : false = answer := Except.ok.inj (hanswer.symm.trans hopened.question)
      exact ⟨opened, hopened.openers,
        fun n hn hmem => absurd (hopened.complete ⟨n, hn, hmem⟩) Bool.false_ne_true⟩

/-- The run of a rule with a note of the node, beside the run of its print. -/
lemma exists_announced {role : Role} (hrole : role ≠ .type) (h : node.IsA kind) {rule : Rule}
    (hrule : Rules.valueRules.lookup kind = some rule) {q : List Json} {emission : Emission Unit}
    (hemission : tree role node s q = .ok emission) :
    ∃ run, treeWith announced role node s q = .ok run ∧
      Command.unnoted run.commands = emission.commands ∧
      announced role node (rule node (partsWith announced node)) s q = .ok run := by
  obtain ⟨run, hrun, -, hcommands, -⟩ := mirrors_tree_announced role node s q emission hemission
  have hfind : Rules.find role.rules (.str kind) = .ok (some rule) := by
    have hrules : role.rules = Rules.valueRules := by
      cases role with
      | type => exact absurd rfl hrole
      | _ => rfl
    simp [Rules.find, h.isGiven_kind, Json.key, hrules, hrule]
  refine ⟨run, hrun, hcommands, ?_⟩
  rwa [treeWith_of_find h.kind_eq hfind] at hrun

/-- **The beginning of an output**: the nodes that are open at its first text. -/
def BeginsWith (role : Role) (node : Json) (s : Setting) (q : List Json) (emission : Emission Unit)
    (opened : List Json) : Prop :=
  ∃ run, treeWith announced role node s q = .ok run ∧
    Command.unnoted run.commands = emission.commands ∧
    openers [] (leavesAll run.commands) = some opened

lemma expression_begins (hoptions : ∀ k ∈ options, k ∈ Rules.statementHeaded) {e : Json}
    (he : e.fits Estree.expression = true) (htargets : e.AssignsToTargets) (hnoIn : s.noIn = false)
    {q : List Json} {emission : Emission Unit} (hemission : tree .value e s q = .ok emission) :
    ∃ opened answer, BeginsWith .value e s q emission opened ∧
      Precedence.startsWith e options = .ok answer ∧
      (answer = true ↔ ∃ n ∈ opened, n.IsKindIn options) := by
  obtain ⟨kind, hmem, hkind⟩ := Json.isA_of_fits he
  obtain ⟨run, hrun, -, hcommands, -⟩ := mirrors_tree_announced .value e s q emission hemission
  obtain ⟨opened, answer, hopened⟩ :=
    exists_openers hoptions hkind (List.mem_append_right _ hmem) htargets hrun
  have hopeners := hopened.openers [] []
  rw [List.append_nil, List.append_nil] at hopeners
  exact ⟨opened, answer, ⟨run, hrun, hcommands, hopeners⟩, hopened.question,
    hopened.sound hnoIn, hopened.complete⟩

/-- A statement does not begin with an object, a function or a class. -/
lemma statement_begins {role : Role} (hrole : role ≠ .type)
    (h : node.fits (.node ["ExpressionStatement"]) = true) (htargets : node.AssignsToTargets)
    {q : List Json} {emission : Emission Unit} (hemission : tree role node s q = .ok emission) :
    ∃ opened, BeginsWith role node s q emission opened ∧
      ∀ n ∈ opened, ¬n.IsKindIn Rules.statementHeaded := by
  obtain ⟨kind, hmem, hkind⟩ := Json.isA_of_fits h
  obtain rfl := List.mem_singleton.mp hmem
  obtain ⟨run, hrun, hcommands, hannounced⟩ := exists_announced hrole hkind rfl hemission
  obtain ⟨own, hown, hopeners⟩ := openers_of_announced hrole hannounced
  obtain ⟨part, hpart, hown⟩ := read_bind_eq_ok_iff.mp hown
  obtain ⟨wrap, hwrap, hown⟩ := read_bind_eq_ok_iff.mp hown
  obtain ⟨inside, hinside, last, hlast, rfl⟩ := bind_eq_ok_iff.mp hown
  obtain ⟨inner, hinner, hisA⟩ := Precedence.isA_of_require hkind rfl rfl hpart
  obtain ⟨opened, hopened, hnone⟩ := exists_openers_wrapped (fun _ hk => hk) hisA
    (List.mem_append_right _ hinner) htargets hwrap hinside
  refine ⟨opened ++ [node], ⟨run, hrun, hcommands, ?_⟩, ?_⟩
  · obtain ⟨more, hmore⟩ := hopeners [] []
    rw [List.append_nil] at hmore
    rw [hmore]
    simp [Emission.andThen, hopened]
  · intro n hn
    rcases List.mem_append.mp hn with hn | hn
    · exact hnone n hn
    · obtain rfl := List.mem_singleton.mp hn
      exact fun hmem => absurd (hkind.isKindIn_iff.mp hmem) (by decide)

end Render

namespace Rules

/-- What an arrow function emits before its arrow. -/
def arrowHead (node : Json) (inner : Inner node) : Render Unit := do
  Render.textIf node "async" "async "
  signature inner

/-- What an arrow function emits behind its arrow. -/
def arrowBody (node : Json) (inner : Inner node) : Render Unit := do
  let body ← node.require "body"
  if (← body.1.requireKind).isText "BlockStatement" then inner.value body
  else inner.wrapped body (← Precedence.startsWith body.1 braceHeaded)

lemma arrow_eq (node : Json) (inner : Inner node) : arrow node inner = (do
    arrowHead node inner
    Render.text " => "
    arrowBody node inner) := by
  rw [arrowHead, bind_assoc]
  rfl

end Rules

namespace Render

variable {node : Json} {s : Setting}

/-- **A text in the middle of an output, and with what it goes on**: the rule for a node is some
steps, the text and the rest, and `opened` are the nodes open at the first text of the rest. -/
def GoesOnWith (role : Role) (node : Json) (s : Setting) (q : List Json) (emission : Emission Unit)
    (before : Inner node → Render Unit) (word : String) (opened : List Json) : Prop :=
  ∃ run comments leads head rest, treeWith announced role node s q = .ok run ∧
    Command.unnoted run.commands = emission.commands ∧
    leading false node comments = .ok leads ∧ before (partsWith announced node) s q = .ok head ∧
    run.commands = .bracket node true :: (leads ++ head.commands ++ .text word :: rest) ∧
    openers [node] (leavesAll rest) = some opened

/-- The rest of a rule begins as the first of its steps does. -/
lemma goesOnWith_of_announced {role : Role} (hrole : role ≠ .type) {kind : String}
    (h : node.IsA kind) {rule : Rule} (hrule : Rules.valueRules.lookup kind = some rule)
    {before : Inner node → Render Unit} {word : String} {after : Inner node → Render Unit}
    (hsteps : ∀ inner, rule node inner = do before inner; text word; after inner)
    {P : List Json → Prop}
    (hafter : ∀ q e, after (partsWith announced node) s q = .ok e →
      ∃ opened, (∀ stack more, openers stack (leavesAll e.commands ++ more) =
        some (opened ++ stack)) ∧ P (opened ++ [node]))
    {q : List Json} {emission : Emission Unit} (hemission : tree role node s q = .ok emission) :
    ∃ opened, GoesOnWith role node s q emission before word opened ∧ P opened := by
  obtain ⟨run, hrun, hcommands, hannounced⟩ := exists_announced hrole h hrule hemission
  obtain ⟨comments, leads, own, -, hleads, hown, heq⟩ := announced_eq_ok hrole hannounced
  rw [hsteps] at hown
  obtain ⟨head, hhead, second, hsecond, rfl⟩ := bind_eq_ok_iff.mp hown
  obtain ⟨_, htext, third, hthird, rfl⟩ := bind_eq_ok_iff.mp hsecond
  obtain rfl := Except.ok.inj htext
  obtain ⟨opened, hopened, hP⟩ := hafter _ _ hthird
  refine ⟨opened ++ [node], ⟨run, comments, leads, head,
    third.commands ++ [Command.bracket node false], hrun, hcommands, hleads, hhead,
    by simp [heq, Emission.andThen], ?_⟩, hP⟩
  rw [Command.leavesAll_append, hopened]

/-- The body of an arrow function, unless it is a block, does not begin with a brace. -/
lemma arrow_goes_on {role : Role} (hrole : role ≠ .type)
    (h : node.fits (.node ["ArrowFunctionExpression"]) = true) (htargets : node.AssignsToTargets)
    (hbody : ∀ body, node.require "body" = .ok body → body.1.kindName? ≠ some "BlockStatement")
    {q : List Json} {emission : Emission Unit} (hemission : tree role node s q = .ok emission) :
    ∃ opened, GoesOnWith role node s q emission (Rules.arrowHead node) " => " opened ∧
      ∀ n ∈ opened, ¬n.IsKindIn Rules.braceHeaded := by
  obtain ⟨kind, hmem, hkind⟩ := Json.isA_of_fits h
  obtain rfl := List.mem_singleton.mp hmem
  refine goesOnWith_of_announced hrole hkind rfl (Rules.arrow_eq node) (fun q e he => ?_) hemission
  obtain ⟨part, hpart, he⟩ := read_bind_eq_ok_iff.mp he
  obtain ⟨inner, hinner, hisA⟩ := Precedence.isA_of_require hkind rfl rfl hpart
  have hblock : inner ≠ "BlockStatement" := fun heq => hbody part hpart (heq ▸ hisA.kindName)
  obtain ⟨found, hfound, he⟩ := read_bind_eq_ok_iff.mp he
  obtain rfl := Except.ok.inj (hisA.requireKind_eq.symm.trans hfound)
  rw [if_neg (by simpa [Json.isText] using hblock)] at he
  obtain ⟨wrap, hwrap, he⟩ := read_bind_eq_ok_iff.mp he
  obtain ⟨opened, hopened, hnone⟩ := exists_openers_wrapped (by decide) hisA
    (List.mem_append_right _ ((List.mem_cons.mp hinner).resolve_left hblock)) htargets hwrap he
  refine ⟨opened, hopened, fun n hn => ?_⟩
  rcases List.mem_append.mp hn with hn | hn
  · exact hnone n hn
  · obtain rfl := List.mem_singleton.mp hn
    exact fun hmem => absurd (hkind.isKindIn_iff.mp hmem) (by decide)

/-- A text does not depend on what was read before it. -/
lemma read_text {α β : Type} (x : Except Fault α) (word : String) (f : α → Render β) :
    (do let a ← x; text word; f a) = (do text word; let a ← x; f a) := by
  cases x with
  | error fault => rfl
  | ok a =>
      have hread (g : α → Render β) : ((liftM (.ok a : Except Fault α) : Render α) >>= g) = g a :=
        read_bind rfl g
      simp only [hread]

/-- An expression that is exported by default does not begin with a function or a class. -/
lemma exportDefault_goes_on {role : Role} (hrole : role ≠ .type)
    (h : node.fits (.node ["ExportDefaultDeclaration"]) = true) (htargets : node.AssignsToTargets)
    (hexpression : ∀ part, node.require "declaration" = .ok part →
      part.1.fits Estree.expression = true)
    {q : List Json} {emission : Emission Unit} (hemission : tree role node s q = .ok emission) :
    ∃ opened, GoesOnWith role node s q emission (fun _ => pure ()) "export default " opened ∧
      ∀ n ∈ opened, ¬n.IsKindIn Rules.declarationHeaded := by
  obtain ⟨kind, hmem, hkind⟩ := Json.isA_of_fits h
  obtain rfl := List.mem_singleton.mp hmem
  have hsteps (inner : Inner node) : Rules.exportDefault node inner =
      ((pure () : Render Unit) >>= fun _ => do
        text "export default "
        let declaration ← node.require "declaration"
        inner.wrapped declaration
          (← Precedence.startsWith declaration.1 Rules.declarationHeaded)
        if !(← (← declaration.1.requireKind).isIn Rules.selfTerminating) then text ";") := by
    rw [pure_bind, ← read_text]
    rfl
  refine goesOnWith_of_announced hrole hkind rfl hsteps (fun q e he => ?_) hemission
  obtain ⟨part, hpart, he⟩ := read_bind_eq_ok_iff.mp he
  obtain ⟨wrap, hwrap, he⟩ := read_bind_eq_ok_iff.mp he
  obtain ⟨inside, hinside, last, hlast, rfl⟩ := bind_eq_ok_iff.mp he
  obtain ⟨inner, hinner, hisA⟩ := Json.isA_of_fits (hexpression part hpart)
  obtain ⟨opened, hopened, hnone⟩ := exists_openers_wrapped (by decide) hisA
    (List.mem_append_right _ hinner) htargets hwrap hinside
  refine ⟨opened, fun stack more => ?_, fun n hn => ?_⟩
  · simp [Emission.andThen, hopened]
  · rcases List.mem_append.mp hn with hn | hn
    · exact hnone n hn
    · obtain rfl := List.mem_singleton.mp hn
      exact fun hmem => absurd (hkind.isKindIn_iff.mp hmem) (by decide)

end Render

open Render (tree BeginsWith GoesOnWith)

/-- **No expression begins as it must not.**  Whether the text of an expression begins with one of
some kinds of nodes is answered rightly: yes exactly if a node of such a kind is open at the first
text.  Hence a statement does not begin with an object, a function or a class, the body of an arrow
function does not begin with an object, and what is exported by default does not begin with a
function or a class, unless it is the declaration of one. -/
theorem startsWith_iff_openers (s : Setting) :
    (∀ (e : Json) (options : List String), e.fits Estree.expression = true → e.AssignsToTargets →
      (∀ kind ∈ options, kind ∈ Rules.statementHeaded) → s.noIn = false →
        (∃ emission, tree .value e s [] = .ok emission) ∧
        ∀ q emission, tree .value e s q = .ok emission →
          ∃ opened answer, BeginsWith .value e s q emission opened ∧
            Precedence.startsWith e options = .ok answer ∧
            (answer = true ↔ ∃ node ∈ opened, node.IsKindIn options)) ∧
    ∀ (role : Role) (node : Json) (q : List Json) (emission : Emission Unit), role ≠ .type →
      node.AssignsToTargets → tree role node s q = .ok emission →
        (node.fits (.node ["ExpressionStatement"]) = true →
          ∃ opened, BeginsWith role node s q emission opened ∧
            ∀ n ∈ opened, ¬n.IsKindIn Rules.statementHeaded) ∧
        (node.fits (.node ["ArrowFunctionExpression"]) = true →
          (∀ body, node.require "body" = .ok body → body.1.kindName? ≠ some "BlockStatement") →
          ∃ opened, GoesOnWith role node s q emission (Rules.arrowHead node) " => " opened ∧
            ∀ n ∈ opened, ¬n.IsKindIn Rules.braceHeaded) ∧
        (node.fits (.node ["ExportDefaultDeclaration"]) = true →
          (∀ declaration, node.require "declaration" = .ok declaration →
            declaration.1.fits Estree.expression = true) →
          ∃ opened, GoesOnWith role node s q emission (fun _ => pure ()) "export default " opened ∧
            ∀ n ∈ opened, ¬n.IsKindIn Rules.declarationHeaded) := by
  refine ⟨fun e options he htargets hoptions hnoIn => ⟨?_, fun q emission hemission =>
      Render.expression_begins hoptions he htargets hnoIn hemission⟩,
    fun role node q emission hrole htargets hemission =>
      ⟨fun h => Render.statement_begins hrole h htargets hemission,
        fun h hbody => Render.arrow_goes_on hrole h htargets hbody hemission,
        fun h hexpression =>
          Render.exportDefault_goes_on hrole h htargets hexpression hemission⟩⟩
  obtain ⟨kind, -, hkind⟩ := Json.isA_of_fits he
  obtain ⟨emission, hemission, -⟩ := Render.safe_tree .value (by decide) hkind s [] (by simp)
  exact ⟨emission, hemission⟩

/-- The expression `head + c ? c : c`. -/
def headedBy (head : Json) : Json :=
  let node (kind : String) (fields : List (String × Json)) : Json :=
    .obj (("type", .str kind) :: fields)
  let name : Json := node "Identifier" [("name", .str "c")]
  node "ConditionalExpression" [("test", node "BinaryExpression"
      [("left", head), ("operator", .str "+"), ("right", name)]),
    ("consequent", name), ("alternate", name)]

/-- An object without properties. -/
def bareObject : Json := .obj [("type", .str "ObjectExpression"), ("properties", .arr [])]

/-- A class without a name or members. -/
def bareClass : Json :=
  .obj [("type", .str "ClassExpression"), ("body", .obj [("type", .str "ClassBody"),
    ("body", .arr [])])]

/-- A class at the beginning of a statement. -/
def headedStatement : Json :=
  .obj [("type", .str "ExpressionStatement"), ("expression", headedBy bareClass)]

/-- An object at the beginning of the body of an arrow function. -/
def headedArrow : Json :=
  .obj [("type", .str "ArrowFunctionExpression"), ("params", .arr []),
    ("body", headedBy bareObject)]

/-- A class at the beginning of what is exported by default. -/
def headedExport : Json :=
  .obj [("type", .str "ExportDefaultDeclaration"), ("declaration", headedBy bareClass)]

theorem startsWith_iff_openers_headedBy :
    (∃ emission opened answer, BeginsWith .value (headedBy bareObject) {} [] emission opened ∧
      Precedence.startsWith (headedBy bareObject) Rules.statementHeaded = .ok answer ∧
      (answer = true ↔ ∃ node ∈ opened, node.IsKindIn Rules.statementHeaded)) ∧
    (∃ emission opened, BeginsWith .bare headedStatement {} [] emission opened ∧
      ∀ node ∈ opened, ¬node.IsKindIn Rules.statementHeaded) ∧
    (∃ emission opened,
      GoesOnWith .value headedArrow {} [] emission (Rules.arrowHead headedArrow) " => " opened ∧
        ∀ node ∈ opened, ¬node.IsKindIn Rules.braceHeaded) ∧
    ∃ emission opened,
      GoesOnWith .bare headedExport {} [] emission (fun _ => pure ()) "export default " opened ∧
        ∀ node ∈ opened, ¬node.IsKindIn Rules.declarationHeaded := by
  obtain ⟨hexpression, hpositions⟩ := startsWith_iff_openers {}
  have hsucceeds {role : Role} {node : Json} {kinds : List String} (hrole : role ≠ .type)
      (h : node.fits (.node kinds) = true) : ∃ emission, tree role node {} [] = .ok emission := by
    obtain ⟨kind, -, hkind⟩ := Json.isA_of_fits h
    obtain ⟨emission, hemission, -⟩ := Render.safe_tree role hrole hkind {} [] (by simp)
    exact ⟨emission, hemission⟩
  have hobject : (headedBy bareObject).AssignsToTargets := by
    unfold Json.AssignsToTargets
    decide
  have hstatement : headedStatement.fits (.node ["ExpressionStatement"]) = true := by decide
  have harrow : headedArrow.fits (.node ["ArrowFunctionExpression"]) = true := by decide
  have hexport : headedExport.fits (.node ["ExportDefaultDeclaration"]) = true := by decide
  have htargets : headedStatement.AssignsToTargets ∧ headedArrow.AssignsToTargets ∧
      headedExport.AssignsToTargets := by
    unfold Json.AssignsToTargets
    decide
  refine ⟨?_, ?_, ?_, ?_⟩
  · obtain ⟨⟨emission, hemission⟩, hall⟩ := hexpression (headedBy bareObject) Rules.statementHeaded
      (by decide) hobject (fun _ h => h) rfl
    exact ⟨emission, hall [] emission hemission⟩
  · obtain ⟨emission, hemission⟩ := hsucceeds (by decide : Role.bare ≠ .type) hstatement
    exact ⟨emission, (hpositions _ _ _ _ (by decide) htargets.1 hemission).1 hstatement⟩
  · obtain ⟨emission, hemission⟩ := hsucceeds (by decide : Role.value ≠ .type) harrow
    refine ⟨emission, (hpositions _ _ _ _ (by decide) htargets.2.1 hemission).2.1 harrow ?_⟩
    intro body hbody
    cases hbody
    decide
  · obtain ⟨emission, hemission⟩ := hsucceeds (by decide : Role.bare ≠ .type) hexport
    refine ⟨emission, (hpositions _ _ _ _ (by decide) htargets.2.2 hemission).2.2 hexport ?_⟩
    intro declaration hdeclaration
    cases hdeclaration
    decide

/-- The answer for a braced beginning is yes. -/
example : (Precedence.startsWith (headedBy bareObject) Rules.statementHeaded).toOption =
    some true := by
  decide +kernel

/-- An assignment to the pattern `{} = c`, which no source has. -/
def patternTarget : Json :=
  let name (s : String) : Json := .obj [("type", .str "Identifier"), ("name", .str s)]
  .obj [("type", .str "AssignmentExpression"), ("operator", .str "="),
    ("left", .obj [("type", .str "AssignmentPattern"),
      ("left", .obj [("type", .str "ObjectPattern"), ("properties", .arr [])]),
      ("right", name "c")]),
    ("right", name "d")]

example : (Precedence.startsWith patternTarget ["ObjectPattern"]).toOption = some false ∧
    (printTree {} patternTarget).toOption.map Output.code = some "\x7b\x7d = c = d" := by
  constructor <;> decide +kernel

end EstreePrinter

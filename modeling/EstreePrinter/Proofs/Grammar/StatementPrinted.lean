import Mathlib
import EstreePrinter.Proofs.Grammar.Glyph
import EstreePrinter.Proofs.Grammar.Printed
import EstreePrinter.Proofs.Printer.Leaving

/-!
# Printed statements are read back

Which trees describe a statement (`DescribesStatement`), and what is printed for them: the terminals
of the statement (`shows_tree`).  Comments may be anywhere; in the text they are blanks.

An `else` is printed behind whatever stands before it, and no braces are put around that.  So the
printed statement is read as itself if no statement before an `else` ends with an `if` that has
none, and as another statement otherwise.

* `Shows` — which terminals a rendering step shows, with what may stand before and behind it;
* `shows_forEach`, `shows_for`, `shows_if`, `shows_block`, ... — the rules, one lemma for each;
* **`handle_attaches`** — each `else` goes to its own `if` just if `Tree.attaches` says so.
-/

namespace EstreePrinter

open Json (Part)
open Render (EmitsAt read_bind partsWith treeWith announced)

namespace Json

/-- A field holds an expression. -/
def HasExpression (node : Json) (key : String) (e : Json) : Prop :=
  node.Has key e ∧ e.isStatement = false

/-- A field holds an expression, if it is given. -/
def MayHave (node : Json) (key : String) : Option Json → Prop
  | none => node.given key = .ok none
  | some e => (∃ h, node.given key = .ok (some ⟨e, h⟩)) ∧ e.isStatement = false

end Json

namespace Grammar.Statement

/-! ## Trees of statements -/

/-- The text of a keyword in a tree. -/
def Keyword.text : Keyword → String
  | var => "var"
  | lexical => "let"
  | constant => "const"
  | resource => "using"
  | asyncResource => "await using"

/-- **Which trees describe what comes first in the head of a loop.** -/
inductive DescribesStart : Json → Start → Prop
  | expression {e : Json} (hnode : e.isStatement = false)
      (hkind : e.requireKind ≠ .ok (.str "VariableDeclaration")) : DescribesStart e (.expression e)
  | declaration {node e : Json} {keyword : Keyword} {others : List Json}
      (hkind : node.kind = .ok (.str "VariableDeclaration"))
      (hdeclare : node.flag "declare" = .ok false) (hkeyword : node.Has "kind" (.str keyword.text))
      (hlist : node.Has "declarations" (.arr (e :: others)))
      (hnodes : ∀ declarator ∈ e :: others, declarator.isStatement = false) :
      DescribesStart node (.declaration keyword e others)

/-- A loop over keys or values assigns to a target. -/
structure IsLoop (node : Json) (kind : String) (isAwait : Bool) (target : Target) (e : Json) :
    Prop where
  kind_eq : node.kind = .ok (.str kind)
  await_eq : node.flag "await" = .ok isAwait
  left : ∃ head, node.Has "left" head ∧ DescribesStart head target.start
  right : node.HasExpression "right" e

/-- **Which trees have a head.** -/
inductive DescribesHead : Json → Head → Prop
  | test {node e : Json} (hkind : node.kind = .ok (.str "WhileStatement"))
      (he : node.HasExpression "test" e) : DescribesHead node (.test e)
  | scope {node e : Json} (hkind : node.kind = .ok (.str "WithStatement"))
      (he : node.HasExpression "object" e) : DescribesHead node (.scope e)
  | steps {node : Json} {start : Start} {first second : Option Json}
      (hkind : node.kind = .ok (.str "ForStatement"))
      (hstart : node.given "init" = .ok none ∧ start = .none ∨
        ∃ head, node.given "init" = .ok (some head) ∧ DescribesStart head.1 start)
      (hfirst : node.MayHave "test" first) (hsecond : node.MayHave "update" second) :
      DescribesHead node (.steps start first second)
  | keys {node e : Json} {target : Target} (h : IsLoop node "ForInStatement" false target e) :
      DescribesHead node (.keys target e)
  | values {node e : Json} {target : Target} (h : IsLoop node "ForOfStatement" false target e) :
      DescribesHead node (.values target e)
  | awaited {node e : Json} {target : Target} (h : IsLoop node "ForOfStatement" true target e) :
      DescribesHead node (.awaited target e)

mutual

/-- **Which trees describe a statement.** -/
inductive DescribesStatement : Json → Tree .statement → Prop
  | plain {node e : Json} (hkind : node.kind = .ok (.str "ExpressionStatement"))
      (he : node.HasExpression "expression" e) : DescribesStatement node (.plain e)
  | block {node : Json} {items : List Json} {body : Tree .body}
      (hkind : node.kind = .ok (.str "BlockStatement")) (hitems : node.Has "body" (.arr items))
      (h : DescribesBody items body) : DescribesStatement node (.block body)
  | labeled {node label inside : Json} {body : Tree .statement}
      (hkind : node.kind = .ok (.str "LabeledStatement"))
      (hlabel : node.HasExpression "label" label)
      (hinside : node.Has "body" inside) (h : DescribesStatement inside body) :
      DescribesStatement node (.labeled label body)
  | headed {node inside : Json} {head : Head} {body : Tree .statement}
      (hhead : DescribesHead node head) (hinside : node.Has "body" inside)
      (h : DescribesStatement inside body) : DescribesStatement node (.headed head body)
  | branch {node test first : Json} {consequent : Tree .statement}
      (hkind : node.kind = .ok (.str "IfStatement")) (htest : node.HasExpression "test" test)
      (hfirst : node.Has "consequent" first) (hnone : node.given "alternate" = .ok none)
      (h : DescribesStatement first consequent) : DescribesStatement node (.branch test consequent)
  | choice {node test first second : Json} {hinside : second.Inside node}
      {consequent alternate : Tree .statement} (hkind : node.kind = .ok (.str "IfStatement"))
      (htest : node.HasExpression "test" test) (hfirst : node.Has "consequent" first)
      (hsecond : node.given "alternate" = .ok (some ⟨second, hinside⟩))
      (h : DescribesStatement first consequent) (h' : DescribesStatement second alternate) :
      DescribesStatement node (.choice test consequent alternate)

/-- The same for the statements of a block. -/
inductive DescribesBody : List Json → Tree .body → Prop
  | nil : DescribesBody [] .done
  | cons {node : Json} {items : List Json} {first : Tree .statement} {rest : Tree .body}
      (h : DescribesStatement node first) (hrest : DescribesBody items rest) :
      DescribesBody (node :: items) (.more first rest)

end

lemma isStatement_of_kind {node : Json} {kind : String} (hkind : node.kind = .ok (.str kind))
    (hmem : Json.statementKinds.contains kind = true) : node.isStatement = true := by
  rw [Json.isStatement, Json.kindName?_eq_some_iff.mpr hkind]
  exact hmem

lemma DescribesHead.isStatement {node : Json} {head : Head} (h : DescribesHead node head) :
    node.isStatement = true := by
  cases h with
  | keys h | values h | awaited h => exact isStatement_of_kind h.kind_eq (by decide)
  | test hkind | scope hkind | steps hkind => exact isStatement_of_kind hkind (by decide)

lemma DescribesStatement.isStatement {node : Json} {t : Tree .statement}
    (h : DescribesStatement node t) : node.isStatement = true := by
  cases h with
  | headed hhead => exact hhead.isStatement
  | plain hkind | block hkind | labeled hkind | branch hkind | choice hkind =>
      exact isStatement_of_kind hkind (by decide)

/-- A described statement is not an empty one. -/
lemma DescribesStatement.requireKind {node : Json} {t : Tree .statement}
    (h : DescribesStatement node t) :
    ∃ kind, node.requireKind = .ok (.str kind) ∧ kind ≠ "EmptyStatement" := by
  have hnode := h.isStatement
  rw [Json.isStatement] at hnode
  cases hkind : node.kindName? with
  | none => simp [hkind] at hnode
  | some kind =>
      refine ⟨kind, Json.requireKind_of_kind (Json.kindName?_eq_some_iff.mp hkind), ?_⟩
      rintro rfl
      rw [hkind] at hnode
      exact absurd hnode (by decide)

/-! ## What a step shows -/

/-- Commands show terminals, if they stand behind `a`; they end with `b`. -/
def Prints (a : Behind) (ts : List Terminal) (b : Behind) (commands : List Command) : Prop :=
  ∃ gs, Writes commands gs ∧ a.run gs = some (ts, b)

lemma Prints.append {a b c : Behind} {ts us : List Terminal} {cs ds : List Command}
    (h : Prints a ts b cs) (h' : Prints b us c ds) : Prints a (ts ++ us) c (cs ++ ds) := by
  obtain ⟨gs, hwrites, hrun⟩ := h
  obtain ⟨hs, hwrites', hrun'⟩ := h'
  exact ⟨gs ++ hs, hwrites.append hwrites', Behind.run_append hrun hrun'⟩

/-- **A rendering step shows terminals** whenever it succeeds. -/
def Shows (s : Setting) (a : Behind) {α : Type} (x : Render α) (ts : List Terminal) (b : Behind) :
    Prop := EmitsAt (Prints a ts b) s x

section Steps

variable {s : Setting} {a b c : Behind} {ts us : List Terminal} {α β : Type}

lemma Shows.bind {x : Render α} {f : α → Render β} (hx : Shows s a x ts b)
    (hf : ∀ v, Shows s b (f v) us c) : Shows s a (x >>= f) (ts ++ us) c := by
  intro q e he
  obtain ⟨first, hfirst, second, hsecond, rfl⟩ := Render.bind_eq_ok_iff.mp he
  exact (hx _ _ hfirst).append (hf _ _ _ hsecond)

lemma Shows.andThen {x : Render Unit} {y : Render β} (hx : Shows s a x ts b)
    (hy : Shows s b y us c) : Shows s a (do x; y) (ts ++ us) c := hx.bind fun _ => hy

lemma shows_quiet {x : Render α} (hx : ∀ q e, x s q = .ok e → e.commands = []) :
    Shows s a x [] a := fun q e he => by
  rw [hx q e he]
  exact ⟨[], .nil, rfl⟩

lemma shows_pure (v : α) : Shows s a (pure v : Render α) [] a :=
  shows_quiet fun q e he => by
    obtain rfl := Except.ok.inj he
    rfl

lemma shows_text {t : String} (h : a.run (t.toList.map .char) = some (ts, b)) :
    Shows s a (Render.text t) ts b := fun q e he => by
  obtain rfl := Except.ok.inj he
  exact ⟨_, .text t, h⟩

/-- What is read shows nothing. -/
lemma shows_read {x : Except Fault α} {f : α → Render β}
    (h : ∀ v, x = .ok v → Shows s a (f v) ts b) :
    Shows s a ((liftM x : Render α) >>= f) ts b := by
  intro q e he
  obtain ⟨v, hv, hrest⟩ := Render.read_bind_eq_ok_iff.mp he
  exact h v hv _ _ hrest

lemma shows_withNoIn {noIn : Bool} {x : Render α} (h : Shows { s with noIn := noIn } a x ts b) :
    Shows s a (Render.withNoIn noIn x) ts b := fun q e he => h q e he

end Steps

/-! ## Blanks -/

/-- Commands that write nothing but blanks. -/
def IsBlank (commands : List Command) : Prop :=
  ∃ gs, Writes commands gs ∧ ∀ g ∈ gs, g = .char ' ' ∨ g = .char '\n'

namespace IsBlank

variable {cs ds : List Command}

lemma nil : IsBlank [] := ⟨[], .nil, by simp⟩

lemma append (h : IsBlank cs) (h' : IsBlank ds) : IsBlank (cs ++ ds) := by
  obtain ⟨gs, hwrites, hgs⟩ := h
  obtain ⟨hs, hwrites', hhs⟩ := h'
  exact ⟨gs ++ hs, hwrites.append hwrites', List.forall_mem_append.mpr ⟨hgs, hhs⟩⟩

lemma space : IsBlank [.text " "] := ⟨_, .text " ", by simp⟩

lemma newline : IsBlank [.newline] := ⟨_, .newline, by simp⟩

lemma comment (comment : Json) (after : Break) : IsBlank [.comment comment after] :=
  ⟨_, .comment comment after, by simp⟩

/-- Blanks may stand at any gap. -/
lemma prints (h : IsBlank cs) : Prints .gap [] .gap cs := by
  obtain ⟨gs, hwrites, hgs⟩ := h
  refine ⟨gs, hwrites, ?_⟩
  clear hwrites
  induction gs with
  | nil => rfl
  | cons g rest ih =>
      have hstep : Behind.gap.step g = some ([], .gap) := by
        rcases hgs g List.mem_cons_self with rfl | rfl
        · rfl
        · rfl
      rw [Behind.run, hstep]
      simp [ih fun g hg => hgs g (List.mem_cons_of_mem _ hg)]

end IsBlank

lemma isBlank_leading {newlines : Bool} {node : Json} {comments : List Json}
    {commands : List Command} (h : Render.leading newlines node comments = .ok commands) :
    IsBlank commands := by
  induction comments generalizing commands with
  | nil =>
      obtain rfl := Except.ok.inj h
      exact .nil
  | cons comment rest ih =>
      obtain ⟨breaks, -, others, hothers, rfl⟩ := Render.leading_cons_eq_ok h
      exact (IsBlank.comment comment _).append (ih hothers)

lemma isBlank_afterStatement {newline : Bool} {comments : List Json} {commands : List Command}
    (h : Render.afterStatement newline comments = .ok commands) : IsBlank commands := by
  induction comments generalizing newline commands with
  | nil =>
      obtain rfl := Except.ok.inj h
      exact .nil
  | cons comment rest ih =>
      obtain ⟨line, -, h⟩ := EstreePrinter.bind_eq_ok_iff.mp h
      obtain ⟨others, hothers, h⟩ := EstreePrinter.bind_eq_ok_iff.mp h
      obtain rfl := Except.ok.inj h
      have hlead : IsBlank [if newline then Command.newline else .text " "] := by
        cases newline with
        | true => exact .newline
        | false => exact .space
      exact hlead.append ((IsBlank.comment comment _).append (ih hothers))

lemma isBlank_margin (before : Option Render.Printed) (after : Render.Printed) :
    IsBlank (Render.margin before after) := by
  cases before with
  | none => exact .nil
  | some before =>
      have hgap : IsBlank [.deferred "margin"
          (if Render.separates before after then [.text "\n"] else [])] := by
        split
        · exact ⟨_, .deferred _ (.text "\n"), by simp⟩
        · exact ⟨_, .deferred _ .nil, by simp⟩
      exact hgap.append .newline

/-! ## Parts -/

section Parts

variable {s : Setting} {node : Json}

/-- **An expression** is one terminal. -/
lemma shows_expression {e : Json} (he : e.isStatement = false) :
    Shows s .gap (treeWith announced .value e) [.node e] .node := by
  intro q emission hrun
  obtain ⟨kind, rule, -, hrule, hrun⟩ := Render.rule_of_treeWith hrun
  obtain ⟨_, leads, own, -, hleads, hown, hcommands⟩ := Render.announced_eq_ok (by decide) hrun
  have hcomments := Render.isSome_comment?_of_leading hleads
  have hinside : Command.Nested (fun _ => false) (Command.leavesAll (leads ++ own.commands)) := by
    rw [Command.leavesAll_append, Render.leavesAll_of_comments hcomments]
    exact (Command.Nested.of_plain fun c hc =>
      Command.Nested.bracketed?_of_comment? (hcomments c hc)).append
        (Render.nested_rule hrule q own hown)
  refine ⟨[.node e], ?_, rfl⟩
  rw [hcommands]
  exact .expression he hinside

lemma partsWith_field {key : String} {value : Json} (h : node.Has key value) :
    (partsWith announced node).field key = treeWith announced .value value := by
  obtain ⟨hinside, hread⟩ := h
  rw [Inner.field, read_bind hread]
  rfl

lemma shows_field {key : String} {e : Json} (h : node.HasExpression key e) :
    Shows s .gap ((partsWith announced node).field key) [.node e] .node :=
  partsWith_field h.1 ▸ shows_expression h.2

/-- A part that may be missing, behind a blank. -/
lemma shows_optional {key : String} {e : Option Json} (h : node.MayHave key e) :
    ∃ found b, node.given key = .ok found ∧ (b = .gap ∨ b = .node) ∧
      Shows s .gap ((partsWith announced node).valueAfter " " found) (expression? e) b := by
  cases e with
  | none => exact ⟨none, .gap, h, .inl rfl, shows_pure ()⟩
  | some e =>
      obtain ⟨⟨hinside, hgiven⟩, he⟩ := h
      have hblank : Shows s .gap (Render.text " ") [] .gap := shows_text rfl
      exact ⟨_, .node, hgiven, .inr rfl, hblank.andThen (shows_expression he)⟩

/-- A sign ends whatever stands before it. -/
lemma shows_sign {b : Behind} (hb : b = .gap ∨ b = .node) {t sign : String}
    (hsign : (t, sign) ∈ [(";", ";"), (") ", ")")]) :
    Shows s b (Render.text t) [.token sign] .gap := by
  refine shows_text ?_
  fin_cases hsign
  · rcases hb with rfl | rfl
    · rfl
    · rfl
  · rcases hb with rfl | rfl
    · rfl
    · rfl

end Parts

/-! ## Heads of loops -/

/-- Slots show terminals behind `a`, with a comma in each open place. -/
def SlotsShow (a : Behind) (ts : List Terminal) (b : Behind) (slots : List Slot) : Prop :=
  ∀ name contents, Prints .node [.token ","] .gap contents →
    Prints a ts b (Slot.fill name contents slots)

section Heads

variable {s : Setting} {node : Json}

/-- Declarators with commas between them. -/
lemma shows_declarators {inner : Inner node} {e : Part node} {others : List (Part node)}
    {q : List Json} {emission : Emission (List Slot × Bool)}
    (hparts : ∀ part ∈ e :: others, Shows s .gap (inner.value part) [.node part.1] .node)
    (h : Render.joined inner.value (e :: others) s q = .ok emission) :
    SlotsShow .gap (.node e.1 :: declarators (others.map Subtype.val)) .node emission.value.1 := by
  induction others generalizing e q emission with
  | nil =>
      obtain ⟨held, hheld, rest, hrest, rfl⟩ := Render.joined_cons_eq_ok h
      obtain rfl := Except.ok.inj hrest
      intro name contents _
      simpa [declarators] using hparts e (by simp) _ _ hheld
  | cons f others ih =>
      obtain ⟨held, hheld, rest, hrest, rfl⟩ := Render.joined_cons_eq_ok h
      intro name contents hcontents
      have hfirst := hparts e (by simp) _ _ hheld
      have hjoin : Prints .node [.token ","] .gap [.deferred name contents] := by
        obtain ⟨gs, hwrites, hrun⟩ := hcontents
        exact ⟨gs, hwrites.deferred name, hrun⟩
      have hothers := ih (fun part hpart => hparts part (List.mem_cons_of_mem _ hpart)) hrest name
        contents hcontents
      simpa [Slot.fill_append, Slot.fill, declarators] using
        hfirst.append (hjoin.append hothers)

lemma prints_of_writes {a : Behind} {commands : List Command} (h : Writes commands []) :
    Prints a [] a commands := ⟨[], h, rfl⟩

lemma run_keyword (keyword : Keyword) :
    Behind.gap.run ((keyword.text ++ " ").toList.map .char) = some (keyword.terminals, .gap) := by
  cases keyword with
  | _ => rfl

/-- A declaration with its commas, broken or not. -/
lemma prints_declarations {keyword : Keyword} {ts : List Terminal} {slots : List Slot}
    (hslots : SlotsShow .gap ts .node slots) (several broken : Bool) :
    Prints .gap (keyword.terminals ++ ts) .node
      (Render.decidedDeclarations (keyword.text ++ " ") several broken slots) := by
  have hkeyword : Prints .gap keyword.terminals .gap [.text (keyword.text ++ " ")] :=
    ⟨_, .text _, run_keyword keyword⟩
  have hassemble {start join stop : List Command} (hstart : Writes start [])
      (hjoin : Prints .node [.token ","] .gap join) (hstop : Writes stop []) :
      Prints .gap (keyword.terminals ++ ts) .node
        (Render.assembleDeclarations (keyword.text ++ " ") start join slots ++ stop) := by
    have hopen : Prints .gap [] .gap [.deferred "declarations-open" start] :=
      prints_of_writes (hstart.deferred _)
    have hmiddle := hslots "declarations-join" join hjoin
    simpa [Render.assembleDeclarations] using
      hkeyword.append (hopen.append (hmiddle.append (prints_of_writes hstop)))
  cases broken with
  | true =>
      have hcomma : Prints .node [.token ","] .gap [.text ",", .newline] :=
        ⟨_, (Writes.text ",").append .newline, rfl⟩
      cases several with
      | true => exact hassemble .indent hcomma .dedent
      | false => exact hassemble .nil hcomma .nil
  | false =>
      have hcomma : Prints .node [.token ","] .gap [.text ", "] := ⟨_, .text ", ", rfl⟩
      simpa [Render.decidedDeclarations] using hassemble .nil hcomma .nil

/-- **A declaration** in the head of a loop. -/
lemma shows_declarations {inner : Inner node} {e : Json} {keyword : Keyword} {others : List Json}
    (hdeclare : node.flag "declare" = .ok false) (hkeyword : node.Has "kind" (.str keyword.text))
    (hlist : node.Has "declarations" (.arr (e :: others)))
    (hparts : ∀ part : Part node, part.1 ∈ e :: others →
      Shows s .gap (inner.value part) [.node part.1] .node) :
    Shows s .gap (Render.declarations node inner)
      (keyword.terminals ++ .node e :: declarators others) .node := by
  intro q emission hrun
  obtain ⟨part, hpart, list, hparse, declare, hflag, kind, hkind, first, hfirst, broken, -, rfl⟩ :=
    Render.declarations_eq_ok hrun
  obtain ⟨hinside, hread⟩ := hlist
  obtain rfl := Except.ok.inj (hread.symm.trans hpart)
  obtain rfl := Except.ok.inj (hdeclare.symm.trans hflag)
  obtain ⟨hinside', hread'⟩ := hkeyword
  obtain rfl := Except.ok.inj (hread'.symm.trans hkind)
  obtain ⟨found, hlist, hvalues⟩ := parts_arr hinside
  obtain rfl := Except.ok.inj (hlist.symm.trans hparse)
  obtain ⟨d, ds, rfl, rfl, rfl⟩ := List.map_eq_cons_iff.mp hvalues
  have hslots := shows_declarators (fun part hpart => hparts part (by
    rw [← List.map_cons]
    exact List.mem_map_of_mem hpart)) hfirst
  simpa [Json.display] using prints_declarations hslots _ broken

/-- **What comes first in the head of a loop.** -/
lemma shows_loopHead {head : Part node} {start : Start} (h : DescribesStart head.1 start) :
    Shows s .gap (Rules.loopHead (partsWith announced node) head) start.terminals .node := by
  cases h with
  | expression hnode hkind =>
      refine shows_read fun kind hfound => ?_
      have hother : ¬kind.isText "VariableDeclaration" = true := fun h =>
        hkind (hfound.trans (congrArg Except.ok (Json.eq_str_of_isText h)))
      rw [if_neg hother]
      exact shows_expression hnode
  | declaration hkind hdeclare hkeyword hlist hnodes =>
      rw [Rules.loopHead, read_bind (Json.requireKind_of_kind hkind)]
      exact shows_declarations hdeclare hkeyword hlist fun part hpart =>
        shows_expression (hnodes _ hpart)

/-- A loop over keys or values. -/
lemma shows_forEach (word : String) {kind : String} {isAwait : Bool} {target : Target} {e : Json}
    (h : IsLoop node kind isAwait target e)
    (hword : Behind.node.run ((" " ++ word ++ " ").toList.map .char) =
      some ([.token word], .gap)) {ts : List Terminal}
    (hbody : Shows s .gap ((partsWith announced node).field "body") ts .gap) :
    Shows s .gap (Rules.forEach (" " ++ word ++ " ") node (partsWith announced node))
      (.token "for" :: ((if isAwait then [.token "await"] else []) ++ .token "(" ::
        (target.start.terminals ++ .token word :: .node e :: .token ")" :: ts))) .gap := by
  obtain ⟨head, ⟨hinside, hread⟩, hstart⟩ := h.left
  have hfor : Shows s .gap (Render.text "for ") [.token "for"] .gap := shows_text rfl
  have hawait : Shows s .gap (Render.textIf node "await" "await ")
      (if isAwait then [.token "await"] else []) .gap := by
    rw [Render.textIf, read_bind h.await_eq]
    cases isAwait with
    | true => exact shows_text rfl
    | false => exact shows_pure ()
  have hopen : Shows s .gap (Render.text "(") [.token "("] .gap := shows_text rfl
  have hhead : Shows s .gap (Rules.loopHead (partsWith announced node) ⟨head, hinside⟩)
      target.start.terminals .node := shows_loopHead hstart
  have hclose : Shows s .node (Render.text ") ") [.token ")"] .gap :=
    shows_sign (.inr rfl) (by simp)
  have hrest := hhead.andThen ((shows_text hword).andThen ((shows_field h.right).andThen
    (hclose.andThen hbody)))
  have hrule := hfor.andThen (hawait.andThen (hopen.andThen hrest))
  rw [Rules.forEach]
  simp only [read_bind hread]
  simpa using hrule

/-- A loop with three parts. -/
lemma shows_for {start : Start} {first second : Option Json}
    (hstart : node.given "init" = .ok none ∧ start = .none ∨
      ∃ head, node.given "init" = .ok (some head) ∧ DescribesStart head.1 start)
    (hfirst : node.MayHave "test" first) (hsecond : node.MayHave "update" second)
    {ts : List Terminal} (hbody : Shows s .gap ((partsWith announced node).field "body") ts .gap) :
    Shows s .gap (Rules.forRule node (partsWith announced node))
      ((Head.steps start first second).terminals ++ ts) .gap := by
  obtain ⟨found, b, hgiven, hb, hpart⟩ := shows_optional (s := s) hfirst
  obtain ⟨found', b', hgiven', hb', hpart'⟩ := shows_optional (s := s) hsecond
  have hopen : Shows s .gap (Render.text "for (") [.token "for", .token "("] .gap := shows_text rfl
  have hsemicolon {b : Behind} (hb : b = .gap ∨ b = .node) :
      Shows s b (Render.text ";") [.token ";"] .gap := shows_sign hb (by simp)
  have hclose : Shows s b' (Render.text ") ") [.token ")"] .gap := shows_sign hb' (by simp)
  have hrest := hpart.andThen ((hsemicolon hb).andThen (hpart'.andThen (hclose.andThen hbody)))
  rw [Rules.forRule]
  rcases hstart with ⟨hnone, rfl⟩ | ⟨head, hhead, hstart⟩
  · simp only [read_bind hnone, read_bind hgiven, read_bind hgiven']
    simpa [Head.terminals, Start.terminals] using
      hopen.andThen ((shows_pure ()).andThen ((hsemicolon (.inl rfl)).andThen hrest))
  · simp only [read_bind hhead, read_bind hgiven, read_bind hgiven']
    simpa [Head.terminals] using
      hopen.andThen ((shows_withNoIn (shows_loopHead hstart)).andThen
        ((hsemicolon (.inr rfl)).andThen hrest))

/-- A statement with a keyword and one expression. -/
lemma shows_keyword {keyword key : String} {e : Json} (he : node.HasExpression key e)
    (hkeyword : Behind.gap.run ((keyword ++ " (").toList.map .char) =
      some ([.token keyword, .token "("], .gap)) {ts : List Terminal}
    (hbody : Shows s .gap ((partsWith announced node).field "body") ts .gap) :
    Shows s .gap (Rules.headed keyword key node (partsWith announced node))
      (.token keyword :: inParens e ts) .gap := by
  have hclose : Shows s .node (Render.text ") ") [.token ")"] .gap :=
    shows_sign (.inr rfl) (by simp)
  exact (shows_text hkeyword).andThen ((shows_field he).andThen (hclose.andThen hbody))

end Heads

/-! ## Statements -/

section Statements

variable {s : Setting} {node : Json} {ts : List Terminal}

/-- **A statement shows what its rule does**, whichever comments stand before it. -/
lemma shows_of_rule {name : String} {rule : Rule} (hkind : node.kind = .ok (.str name))
    (hvalue : Rules.find Rules.valueRules (.str name) = .ok (some rule))
    (htype : Rules.find Rules.typeRules (.str name) = .ok none) (hnode : node.isStatement = true)
    (h : Shows s .gap (rule node (partsWith announced node)) ts .gap) (role : Role) :
    Shows s .gap (treeWith announced role node) ts .gap := by
  intro q e hrun
  obtain ⟨hrole, hrun⟩ := Render.valueRule_of_treeWith hkind hvalue htype hrun
  obtain ⟨_, leads, own, -, hleads, hown, hcommands⟩ := Render.announced_eq_ok hrole hrun
  obtain ⟨gs, hwrites, hgs⟩ := (isBlank_leading hleads).prints.append (h _ _ hown)
  refine ⟨gs, ?_, hgs⟩
  rw [hcommands]
  exact .statement hnode hwrites

/-- A statement with a head. -/
lemma shows_headed {head : Head} (h : DescribesHead node head)
    (hbody : Shows s .gap ((partsWith announced node).field "body") ts .gap) (role : Role) :
    Shows s .gap (treeWith announced role node) (head.terminals ++ ts) .gap := by
  cases h with
  | test hkind he =>
      exact shows_of_rule hkind rfl rfl (isStatement_of_kind hkind (by decide))
        (shows_keyword he rfl hbody) role
  | scope hkind he =>
      exact shows_of_rule hkind rfl rfl (isStatement_of_kind hkind (by decide))
        (shows_keyword he rfl hbody) role
  | steps hkind hstart hfirst hsecond =>
      exact shows_of_rule hkind rfl rfl (isStatement_of_kind hkind (by decide))
        (shows_for hstart hfirst hsecond hbody) role
  | keys h =>
      exact shows_of_rule h.kind_eq rfl rfl (isStatement_of_kind h.kind_eq (by decide))
        (by simpa [Head.terminals] using shows_forEach "in" h rfl hbody) role
  | values h =>
      exact shows_of_rule h.kind_eq rfl rfl (isStatement_of_kind h.kind_eq (by decide))
        (by simpa [Head.terminals] using shows_forEach "of" h rfl hbody) role
  | awaited h =>
      exact shows_of_rule h.kind_eq rfl rfl (isStatement_of_kind h.kind_eq (by decide))
        (by simpa [Head.terminals] using shows_forEach "of" h rfl hbody) role

/-- Whether an expression is put in parentheses as a statement. -/
def wraps (e : Json) : Bool := (Precedence.startsWith e Rules.statementHeaded).toOption == some true

/-- An expression as a statement. -/
lemma shows_plain {e : Json} (he : node.HasExpression "expression" e) :
    Shows s .gap (Rules.expressionStatement node (partsWith announced node))
      ((Tree.plain e).terminals wraps) .gap := by
  obtain ⟨⟨hinside, hread⟩, hnode⟩ := he
  rw [Rules.expressionStatement, read_bind hread]
  refine shows_read fun wrap hwrap => ?_
  have hwraps : wraps e = wrap := by simp [wraps, hwrap, Except.toOption]
  have hsemicolon {b : Behind} (hb : b = .gap ∨ b = .node) :
      Shows s b (Render.text ";") [.token ";"] .gap := shows_sign hb (by simp)
  have hvalue : Shows s .gap ((partsWith announced node).value ⟨e, hinside⟩) [.node e] .node :=
    shows_expression hnode
  rw [Tree.terminals, hwraps]
  cases wrap with
  | false => exact hvalue.andThen (hsemicolon (.inr rfl))
  | true =>
      have hopen : Shows s .gap (Render.text "(") [.token "("] .gap := shows_text rfl
      have hclose : Shows s .node (Render.text ")") [.token ")"] .gap := shows_text rfl
      exact (hopen.andThen (hvalue.andThen hclose)).andThen (hsemicolon (.inl rfl))

/-- A statement with a label. -/
lemma shows_labeled {label : Json} (hlabel : node.HasExpression "label" label)
    (hbody : Shows s .gap ((partsWith announced node).field "body") ts .gap) :
    Shows s .gap (Rules.labeled node (partsWith announced node))
      (.node label :: .token ":" :: ts) .gap := by
  have hcolon : Shows s .node (Render.text ": ") [.token ":"] .gap := shows_text rfl
  exact (shows_field hlabel).andThen (hcolon.andThen hbody)

/-- An `if`, with what stands behind its first branch.  No braces are put around the branch. -/
lemma shows_if {test : Json} (htest : node.HasExpression "test" test)
    {found : Option (Part node)} (hfound : node.given "alternate" = .ok found)
    {us : List Terminal}
    (hfirst : Shows s .gap ((partsWith announced node).field "consequent") ts .gap)
    (hsecond : Shows s .gap ((partsWith announced node).valueAfter " else " found) us .gap) :
    Shows s .gap (Rules.ifRule node (partsWith announced node))
      (.token "if" :: inParens test (ts ++ us)) .gap := by
  have hif : Shows s .gap (Render.text "if (") [.token "if", .token "("] .gap := shows_text rfl
  have hclose : Shows s .node (Render.text ") ") [.token ")"] .gap :=
    shows_sign (.inr rfl) (by simp)
  rw [Rules.ifRule]
  simp only [read_bind hfound]
  simpa [inParens] using hif.andThen ((shows_field htest).andThen
    (hclose.andThen (hfirst.andThen hsecond)))

/-! ## Blocks -/

/-- The statements of a block end with its brace. -/
lemma exists_inside (body : Tree .body) :
    ∃ inside, body.terminals wraps = inside ++ [Terminal.token "\x7d"] := by
  cases body with
  | done => exact ⟨[], rfl⟩
  | more first rest =>
      obtain ⟨inside, hinside⟩ := exists_inside rest
      exact ⟨first.terminals wraps ++ inside, by simp [Tree.terminals, hinside]⟩

/-- **The statements of a block**, one to a line. -/
lemma shows_body {items : List (Part node)} {body : Tree .body}
    (h : DescribesBody (items.map Subtype.val) body)
    (hitems : ∀ item ∈ items, ∀ t, DescribesStatement item.1 t →
      Shows s .gap ((partsWith announced node).bare item) (t.terminals wraps) .gap)
    (before : Option Render.Printed) {inside : List Terminal}
    (hinside : body.terminals wraps = inside ++ [Terminal.token "\x7d"]) :
    Shows s .gap (Render.bodyAfter (partsWith announced node) before items) inside .gap := by
  induction items generalizing body before inside with
  | nil =>
      cases h
      obtain rfl : inside = [] := by simpa [Tree.terminals] using hinside.symm
      exact shows_pure ()
  | cons item items ih =>
      cases h with
      | @cons _ _ first rest hfirst hrest =>
          obtain ⟨others, hothers⟩ := exists_inside rest
          obtain rfl : inside = first.terminals wraps ++ others := by
            rw [Tree.terminals, hothers, ← List.append_assoc] at hinside
            exact (List.append_inj_left' hinside rfl).symm
          obtain ⟨name, hname, hnotEmpty⟩ := hfirst.requireKind
          intro q e hrun
          obtain ⟨kind, hkind, hstatement⟩ := Render.bodyAfter_cons_eq_ok hrun
          obtain rfl := Except.ok.inj (hname.symm.trans hkind)
          rw [if_neg (by simpa [Json.isText] using hnotEmpty)] at hstatement
          obtain ⟨list, -, comments, hcomments, held, hheld, drained, hdrained, after, hafter,
            hcommands, -⟩ := hstatement
          have hmargin := isBlank_margin before ⟨(Json.str name).display, held.multiline⟩
          have hlead := hmargin.append (isBlank_leading hcomments)
          have hitem := hitems item (by simp) first hfirst _ _ hheld
          have hdrain : IsBlank drained.commands := by
            obtain ⟨commands, hbehind, rfl⟩ := Render.drainAfterStatement_eq_ok_iff.mp hdrained
            exact isBlank_afterStatement hbehind
          have hbehind := ih hrest (fun part hpart => hitems part (List.mem_cons_of_mem _ hpart))
            _ hothers _ _ hafter
          rw [hcommands]
          simpa using (hlead.prints.append hitem).append (hdrain.prints.append hbehind)

/-- Whether there is nothing but empty statements between the braces. -/
lemma allEmpty_eq {items : List (Part node)} {body : Tree .body}
    (h : DescribesBody (items.map Subtype.val) body) :
    Rules.allEmpty items = .ok items.isEmpty := by
  cases items with
  | nil => rfl
  | cons item items =>
      cases h with
      | cons hfirst hrest =>
          obtain ⟨name, hname, hnotEmpty⟩ := hfirst.requireKind
          rw [Rules.allEmpty, hname, ok_bind, if_neg (by simpa [Json.isText] using hnotEmpty)]
          rfl

/-- A block. -/
lemma shows_block {list : List Json} {body : Tree .body} (hlist : node.Has "body" (.arr list))
    (h : DescribesBody list body)
    (hitems : ∀ item : Part node, item.1 ∈ list → ∀ t, DescribesStatement item.1 t →
      Shows s .gap ((partsWith announced node).bare item) (t.terminals wraps) .gap) :
    Shows s .gap (Rules.block node (partsWith announced node))
      (.token "\x7b" :: body.terminals wraps) .gap := by
  obtain ⟨hinside, hread⟩ := hlist
  obtain ⟨items, hparse, rfl⟩ := parts_arr hinside
  rw [Rules.block, read_bind hread, read_bind hparse, read_bind (allEmpty_eq h)]
  obtain ⟨inside, hbraces⟩ := exists_inside body
  have hbody := shows_body h (fun item hitem => hitems item (List.mem_map_of_mem hitem)) none
    hbraces
  cases items with
  | nil =>
      cases h
      exact shows_text rfl
  | cons item items =>
      have hopen : Shows s .gap (Render.emit [.text "\x7b", .indent, .newline])
          [.token "\x7b"] .gap := by
        intro q e he
        obtain rfl := Except.ok.inj he
        exact ⟨_, ((Writes.text "\x7b").append .indent).append .newline, rfl⟩
      have hclose : Shows s .gap (Render.emit [.dedent, .newline, .text "\x7d"])
          [.token "\x7d"] .gap := by
        intro q e he
        obtain rfl := Except.ok.inj he
        exact ⟨_, (Writes.dedent.append .newline).append (.text "\x7d"), rfl⟩
      have hraise : Shows s .gap Render.raise [] .gap := shows_quiet fun q e he => by
        obtain rfl := Except.ok.inj he
        rfl
      rw [hbraces]
      exact hraise.andThen (hopen.andThen (hbody.andThen hclose))

end Statements

/-- **A described statement shows its terminals**, in every role in which it is rendered. -/
theorem shows_tree {node : Json} {t : Tree .statement} (h : DescribesStatement node t)
    (role : Role) (s : Setting) :
    Shows s .gap (treeWith announced role node) (t.terminals wraps) .gap := by
  induction hn : sizeOf node using Nat.strong_induction_on generalizing node t role with
  | _ n ih =>
      subst hn
      have hpart {key : String} {value : Json} (hvalue : node.Has key value) {t : Tree .statement}
          (h : DescribesStatement value t) :
          Shows s .gap ((partsWith announced node).field key) (t.terminals wraps) .gap :=
        partsWith_field hvalue ▸ ih _ hvalue.sizeOf_lt h .value rfl
      have hnode := h.isStatement
      cases h with
      | plain hkind he => exact shows_of_rule hkind rfl rfl hnode (shows_plain he) role
      | block hkind hitems h =>
          refine shows_of_rule hkind rfl rfl hnode (shows_block hitems h ?_) role
          exact fun item _ t ht => ih _ item.2.sizeOf_lt ht .bare rfl
      | labeled hkind hlabel hinside h =>
          exact shows_of_rule hkind rfl rfl hnode (shows_labeled hlabel (hpart hinside h)) role
      | headed hhead hinside h => exact shows_headed hhead (hpart hinside h) role
      | branch hkind htest hfirst hnone h =>
          have hrule := shows_if htest hnone (hpart hfirst h) (shows_pure ())
          rw [List.append_nil] at hrule
          exact shows_of_rule hkind rfl rfl hnode hrule role
      | @choice _ _ _ second hinside _ _ hkind htest hfirst hsecond h h' =>
          have helse : Shows s .gap (Render.text " else ") [.token "else"] .gap := shows_text rfl
          have halternate := ih _ hinside.sizeOf_lt h' .value rfl
          exact shows_of_rule hkind rfl rfl hnode
            (shows_if htest hsecond (hpart hfirst h) (helse.andThen halternate)) role

/-! ## Reading what is printed -/

/-- **What is printed for a described statement is read as its terminals**, in a rendering with
notes where each node begins and ends. -/
theorem handle_shows {before after : Rendering} {role : Role} {node : Json} {t : Tree .statement}
    (h : DescribesStatement node t) (hhandle : before.handle role node = .ok after) :
    ∃ e, treeWith announced role node before.setting before.draft.queue = .ok e ∧
      after.draft.commands = before.draft.commands ++ Command.unnoted e.commands ∧
      readGlyphs (glyphs 0 (Command.leavesAll e.commands)) = some (t.terminals wraps) := by
  obtain ⟨plain, hplain, -, rfl⟩ :=
    Rendering.run_eq_ok_iff.mp (Rendering.handle_eq_ok_iff.mp hhandle)
  obtain ⟨e, he, -, hcommands, -⟩ :=
    Render.mirrors_tree_announced role node before.setting before.draft.queue plain hplain
  obtain ⟨gs, hwrites, hrun⟩ := shows_tree h role _ _ _ he
  have hglyphs : glyphs 0 (Command.leavesAll e.commands) = gs := by
    simpa [glyphs] using hwrites []
  refine ⟨e, he, ?_, ?_⟩
  · rw [Draft.commands_append, hcommands]
  · rw [hglyphs, readGlyphs, hrun]
    simp [Behind.ended]

/-- **Whose `else` it is.**  Let a described statement be handled, and let it succeed.  Then the
added commands are, but for the notes where a node begins and ends, those of a rendering whose
glyphs are read as terminals; and these are read as the statement, and as no other one, if and only
if no statement before an `else` ends with an `if` that has none. -/
theorem handle_attaches {before after : Rendering} {role : Role} {node : Json}
    {t : Tree .statement} (h : DescribesStatement node t)
    (hhandle : before.handle role node = .ok after) :
    ∃ e ts, treeWith announced role node before.setting before.draft.queue = .ok e ∧
      after.draft.commands = before.draft.commands ++ Command.unnoted e.commands ∧
      readGlyphs (glyphs 0 (Command.leavesAll e.commands)) = some ts ∧
      ((∀ read, Reads ts read [] ↔ read = t) ↔ t.attaches = true) := by
  obtain ⟨e, he, hcommands, hread⟩ := handle_shows h hhandle
  exact ⟨e, _, he, hcommands, hread, reads_iff_attaches t⟩

/-! ## An `else` behind an `if` without one -/

/-- The tree of the name of a variable as a statement. -/
def nameStatement (name : String) : Json :=
  .obj [("type", .str "ExpressionStatement"), ("expression", nameNode name)]

/-- The tree of `if (b) x;`. -/
def lone : Json :=
  .obj [("type", .str "IfStatement"), ("test", nameNode "b"), ("consequent", nameStatement "x"),
    ("alternate", .null)]

/-- The tree of an `if` with an `else`, with a statement between them. -/
def elseBehind (first : Json) : Json :=
  .obj [("type", .str "IfStatement"), ("test", nameNode "a"), ("consequent", first),
    ("alternate", nameStatement "y")]

/-- The tree of `{ if (b) x; }`. -/
def braced : Json := .obj [("type", .str "BlockStatement"), ("body", .arr [lone])]

lemma describes_nameStatement (name : String) :
    DescribesStatement (nameStatement name) (.plain (nameNode name)) :=
  .plain rfl ⟨⟨_, rfl⟩, rfl⟩

lemma describes_lone :
    DescribesStatement lone (.branch (nameNode "b") (.plain (nameNode "x"))) :=
  .branch rfl ⟨⟨_, rfl⟩, rfl⟩ ⟨_, rfl⟩ rfl (describes_nameStatement "x")

lemma describes_elseBehind {first : Json} {t : Tree .statement} (h : DescribesStatement first t) :
    DescribesStatement (elseBehind first)
      (.choice (nameNode "a") t (.plain (nameNode "y"))) :=
  .choice rfl ⟨⟨_, rfl⟩, rfl⟩ ⟨_, rfl⟩ rfl h (describes_nameStatement "y")

/-- A well-formed statement is handled without a fault. -/
lemma exists_handle {node : Json} (h : node.fits (.node ["IfStatement"]) = true) :
    ∃ after, ({ setting := {}, draft := {} } : Rendering).handle .value node = .ok after := by
  obtain ⟨kind, -, hkind⟩ := Json.isA_of_fits h
  obtain ⟨e, he, -⟩ := Render.safe_tree .value (by decide) hkind {} [] (by simp)
  exact ⟨_, Rendering.handle_eq_ok_iff.mpr (Rendering.run_eq_ok_iff.mpr ⟨e, he, rfl, rfl⟩)⟩

/-- With braces around the `if` without an `else`, the one behind it is read as it is meant. -/
theorem handle_attaches_braced :
    ∃ after, ∃ e : Emission Unit, ∃ ts,
      ({ setting := {}, draft := {} } : Rendering).handle .value (elseBehind braced) = .ok after ∧
      after.draft.commands = Command.unnoted e.commands ∧
      readGlyphs (glyphs 0 (Command.leavesAll e.commands)) = some ts ∧
      ∀ read, Reads ts read [] ↔ read = .choice (nameNode "a")
        (.block (.more (.branch (nameNode "b") (.plain (nameNode "x"))) .done))
        (.plain (nameNode "y")) := by
  obtain ⟨after, hafter⟩ := exists_handle (by decide : (elseBehind braced).fits _ = true)
  have hbraced : DescribesStatement braced
      (.block (.more (.branch (nameNode "b") (.plain (nameNode "x"))) .done)) :=
    .block rfl ⟨_, rfl⟩ (.cons describes_lone .nil)
  obtain ⟨e, ts, -, hcommands, hread, hreads⟩ :=
    handle_attaches (describes_elseBehind hbraced) hafter
  exact ⟨after, e, ts, hafter, hcommands, hread, hreads.mpr rfl⟩

/-- The two statements that an `else` behind two bare `if`s can belong to consist of the same. -/
lemma terminals_elseBehind (a b : Json) (t u : Tree .statement) :
    (Tree.choice a (.branch b t) u).terminals wraps =
      (Tree.branch a (.choice b t u)).terminals wraps := by
  simp [Tree.terminals, inParens]

/-- **An `else` behind a bare `if` without one goes to that `if`**: what is printed for
`if (a) { if (b) x; } else y;` without its braces is read as `if (a) { if (b) x; else y; }`. -/
theorem lone_takes_else :
    ∃ after, ∃ e : Emission Unit, ∃ ts,
      ({ setting := {}, draft := {} } : Rendering).handle .value (elseBehind lone) = .ok after ∧
      after.draft.commands = Command.unnoted e.commands ∧
      readGlyphs (glyphs 0 (Command.leavesAll e.commands)) = some ts ∧
      ∀ read, Reads ts read [] ↔ read = .branch (nameNode "a")
        (.choice (nameNode "b") (.plain (nameNode "x")) (.plain (nameNode "y"))) := by
  obtain ⟨after, hafter⟩ := exists_handle (by decide : (elseBehind lone).fits _ = true)
  obtain ⟨e, -, hcommands, hread⟩ := handle_shows (describes_elseBehind describes_lone) hafter
  refine ⟨after, e, _, hafter, hcommands, hread, ?_⟩
  rw [terminals_elseBehind]
  exact (reads_iff_attaches _).mpr rfl

end Grammar.Statement

end EstreePrinter

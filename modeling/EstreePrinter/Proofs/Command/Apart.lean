import Mathlib
import EstreePrinter.Proofs.Linearizer.Written
import EstreePrinter.Proofs.Render.Watched

/-!
# Comments are kept apart

Two comments that follow one another with no code between them have to be parted: by whitespace, and
by a line feed if the first is a line comment.  What parts them is written by the break behind the
first or by the leaves between them (`Command.gap`).

`Owed.step` goes through leaves and keeps in mind what a comment still owes.  It stops at a comment
that is not parted from the one before it, with one exception: the comments behind the last item of
a list are written one behind the other with nothing between them, up to the line break that closes
the list (`Command.endsList`).

* `Command.gap_of_scan` — leaves that `Owed.step` gets through keep their comments apart, but for
  those at the end of a list.
* `Command.allows_owedWatch` — it gets through whatever a rendering emits.
-/

namespace EstreePrinter

namespace Command

/-- Whether a character between two comments is enough to part them, if it is a blank.  Any other
character is code, and the comments do not follow one another. -/
def parts (line : Bool) (c : Char) : Bool := !line || c == '\n' || !isBlank c

/-- What is written between two comments: the break behind the first and the leaves between them. -/
def gap (indent : String) (depth : Nat) (after : Break) (between : List Command) : List Char :=
  breakAt indent depth after ++ written indent depth between

/-- The comments at the end of a broken list, up to the line break that closes it. -/
def endsList : List Command → Bool
  | .comment _ .none :: rest => endsList rest
  | .dedent :: .newline :: _ => true
  | _ => false

lemma endsList_append {leaves : List Command} (h : endsList leaves = true) (more : List Command) :
    endsList (leaves ++ more) = true := by
  induction leaves using endsList.induct with
  | case1 comment rest ih => exact ih h
  | case2 rest => rfl
  | case3 leaves hcomment hclose =>
      rw [endsList] at h
      · cases h
      · exact hcomment
      · exact hclose

/-- What comments leave open for the next one. -/
inductive Owed where
  /-- A comment may come. -/
  | nothing
  /-- A comment has been written last, and nothing behind it. -/
  | behind (line : Bool)
  /-- A comment has been written, and nothing that parts it from another one. -/
  | owing (line : Bool)
  /-- Several comments have been written with nothing between them. -/
  | ending
  /-- The level has been closed behind such comments. -/
  | closing

namespace Owed

/-- What is owed behind a leaf that is no comment, if a comment was not parted from the next one
before. -/
def passing (line : Bool) : Command → Option Owed
  | .text s => some (if s.toList.any (parts line) then nothing else owing line)
  | .chunk s _ => some (if s.toList.any (parts line) then nothing else owing line)
  | .newline => some nothing
  | .comment _ _ => none
  | _ => some (owing line)

/-- What is owed behind a leaf; nothing if a comment would be glued to the one before it. -/
def step : Owed → Command → Option Owed
  | nothing, .comment c .none => some (behind c.isLine)
  | nothing, .comment c .space => some (if c.isLine then owing true else nothing)
  | nothing, _ => some nothing
  | behind _, .comment _ .none => some ending
  | behind line, c => passing line c
  | owing line, c => passing line c
  | ending, .comment _ .none => some ending
  | ending, .dedent => some closing
  | ending, _ => none
  | closing, .newline => some nothing
  | closing, _ => none

/-- Whether nothing but a comment may be missing behind a statement. -/
def isOpen : Owed → Bool
  | ending => false
  | closing => false
  | _ => true

lemma step_nothing {c : Command} (h : c.comment? = none) : step nothing c = some nothing := by
  cases c with
  | comment c after => cases h
  | _ => rfl

end Owed

/-- The watch for comments that have to be kept apart. -/
def owedWatch : Watch Owed := ⟨.nothing, Owed.step⟩

open Owed (passing)

/-- Whatever a rendering emits may stand, if comments are kept apart like this. -/
lemma allows_owedWatch : owedWatch.Allows fun o => o.isOpen = true where
  rest := rfl
  plain c hc := Owed.step_nothing hc
  before comment after h := by
    obtain rfl | ⟨rfl, hline⟩ := h
    · rfl
    · simp [owedWatch, Owed.step, hline]
  behind comment := by
    refine ⟨.behind comment.isLine, rfl, rfl, fun hline => ?_⟩
    rw [hline]
    simp [owedWatch, Owed.step, passing, parts]
  newline o ho := by
    cases o <;> first | rfl | cases ho
  lineFeed o ho := by
    refine ⟨.nothing, rfl, ?_⟩
    cases o with
    | nothing => rfl
    | behind line => simp [owedWatch, Owed.step, passing, parts]
    | owing line => simp [owedWatch, Owed.step, passing, parts]
    | _ => cases ho
  dedent o ho := by
    cases o with
    | nothing => exact ⟨.nothing, rfl, rfl⟩
    | behind line => exact ⟨.owing line, rfl, rfl⟩
    | owing line => exact ⟨.owing line, rfl, rfl⟩
    | _ => cases ho
  listEnd comments := by
    have hending (more : List Json) : owedWatch.scan .ending
        (more.map (.comment · .none) ++ [Command.dedent, .newline]) = some .nothing := by
      induction more with
      | nil => rfl
      | cons comment more ih => exact ih
    cases comments with
    | nil => rfl
    | cons first more =>
        cases more with
        | nil => rfl
        | cons second more => exact hending more

/-! ## What leaves write between two comments -/

variable {line : Bool} {indent : String}

/-- A leaf that is no comment parts two comments, or leaves as much owed as before. -/
lemma passing_eq_some (indent : String) {c : Command} {o : Owed} (h : passing line c = some o) :
    o = .owing line ∨ o = .nothing ∧ ∀ depth, (c.textAt indent depth).any (parts line) = true := by
  have htext {s : String} (h : some (if s.toList.any (parts line) then Owed.nothing else .owing line)
      = some o) : o = .owing line ∨ o = .nothing ∧ s.toList.any (parts line) = true := by
    obtain rfl := Option.some.inj h
    cases hparts : s.toList.any (parts line) with
    | true => exact .inr ⟨rfl, rfl⟩
    | false => exact .inl rfl
  cases c with
  | text s => exact (htext h).imp_right (.imp_right fun hs _ => hs)
  | chunk s span => exact (htext h).imp_right (.imp_right fun hs _ => hs)
  | newline =>
      obtain rfl := Option.some.inj h
      exact .inr ⟨rfl, fun depth => by simp [textAt, lineBreakAt, parts]⟩
  | comment c after => cases h
  | _ =>
      obtain rfl := Option.some.inj h
      exact .inl rfl

/-- Leaves that are no comments part two comments, or leave as much owed as before. -/
lemma scan_owing (indent : String) {between : List Command}
    (hbetween : ∀ c ∈ between, c.comment? = none) {o : Owed}
    (h : owedWatch.scan (.owing line) between = some o) (depth : Nat) :
    o = .owing line ∨ o = .nothing ∧ (written indent depth between).any (parts line) = true := by
  induction between generalizing depth with
  | nil =>
      obtain rfl := Option.some.inj h
      exact .inl rfl
  | cons c rest ih =>
      obtain ⟨o', hc, hrest⟩ := Option.bind_eq_some_iff.mp h
      have hothers : ∀ d ∈ rest, d.comment? = none := fun d hd =>
        hbetween d (List.mem_cons_of_mem _ hd)
      rw [written, List.any_append]
      obtain rfl | ⟨rfl, hparts⟩ := passing_eq_some indent hc
      · refine (ih hothers hrest (c.depthAfter depth)).imp_right (.imp_right fun hparts => ?_)
        rw [hparts, Bool.or_true]
      · obtain rfl := Option.some.inj ((allows_owedWatch.scan_plain hothers).symm.trans hrest)
        exact .inr ⟨rfl, by rw [hparts depth, Bool.true_or]⟩

/-- Behind a leaf that is no comment it does not matter that the comment stood right before it. -/
lemma scan_behind {c : Command} (hc : c.comment? = none) {rest : List Command} :
    owedWatch.scan (.behind line) (c :: rest) = owedWatch.scan (.owing line) (c :: rest) := by
  cases c with
  | comment c after => cases hc
  | _ => rfl

/-- If another comment may stand behind them, they part it from the one before. -/
lemma parts_of_scan {between : List Command} (hbetween : ∀ c ∈ between, c.comment? = none)
    {o o' : Owed} (h : owedWatch.scan (.owing line) between = some o) {comment : Json}
    {after : Break} (hcomment : o.step (.comment comment after) = some o') (depth : Nat) :
    (written indent depth between).any (parts line) = true := by
  obtain rfl | ⟨-, hparts⟩ := scan_owing indent hbetween h depth
  · cases hcomment
  · exact hparts

/-- Comments with nothing between them end a list. -/
lemma endsList_of_scan {leaves : List Command} {o : Owed}
    (h : owedWatch.scan .ending leaves = some o) (ho : o.isOpen = true) :
    endsList leaves = true := by
  induction leaves using endsList.induct with
  | case1 comment rest ih => exact ih h
  | case2 rest => rfl
  | case3 leaves hcomment hclose =>
      cases leaves with
      | nil =>
          obtain rfl := Option.some.inj h
          cases ho
      | cons c rest =>
          obtain ⟨o', hc, hrest⟩ := Option.bind_eq_some_iff.mp h
          cases c with
          | comment c after =>
              cases after with
              | none => exact absurd rfl (hcomment c rest)
              | _ => cases hc
          | dedent =>
              obtain rfl := Option.some.inj hc
              cases rest with
              | nil =>
                  obtain rfl := Option.some.inj hrest
                  cases ho
              | cons d more =>
                  obtain ⟨o', hd, -⟩ := Option.bind_eq_some_iff.mp hrest
                  cases d with
                  | newline => exact absurd rfl (hclose more)
                  | _ => cases hd
          | _ => cases hc

/-- Behind comments with nothing between them another one may stand only at once, or behind the line
break that closes the list. -/
lemma ending_eq_some {between : List Command} (hbetween : ∀ c ∈ between, c.comment? = none)
    {o o' : Owed} (h : owedWatch.scan .ending between = some o) {comment : Json} {after : Break}
    (hcomment : o.step (.comment comment after) = some o') :
    (between = [] ∧ o = .ending) ∨ ∀ indent depth line,
      (written indent depth between).any (parts line) = true := by
  cases between with
  | nil => exact .inl ⟨rfl, (Option.some.inj h).symm⟩
  | cons c rest =>
      obtain ⟨o₁, hc, hrest⟩ := Option.bind_eq_some_iff.mp h
      cases c with
      | dedent =>
          obtain rfl := Option.some.inj hc
          cases rest with
          | nil =>
              obtain rfl := Option.some.inj hrest
              cases hcomment
          | cons d more =>
              obtain ⟨o₂, hd, -⟩ := Option.bind_eq_some_iff.mp hrest
              cases d with
              | newline =>
                  refine .inr fun indent depth line => ?_
                  simp [written, textAt, lineBreakAt, parts]
              | _ => cases hd
      | comment c after => cases hbetween _ List.mem_cons_self
      | _ => cases hc

/-- A comment comes where nothing is owed, or runs on directly behind others. -/
lemma step_comment_eq_some {o o' : Owed} {comment : Json} {after : Break}
    (h : o.step (.comment comment after) = some o') :
    o = .nothing ∨ after = .none ∧ o' = .ending := by
  cases o with
  | nothing => exact .inl rfl
  | behind line =>
      cases after with
      | none => exact .inr ⟨rfl, (Option.some.inj h).symm⟩
      | _ => cases h
  | ending =>
      cases after with
      | none => exact .inr ⟨rfl, (Option.some.inj h).symm⟩
      | _ => cases h
  | owing line => cases h
  | closing => cases h

/-- **Leaves that `Owed.step` gets through keep their comments apart**, but for comments at the end
of a list that have nothing between them. -/
lemma gap_of_scan {front between back : List Command} {first second : Json} {after behind : Break}
    {o : Owed} (h : owedWatch.scan .nothing
      (front ++ .comment first after :: (between ++ .comment second behind :: back)) = some o)
    (ho : o.isOpen = true) (hbetween : ∀ c ∈ between, c.comment? = none) :
    (after = .none ∧ between = [] ∧ endsList (.comment second behind :: back) = true) ∨
      ∀ indent depth, (gap indent depth after between).any (parts first.isLine) = true := by
  obtain ⟨o₁, -, h⟩ := Option.bind_eq_some_iff.mp (Watch.scan_append _ _ _ ▸ h)
  obtain ⟨o₂, hfirst, h⟩ := Option.bind_eq_some_iff.mp h
  obtain ⟨o₃, hmiddle, h⟩ := Option.bind_eq_some_iff.mp (Watch.scan_append _ _ _ ▸ h)
  obtain ⟨o₄, hsecond, hback⟩ := Option.bind_eq_some_iff.mp h
  have hend (h : owedWatch.step .ending (.comment second behind) = some o₄) :
      endsList (.comment second behind :: back) = true :=
    endsList_of_scan (Option.bind_eq_some_iff.mpr ⟨o₄, h, hback⟩) ho
  have howing {line : Bool} (h : owedWatch.scan (.owing line) between = some o₃)
      (indent : String) (depth : Nat) :
      (gap indent depth after between).any (parts line) = true := by
    rw [gap, List.any_append, parts_of_scan hbetween h hsecond, Bool.or_true]
  obtain rfl | ⟨rfl, rfl⟩ := step_comment_eq_some hfirst
  · cases after with
    | none =>
        obtain rfl := Option.some.inj hfirst
        cases between with
        | nil =>
            obtain rfl := Option.some.inj hmiddle
            cases behind with
            | none => exact .inl ⟨rfl, rfl, hend hsecond⟩
            | _ => cases hsecond
        | cons c rest =>
            exact .inr (howing (scan_behind (hbetween c List.mem_cons_self) ▸ hmiddle))
    | space =>
        cases hline : first.isLine with
        | true =>
            obtain rfl : .owing true = o₂ := by simpa [owedWatch, Owed.step, hline] using hfirst
            exact .inr (howing hmiddle)
        | false => exact .inr fun indent depth => by simp [gap, breakAt, parts]
    | newline => exact .inr fun indent depth => by simp [gap, breakAt, lineBreakAt, parts]
  · obtain ⟨rfl, rfl⟩ | hparts := ending_eq_some hbetween hmiddle hsecond
    · exact .inl ⟨rfl, rfl, hend hsecond⟩
    · exact .inr fun indent depth => by rw [gap, List.any_append, hparts, Bool.or_true]

end Command

end EstreePrinter

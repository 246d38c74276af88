import Mathlib
import EstreePrinter.Render.Layout
import EstreePrinter.Proofs.Outcome

/-!
# Running rendering steps

What each basic step of a rendering does when it is run, and how a run of two steps comes apart into
the runs of each (`bind_eq_ok_iff`).  After this file nobody unfolds `Render`.
-/

namespace EstreePrinter

variable {α β : Type}

/-- What two emissions give together: the value and the queue of the second, the commands of both.
-/
def Emission.andThen (first : Emission α) (second : Emission β) : Emission β :=
  ⟨second.value, first.commands ++ second.commands, first.multiline || second.multiline,
    second.queue⟩

namespace Render

/-- **A run of two steps** is a run of the first and one of the second, which goes on with the value
and the queue that the first has left. -/
lemma bind_eq_ok_iff {x : Render α} {f : α → Render β} {s : Setting} {q : List Json}
    {e : Emission β} :
    (x >>= f) s q = .ok e ↔
      ∃ first, x s q = .ok first ∧
        ∃ second, f first.value s first.queue = .ok second ∧ e = Emission.andThen first second := by
  show Render.bind x f s q = .ok e ↔ _
  unfold Render.bind
  cases hx : x s q with
  | error fault => simp
  | ok first =>
      cases hf : f first.value s first.queue with
      | error fault => simp [hf]
      | ok second => simp [hf, Emission.andThen, eq_comm]

lemma bind_eq_of_ok {x : Render α} {f : α → Render β} {s : Setting} {q : List Json}
    {first : Emission α} {second : Emission β} (hx : x s q = .ok first)
    (hf : f first.value s first.queue = .ok second) :
    (x >>= f) s q = .ok (Emission.andThen first second) :=
  bind_eq_ok_iff.mpr ⟨first, hx, second, hf, rfl⟩

instance : LawfulMonad Render := LawfulMonad.mk' Render
  (by
    intro α x
    funext s q
    show Render.bind x Render.pure s q = x s q
    unfold Render.bind Render.pure
    cases x s q with
    | error fault => rfl
    | ok e => simp)
  (by
    intro α β a f
    funext s q
    show Render.bind (Render.pure a) f s q = f a s q
    unfold Render.bind Render.pure
    cases h : f a s q with
    | error fault => simp [h]
    | ok e => simp [h])
  (by
    intro α β γ x f g
    funext s q
    show Render.bind (Render.bind x f) g s q = Render.bind x (fun a => Render.bind (f a) g) s q
    unfold Render.bind
    cases x s q with
    | error fault => rfl
    | ok first =>
        dsimp only
        cases f first.value s first.queue with
        | error fault => rfl
        | ok second =>
            dsimp only
            cases g second.value s second.queue with
            | error fault => rfl
            | ok third => simp [List.append_assoc, Bool.or_assoc])

/-! ## The basic steps -/

@[simp] lemma pure_run (a : α) (s : Setting) (q : List Json) :
    (pure a : Render α) s q = .ok ⟨a, [], false, q⟩ := rfl

@[simp] lemma emit_run (commands : List Command) (s : Setting) (q : List Json) :
    emit commands s q = .ok ⟨(), commands, false, q⟩ := rfl

@[simp] lemma raiseIf_run (b : Bool) (s : Setting) (q : List Json) :
    raiseIf b s q = .ok ⟨(), [], b, q⟩ := rfl

@[simp] lemma raise_run (s : Setting) (q : List Json) : raise s q = .ok ⟨(), [], true, q⟩ := rfl

@[simp] lemma setting_run (s : Setting) (q : List Json) : setting s q = .ok ⟨s, [], false, q⟩ := rfl

@[simp] lemma enqueue_run (comment : Json) (s : Setting) (q : List Json) :
    enqueue comment s q = .ok ⟨(), [], false, q ++ [comment]⟩ := rfl

@[simp] lemma takeQueue_run (s : Setting) (q : List Json) :
    takeQueue s q = .ok ⟨q, [], false, []⟩ := rfl

@[simp] lemma hasQueue_run (s : Setting) (q : List Json) :
    hasQueue s q = .ok ⟨!q.isEmpty, [], false, q⟩ := rfl

/-- Reading emits nothing and leaves the queue alone. -/
lemma read_eq_ok_iff {x : Except Fault α} {s : Setting} {q : List Json} {e : Emission α} :
    (liftM x : Render α) s q = .ok e ↔ ∃ a, x = .ok a ∧ e = ⟨a, [], false, q⟩ := by
  show ofExcept x s q = .ok e ↔ _
  unfold ofExcept
  cases x with
  | error fault => simp
  | ok a => simp [eq_comm]

/-- What is held back is not emitted. -/
lemma fork_eq_ok_iff {x : Render Unit} {s : Setting} {q : List Json} {e : Emission Held} :
    fork x s q = .ok e ↔
      ∃ inner, x s q = .ok inner ∧ e = ⟨⟨inner.commands, inner.multiline⟩, [], false, inner.queue⟩ := by
  unfold fork
  cases x s q with
  | error fault => simp
  | ok inner => simp [eq_comm]

/-! ## A basic step in front of others

Most of the basic steps emit nothing, and a run that begins with one of them is a run of what comes
behind.
-/

section

variable {s : Setting} {q : List Json}

/-- A step that emits nothing hands on its value and the queue that it leaves. -/
lemma bind_of_silent {x : Render α} {a : α} {q' : List Json} (hx : x s q = .ok ⟨a, [], false, q'⟩)
    (f : α → Render β) : (x >>= f) s q = f a s q' := by
  show Render.bind x f s q = _
  rw [Render.bind, hx]
  dsimp only
  cases f a s q' with
  | error fault => rfl
  | ok e => simp

lemma bind_eq_of_error {x : Render α} {fault : Fault} (h : x s q = .error fault)
    (f : α → Render β) :
    (x >>= f) s q = .error fault := by
  show Render.bind x f s q = _
  rw [Render.bind, h]

lemma setting_bind_run (f : Setting → Render β) : (setting >>= f) s q = f s s q :=
  bind_of_silent rfl f

lemma hasQueue_bind_run (f : Bool → Render β) : (hasQueue >>= f) s q = f (!q.isEmpty) s q :=
  bind_of_silent rfl f

lemma takeQueue_bind_run (f : List Json → Render β) : (takeQueue >>= f) s q = f q s [] :=
  bind_of_silent rfl f

lemma read_bind_run (x : Except Fault α) (f : α → Render β) :
    ((liftM x : Render α) >>= f) s q = x >>= fun a => f a s q := by
  cases x with
  | error fault => rfl
  | ok a => exact bind_of_silent rfl f

lemma fork_bind_run (x : Render Unit) (f : Held → Render β) :
    (fork x >>= f) s q = x s q >>= fun e => f ⟨e.commands, e.multiline⟩ s e.queue := by
  cases hx : x s q with
  | error fault => exact bind_eq_of_error (by rw [fork, hx]) f
  | ok e => exact bind_of_silent (by rw [fork, hx]) f

lemma emit_bind_run (commands : List Command) (f : Unit → Render β) :
    (emit commands >>= f) s q =
      (f () s q).map fun e => { e with commands := commands ++ e.commands } := by
  show Render.bind (emit commands) f s q = _
  unfold Render.bind emit
  dsimp only
  cases f () s q with
  | error fault => rfl
  | ok e => simp [Except.map]

/-- **A run that begins with reading.** -/
lemma read_bind_eq_ok_iff {x : Except Fault α} {f : α → Render β} {e : Emission β} :
    ((liftM x : Render α) >>= f) s q = .ok e ↔ ∃ a, x = .ok a ∧ f a s q = .ok e := by
  rw [read_bind_run, EstreePrinter.bind_eq_ok_iff]

/-- **A run that begins with a step that is held back.** -/
lemma fork_bind_eq_ok_iff {x : Render Unit} {f : Held → Render β} {e : Emission β} :
    (fork x >>= f) s q = .ok e ↔
      ∃ inner, x s q = .ok inner ∧
        f ⟨inner.commands, inner.multiline⟩ s inner.queue = .ok e := by
  rw [fork_bind_run, EstreePrinter.bind_eq_ok_iff]

lemma chunk_eq_ok_iff {content node : Json} {e : Emission Unit} :
    chunk content node s q = .ok e ↔
      ∃ span, node.span = .ok span ∧ e = ⟨(), [.chunkOf content span], false, q⟩ := by
  simp only [chunk, read_bind_eq_ok_iff, emit_run, Except.ok.injEq, @eq_comm _ _ e]

lemma textIf_eq_ok_iff {node : Json} {key word : String} {e : Emission Unit} :
    textIf node key word s q = .ok e ↔ ∃ given, node.flag key = .ok given ∧
      e = ⟨(), if given then [.text word] else [], false, q⟩ := by
  have hword (given : Bool) : (if given = true then text word else pure () : Render Unit) s q =
      .ok ⟨(), if given then [.text word] else [], false, q⟩ := by
    cases given <;> rfl
  rw [textIf, read_bind_eq_ok_iff]
  simp only [hword, Except.ok.injEq, @eq_comm _ _ e]

/-- **A run that ends with a value made of the one found.** -/
lemma bind_pure_eq_ok_iff {x : Render α} {g : α → β} {e : Emission β} :
    (x >>= fun a => pure (g a)) s q = .ok e ↔
      ∃ first, x s q = .ok first ∧
        e = ⟨g first.value, first.commands, first.multiline, first.queue⟩ := by
  simp only [bind_eq_ok_iff, pure_run, Except.ok.injEq]
  constructor
  · rintro ⟨first, hfirst, _, rfl, rfl⟩
    exact ⟨first, hfirst, by simp [Emission.andThen]⟩
  · rintro ⟨first, hfirst, rfl⟩
    exact ⟨first, hfirst, _, rfl, by simp [Emission.andThen]⟩

end

/-! ## Comments -/

/-- The command for one of the comments before a node. -/
lemma leading_cons_eq_ok {newlines : Bool} {node comment : Json} {rest : List Json}
    {commands : List Command} (h : leading newlines node (comment :: rest) = .ok commands) :
    ∃ breaks : Bool, (breaks = true ∨ endsLine comment node = .ok breaks) ∧
      ∃ others, leading newlines node rest = .ok others ∧
        commands = .comment comment (if breaks then .newline else .space) :: others := by
  rw [leading] at h
  split at h
  · obtain ⟨breaks, hbreaks, h⟩ := EstreePrinter.bind_eq_ok_iff.mp h
    obtain ⟨others, hothers, h⟩ := EstreePrinter.bind_eq_ok_iff.mp h
    exact ⟨breaks, Or.inl (Except.ok.inj hbreaks).symm, others, hothers, (Except.ok.inj h).symm⟩
  · obtain ⟨breaks, hbreaks, h⟩ := EstreePrinter.bind_eq_ok_iff.mp h
    obtain ⟨others, hothers, h⟩ := EstreePrinter.bind_eq_ok_iff.mp h
    exact ⟨breaks, Or.inr hbreaks, others, hothers, (Except.ok.inj h).symm⟩

lemma leadingComments_eq_ok_iff {newlines : Bool} {node : Json} {comments : List Json} {s : Setting}
    {q : List Json} {e : Emission Unit} :
    leadingComments newlines node comments s q = .ok e ↔
      ∃ commands, leading newlines node comments = .ok commands ∧ e = ⟨(), commands, false, q⟩ := by
  simp only [leadingComments, read_bind_eq_ok_iff, emit_run, Except.ok.injEq, @eq_comm _ _ e]

lemma drainAfterStatement_eq_ok_iff {s : Setting} {q : List Json} {e : Emission Unit} :
    drainAfterStatement s q = .ok e ↔
      ∃ commands, afterStatement false q = .ok commands ∧ e = ⟨(), commands, false, []⟩ := by
  simp only [drainAfterStatement, takeQueue_bind_run, read_bind_eq_ok_iff, emit_run,
    Except.ok.injEq, @eq_comm _ _ e]

end Render

/-- The comment behind a node: only the first one is ever attached. -/
def Json.commentBehind (node : Json) : Option Json :=
  match node.given "trailingComments" with
  | .ok (some list) => list.1.first.toOption
  | _ => none

namespace Render

/-- The comment behind a node joins the queue, and nothing is emitted. -/
lemma queueTrailing_eq_ok {node : Json} {s : Setting} {q : List Json} {e : Emission Unit}
    (h : queueTrailing node s q = .ok e) : e = ⟨(), [], false, q ++ node.commentBehind.toList⟩ := by
  unfold queueTrailing at h
  obtain ⟨list, hlist, hqueue⟩ := read_bind_eq_ok_iff.mp h
  cases list with
  | none =>
      obtain rfl := Except.ok.inj hqueue
      simp [Json.commentBehind, hlist]
  | some list =>
      obtain ⟨comment, hfirst, henqueue⟩ := read_bind_eq_ok_iff.mp hqueue
      obtain rfl := Except.ok.inj henqueue
      simp [Json.commentBehind, hlist, hfirst, Except.toOption]

end Render

end EstreePrinter

import Mathlib
import EstreePrinter.CommandLine.Files
import EstreePrinter.Proofs.Outcome

/-!
# Writing files

A write that goes through puts a text at one place (`Files.put`, `write_eq_ok_iff`) and leaves
everything else as it is: what is at other places, which directories there are (`hasDirectory_put`),
and therefore where paths lead to (`locate_eq_ok_congr`).  So the writes of a run can be judged by
the files it started with: a path can be written (`Files.Writable`) before other files have been
written exactly when it can be afterwards (`writable_put`).

The reason is that a path leads somewhere only if everything on the way is a directory
(`reached_of_locate`), so that a new file lies in a directory that is there already.
-/

namespace EstreePrinter

namespace Files

/-- Files with a text put at a place. -/
def put (fs : Files) (place : Path) (text : String) : Files :=
  { fs with files := (place, .text text) :: fs.files.filter fun f => f.1 != place }

/-- Files with texts put at several places, one after the other. -/
def putAll (fs : Files) (writes : List (Path × String)) : Files :=
  writes.foldl (fun fs write => fs.put write.1 write.2) fs

lemma putAll_cons (fs : Files) (write : Path × String) (writes : List (Path × String)) :
    fs.putAll (write :: writes) = (fs.put write.1 write.2).putAll writes := rfl

/-- A path can be written: it leads to a place, and there is no directory. -/
def Writable (fs : Files) (path place : Path) : Prop :=
  fs.locate path = .ok place ∧ fs.hasDirectory place = false

variable {fs fs' : Files} {path place : Path} {text : String}

lemma write_eq_ok_iff :
    fs.write path text = .ok fs' ↔ ∃ place, fs.Writable path place ∧ fs' = fs.put place text := by
  rw [write, bind_eq_ok_iff]
  refine exists_congr fun place => ?_
  rw [Writable, and_assoc]
  refine and_congr_right fun _ => ?_
  cases fs.hasDirectory place with
  | true => simp
  | false => simp [put, eq_comm]

/-! ## Contents -/

@[simp] lemma content?_put_self (fs : Files) (place : Path) (text : String) :
    (fs.put place text).content? place = some (.text text) := by
  simp [put, content?]

lemma content?_put_of_ne {other : Path} (h : other ≠ place) :
    (fs.put place text).content? other = fs.content? other := by
  have hrest : ∀ files : List (Path × Content),
      (files.filter fun f => f.1 != place).lookup other = files.lookup other := by
    intro files
    induction files with
    | nil => rfl
    | cons file rest ih =>
      by_cases hfile : file.1 = place
      · have hother : (other == file.1) = false := beq_false_of_ne (hfile ▸ h)
        rw [List.filter_cons_of_neg (by simpa using hfile), ih, List.lookup, hother]
      · rw [List.filter_cons_of_pos (by simpa using hfile)]
        cases hother : other == file.1 <;> simp [List.lookup, hother, ih]
  have hplace : (other == place) = false := beq_false_of_ne h
  simp only [content?, put, List.lookup, hplace, hrest]

/-- A step down or up a path keeps the root, and all but the last component of what it leads to was
on the way already. -/
lemma dropLast_enter (base : Path) (component : String) :
    (enter base component).root = base.root ∧
      (enter base component).parts.dropLast <+: base.parts := by
  have hchild : (base.child component).root = base.root ∧
      (base.child component).parts.dropLast <+: base.parts := by
    simp [Path.child]
  have hparent : base.parent.root = base.root ∧ base.parent.parts.dropLast <+: base.parts :=
    ⟨rfl, (List.dropLast_prefix _).trans (List.dropLast_prefix _)⟩
  unfold enter
  by_cases hup : component = ".."
  · rw [if_pos hup]
    cases base.parts.getLast? with
    | none =>
      by_cases hroot : base.root = ""
      · simpa only [if_pos hroot] using hchild
      · simpa only [if_neg hroot, true_and] using List.dropLast_prefix base.parts
    | some last =>
      by_cases hlast : last = ".."
      · simpa only [if_pos hlast] using hchild
      · simpa only [if_neg hlast] using hparent
  · rw [if_neg hup]
    exact hchild

/-- Everything above a place is a directory. -/
def Reached (fs : Files) (place : Path) : Prop :=
  ∀ parts, parts <+: place.parts.dropLast → fs.hasDirectory { place with parts } = true

/-- A place and everything above it are directories. -/
def Open (fs : Files) (place : Path) : Prop :=
  ∀ parts, parts <+: place.parts → fs.hasDirectory { place with parts } = true

lemma Open.enter {base : Path} (h : fs.Open base) (component : String) :
    fs.Reached (enter base component) := by
  intro parts hparts
  obtain ⟨hroot, hprefix⟩ := dropLast_enter base component
  have hbase := h parts (hparts.trans hprefix)
  rwa [← hroot] at hbase

lemma Reached.opens (h : fs.Reached place) (hplace : fs.hasDirectory place = true) :
    fs.Open place := by
  intro parts hparts
  have hcases : parts = place.parts ∨ parts <+: place.parts.dropLast := by
    rcases List.eq_nil_or_concat place.parts with hnil | ⟨above, last, hconcat⟩
    · rw [hnil] at hparts ⊢
      exact .inl (List.prefix_nil.mp hparts)
    · rw [hconcat, List.concat_eq_append] at hparts ⊢
      rw [List.dropLast_concat]
      exact List.prefix_concat_iff.mp hparts
  rcases hcases with rfl | habove
  · exact hplace
  · exact h parts habove

/-- A path that goes on leads through a directory. -/
lemma follow_cons_eq_ok_iff {whole base : Path} {component : String} {rest : List String} :
    fs.follow whole base (component :: rest) = .ok place ↔
      component.utf8ByteSize ≤ maxComponent ∧
        (rest = [] ∧ enter base component = place ∨
          rest ≠ [] ∧ fs.hasDirectory (enter base component) = true ∧
            fs.follow whole (enter base component) rest = .ok place) := by
  rw [follow]
  by_cases hlong : maxComponent < component.utf8ByteSize
  · simp [hlong]
  · rw [if_neg hlong]
    by_cases hrest : rest = []
    · simp [hrest, Nat.le_of_not_lt hlong]
    · cases hhere : fs.hasDirectory (enter base component) with
      | true => simp [hrest, Nat.le_of_not_lt hlong]
      | false => cases (fs.content? (enter base component)).isSome <;> simp [hrest]

/-- Below an open place a path leads to places that are reached through directories only. -/
lemma reached_of_follow {whole base : Path} {component : String} {rest : List String}
    (hbase : fs.Open base) (h : fs.follow whole base (component :: rest) = .ok place) :
    fs.Reached place := by
  induction rest generalizing base component with
  | nil =>
    obtain ⟨-, ⟨-, rfl⟩ | ⟨hne, -⟩⟩ := follow_cons_eq_ok_iff.mp h
    · exact hbase.enter component
    · exact absurd rfl hne
  | cons next rest ih =>
    obtain ⟨-, ⟨hnil, -⟩ | ⟨-, hhere, h⟩⟩ := follow_cons_eq_ok_iff.mp h
    · exact absurd hnil (by simp)
    · exact ih ((hbase.enter component).opens hhere) h

/-- **A path leads somewhere only through directories.** -/
lemma reached_of_locate (h : fs.locate path = .ok place) : fs.Reached place := by
  have htop : fs.Open { path with parts := [] } := by
    intro parts hparts
    obtain rfl := List.prefix_nil.mp hparts
    rfl
  rw [locate] at h
  split_ifs at h
  cases hparts : path.parts with
  | nil =>
    rw [hparts] at h
    cases h
    exact fun parts hprefix => htop parts hprefix
  | cons component rest =>
    rw [hparts] at h
    exact reached_of_follow htop h

lemma hasDirectory_iff {other : Path} :
    fs.hasDirectory other = true ↔
      (other.parts.all (· == "..") = true ∨ other ∈ fs.directories) ∨
        ∃ f ∈ fs.files, f.1.root = other.root ∧ other.parts <+: f.1.parts.dropLast := by
  simp only [hasDirectory, Bool.or_eq_true, List.contains_iff_mem, List.any_eq_true,
    Bool.and_eq_true, beq_iff_eq, List.isPrefixOf_iff_prefix]

/-- **A file put at a place makes no new directories**, and takes none away. -/
lemma hasDirectory_put (h : fs.Reached place) (text : String) (other : Path) :
    (fs.put place text).hasDirectory other = fs.hasDirectory other := by
  rw [Bool.eq_iff_iff, hasDirectory_iff, hasDirectory_iff]
  constructor
  · rintro (hdirectory | ⟨f, hf, hroot, hprefix⟩)
    · exact .inl hdirectory
    · rcases List.mem_cons.mp hf with rfl | hf
      · have hreached := h other.parts hprefix
        rw [hroot] at hreached
        exact hasDirectory_iff.mp hreached
      · exact .inr ⟨f, List.mem_of_mem_filter hf, hroot, hprefix⟩
  · rintro (hdirectory | ⟨f, hf, hroot, hprefix⟩)
    · exact .inl hdirectory
    · by_cases hplace : f.1 = place
      · exact .inr ⟨(place, .text text), List.mem_cons_self, hplace ▸ hroot, hplace ▸ hprefix⟩
      · refine .inr ⟨f, List.mem_cons_of_mem _ (List.mem_filter.mpr ⟨hf, ?_⟩), hroot, hprefix⟩
        simpa using hplace

/-! ## Places -/

/-- Where a path leads to depends on the directories only. -/
lemma follow_eq_ok_congr {whole base : Path} {components : List String}
    (h : ∀ other, fs.hasDirectory other = fs'.hasDirectory other) :
    fs.follow whole base components = .ok place ↔ fs'.follow whole base components = .ok place := by
  induction components generalizing base with
  | nil => rfl
  | cons component rest ih => rw [follow_cons_eq_ok_iff, follow_cons_eq_ok_iff, h, ih]

lemma locate_eq_ok_congr (h : ∀ other, fs.hasDirectory other = fs'.hasDirectory other) :
    fs.locate path = .ok place ↔ fs'.locate path = .ok place := by
  rw [locate, locate]
  split_ifs
  · rfl
  · rfl
  · exact follow_eq_ok_congr h

/-- **A write does not change what can be written where.** -/
lemma writable_put (h : fs.Reached place) (text : String) {other at' : Path} :
    (fs.put place text).Writable other at' ↔ fs.Writable other at' := by
  rw [Writable, Writable, hasDirectory_put h, locate_eq_ok_congr (hasDirectory_put h text)]

/-! ## Files that look alike -/

/-- The same files and directories are there, whatever is in the files. -/
structure Alike (fs fs' : Files) : Prop where
  directory : ∀ place, fs.hasDirectory place = fs'.hasDirectory place
  file : ∀ place, (fs.content? place).isSome = (fs'.content? place).isSome

lemma Alike.refl (fs : Files) : fs.Alike fs := ⟨fun _ => rfl, fun _ => rfl⟩

lemma Alike.follow (h : fs.Alike fs') (whole base : Path) (components : List String) :
    fs.follow whole base components = fs'.follow whole base components := by
  induction components generalizing base with
  | nil => rfl
  | cons component rest ih => rw [Files.follow, Files.follow, h.directory, h.file, ih]

/-- Paths lead to the same places, or fail to for the same reason. -/
lemma Alike.locate (h : fs.Alike fs') (path : Path) : fs.locate path = fs'.locate path := by
  rw [Files.locate, Files.locate, h.follow]

lemma Alike.reached (h : fs.Alike fs') (hplace : fs.Reached place) : fs'.Reached place :=
  fun parts hparts => (h.directory _).symm.trans (hplace parts hparts)

/-- Files that look alike still do when something is put at the same place of both. -/
lemma Alike.put (h : fs.Alike fs') (hplace : fs.Reached place) (text text' : String) :
    (fs.put place text).Alike (fs'.put place text') where
  directory other := by
    rw [hasDirectory_put hplace, hasDirectory_put (h.reached hplace), h.directory]
  file other := by
    by_cases hother : other = place
    · rw [hother, content?_put_self, content?_put_self]
      rfl
    · rw [content?_put_of_ne hother, content?_put_of_ne hother, h.file]

/-- A path that leads elsewhere reads the same whatever is put at a place. -/
lemma read_put_of_ne (hplace : fs.Reached place) (text text' : String)
    (hpath : fs.locate path ≠ .ok place) :
    (fs.put place text).read path = (fs.put place text').read path := by
  have halike := (Alike.refl fs).put hplace text text'
  rw [read, read, halike.locate]
  cases hlocate : (fs.put place text').locate path with
  | error e => rfl
  | ok other =>
    have hother : other ≠ place := by
      rintro rfl
      exact hpath ((locate_eq_ok_congr (hasDirectory_put hplace text')).mp hlocate)
    rw [ok_bind, ok_bind, content?_put_of_ne hother, content?_put_of_ne hother, halike.directory]

lemma read_put_self (h : fs.Writable path place) (text : String) :
    (fs.put place text).read path = .ok text := by
  have hlocate : (fs.put place text).locate path = .ok place :=
    ((writable_put (reached_of_locate h.1) text).mpr h).1
  rw [read, hlocate, ok_bind, content?_put_self]
  rfl

end Files

end EstreePrinter

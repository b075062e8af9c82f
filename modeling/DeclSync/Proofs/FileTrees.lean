import DeclSync.Storage.FileTree

/-!
# Writing over files

Where a path leads depends on which locations hold files and which hold directories, and not on what
is in the files. So writing over a file that is there changes the contents at its location and
nothing else, and every path leads where it led before.

## Main definitions

- `FileTree.SameShape` — files and directories at the same locations

`FileTree.SameShape.locate_eq` says that then every path leads to the same location, and
`FileTree.read_of_write` that what was written is read, also where there was no file before.
-/

namespace DeclSync

/-- Whether an entry is a file. -/
def Entry.isFile : Entry → Bool
  | file _ => true
  | directory => false

namespace FileTree

variable {tree : FileTree} {p : Path} {l : Location} {old contents : Bytes}

/-- Two trees with files and directories at the same locations. -/
def SameShape (a b : FileTree) : Prop :=
  ∀ l, (a.get? l).map Entry.isFile = (b.get? l).map Entry.isFile

/-- On the way of a path, only whether there is a file or a directory is looked at. -/
theorem locateFrom_cons (tree : FileTree) (here : Location) (name : Text) (names : List Text) :
    tree.locateFrom here (name :: names) =
      if name = ".." then tree.locateFrom here.parent names
      else if byteCount name > maxNameBytes then .error .nameTooLong
      else if names.isEmpty then .ok (name :: here)
      else
        match (tree.get? (name :: here)).map Entry.isFile with
        | some false => tree.locateFrom (name :: here) names
        | some true => .error .notDirectory
        | none => .error .notFound := by
  rw [locateFrom]
  rcases tree.get? (name :: here) with _ | _ | _ <;> rfl

namespace SameShape

variable {a b c : FileTree}

theorem refl (tree : FileTree) : SameShape tree tree := fun _ => rfl

theorem symm (h : SameShape a b) : SameShape b a := fun l => (h l).symm

theorem trans (h : SameShape a b) (h' : SameShape b c) : SameShape a c :=
  fun l => (h l).trans (h' l)

theorem locateFrom_eq (h : SameShape a b) (here : Location) (names : List Text) :
    a.locateFrom here names = b.locateFrom here names := by
  induction names generalizing here with
  | nil => rfl
  | cons name names ih => rw [locateFrom_cons, locateFrom_cons, h (name :: here), ih, ih]

/-- Every path leads to the same location in both trees. -/
theorem locate_eq (h : SameShape a b) (p : Path) : a.locate p = b.locate p := by
  rw [locate, locate, h.locateFrom_eq]

theorem of_get?_eq (h : ∀ l, a.get? l = b.get? l) : SameShape a b :=
  fun l => congrArg (Option.map Entry.isFile) (h l)

/-- Locations with the same contents in trees of the same shape hold the same. -/
theorem get?_eq (h : SameShape a b) {l : Location} (hl : a.contents? l = b.contents? l) :
    a.get? l = b.get? l := by
  have hshape := h l
  rw [contents?, contents?] at hl
  rcases ha : a.get? l with _ | _ | _ <;> rcases hb : b.get? l with _ | _ | _ <;>
    simp_all [Entry.isFile]

end SameShape

/-! ## Reading and writing a file -/

theorem get?_of_contents? (h : tree.contents? l = some old) : tree.get? l = some (.file old) := by
  rw [contents?] at h
  split at h
  · next contents hget =>
    rw [hget, Option.some.inj h]
  · exact absurd h (by simp)

theorem read_eq_ok_iff :
    tree.read p = .ok contents ↔ ∃ l, tree.locate p = .ok l ∧ tree.contents? l = some contents := by
  rw [read]
  cases tree.locate p with
  | error fault => simp
  | ok l =>
    simp only [contents?, Except.ok.injEq, exists_eq_left']
    rcases tree.get? l with _ | _ | _ <;> simp

theorem read_eq_of_get?_eq {after : FileTree} (h : ∀ l, after.get? l = tree.get? l) (p : Path) :
    after.read p = tree.read p := by
  rw [read, read, (SameShape.of_get?_eq h).locate_eq]
  cases tree.locate p with
  | error fault => rfl
  | ok l => simp only [h l]

theorem write_eq_of_contents? (hl : tree.locate p = .ok l) (hold : tree.contents? l = some old)
    (contents : Bytes) : tree.write p contents = .ok (tree.set l (.file contents)) := by
  rw [write, hl]
  simp only [get?_of_contents? hold]

/-- A file is written wherever there is no directory. -/
theorem write_eq_ok_iff {after : FileTree} : tree.write p contents = .ok after ↔
    ∃ l, tree.locate p = .ok l ∧ tree.get? l ≠ some .directory ∧
      tree.set l (.file contents) = after := by
  rw [write]
  cases tree.locate p with
  | error fault => simp
  | ok l => rcases hget : tree.get? l with _ | _ | _ <;> simp [hget]

theorem isAncestral_of_get?_ne (h : tree.get? l ≠ some .directory) : l.isAncestral = false := by
  by_cases hancestral : l.isAncestral = true
  · rw [get?, if_pos hancestral] at h
    exact absurd rfl h
  · simpa using hancestral

/-- No file is where a directory always is. -/
theorem isAncestral_of_contents? (h : tree.contents? l = some old) : l.isAncestral = false :=
  isAncestral_of_get?_ne (by rw [get?_of_contents? h]; simp)

theorem contents?_set (hold : tree.contents? l = some old) (contents : Bytes) (other : Location) :
    (tree.set l (.file contents)).contents? other =
      if other = l then some contents else tree.contents? other := by
  rw [contents?, get?_set _ (isAncestral_of_contents? hold)]
  by_cases hother : other = l
  · simp [hother]
  · simp [hother, contents?]

theorem sameShape_set (hold : tree.contents? l = some old) (contents : Bytes) :
    SameShape (tree.set l (.file contents)) tree := by
  intro other
  rw [get?_set _ (isAncestral_of_contents? hold)]
  by_cases hother : other = l
  · rw [if_pos hother, hother, get?_of_contents? hold]
    rfl
  · rw [if_neg hother]

/-! ## Reading what was written -/

/-- A path that leads somewhere steps up, ends with its last name, or goes on from a directory. -/
theorem locateFrom_cons_eq_ok_iff {here r : Location} {name : Text} {names : List Text} :
    tree.locateFrom here (name :: names) = .ok r ↔
      (name = ".." ∧ tree.locateFrom here.parent names = .ok r) ∨
        (name ≠ ".." ∧ byteCount name ≤ maxNameBytes ∧ ((names = [] ∧ name :: here = r) ∨
          (names ≠ [] ∧ tree.get? (name :: here) = some .directory ∧
            tree.locateFrom (name :: here) names = .ok r))) := by
  rw [locateFrom]
  by_cases hup : name = ".."
  · simp [hup]
  · by_cases hlong : byteCount name > maxNameBytes
    · have hnot : ¬ byteCount name ≤ maxNameBytes := Nat.not_le.2 hlong
      simp [hup, hlong, hnot]
    · have hfits : byteCount name ≤ maxNameBytes := Nat.not_lt.1 hlong
      cases names with
      | nil => simp [hup, hlong, hfits]
      | cons next names =>
        rcases tree.get? (name :: here) with _ | _ | _ <;> simp [hup, hlong, hfits]

/-- No path leads through the file that is written, so a path leads where it led before, also if
there was nothing at the location. -/
theorem locateFrom_set (hl : tree.get? l ≠ some .directory) (contents : Bytes) {here r : Location}
    {names : List Text} (hr : tree.locateFrom here names = .ok r) :
    (tree.set l (.file contents)).locateFrom here names = .ok r := by
  induction names generalizing here with
  | nil => exact hr
  | cons name names ih =>
    rw [locateFrom_cons_eq_ok_iff] at hr ⊢
    rcases hr with ⟨hup, hr⟩ | ⟨hup, hfits, ⟨hnil, hr⟩ | ⟨hne, hget, hr⟩⟩
    · exact .inl ⟨hup, ih hr⟩
    · exact .inr ⟨hup, hfits, .inl ⟨hnil, hr⟩⟩
    · have hother : name :: here ≠ l := by
        rintro rfl
        exact hl hget
      refine .inr ⟨hup, hfits, .inr ⟨hne, ?_, ih hr⟩⟩
      rw [get?_set _ (isAncestral_of_get?_ne hl), if_neg hother, hget]

theorem locate_set (hl : tree.get? l ≠ some .directory) (contents : Bytes) {r : Location}
    (hr : tree.locate p = .ok r) : (tree.set l (.file contents)).locate p = .ok r := by
  rw [locate] at hr
  split at hr
  · exact absurd hr (by simp)
  · next hwritable =>
    split at hr
    · exact absurd hr (by simp)
    · next hnul =>
      split at hr
      · exact absurd hr (by simp)
      · next hfits =>
        rw [locate, if_neg hwritable, if_neg hnul, if_neg hfits]
        exact locateFrom_set hl contents hr

/-- What was written is read. -/
theorem read_of_write {after : FileTree} (h : tree.write p contents = .ok after) :
    after.read p = .ok contents := by
  obtain ⟨l, hl, hget, rfl⟩ := write_eq_ok_iff.1 h
  refine read_eq_ok_iff.2 ⟨l, locate_set hget contents hl, ?_⟩
  rw [contents?, get?_set _ (isAncestral_of_get?_ne hget), if_pos rfl]

/-- A file that is written as it was is left as it was. -/
theorem get?_set_of_contents? (hold : tree.contents? l = some contents) (other : Location) :
    (tree.set l (.file contents)).get? other = tree.get? other := by
  rw [get?_set _ (isAncestral_of_contents? hold)]
  split
  · next hother => rw [hother, get?_of_contents? hold]
  · rfl

end FileTree

end DeclSync

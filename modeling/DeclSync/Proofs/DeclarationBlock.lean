import DeclSync.Declaration
import DeclSync.Proofs.ExtractedMethods
import DeclSync.Proofs.Literals
import DeclSync.Proofs.Marks
import Mathlib.Data.Option.Basic

/-!
# Reading a declaration block back

A reader for declaration blocks, which takes them for what they are in a script: a comment line, the
line that opens an array, and its entries, of which the white space around their parts and the
escapes inside their literals do not count. It reads every block that is made of extracted methods,
whatever the bundle they come from, and reads back the methods.

## Main definitions

- `Declaration.Declared` — what the entry of a method says
- `Declaration.Contents` — what a block says
- `Declaration.read?` — reads a block

`Declaration.read?_block` says that the block of writable methods is read as what it declares.
-/

namespace DeclSync

namespace Declaration

open Text

/-- What the entry of a method says. -/
structure Declared where
  name : Text
  signature : Text
  description : Text
  isAsync : Bool
  deriving DecidableEq

/-- What an entry can say of a method: its name, its signature with one space between its words, its
description without the backslashes of the literal, and whether it is asynchronous. -/
def Declared.ofMethod (m : Method) : Declared where
  name := m.name
  signature := m.signature.singleSpaced
  description := m.description.unescaped
  isAsync := m.isAsync

/-- What a block says: its comment line, the name of the array and the entries. -/
structure Contents where
  header : Text
  arrayName : Text
  entries : List Declared
  deriving DecidableEq

/-! ## The reader -/

/-- What follows a mark that stands after blanks. -/
def token? (mark t : Text) : Option Text := after? mark t.trimStart

/-- Reads a field that holds a string literal in single quotes. -/
def readText? (field t : Text) : Option (Text × Text) := do
  let value ← token? ":" (← token? field t)
  Literal.read? (.scalar '\x27') (← token? "\x27" value)

/-- Reads `true` or `false`. -/
def readFlag? (t : Text) : Option (Bool × Text) :=
  match token? "true" t with
  | some rest => some (true, rest)
  | none => (token? "false" t).map fun rest => (false, rest)

/-- Reads an entry. -/
def readDeclared? (t : Text) : Option (Declared × Text) := do
  let (name, t) ← readText? "name" (← token? "\x7b" t)
  let (signature, t) ← readText? "signature" (← token? "," t)
  let (description, t) ← readText? "description" (← token? "," t)
  let value ← token? ":" (← token? "isAsync" (← token? "," t))
  let (isAsync, t) ← readFlag? value
  some (⟨name, signature, description, isAsync⟩, ← token? "\x7d" t)

theorem length_lt_of_token? {mark t rest : Text} (hmark : mark ≠ [])
    (h : token? mark t = some rest) : rest.length < t.length := by
  have hle : (trimStart t).length ≤ t.length := (List.dropWhile_sublist _).length_le
  have hlength := congrArg List.length (after?_eq_some_iff.1 h)
  have hpos := List.length_pos_iff.2 hmark
  rw [List.length_append] at hlength
  omega

theorem length_lt_of_readText? {field t value rest : Text} (hfield : field ≠ [])
    (h : readText? field t = some (value, rest)) : rest.length < t.length := by
  simp only [readText?, Option.bind_eq_bind, Option.bind_eq_some_iff] at h
  obtain ⟨afterField, hafterField, afterColon, hcolon, opened, hquote, hread⟩ := h
  have := length_lt_of_token? hfield hafterField
  have := length_lt_of_token? (by decide) hcolon
  have := length_lt_of_token? (by decide) hquote
  have := Literal.length_lt_of_read? hread
  omega

theorem length_lt_of_readFlag? {t rest : Text} {value : Bool}
    (h : readFlag? t = some (value, rest)) : rest.length < t.length := by
  rw [readFlag?] at h
  split at h
  · next found hfound =>
    obtain ⟨-, rfl⟩ := Prod.mk.inj (Option.some.inj h)
    exact length_lt_of_token? (by decide) hfound
  · obtain ⟨found, hfound, heq⟩ := Option.map_eq_some_iff.1 h
    obtain ⟨-, rfl⟩ := Prod.mk.inj heq
    exact length_lt_of_token? (by decide) hfound

/-- Reading an entry uses up a part of the text. -/
theorem length_lt_of_readDeclared? {t rest : Text} {d : Declared}
    (h : readDeclared? t = some (d, rest)) : rest.length < t.length := by
  simp only [readDeclared?, Option.bind_eq_bind, Option.bind_eq_some_iff, Option.some.injEq,
    Prod.mk.injEq] at h
  -- each part of the entry takes up at least one code point
  obtain ⟨_, hbrace, _, hname, _, hcomma, _, hsignature, _, hcomma', _, hdescription, _, hcomma'',
    _, hfield, _, hcolon, _, hflag, _, hclose, -, rfl⟩ := h
  have := length_lt_of_token? (by decide) hbrace
  have := length_lt_of_readText? (by decide) hname
  have := length_lt_of_token? (by decide) hcomma
  have := length_lt_of_readText? (by decide) hsignature
  have := length_lt_of_token? (by decide) hcomma'
  have := length_lt_of_readText? (by decide) hdescription
  have := length_lt_of_token? (by decide) hcomma''
  have := length_lt_of_token? (by decide) hfield
  have := length_lt_of_token? (by decide) hcolon
  have := length_lt_of_readFlag? hflag
  have := length_lt_of_token? (by decide) hclose
  omega

/-- Reads the entries of an array, of which there is at least one, and the bracket that closes it.
-/
def readEntries? (t : Text) : Option (List Declared × Text) :=
  match _hentry : readDeclared? t with
  | none => none
  | some (d, rest) =>
    match _hcomma : token? "," rest with
    | some more => (readEntries? more).map fun (entries, rest) => (d :: entries, rest)
    | none => (token? "]" rest).map fun rest => ([d], rest)
termination_by t.length
decreasing_by
  have := length_lt_of_readDeclared? _hentry
  have := length_lt_of_token? (by decide) _hcomma
  omega

/-- Reads what stands in an array, after its opening bracket. -/
def readArray? (t : Text) : Option (List Declared × Text) :=
  match token? "]" t with
  | some rest => some ([], rest)
  | none => readEntries? t

/-- The name of the array that a line opens. -/
def arrayName? (line : Text) : Option Text := do
  let named ← after? "const " line
  guard ((" = [" : Text).isSuffixOf named)
  some (named.take (named.length - 4))

/-- Reads a block, after which nothing may follow. -/
def read? (t : Text) : Option Contents := do
  let (header, t) ← cut? "\n" t
  let (line, t) ← cut? "\n" t
  let (entries, t) ← readArray? t
  guard (token? ";" t = some [])
  some ⟨header, ← arrayName? line, entries⟩

/-! ## Reading what was written -/

theorem token?_append {gap : Text} (hgap : ∀ c ∈ gap, c.isBlank = true) (mark t : Text) :
    token? mark (gap ++ t) = token? mark t := by
  rw [token?, token?, trimStart, trimStart, List.dropWhile_append_of_pos hgap]

theorem readText?_eq_some {field t body value rest : Text}
    (hfield : token? field t = some (": '" ++ body))
    (hread : Literal.read? (.scalar '\x27') body = some (value, rest)) :
    readText? field t = some (value, rest) := by
  have hcolon : token? ":" (": '" ++ body) = some (" '" ++ body) := rfl
  have hquote : token? "\x27" (" '" ++ body) = some body := rfl
  simp only [readText?, hfield, Option.bind_eq_bind, Option.bind_some, hcolon, hquote, hread]

/-- An identifier is read from its literal, though nothing in it is escaped. -/
theorem readIdentifier?_append {name : Text} (hname : name.isIdentifier = true) (rest : Text) :
    Literal.read? (.scalar '\x27') (name ++ .scalar '\x27' :: rest) = some (name, rest) := by
  refine Literal.read?_plain (fun c hc => ?_) rest
  have hchar := List.all_eq_true.1 (Bool.and_eq_true_iff.1 hname).2 c hc
  refine ⟨?_, ?_, ?_⟩
  · rintro rfl
    exact absurd hchar (by decide)
  · rintro rfl
    exact absurd hchar (by decide)
  · by_contra hterminator
    have hblank := CodePoint.isBlank_of_isLineTerminator (by simpa using hterminator)
    rw [CodePoint.isIdentifierChar_eq_false_of_isBlank hblank.1] at hchar
    exact absurd hchar (by decide)

theorem readLiteral?_identifier {name : Text} (hname : name.isIdentifier = true) (rest : Text) :
    Literal.read? (.scalar '\x27') (name ++ ("',\n" ++ rest)) = some (name, ",\n" ++ rest) :=
  readIdentifier?_append hname (",\n" ++ rest)

theorem readFlag?_append (flag : Bool) (rest : Text) :
    readFlag? (" " ++ ((if flag then "true" else "false" : String) ++ ("\n" ++ rest)) : Text) =
      some (flag, "\n" ++ rest) := by
  cases flag <;> rfl

/-- The entry of a writable method is read as what it declares. -/
theorem readDeclared?_entry {m : Method} (hm : m.IsWritable) {gap : Text}
    (hgap : ∀ c ∈ gap, c.isBlank = true) (rest : Text) :
    readDeclared? (gap ++ (entry m ++ rest)) = some (Declared.ofMethod m, rest) := by
  obtain ⟨u, hu⟩ := hm.literal_description
  have hbrace : ∀ t : Text, token? "\x7b" ("\t\x7b\n" ++ t) = some ("\n" ++ t) := fun _ => rfl
  have hcomma : ∀ t : Text, token? "," (",\n" ++ t) = some ("\n" ++ t) := fun _ => rfl
  have hclose : token? "\x7d" ("\n" ++ ("\t\x7d" ++ rest)) = some rest := rfl
  have hname : ∀ t : Text, readText? "name" ("\n" ++ ("\t\tname: '" ++ (m.name ++ ("',\n" ++ t)))) =
      some (m.name, ",\n" ++ t) :=
    fun t => readText?_eq_some rfl (readLiteral?_identifier hm.isIdentifier_name t)
  have hsignature : ∀ t : Text, readText? "signature"
      ("\n" ++ ("\t\tsignature: '" ++ (m.signature.literalBody ++ ("',\n" ++ t)))) =
        some (m.signature.singleSpaced, ",\n" ++ t) :=
    fun t => readText?_eq_some rfl (Literal.read?_literalBody (.inl rfl) _ _)
  have hdescription : ∀ t : Text, readText? "description"
      ("\n" ++ ("\t\tdescription: '" ++ (u.literalBody ++ ("',\n" ++ t)))) =
        some (u.singleSpaced, ",\n" ++ t) :=
    fun t => readText?_eq_some rfl (Literal.read?_literalBody (.inl rfl) _ _)
  have hflag : ∀ t : Text, token? "isAsync" ("\n" ++ ("\t\tisAsync: " ++ t)) = some (": " ++ t) :=
    fun _ => rfl
  have hcolon : ∀ t : Text, token? ":" (": " ++ t) = some (" " ++ t) := fun _ => rfl
  simp only [readDeclared?, entry, List.append_assoc, token?_append hgap, hbrace, hname, hcomma,
    hsignature, hu, hdescription, hflag, hcolon, readFlag?_append, hclose, Option.bind_eq_bind,
    Option.bind_some, Declared.ofMethod, unescaped_literalBody]

theorem readEntries?_of_comma {t rest more : Text} {d : Declared}
    (hentry : readDeclared? t = some (d, rest)) (hcomma : token? "," rest = some more) :
    readEntries? t = (readEntries? more).map fun (entries, rest) => (d :: entries, rest) := by
  rw [readEntries?]
  split
  · next hnone => exact absurd (hentry.symm.trans hnone) (by simp)
  · next d' rest' hfound =>
    obtain ⟨rfl, rfl⟩ := Prod.mk.inj (Option.some.inj (hentry.symm.trans hfound))
    split
    · next more' hmore =>
      obtain rfl := Option.some.inj (hcomma.symm.trans hmore)
      rfl
    · next hnone => exact absurd (hcomma.symm.trans hnone) (by simp)

theorem readEntries?_of_last {t rest : Text} {d : Declared}
    (hentry : readDeclared? t = some (d, rest)) (hlast : token? "," rest = none) :
    readEntries? t = (token? "]" rest).map fun rest => ([d], rest) := by
  rw [readEntries?]
  split
  · next hnone => exact absurd (hentry.symm.trans hnone) (by simp)
  · next d' rest' hfound =>
    obtain ⟨rfl, rfl⟩ := Prod.mk.inj (Option.some.inj (hentry.symm.trans hfound))
    split
    · next more hmore => exact absurd (hlast.symm.trans hmore) (by simp)
    · rfl

/-- Entries are read one after the other; the induction is on the methods behind the first one. -/
theorem readEntries?_intercalate {m : Method} {methods : List Method}
    (hm : ∀ m' ∈ m :: methods, m'.IsWritable) {gap : Text} (hgap : ∀ c ∈ gap, c.isBlank = true)
    (rest : Text) :
    readEntries? (gap ++ (List.intercalate ",\n" ((m :: methods).map entry) ++ ("\n]" ++ rest))) =
      some ((m :: methods).map Declared.ofMethod, rest) := by
  induction methods generalizing m gap with
  | nil =>
    have hentry := readDeclared?_entry (hm m List.mem_cons_self) hgap ("\n]" ++ rest)
    rw [List.map_singleton, List.intercalate_singleton, readEntries?_of_last hentry rfl]
    rfl
  | cons next methods ih =>
    obtain ⟨hfirst, hlater⟩ := List.forall_mem_cons.1 hm
    have hentry := readDeclared?_entry hfirst hgap (",\n" ++
      (List.intercalate ",\n" ((next :: methods).map entry) ++ ("\n]" ++ rest)))
    -- the entries that follow stand behind a line break
    have hmore := ih hlater (show ∀ c ∈ ofString "\n", c.isBlank = true by decide)
    have hcomma : ∀ t : Text, token? "," (",\n" ++ t) = some ("\n" ++ t) := fun _ => rfl
    rw [List.map_cons, List.map_cons, List.intercalate_cons_cons, List.append_assoc,
      List.append_assoc, ← List.map_cons, readEntries?_of_comma hentry (hcomma _), hmore]
    rfl

theorem readArray?_block {methods : List Method} (hm : ∀ m ∈ methods, m.IsWritable) (rest : Text) :
    readArray? (List.intercalate ",\n" (methods.map entry) ++ ("\n]" ++ rest)) =
      some (methods.map Declared.ofMethod, rest) := by
  cases methods with
  | nil => rfl
  | cons m methods =>
    have hread := readEntries?_intercalate hm (show ∀ c ∈ ([] : Text), c.isBlank = true by simp) rest
    -- an entry opens with a curly bracket, so the array does not close at once
    have hopen : token? "]" (List.intercalate ",\n" ((m :: methods).map entry) ++ ("\n]" ++ rest)) =
        none := by
      cases methods with
      | nil => rfl
      | cons next methods =>
        rw [List.map_cons, List.map_cons, List.intercalate_cons_cons]
        rfl
    rw [readArray?, hopen]
    exact hread

theorem arrayName?_line (arrayName : Text) :
    arrayName? ("const " ++ (arrayName ++ " = [")) = some arrayName := by
  have hsuffix : (" = [" : Text).isSuffixOf (arrayName ++ " = [") = true :=
    List.isSuffixOf_iff_suffix.2 (List.suffix_append _ _)
  have hlength : (arrayName ++ " = [" : Text).length - 4 = arrayName.length := by
    rw [List.length_append]
    rfl
  simp only [arrayName?, after?_append, hsuffix, hlength, List.take_left, Option.bind_eq_bind,
    Option.bind_some, guard_true]
  rfl

theorem block_eq_append (anchor arrayName : Text) (methods : List Method) :
    block anchor arrayName methods = (anchor ++ " (auto-generated)" : Text) ++ ("\n" ++
      (("const " ++ (arrayName ++ " = [")) ++ ("\n" ++
        (List.intercalate ",\n" (methods.map entry) ++ ("\n" ++ "];"))))) := by
  have hwords : ofString " (auto-generated)\nconst " = " (auto-generated)" ++ ("\n" ++ "const ") :=
    rfl
  have hopening : ofString " = [\n" = " = [" ++ "\n" := rfl
  have hclosing : ofString "\n];" = "\n" ++ "];" := rfl
  rw [block, hwords, hopening, hclosing]
  simp only [List.append_assoc]

/-- A block of writable methods is read as what it declares. -/
theorem read?_block {anchor arrayName : Text} (hanchor : anchor.IsOneLine)
    (harrayName : arrayName.IsOneLine) {methods : List Method}
    (hm : ∀ m ∈ methods, m.IsWritable) :
    read? (block anchor arrayName methods) =
      some ⟨anchor ++ " (auto-generated)", arrayName, methods.map Declared.ofMethod⟩ := by
  have hwords : IsOneLine " (auto-generated)" ∧ IsOneLine "const " ∧ IsOneLine " = [" := by
    unfold IsOneLine
    decide
  have hheader := (hanchor.append hwords.1).lf_notMem
  have hline := (hwords.2.1.append (harrayName.append hwords.2.2)).lf_notMem
  have harray : readArray? (List.intercalate ",\n" (methods.map entry) ++ ("\n" ++ "];")) =
      some (methods.map Declared.ofMethod, ofString ";") :=
    readArray?_block hm ";"
  have hend : token? ";" ";" = some [] := rfl
  simp only [block_eq_append, read?, cut?_line hheader, cut?_line hline, harray, hend,
    arrayName?_line, Option.bind_eq_bind, Option.bind_some, guard_true]
  rfl

/-- The block of the methods of a bundle is read as what it declares, whatever the bundle and the name
of the interface; so another bundle only gives the same block if it declares the same. -/
theorem read?_block_ofBundle {anchor arrayName : Text} (hanchor : anchor.IsOneLine)
    (harrayName : arrayName.IsOneLine) (apiName bundle : Text) :
    read? (block anchor arrayName (Method.ofBundle apiName bundle)) =
        some ⟨anchor ++ " (auto-generated)", arrayName,
          (Method.ofBundle apiName bundle).map Declared.ofMethod⟩ ∧
      ∀ apiName' bundle',
        block anchor arrayName (Method.ofBundle apiName bundle) =
            block anchor arrayName (Method.ofBundle apiName' bundle') →
          (Method.ofBundle apiName bundle).map Declared.ofMethod =
            (Method.ofBundle apiName' bundle').map Declared.ofMethod := by
  have hread := fun apiName bundle => read?_block hanchor harrayName
    fun _ (hm : _ ∈ Method.ofBundle apiName bundle) => Method.isWritable_of_mem_ofBundle hm
  refine ⟨hread apiName bundle, fun apiName' bundle' hblock => ?_⟩
  have hsame := hread apiName bundle
  rw [hblock, hread apiName' bundle'] at hsame
  exact (congrArg Contents.entries (Option.some.inj hsame)).symm

/-- A bundle with a quote, a backslash and a default value in it. -/
theorem read?_block_default :
    (IsOneLine "// Methods" ∧ IsOneLine "methods") ∧
    read? (block "// Methods" "methods" (Method.ofBundle "it's" "run(a = '\\\\') \x7b")) =
      some ⟨"// Methods (auto-generated)", "methods",
        [⟨"run", "run(a?: any): any", "run method from it's", false⟩]⟩ := by
  have hanchor : IsOneLine "// Methods" ∧ IsOneLine "methods" := by
    unfold IsOneLine
    decide
  -- the method comes from a bundle with a default value in its parameters
  have hdeclared : (Method.ofBundle "it's" "run(a = '\\\\') \x7b").map Declared.ofMethod =
      [⟨"run", "run(a?: any): any", "run method from it's", false⟩] := by
    decide +kernel
  have hread := (read?_block_ofBundle hanchor.1 hanchor.2 "it's" "run(a = '\\\\') \x7b").1
  rw [hdeclared] at hread
  exact ⟨hanchor, hread⟩

end Declaration

end DeclSync

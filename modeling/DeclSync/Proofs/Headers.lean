import DeclSync.Method.Header
import DeclSync.Proofs.Words

/-!
# How headers are spelled

The grammar of method headers as a structure: the words that qualify the name, each with the blanks
after it, the name, the parameter list, and the blanks that may stand between. A text begins with at
most one such spelling, and the reader of headers finds it.

## Main definitions

- `Header.Spelling` — a header with all its parts
- `Header.Spelling.text` — the text that the parts make up

`Header.read?_eq_some_iff` says that a header is read exactly where one is spelled, and
`Header.Spelling.text_append_inj` that it is spelled there in one way.
-/

namespace DeclSync

namespace CodePoint

/-- Letters and digits by their numbers. -/
theorem isAlphanum_iff {c : Char} : c.isAlphanum = true ↔
    ((0x41 ≤ c.toNat ∧ c.toNat ≤ 0x5A) ∨ (0x61 ≤ c.toNat ∧ c.toNat ≤ 0x7A)) ∨
      (0x30 ≤ c.toNat ∧ c.toNat ≤ 0x39) := by
  have halpha : c.isAlpha = (c.isUpper || c.isLower) := rfl
  have hupper : c.isUpper = decide ('A'.val ≤ c.val ∧ c.val ≤ 'Z'.val) := rfl
  have hlower : c.isLower = (decide ('a'.val ≤ c.val) && decide (c.val ≤ 'z'.val)) := rfl
  have hdigit : c.isDigit = (decide ('0'.val ≤ c.val) && decide (c.val ≤ '9'.val)) := rfl
  simp only [Char.isAlphanum, halpha, hupper, hlower, hdigit, Bool.or_eq_true, Bool.and_eq_true,
    decide_eq_true_eq, UInt32.le_iff_toNat_le, Char.toNat_val, Char.reduceToNat]

theorem isIdentifierChar_of_isIdentifierStart {c : CodePoint} (h : c.isIdentifierStart = true) :
    c.isIdentifierChar = true := by
  cases c with
  | scalar c =>
    simp only [isIdentifierStart, isIdentifierChar, Char.isAlphanum, Bool.or_eq_true] at h ⊢
    rcases h with (h | h) | h <;> simp [h]
  | surrogate s => exact absurd h (by simp [isIdentifierStart])

theorem isIdentifierChar_eq_false_of_isBlank {c : CodePoint} (h : c.isBlank = true) :
    c.isIdentifierChar = false := by
  cases c with
  | surrogate s => rfl
  | scalar c =>
    have hcode : c.toNat ≤ 0x20 ∨ 0x80 ≤ c.toNat := by grind [isBlank, toNat]
    by_contra hchar
    simp only [isIdentifierChar, Bool.not_eq_false, Bool.or_eq_true, beq_iff_eq] at hchar
    rcases hchar with (halnum | rfl) | rfl
    · have hnumber := isAlphanum_iff.1 halnum
      omega
    · exact absurd hcode (by decide)
    · exact absurd hcode (by decide)

end CodePoint

namespace Header

open Text

/-- Blanks, at least one of them. -/
def IsGap (gap : Text) : Prop := gap ≠ [] ∧ ∀ c ∈ gap, c.isBlank = true

/-- A header with all its parts. A word that qualifies the name is given by the blanks after it. -/
@[ext]
structure Spelling where
  static : Option Text
  async : Option Text
  function : Option Text
  name : Text
  beforeParams : Text
  params : Text
  beforeBody : Text
  gap_static : ∀ gap ∈ static, IsGap gap
  gap_async : ∀ gap ∈ async, IsGap gap
  gap_function : ∀ gap ∈ function, IsGap gap
  isIdentifier_name : name.isIdentifier = true
  blank_beforeParams : ∀ c ∈ beforeParams, c.isBlank = true
  unclosed_params : .scalar ')' ∉ params
  blank_beforeBody : ∀ c ∈ beforeBody, c.isBlank = true

/-- A qualifying word with the blanks after it, if it is there. -/
def qualifier (word : Text) : Option Text → Text
  | none => []
  | some gap => word ++ gap

namespace Spelling

/-- What follows the words that qualify the name. -/
def named (s : Spelling) : Text :=
  s.name ++ (s.beforeParams ++ ("(" ++ (s.params ++ (")" ++ (s.beforeBody ++ "\x7b")))))

/-- The text that the parts of a header make up. -/
def text (s : Spelling) : Text :=
  qualifier "static" s.static ++ (qualifier "async" s.async ++
    (qualifier "function" s.function ++ s.named))

/-- What the header says. -/
def header (s : Spelling) : Header := ⟨s.async.isSome, s.name, s.params⟩

end Spelling

/-! ## Qualifying words -/

theorem beginsWithout_isBlank_of_beginsIdentifier {t : Text} (h : t.beginsIdentifier = true) :
    BeginsWithout CodePoint.isBlank t := by
  cases t with
  | nil => exact absurd h (by simp [beginsIdentifier])
  | cons c t =>
    refine beginsWithout_cons ?_ t
    by_contra hblank
    have hchar := CodePoint.isIdentifierChar_of_isIdentifierStart (c := c) h
    rw [CodePoint.isIdentifierChar_eq_false_of_isBlank (by simpa using hblank)] at hchar
    exact absurd hchar (by simp)

theorem isGap_of_mem_none : ∀ gap ∈ (none : Option Text), IsGap gap := nofun

theorem IsGap.beginsWithout {gap : Text} (h : IsGap gap) (t : Text) :
    BeginsWithout CodePoint.isIdentifierChar (gap ++ t) := by
  obtain ⟨c, gap, rfl⟩ := List.exists_cons_of_ne_nil h.1
  exact beginsWithout_cons
    (CodePoint.isIdentifierChar_eq_false_of_isBlank (h.2 c List.mem_cons_self)) _

theorem IsGap.trimStart_append {gap name : Text} (h : IsGap gap)
    (hname : name.beginsIdentifier = true) : trimStart (gap ++ name) = name :=
  dropWhile_append_of_beginsWithout h.2 (beginsWithout_isBlank_of_beginsIdentifier hname)

/-- A word qualifies a name where blanks stand between them. -/
theorem afterQualifier?_eq_some_iff {word t name : Text} :
    afterQualifier? word t = some name ↔
      name.beginsIdentifier = true ∧ ∃ gap, IsGap gap ∧ t = word ++ (gap ++ name) := by
  constructor
  · intro h
    rw [afterQualifier?] at h
    split at h
    · next c rest hafter =>
      dsimp only at h
      split at h
      · next hc =>
        obtain ⟨hblank, hname⟩ := Bool.and_eq_true_iff.1 hc
        obtain rfl := Option.some.inj h
        refine ⟨hname, c :: rest.takeWhile CodePoint.isBlank, ⟨by simp, fun d hd => ?_⟩, ?_⟩
        · rcases List.mem_cons.1 hd with rfl | hd
          · exact hblank
          · exact List.mem_takeWhile_imp hd
        · rw [trimStart, List.cons_append, List.takeWhile_append_dropWhile]
          exact after?_eq_some_iff.1 hafter
      · exact absurd h (by simp)
    · exact absurd h (by simp)
  · rintro ⟨hname, gap, hgap, rfl⟩
    obtain ⟨c, gap, rfl⟩ := List.exists_cons_of_ne_nil hgap.1
    have hblank := hgap.2 c List.mem_cons_self
    have htrim : trimStart (gap ++ name) = name :=
      dropWhile_append_of_beginsWithout (fun d hd => hgap.2 d (List.mem_cons_of_mem _ hd))
        (beginsWithout_isBlank_of_beginsIdentifier hname)
    rw [afterQualifier?, after?_eq_some_iff.2 rfl, List.cons_append]
    simp only [htrim, hblank, hname, Bool.and_self, if_true]

/-- A word is read only where it stands as a whole. -/
theorem eq_of_afterQualifier? {word w rest name : Text}
    (hword : ∀ c ∈ word, c.isIdentifierChar = true) (hw : ∀ c ∈ w, c.isIdentifierChar = true)
    (hrest : BeginsWithout CodePoint.isIdentifierChar rest)
    (h : afterQualifier? word (w ++ rest) = some name) : w = word ∧ trimStart rest = name := by
  obtain ⟨hname, gap, hgap, heq⟩ := afterQualifier?_eq_some_iff.1 h
  -- both words are the longest run of what identifiers are made of
  have hsame := congrArg (List.takeWhile CodePoint.isIdentifierChar) heq
  rw [takeWhile_append_of_beginsWithout hw hrest,
    takeWhile_append_of_beginsWithout hword (hgap.beginsWithout name)] at hsame
  subst hsame
  rw [List.append_cancel_left heq, hgap.trimStart_append hname]
  exact ⟨rfl, rfl⟩

/-- A word that stands before a name, with the blanks after it, qualifies that name; another word in
its place does not. -/
theorem afterQualifier?_gap {word w gap t : Text} (hword : ∀ c ∈ word, c.isIdentifierChar = true)
    (hw : ∀ c ∈ w, c.isIdentifierChar = true) (hgap : IsGap gap)
    (ht : t.beginsIdentifier = true) :
    afterQualifier? word (w ++ (gap ++ t)) = if w = word then some t else none := by
  by_cases hsame : w = word
  · rw [if_pos hsame, hsame]
    exact afterQualifier?_eq_some_iff.2 ⟨ht, gap, hgap, rfl⟩
  · rw [if_neg hsame]
    by_contra hread
    obtain ⟨name, hname⟩ := Option.ne_none_iff_exists'.1 hread
    exact hsame (eq_of_afterQualifier? hword hw (hgap.beginsWithout t) hname).1

section Qualifier

variable {word : Text} {gap? : Option Text} {t : Text}

theorem afterQualifier?_qualifier (hword : ∀ c ∈ word, c.isIdentifierChar = true)
    (hgap : ∀ gap ∈ gap?, IsGap gap) (ht : t.beginsIdentifier = true)
    (hno : afterQualifier? word t = none) :
    afterQualifier? word (qualifier word gap? ++ t) = gap?.map fun _ => t := by
  cases gap? with
  | none => exact hno
  | some gap =>
    rw [qualifier, List.append_assoc, afterQualifier?_gap hword hword (hgap gap rfl) ht, if_pos rfl]
    rfl

theorem afterQualifier?_of_ne {other : Text} (hne : other ≠ word)
    (hother : ∀ c ∈ other, c.isIdentifierChar = true)
    (hword : ∀ c ∈ word, c.isIdentifierChar = true) (hgap : ∀ gap ∈ gap?, IsGap gap)
    (ht : t.beginsIdentifier = true) (hno : afterQualifier? other t = none) :
    afterQualifier? other (qualifier word gap? ++ t) = none := by
  cases gap? with
  | none => exact hno
  | some gap =>
    rw [qualifier, List.append_assoc, afterQualifier?_gap hother hword (hgap gap rfl) ht,
      if_neg (Ne.symm hne)]

theorem dropQualifier_qualifier (hword : ∀ c ∈ word, c.isIdentifierChar = true)
    (hgap : ∀ gap ∈ gap?, IsGap gap) (ht : t.beginsIdentifier = true)
    (hno : afterQualifier? word t = none) :
    dropQualifier word (qualifier word gap? ++ t) = t := by
  rw [dropQualifier, afterQualifier?_qualifier hword hgap ht hno]
  cases gap? <;> rfl

theorem beginsIdentifier_qualifier (hword : word.beginsIdentifier = true)
    (ht : t.beginsIdentifier = true) : beginsIdentifier (qualifier word gap? ++ t) = true := by
  cases gap? with
  | none => exact ht
  | some gap =>
    cases word with
    | nil => exact absurd hword (by simp [beginsIdentifier])
    | cons c word => exact hword

theorem exists_qualifier (word t : Text) :
    ∃ gap? : Option Text, (∀ gap ∈ gap?, IsGap gap) ∧
      t = qualifier word gap? ++ dropQualifier word t ∧
      gap?.isSome = (afterQualifier? word t).isSome := by
  cases hafter : afterQualifier? word t with
  | none => exact ⟨none, by simp, by rw [dropQualifier, hafter]; rfl, rfl⟩
  | some name =>
    obtain ⟨-, gap, hgap, heq⟩ := afterQualifier?_eq_some_iff.1 hafter
    refine ⟨some gap, by rintro _ ⟨⟩; exact hgap, ?_, rfl⟩
    rw [dropQualifier, hafter, qualifier, List.append_assoc]
    exact heq

end Qualifier

/-! ## Reading a spelled header -/

theorem readParams?_append {params gap : Text} (hparams : .scalar ')' ∉ params)
    (hgap : ∀ c ∈ gap, c.isBlank = true) (rest : Text) :
    readParams? ("(" ++ (params ++ (")" ++ (gap ++ "\x7b"))) ++ rest) = some (params, rest) := by
  have hopen : ∀ c ∈ params, (decide (c ≠ .scalar ')')) = true := by
    intro c hc
    simpa using fun heq : c = .scalar ')' => hparams (heq ▸ hc)
  have hclose : ∀ u : Text, BeginsWithout (fun c => decide (c ≠ .scalar ')')) (")" ++ u : Text) :=
    fun u => beginsWithout_cons (c := .scalar ')') (by decide) u
  have hbrace : BeginsWithout CodePoint.isBlank ("\x7b" ++ rest : Text) :=
    beginsWithout_cons (c := .scalar '\x7b') (by decide) rest
  have hafter : ∀ mark u : Text, after? mark (mark ++ u) = some u :=
    fun mark u => after?_eq_some_iff.2 rfl
  simp only [List.append_assoc, readParams?, hafter, Option.bind_eq_bind, Option.bind_some,
    takeWhile_append_of_beginsWithout hopen (hclose _),
    dropWhile_append_of_beginsWithout hopen (hclose _), trimStart,
    dropWhile_append_of_beginsWithout hgap hbrace]

theorem exists_of_readParams? {t params rest : Text} (h : readParams? t = some (params, rest)) :
    ∃ gap, .scalar ')' ∉ params ∧ (∀ c ∈ gap, c.isBlank = true) ∧
      t = "(" ++ (params ++ (")" ++ (gap ++ "\x7b"))) ++ rest := by
  simp only [readParams?, Option.bind_eq_bind, Option.bind_eq_some_iff, after?_eq_some_iff,
    Option.some.injEq, Prod.mk.injEq] at h
  obtain ⟨inside, rfl, afterList, hlist, rest', hbody, rfl, rfl⟩ := h
  refine ⟨afterList.takeWhile CodePoint.isBlank, fun hc => ?_, fun c hc => ?_, ?_⟩
  · simpa using List.mem_takeWhile_imp hc
  · exact List.mem_takeWhile_imp hc
  · have hgap : afterList.takeWhile CodePoint.isBlank ++ ("\x7b" ++ rest' : Text) = afterList := by
      rw [← hbody, trimStart, List.takeWhile_append_dropWhile]
    simp only [List.append_assoc, hgap, ← hlist, List.takeWhile_append_dropWhile]

namespace Spelling

variable (s : Spelling) (rest : Text)

theorem identifierChar_of_mem_name {c : CodePoint} (hc : c ∈ s.name) :
    c.isIdentifierChar = true := by
  have hname := (Bool.and_eq_true_iff.1 s.isIdentifier_name).2
  exact List.all_eq_true.1 hname c hc

theorem beginsIdentifier_named : beginsIdentifier (s.named ++ rest) = true := by
  have hbegins := (Bool.and_eq_true_iff.1 s.isIdentifier_name).1
  rw [named]
  cases hname : s.name with
  | nil => exact absurd hbegins (by simp [hname, beginsIdentifier])
  | cons c name => simpa [hname, beginsIdentifier] using hbegins

/-- The parameter list of the header, up to the opening bracket of the body. -/
def paramList : Text := "(" ++ (s.params ++ (")" ++ (s.beforeBody ++ "\x7b")))

theorem beginsWithout_afterName :
    BeginsWithout CodePoint.isIdentifierChar (s.beforeParams ++ ("(" ++ rest)) := by
  cases hgap : s.beforeParams with
  | nil => exact beginsWithout_cons (c := .scalar '(') (by decide) rest
  | cons c gap =>
    have hblank := s.blank_beforeParams c (by simp [hgap])
    exact beginsWithout_cons (CodePoint.isIdentifierChar_eq_false_of_isBlank hblank) _

theorem takeWhile_afterName :
    (s.beforeParams ++ (s.paramList ++ rest)).takeWhile CodePoint.isBlank = s.beforeParams :=
  takeWhile_append_of_beginsWithout s.blank_beforeParams
    (beginsWithout_cons (c := .scalar '(') (by decide) _)

theorem trimStart_afterName : trimStart (s.beforeParams ++ ("(" ++ rest)) = "(" ++ rest :=
  dropWhile_append_of_beginsWithout s.blank_beforeParams
    (beginsWithout_cons (c := .scalar '(') (by decide) rest)

theorem named_append :
    s.named ++ rest = s.name ++ (s.beforeParams ++ ("(" ++ (s.params ++ (")" ++ (s.beforeBody ++
      ("\x7b" ++ rest)))))) := by
  simp only [named, List.append_assoc]

theorem takeWhile_named : (s.named ++ rest).takeWhile CodePoint.isIdentifierChar = s.name := by
  rw [named_append]
  exact takeWhile_append_of_beginsWithout (fun c hc => s.identifierChar_of_mem_name hc)
    (s.beginsWithout_afterName _)

theorem dropWhile_named :
    (s.named ++ rest).dropWhile CodePoint.isIdentifierChar =
      s.beforeParams ++ (s.paramList ++ rest) := by
  rw [named_append, dropWhile_append_of_beginsWithout
    (fun c hc => s.identifierChar_of_mem_name hc) (s.beginsWithout_afterName _)]
  simp only [paramList, List.append_assoc]

/-- No word qualifies the name where the name itself stands. -/
theorem afterQualifier?_named {word : Text} (hword : ∀ c ∈ word, c.isIdentifierChar = true) :
    afterQualifier? word (s.named ++ rest) = none := by
  rw [named_append]
  by_contra hread
  obtain ⟨name, hname⟩ := Option.ne_none_iff_exists'.1 hread
  -- what follows the name is the opening bracket, and no other name
  obtain ⟨-, rfl⟩ := eq_of_afterQualifier? hword (fun c hc => s.identifierChar_of_mem_name hc)
    (s.beginsWithout_afterName _) hname
  rw [trimStart_afterName] at hname
  exact absurd (afterQualifier?_eq_some_iff.1 hname).1 Bool.false_ne_true

/-- The header from `function` on, with a text after it. -/
def fromFunction : Text := qualifier "function" s.function ++ (s.named ++ rest)

/-- The header from `async` on, with a text after it. -/
def fromAsync : Text := qualifier "async" s.async ++ s.fromFunction rest

theorem text_append : s.text ++ rest = qualifier "static" s.static ++ s.fromAsync rest := by
  simp only [text, fromAsync, fromFunction, List.append_assoc]

theorem beginsIdentifier_fromFunction : (s.fromFunction rest).beginsIdentifier = true :=
  beginsIdentifier_qualifier rfl (s.beginsIdentifier_named rest)

theorem beginsIdentifier_fromAsync : (s.fromAsync rest).beginsIdentifier = true :=
  beginsIdentifier_qualifier rfl (s.beginsIdentifier_fromFunction rest)

theorem afterQualifier?_fromFunction_of_ne {word : Text} (hne : word ≠ "function")
    (hword : ∀ c ∈ word, c.isIdentifierChar = true) :
    afterQualifier? word (s.fromFunction rest) = none :=
  afterQualifier?_of_ne hne hword (by decide) s.gap_function (s.beginsIdentifier_named rest)
    (s.afterQualifier?_named rest hword)

theorem afterQualifier?_fromAsync_of_ne {word : Text} (hasync : word ≠ "async")
    (hfunction : word ≠ "function") (hword : ∀ c ∈ word, c.isIdentifierChar = true) :
    afterQualifier? word (s.fromAsync rest) = none :=
  afterQualifier?_of_ne hasync hword (by decide) s.gap_async (s.beginsIdentifier_fromFunction rest)
    (s.afterQualifier?_fromFunction_of_ne rest hfunction hword)

theorem dropQualifier_text : dropQualifier "static" (s.text ++ rest) = s.fromAsync rest := by
  rw [text_append]
  exact dropQualifier_qualifier (by decide) s.gap_static (s.beginsIdentifier_fromAsync rest)
    (s.afterQualifier?_fromAsync_of_ne rest (by decide) (by decide) (by decide))

theorem afterQualifier?_fromAsync :
    afterQualifier? "async" (s.fromAsync rest) = s.async.map fun _ => s.fromFunction rest :=
  afterQualifier?_qualifier (by decide) s.gap_async (s.beginsIdentifier_fromFunction rest)
    (s.afterQualifier?_fromFunction_of_ne rest (by decide) (by decide))

theorem dropQualifier_fromAsync :
    dropQualifier "async" (s.fromAsync rest) = s.fromFunction rest :=
  dropQualifier_qualifier (by decide) s.gap_async (s.beginsIdentifier_fromFunction rest)
    (s.afterQualifier?_fromFunction_of_ne rest (by decide) (by decide))

theorem dropQualifier_fromFunction :
    dropQualifier "function" (s.fromFunction rest) = s.named ++ rest :=
  dropQualifier_qualifier (by decide) s.gap_function (s.beginsIdentifier_named rest)
    (s.afterQualifier?_named rest (by decide))

theorem readParams?_paramList :
    readParams? (s.paramList ++ rest) = some (s.params, rest) :=
  readParams?_append s.unclosed_params s.blank_beforeBody rest

end Spelling

theorem read?_text_append (s : Spelling) (rest : Text) :
    read? (s.text ++ rest) = some (s.header, rest) := by
  have hlist : trimStart (s.beforeParams ++ (s.paramList ++ rest)) = s.paramList ++ rest :=
    s.trimStart_afterName _
  simp only [read?, s.dropQualifier_text, s.afterQualifier?_fromAsync, s.dropQualifier_fromAsync,
    s.dropQualifier_fromFunction, s.beginsIdentifier_named, if_true, s.takeWhile_named,
    s.dropWhile_named, hlist, s.readParams?_paramList, Option.map_some, Option.isSome_map,
    Spelling.header]

theorem isIdentifier_takeWhile {t : Text} (h : t.beginsIdentifier = true) :
    isIdentifier (t.takeWhile CodePoint.isIdentifierChar) = true := by
  cases t with
  | nil => exact absurd h (by simp [beginsIdentifier])
  | cons c t =>
    have hchar := CodePoint.isIdentifierChar_of_isIdentifierStart (c := c) h
    have hall : (t.takeWhile CodePoint.isIdentifierChar).all CodePoint.isIdentifierChar = true :=
      List.all_eq_true.2 fun d hd => List.mem_takeWhile_imp hd
    rw [List.takeWhile_cons_of_pos hchar, isIdentifier, List.all_cons, hchar, hall]
    simpa [beginsIdentifier] using h

theorem exists_spelling_of_read? {t rest : Text} {h : Header} (hread : read? t = some (h, rest)) :
    ∃ s : Spelling, s.header = h ∧ t = s.text ++ rest := by
  obtain ⟨static, hstatic, hafterStatic, -⟩ := exists_qualifier "static" t
  obtain ⟨async, hasync, hafterAsync, hisAsync⟩ :=
    exists_qualifier "async" (dropQualifier "static" t)
  obtain ⟨function, hfunction, hafterFunction, -⟩ :=
    exists_qualifier "function" (dropQualifier "async" (dropQualifier "static" t))
  simp only [read?] at hread
  split at hread
  · next hbegins =>
    obtain ⟨⟨params, rest'⟩, hparams, heq⟩ := Option.map_eq_some_iff.1 hread
    obtain ⟨rfl, rfl⟩ := Prod.mk.inj heq
    obtain ⟨gap, hclosed, hgap, hlist⟩ := exists_of_readParams? hparams
    -- the name begins where no word qualifies it any more
    generalize dropQualifier "function" (dropQualifier "async" (dropQualifier "static" t)) = u at *
    refine ⟨⟨static, async, function, u.takeWhile CodePoint.isIdentifierChar,
      (u.dropWhile CodePoint.isIdentifierChar).takeWhile CodePoint.isBlank, params, gap, hstatic,
      hasync, hfunction, isIdentifier_takeWhile hbegins, fun c hc => List.mem_takeWhile_imp hc,
      hclosed, hgap⟩, by rw [Spelling.header, hisAsync], ?_⟩
    have hnamed : u = u.takeWhile CodePoint.isIdentifierChar ++
        ((u.dropWhile CodePoint.isIdentifierChar).takeWhile CodePoint.isBlank ++
          ("(" ++ (params ++ (")" ++ (gap ++ "\x7b"))) ++ rest')) := by
      rw [← hlist, trimStart, List.takeWhile_append_dropWhile, List.takeWhile_append_dropWhile]
    rw [hafterStatic, hafterAsync, hafterFunction]
    simp only [Spelling.text, Spelling.named, List.append_assoc]
    simp only [List.append_assoc] at hnamed
    rw [← hnamed]
  · exact absurd hread (by simp)

/-- A header is read exactly where one is spelled. -/
theorem read?_eq_some_iff {t rest : Text} {h : Header} :
    read? t = some (h, rest) ↔ ∃ s : Spelling, s.header = h ∧ t = s.text ++ rest := by
  constructor
  · exact exists_spelling_of_read?
  · rintro ⟨s, rfl, rfl⟩
    exact read?_text_append s rest

theorem Spelling.beginsIdentifier_text_append (s : Spelling) (rest : Text) :
    beginsIdentifier (s.text ++ rest) = true := by
  rw [s.text_append]
  exact beginsIdentifier_qualifier rfl (s.beginsIdentifier_fromAsync rest)

theorem Spelling.beginsIdentifier_text (s : Spelling) : s.text.beginsIdentifier = true := by
  have hbegins := s.beginsIdentifier_text_append []
  rwa [List.append_nil] at hbegins

/-- A header begins where an identifier does. -/
theorem read?_eq_none {t : Text} (h : t.beginsIdentifier = false) : read? t = none := by
  by_contra hread
  obtain ⟨⟨header, rest⟩, hfound⟩ := Option.ne_none_iff_exists'.1 hread
  obtain ⟨s, -, rfl⟩ := read?_eq_some_iff.1 hfound
  rw [s.beginsIdentifier_text_append rest] at h
  exact absurd h (by decide)

theorem qualifier_inj {word : Text} (hword : word ≠ []) {gap? gap'? : Option Text}
    (h : qualifier word gap? = qualifier word gap'?) : gap? = gap'? := by
  cases gap? with
  | none =>
    cases gap'? with
    | none => rfl
    | some gap' => exact absurd (List.append_eq_nil_iff.1 h.symm).1 hword
  | some gap =>
    cases gap'? with
    | none => exact absurd (List.append_eq_nil_iff.1 h).1 hword
    | some gap' => rw [List.append_cancel_left h]

/-- A text begins with at most one spelled header, in one reading of all its parts. -/
theorem Spelling.text_append_inj {s s' : Spelling} {rest rest' : Text}
    (h : s.text ++ rest = s'.text ++ rest') : s = s' ∧ rest = rest' := by
  -- the readers take the two headers apart in the same way, part after part
  have hasync := congrArg (dropQualifier "static") h
  rw [s.dropQualifier_text, s'.dropQualifier_text] at hasync
  have hfunction := congrArg (dropQualifier "async") hasync
  rw [s.dropQualifier_fromAsync, s'.dropQualifier_fromAsync] at hfunction
  have hnamed := congrArg (dropQualifier "function") hfunction
  rw [s.dropQualifier_fromFunction, s'.dropQualifier_fromFunction] at hnamed
  have hname := congrArg (List.takeWhile CodePoint.isIdentifierChar) hnamed
  rw [s.takeWhile_named, s'.takeWhile_named] at hname
  have hlist := congrArg (List.dropWhile CodePoint.isIdentifierChar) hnamed
  rw [s.dropWhile_named, s'.dropWhile_named] at hlist
  have hgap := congrArg (List.takeWhile CodePoint.isBlank) hlist
  rw [s.takeWhile_afterName, s'.takeWhile_afterName] at hgap
  rw [hgap] at hlist
  -- the list closes at its first bracket, which its reader finds in both
  have hread := congrArg readParams? (List.append_cancel_left hlist)
  rw [s.readParams?_paramList, s'.readParams?_paramList] at hread
  obtain ⟨hparams, rfl⟩ := Prod.mk.inj (Option.some.inj hread)
  have hbody := List.append_cancel_right (List.append_cancel_left hlist)
  simp only [paramList, hparams, List.append_cancel_left_eq, List.append_cancel_right_eq] at hbody
  refine ⟨Spelling.ext ?_ ?_ ?_ hname hgap hparams hbody, rfl⟩
  · rw [s.text_append, s'.text_append, hasync] at h
    exact qualifier_inj (by decide) (List.append_cancel_right h)
  · rw [fromAsync, fromAsync, hfunction] at hasync
    exact qualifier_inj (by decide) (List.append_cancel_right hasync)
  · rw [fromFunction, fromFunction, hnamed] at hfunction
    exact qualifier_inj (by decide) (List.append_cancel_right hfunction)

end Header

end DeclSync

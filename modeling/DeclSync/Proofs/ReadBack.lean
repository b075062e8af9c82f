import DeclSync.Proofs.DocumentedMethods
import DeclSync.Proofs.Runs
import DeclSync.Proofs.StrayBytes
import DeclSync.Proofs.Transcoding

/-!
# What a run writes is what the next run reads

A refreshed text is made of pieces of the bundle and of the consumer, and of characters between
them. So no stray bytes of either come together in it, and it is read back as it was written: the
bundle and the consumer were read themselves, and each step on the way to the refreshed text keeps a
text one that is read back as it was.

## Main definitions

- `Text.IsCut` — the pieces of a text between single code points
- `Method.IsDecoded` — a method whose texts are read back as they were

`Sync.reread_refresh` says that a refreshed text can be written and is read back, and that its stray
bytes encode no character.
-/

namespace DeclSync

namespace Text

variable {t : Text}

/-! ## Pieces of a text -/

/-- The pieces of a text, when it is cut at some of its code points and these are left out. -/
inductive IsCut : Text → List Text → Prop where
  | nil : IsCut [] [[]]
  | between (c : CodePoint) {t : Text} {pieces : List Text} (h : IsCut t pieces) :
      IsCut (c :: t) ([] :: pieces)
  | inside (c : CodePoint) {t piece : Text} {pieces : List Text} (h : IsCut t (piece :: pieces)) :
      IsCut (c :: t) ((c :: piece) :: pieces)

namespace IsCut

variable {pieces : List Text}

theorem prefix_of_mem_head? (h : IsCut t pieces) : ∀ piece ∈ pieces.head?, piece <+: t := by
  induction h with
  | nil => simp
  | between c h ih => simp
  | inside c h ih =>
    intro piece hpiece
    obtain rfl := Option.some.inj hpiece
    rw [List.cons_prefix_cons]
    exact ⟨rfl, ih _ rfl⟩

theorem infix_of_mem (h : IsCut t pieces) : ∀ piece ∈ pieces, piece <:+: t := by
  induction h with
  | nil => simp
  | between c h ih =>
    rw [List.forall_mem_cons]
    exact ⟨List.nil_infix, fun piece hpiece => List.infix_cons (ih piece hpiece)⟩
  | inside c h ih =>
    rw [List.forall_mem_cons] at ih ⊢
    exact ⟨((h.inside c).prefix_of_mem_head? _ rfl).isInfix,
      fun piece hpiece => List.infix_cons (ih.2 piece hpiece)⟩

theorem exists_cons (h : IsCut t pieces) : ∃ piece later, pieces = piece :: later := by
  cases h with
  | nil => exact ⟨_, _, rfl⟩
  | between => exact ⟨_, _, rfl⟩
  | inside => exact ⟨_, _, rfl⟩

end IsCut

theorem isCut_splitOnP (p : CodePoint → Bool) (t : Text) : IsCut t (t.splitOnP p) := by
  induction t with
  | nil => exact .nil
  | cons c t ih =>
    rcases splitOnP_cons_cases p c t with ⟨-, hsplit⟩ | ⟨-, piece, pieces, htail, hsplit⟩
    · exact hsplit ▸ ih.between c
    · exact hsplit ▸ (htail ▸ ih).inside c

theorem isCut_commaPiecesFrom (state : Nesting.State) (t : Text) :
    IsCut t (Nesting.commaPiecesFrom state t) := by
  induction t generalizing state with
  | nil => exact .nil
  | cons c t ih =>
    obtain ⟨piece, later, hpieces⟩ := (ih (state.next c)).exists_cons
    have hlater := ih (state.next c)
    simp only [Nesting.commaPiecesFrom]
    split
    · exact hlater.between c
    · rw [hpieces] at hlater ⊢
      exact hlater.inside c

theorem isInfix_undecorated (t : Text) : t.undecorated <:+: t :=
  (isInfix_trim _).trans ((List.dropWhile_suffix _).isInfix.trans (isInfix_trim t))

theorem isInfix_commentBody (t : Text) : t.commentBody <:+: t := by
  have hopened : (after? "/**" t.trim).getD t.trim <:+: t.trim := by
    cases hafter : after? "/**" t.trim with
    | none => exact List.infix_rfl
    | some rest => exact ⟨_, [], by rw [List.append_nil]; exact (after?_eq_some_iff.1 hafter).symm⟩
  refine List.IsInfix.trans ?_ (hopened.trans (isInfix_trim t))
  rw [commentBody, withoutEnd]
  split
  · exact (List.take_prefix _ _).isInfix
  · exact List.infix_rfl

namespace IsDecoded

theorem trim (h : t.IsDecoded) : t.trim.IsDecoded := h.of_isInfix (isInfix_trim t)

theorem of_mem_lines (h : t.IsDecoded) {line : Text} (hline : line ∈ t.lines) : line.IsDecoded := by
  rw [lines, List.splitOn_eq_splitOnP] at hline
  exact h.of_isInfix ((isCut_splitOnP _ t).infix_of_mem line hline)

theorem singleSpaced (h : t.IsDecoded) : t.singleSpaced.IsDecoded := by
  refine .intercalate (by decide) (fun c => isSurrogate_of_mem_ofString) fun w hw => ?_
  exact h.of_isInfix ((isCut_splitOnP _ t).infix_of_mem w (List.mem_filter.1 hw).1)

theorem literalBody (h : t.IsDecoded) : t.literalBody.IsDecoded := by
  refine h.singleSpaced.of_straysFrom (straysFrom_flatMap (fun c hc => ?_) (fun c hc => ?_) _)
  · rw [CodePoint.inLiteral, if_neg]
    rintro (rfl | rfl | rfl) <;> exact absurd hc (by simp [CodePoint.isSurrogate])
  · rw [CodePoint.inLiteral]
    split
    · exact ⟨by simp, by simpa [CodePoint.isSurrogate] using hc⟩
    · exact ⟨by simp, by simpa using hc⟩

theorem of_commentSummary? (h : t.IsDecoded) {summary : Text}
    (hsummary : t.commentSummary? = some summary) : summary.IsDecoded := by
  obtain ⟨line, hfind, rfl⟩ := Option.map_eq_some_iff.1 hsummary
  obtain ⟨raw, hraw, rfl⟩ := List.mem_map.1 (List.mem_of_find?_eq_some hfind)
  have hbody := (h.of_isInfix (isInfix_commentBody t)).unifyLineEndings
  exact ((hbody.of_mem_lines hraw).of_isInfix (isInfix_undecorated raw)).literalBody

end IsDecoded

theorem isDecoded_of_isIdentifier (h : t.isIdentifier = true) : t.IsDecoded := by
  refine isDecoded_of_scalars fun c hc => ?_
  have hchar := List.all_eq_true.1 (Bool.and_eq_true_iff.1 h).2 c hc
  cases c with
  | scalar c => rfl
  | surrogate s => exact absurd hchar (by simp [CodePoint.isIdentifierChar])

end Text

open Text

/-! ## The methods of a bundle -/

theorem Header.Spelling.isDecoded_name (s : Spelling) : s.name.IsDecoded :=
  isDecoded_of_isIdentifier s.isIdentifier_name

theorem Header.Spelling.isDecoded_params (s : Spelling) (h : s.text.IsDecoded) :
    s.params.IsDecoded := by
  refine h.of_isInfix ⟨qualifier "static" s.static ++ qualifier "async" s.async ++
    qualifier "function" s.function ++ s.name ++ s.beforeParams ++ "(",
    ")" ++ s.beforeBody ++ "\x7b", ?_⟩
  simp [text, named]

/-- A method whose texts are read back as they were. -/
structure Method.IsDecoded (m : Method) : Prop where
  name : m.name.IsDecoded
  params : m.params.IsDecoded
  description : m.description.IsDecoded

theorem Bare.isDecoded_params_of_mem_headers {lines : List Text}
    (hlines : ∀ line ∈ lines, line.IsDecoded) {h : Header} (hh : h ∈ headers lines) :
    h.params.IsDecoded := by
  induction lines with
  | nil => simp [headers] at hh
  | cons line below ih =>
    rw [headers, List.mem_append] at hh
    rw [List.forall_mem_cons] at hlines
    rcases hh with hhere | hbelow
    · split at hhere
      · simp at hhere
      · obtain ⟨o, ho, rfl⟩ := List.mem_map.1 hhere
        obtain ⟨s, rest, hs, hspelled⟩ :=
          Header.exists_spelling_of_mem_occurrences ((List.takeWhile_sublist _).mem ho)
        have hwindow :
            IsDecoded (List.intercalate "\n" (line :: below.take (maxHeaderLines - 1))) :=
          .intercalate (by decide) (fun c => isSurrogate_of_mem_ofString)
            (List.forall_mem_cons.2 ⟨hlines.1, fun w hw => hlines.2 w (List.mem_of_mem_take hw)⟩)
        rw [← hs]
        exact s.isDecoded_params (hwindow.of_isInfix hspelled.isInfix).of_append
    · exact ih hlines.2 hbelow

section Methods

variable {apiName bundle : Text} {m : Method} (hapi : ∀ c ∈ apiName, c.isSurrogate = false)

include hapi

theorem Method.isDecoded_descriptionOf_none {name : Text} (hname : name.IsDecoded) :
    (descriptionOf name none apiName).IsDecoded := by
  simp only [descriptionOf]
  cases hfamiliar : familiarDescription? name with
  | some description =>
    obtain ⟨⟨known, said⟩, -, rfl⟩ := Option.map_eq_some_iff.1 hfamiliar
    exact (isDecoded_ofString said).literalBody
  | none =>
    refine IsDecoded.literalBody ?_
    rw [List.append_assoc]
    refine hname.append_scalars fun c hc => ?_
    rcases List.mem_append.1 hc with hc | hc
    · exact isSurrogate_of_mem_ofString hc
    · exact hapi c hc

theorem Method.isDecoded_descriptionOf {name comment : Text} (hname : name.IsDecoded)
    (hcomment : comment.IsDecoded) :
    (descriptionOf name comment.commentSummary? apiName).IsDecoded := by
  rw [descriptionOf_eq_getD]
  cases hsummary : comment.commentSummary? with
  | none => exact isDecoded_descriptionOf_none hapi hname
  | some summary => exact hcomment.of_commentSummary? hsummary

theorem Documented.isDecoded_method {d : Documented} (hcomment : d.comment.IsDecoded)
    (hname : d.header.name.IsDecoded) (hparams : d.header.params.IsDecoded) :
    (d.method apiName).IsDecoded :=
  ⟨hname, hparams.trim, Method.isDecoded_descriptionOf hapi hname hcomment⟩

variable (hbundle : bundle.IsDecoded)

include hbundle

theorem Documented.isDecoded_of_mem_methods (hm : m ∈ methods apiName bundle) : m.IsDecoded := by
  obtain ⟨body, gap, s, rest, hsuffix, rfl⟩ := exists_spelled_of_mem_methods hm
  have hspelled := hbundle.unifyLineEndings.of_isInfix hsuffix.isInfix
  have hcomment : IsDecoded ("/**" ++ body ++ "*/") :=
    hspelled.of_isInfix ⟨[], gap ++ (s.text ++ rest), by simp [spelled]⟩
  have hheader : s.text.IsDecoded :=
    hspelled.of_isInfix ⟨"/**" ++ body ++ "*/" ++ gap, rest, by simp [spelled]⟩
  exact isDecoded_method hapi hcomment s.isDecoded_name (s.isDecoded_params hheader)

theorem Bare.isDecoded_of_mem_methods (hm : m ∈ methods apiName bundle) : m.IsDecoded := by
  have hname := isDecoded_of_isIdentifier (isWritable_of_mem_methods hm).isIdentifier_name
  obtain ⟨h, hh, rfl⟩ := List.mem_map.1 hm
  have hparams := isDecoded_params_of_mem_headers
    (fun line hline => hbundle.unifyLineEndings.of_mem_lines hline) hh
  exact ⟨hname, hparams.trim, Method.isDecoded_descriptionOf_none hapi hname⟩

theorem Method.isDecoded_of_mem_ofBundle (hm : m ∈ ofBundle apiName bundle) : m.IsDecoded := by
  rcases mem_of_mem_combine hm with hdocumented | hbare
  · exact Documented.isDecoded_of_mem_methods hapi hbundle hdocumented
  · exact Bare.isDecoded_of_mem_methods hapi hbundle hbare

end Methods

/-! ## The block of a bundle -/

namespace Declaration

theorem isDecoded_signature {m : Method} (hm : m.IsDecoded) : m.signature.IsDecoded := by
  have hdeclared : ∀ param ∈ (Signature.parameters m.params).map Signature.declareParameter,
      param.IsDecoded := by
    intro param hparam
    obtain ⟨trimmed, htrimmed, rfl⟩ := List.mem_map.1 hparam
    obtain ⟨piece, hpiece, rfl⟩ := List.mem_map.1 (List.mem_filter.1 htrimmed).1
    have hparam := (hm.params.of_isInfix
      ((isCut_commaPiecesFrom _ m.params).infix_of_mem piece hpiece)).trim
    rw [Signature.declareParameter]
    split
    · exact (hparam.of_isInfix (List.take_prefix _ _).isInfix).trim.append_scalars
        fun _ => isSurrogate_of_mem_ofString
    · exact hparam.append_scalars fun _ => isSurrogate_of_mem_ofString
  have hlist : IsDecoded (List.intercalate ", "
      ((Signature.parameters m.params).map Signature.declareParameter)) :=
    .intercalate (by decide) (fun _ => isSurrogate_of_mem_ofString) hdeclared
  rw [Method.signature, Signature.ofParts, Signature.resultType]
  simp only [List.append_assoc]
  rw [isDecoded_append_ofString_append_iff (by decide),
    isDecoded_append_ofString_append_iff (by decide)]
  refine ⟨hm.name, hlist, ?_⟩
  split <;> exact isDecoded_ofString _

theorem isDecoded_entry {m : Method} (hm : m.IsDecoded) : (entry m).IsDecoded := by
  have hsignature := (isDecoded_signature hm).literalBody
  rw [entry]
  simp [List.append_assoc, isDecoded_ofString_append_iff, isDecoded_append_ofString_append_iff,
    isDecoded_ofString, hm.name, hsignature, hm.description]

theorem isDecoded_block {anchor arrayName : Text} {methods : List Method}
    (hanchor : ∀ c ∈ anchor, c.isSurrogate = false)
    (harrayName : ∀ c ∈ arrayName, c.isSurrogate = false) (h : ∀ m ∈ methods, m.IsDecoded) :
    (block anchor arrayName methods).IsDecoded := by
  have hentries : IsDecoded (List.intercalate ",\n" (methods.map entry)) := by
    refine .intercalate (by decide) (fun _ => isSurrogate_of_mem_ofString) fun t ht => ?_
    obtain ⟨m, hm, rfl⟩ := List.mem_map.1 ht
    exact isDecoded_entry (h m hm)
  rw [block]
  simp only [List.append_assoc]
  rw [isDecoded_scalars_append_iff hanchor, isDecoded_ofString_append_iff,
    isDecoded_append_ofString_append_iff (by decide)]
  exact ⟨isDecoded_of_scalars harrayName,
    hentries.append_scalars fun _ => isSurrogate_of_mem_ofString⟩

end Declaration

/-! ## Refreshed texts -/

namespace Sync

open Region

variable {cfg : Config} {bundle t : Text}

theorem isDecoded_blockOf (hanchor : ∀ c ∈ cfg.anchor, c.isSurrogate = false)
    (harrayName : ∀ c ∈ cfg.arrayName, c.isSurrogate = false)
    (hapi : ∀ c ∈ cfg.apiName, c.isSurrogate = false) (hbundle : bundle.IsDecoded) :
    (blockOf cfg bundle).IsDecoded :=
  Declaration.isDecoded_block hanchor harrayName
    fun _ hm => Method.isDecoded_of_mem_ofBundle hapi hbundle hm

theorem isSurrogate_head?_blockOf (hanchor : ∀ c ∈ cfg.anchor, c.isSurrogate = false)
    (bundle : Text) : ∀ c ∈ (blockOf cfg bundle).head?, c.isSurrogate = false := by
  obtain ⟨inside, hblock, -⟩ := Declaration.exists_block_eq_append cfg.anchor cfg.arrayName
    (Method.ofBundle cfg.apiName bundle)
  intro c hc
  rw [blockOf, hblock] at hc
  cases hopen : cfg.anchor with
  | nil =>
    rw [hopen] at hc
    obtain rfl := Option.some.inj hc
    rfl
  | cons first later =>
    rw [hopen] at hc
    obtain rfl := Option.some.inj hc
    exact hanchor first (hopen ▸ List.mem_cons_self)

/-- A refreshed text is read back as it was written. -/
theorem isDecoded_refresh (hanchor : ∀ c ∈ cfg.anchor, c.isSurrogate = false)
    (harrayName : ∀ c ∈ cfg.arrayName, c.isSurrogate = false)
    (hapi : ∀ c ∈ cfg.apiName, c.isSurrogate = false) (hbundle : bundle.IsDecoded)
    (ht : t.IsDecoded) (target : Path) : (refresh cfg target t bundle).text.IsDecoded := by
  rcases isFirst_or_none cfg.anchor standardEndMarker t with ⟨start, close, hfirst⟩ | hnone
  · have hstrays := straysFrom_withLineBreak (LineEnding.prevalent t) (blockOf cfg bundle)
    have hblock := (isDecoded_blockOf hanchor harrayName hapi hbundle).of_straysFrom hstrays
    have hopened := (ht.of_isInfix (List.take_prefix start t).isInfix).append_of_head? hblock
      (hstrays.isSurrogate_head? (isSurrogate_head?_blockOf hanchor bundle))
    rw [(refresh_of_isFirst hfirst target bundle).2, framed]
    -- the block begins and ends with a character, so it meets neither text at stray bytes
    refine hopened.append_of_getLast? (ht.drop _) fun c hc => ?_
    rw [List.getLast?_append, blockOf, Declaration.getLast?_withLineBreak_block] at hc
    exact Option.some.inj hc ▸ rfl
  · rw [(refresh_of_none hnone target bundle).2]
    exact ht

/-- What a refresh makes of the bytes of a consumer, with the bytes of a bundle, can be written, and
the next run reads it as it was. No bytes that were read one by one encode a character where they
stand together now. -/
theorem reread_refresh (hanchor : ∀ c ∈ cfg.anchor, c.isSurrogate = false)
    (harrayName : ∀ c ∈ cfg.arrayName, c.isSurrogate = false)
    (hapi : ∀ c ∈ cfg.apiName, c.isSurrogate = false) (source contents : Bytes) (target : Path) :
    ∃ text written, (refresh cfg target (ofBytes contents) (ofBytes source)).text = text ∧
      text.toBytes = .ok written ∧ ofBytes written = text ∧
      (∀ run, run <:+: text → IsStray run → ∀ w n, Bytes.Encodes w n →
        ¬ w <:+: run.flatMap CodePoint.bytes) ∧
      ∀ files after, putText files target text = .ok after → fileText after target = .ok text := by
  have htext := isDecoded_refresh hanchor harrayName hapi (isDecoded_ofBytes source)
    (isDecoded_ofBytes contents) target
  refine ⟨_, _, rfl, toBytes_eq_ok_iff.2 ⟨htext.isWritable, rfl⟩, htext,
    fun run hrun hstray w n hw => (htext.of_isInfix hrun).not_infix_bytes hstray hw,
    fun files after hput => ?_⟩
  rw [fileText_of_putText hput]
  exact congrArg _ htext

/-- A bundle whose parameters hold the three bytes of a character, apart from each other. -/
def scatteredBytes : Bytes :=
  fileBytes "f(" ++ 0xE2 :: fileBytes " = " ++ 0x82 :: fileBytes ", " ++ 0xAC :: fileBytes ") \x7b"

/-- The same bytes around the region of a consumer. -/
def parted : Bytes := 0xE2 :: fileBytes "\n// M\n];" ++ [0x82, 0xAC]

/-- A configuration with a short anchor and array name. -/
def partedConfig : Config where
  anchor := "// M"
  arrayName := "ms"

/-- The consumer with the block of the bundle in it. The second byte is gone with the default value
of the first parameter, and the others are still apart. -/
def partedText : Text :=
  .ofStrayByte 0xE2 :: ofString "\n// M (auto-generated)\nconst ms = [\n\t\x7b\n\t\tname: 'f',\n" ++
    ofString "\t\tsignature: 'f(" ++ .ofStrayByte 0xE2 :: ofString "?: any, " ++
    .ofStrayByte 0xAC :: ofString ": any): any',\n\t\tdescription: 'f method from the API',\n" ++
    ofString "\t\tisAsync: false\n\t\x7d\n];" ++ [.ofStrayByte 0x82, .ofStrayByte 0xAC]

/-- Stray bytes that would encode a character together stay apart. -/
theorem reread_refresh_parted :
    ((∀ c ∈ partedConfig.anchor, c.isSurrogate = false) ∧
      (∀ c ∈ partedConfig.arrayName, c.isSurrogate = false) ∧
      ∀ c ∈ partedConfig.apiName, c.isSurrogate = false) ∧
    (refresh partedConfig (.ofText "x.ts") (ofBytes parted) (ofBytes scatteredBytes)).text =
      partedText ∧
    ∃ written, partedText.toBytes = .ok written ∧ ofBytes written = partedText := by
  have hanchor : ∀ c ∈ partedConfig.anchor, c.isSurrogate = false := by decide
  have harrayName : ∀ c ∈ partedConfig.arrayName, c.isSurrogate = false := by decide
  have hapi : ∀ c ∈ partedConfig.apiName, c.isSurrogate = false := by decide
  have htext : (refresh partedConfig (.ofText "x.ts") (ofBytes parted)
      (ofBytes scatteredBytes)).text = partedText := by
    decide +kernel
  obtain ⟨text, written, hrefresh, hwritten, hback, -⟩ :=
    reread_refresh hanchor harrayName hapi scatteredBytes parted (.ofText "x.ts")
  rw [← hrefresh, htext] at hwritten hback
  exact ⟨⟨hanchor, harrayName, hapi⟩, htext, written, hwritten, hback⟩

end Sync

end DeclSync

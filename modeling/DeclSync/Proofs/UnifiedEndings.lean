import DeclSync.Method.Extraction
import DeclSync.Proofs.Marks
import DeclSync.Proofs.PrevalentEndings

/-!
# Bundles with another line ending

Before anything is looked for in a bundle, all its line endings are turned into LF. That takes two
passes over the text: one replaces every CR LF, and one every CR that is left. It comes to the same
as reading the text once, from left to right, with an LF for each line break that is read. So the
line endings with which a bundle comes make no difference to its methods.

## Main definitions

- `Text.replaceAll` — a text with another text in place of a mark
- `Text.Piece.text`, `Text.Piece.unified` — what a piece was read from, and what becomes of it

`Method.ofBundle_withLineBreak` says what becomes of a text, and that the methods of a bundle stay.
-/

namespace DeclSync

namespace Text

/-- A text with another one in place of each mark that is met from left to right; the first
`covered` code points belong to the mark met last. -/
def replaceFrom (mark other : Text) : (covered : Nat) → Text → Text
  | _, [] => []
  | covered + 1, _ :: t => replaceFrom mark other covered t
  | 0, c :: t =>
    if beginsWith (c :: t) mark then other ++ replaceFrom mark other (mark.length - 1) t
    else c :: replaceFrom mark other 0 t

/-- A text with another one in place of each mark, from left to right and without overlap. The mark
is not empty. -/
def replaceAll (mark other t : Text) : Text := replaceFrom mark other 0 t

namespace Piece

/-- What a piece is read from. -/
def text : Piece → Text
  | lineBreak ending => ending.text
  | other c => [c]

/-- What becomes of a piece when all line endings are turned into LF. -/
def unified : Piece → CodePoint
  | lineBreak _ => .scalar '\n'
  | other c => c

end Piece

/-! ## One reading from left to right -/

theorem text_pieceOf (c : CodePoint) : (pieceOf c).text = [c] := by
  rw [pieceOf]
  split
  · next hcr => rw [hcr]; rfl
  · split
    · next hlf => rw [hlf]; rfl
    · rfl

theorem unifyLineEndings_singleton (c : CodePoint) :
    unifyLineEndings [c] = [(pieceOf c).unified] := by
  rw [unifyLineEndings, joinCrLf, List.map_singleton, pieceOf]
  split
  · rfl
  · split
    · next hlf => rw [hlf]; rfl
    · rfl

/-- What is read of a text makes up the text. -/
theorem flatMap_text_pieces (t : Text) : t.pieces.flatMap Piece.text = t := by
  induction t using pieces.induct with
  | case1 => rfl
  | case2 c => exact (List.append_nil _).trans (text_pieceOf c)
  | case3 c d t hcrlf ih =>
    obtain ⟨rfl, rfl⟩ := hcrlf
    rw [pieces_crlf, List.flatMap_cons, ih]
    rfl
  | case4 c d t hcrlf ih =>
    rw [pieces, if_neg hcrlf, List.flatMap_cons, ih, text_pieceOf]
    rfl

/-- Turning all line endings into LF is reading the text once, with an LF for each line break. -/
theorem unifyLineEndings_eq_map_pieces (t : Text) :
    t.unifyLineEndings = t.pieces.map Piece.unified := by
  induction t using pieces.induct with
  | case1 => rfl
  | case2 c => exact unifyLineEndings_singleton c
  | case3 c d t hcrlf ih =>
    obtain ⟨rfl, rfl⟩ := hcrlf
    have hbreak : unifyLineEndings "\r\n" = [.scalar '\n'] := by decide
    rw [pieces_crlf, List.map_cons, ← ih]
    refine (unifyLineEndings_append (u := "\r\n") fun hcr => absurd hcr (by decide)).trans ?_
    rw [hbreak]
    rfl
  | case4 c d t hcrlf ih =>
    rw [pieces, if_neg hcrlf, List.map_cons, ← ih]
    refine (unifyLineEndings_append (u := [c]) ?_).trans ?_
    · intro hc hd
      exact hcrlf ⟨Option.some.inj hc, Option.some.inj hd⟩
    · rw [unifyLineEndings_singleton]
      rfl

/-! ## Two replacements -/

/-- The first pass drops the CR of every CR LF. -/
theorem replaceAll_crlf (t : Text) : replaceAll "\r\n" "\n" t = joinCrLf t := by
  have hmark {c : CodePoint} {t : Text} : beginsWith (c :: t) "\r\n" = true ↔
      .scalar '\r' = c ∧ [.scalar '\n'] <+: t :=
    isSome_after?_iff.trans List.cons_prefix_cons
  rw [replaceAll]
  induction t using joinCrLf.induct with
  | case1 => rfl
  | case2 c =>
    rw [replaceFrom, if_neg]
    · rfl
    · exact fun h => List.cons_ne_nil _ _ (List.prefix_nil.1 (hmark.1 h).2)
  | case3 c d t hcrlf ih =>
    obtain ⟨rfl, rfl⟩ := hcrlf
    have hbegins : [.scalar '\n'] <+: CodePoint.scalar '\n' :: t := List.prefix_append _ t
    rw [joinCrLf, if_pos ⟨rfl, rfl⟩, ← ih, replaceFrom, if_pos (hmark.2 ⟨rfl, hbegins⟩)]
    -- the LF stands for the whole mark, and begins none itself
    rw [replaceFrom, if_neg fun h => absurd (hmark.1 h).1 (by decide)]
    rfl
  | case4 c d t hcrlf ih =>
    rw [joinCrLf, if_neg hcrlf, ← ih, replaceFrom, if_neg]
    intro h
    obtain ⟨rfl, hlf⟩ := hmark.1 h
    exact hcrlf ⟨rfl, (List.cons_prefix_cons.1 hlf).1.symm⟩

/-- The second pass turns the CRs that are left into LFs. -/
theorem replaceAll_cr (t : Text) : replaceAll "\r" "\n" t =
    t.map fun c => if c = .scalar '\r' then .scalar '\n' else c := by
  have hmark {c : CodePoint} {t : Text} : beginsWith (c :: t) "\r" = true ↔ .scalar '\r' = c :=
    isSome_after?_iff.trans (List.cons_prefix_cons.trans (and_iff_left List.nil_prefix))
  rw [replaceAll]
  induction t with
  | nil => rfl
  | cons c t ih =>
    rw [List.map_cons, ← ih, replaceFrom]
    by_cases hcr : c = .scalar '\r'
    · rw [if_pos hcr, if_pos (hmark.2 hcr.symm)]
      rfl
    · rw [if_neg hcr, if_neg fun h => hcr (hmark.1 h).symm]

theorem unifyLineEndings_eq_replaceAll (t : Text) :
    t.unifyLineEndings = replaceAll "\r" "\n" (replaceAll "\r\n" "\n" t) := by
  rw [replaceAll_cr, replaceAll_crlf, unifyLineEndings]

end Text

/-! ## The methods of a bundle -/

namespace Method

open Text

/-- The methods of a bundle depend on what is left of it when all its line endings are turned into
LF. -/
theorem ofBundle_congr {bundle other : Text} (h : bundle.unifyLineEndings = other.unifyLineEndings)
    (apiName : Text) : ofBundle apiName bundle = ofBundle apiName other := by
  rw [ofBundle, ofBundle, Documented.methods, Documented.methods, Bare.methods, Bare.methods, h]

/-- Turning all line endings of a text into LF takes two replacements, leaves no CR, and is reading
the text once with an LF for each of its line breaks. So the methods of a bundle with LF, with all
that is known of them, are those of the bundle with any other line ending. -/
theorem ofBundle_withLineBreak :
    (∀ t : Text, .scalar '\r' ∉ t.unifyLineEndings ∧
      t.unifyLineEndings = replaceAll "\r" "\n" (replaceAll "\r\n" "\n" t) ∧
      t.pieces.flatMap Piece.text = t ∧ t.unifyLineEndings = t.pieces.map Piece.unified) ∧
    ∀ (apiName bundle : Text) (ending : LineEnding), .scalar '\r' ∉ bundle →
      ofBundle apiName (withLineBreak ending.text bundle) = ofBundle apiName bundle := by
  constructor
  · intro t
    exact ⟨cr_notMem_unifyLineEndings t, unifyLineEndings_eq_replaceAll t, flatMap_text_pieces t,
      unifyLineEndings_eq_map_pieces t⟩
  · intro apiName bundle ending hcr
    refine ofBundle_congr ?_ apiName
    rw [unifyLineEndings_withLineBreak hcr, unifyLineEndings_of_cr_notMem hcr]

/-- A text in which CRs and LFs stand next to each other in all ways. -/
def mixedText : Text := "\r\r\n\n\ra"

/-- A bundle with LF, whose comment and header go over more than one line. -/
def wrappedBundle : Text := "/**\n * Runs.\n */\nrun(a,\n  b)\n\x7b\n\x7d\n"

/-- The method of that bundle. -/
def wrappedMethod : Method :=
  ⟨"run", "a,\n  b", false, "Runs.", some "/**\n * Runs.\n */"⟩

/-- Four line breaks are read of the mixed text. With each line ending the bundle has its method, the
LFs in its comment and parameter list included. -/
theorem ofBundle_withLineBreak_wrapped :
    (mixedText.pieces = [.lineBreak .cr, .lineBreak .crlf, .lineBreak .lf, .lineBreak .cr,
        .other 'a'] ∧
      mixedText.unifyLineEndings = "\n\n\n\na") ∧
    .scalar '\r' ∉ wrappedBundle ∧ ofBundle "m" wrappedBundle = [wrappedMethod] ∧
      ∀ ending : LineEnding,
        ofBundle "m" (withLineBreak ending.text wrappedBundle) = [wrappedMethod] := by
  obtain ⟨hread, hmethods⟩ := ofBundle_withLineBreak
  have hpieces : mixedText.pieces = [.lineBreak .cr, .lineBreak .crlf, .lineBreak .lf,
      .lineBreak .cr, .other 'a'] := by decide
  have hcr : .scalar '\r' ∉ wrappedBundle := by decide
  have hbundle : ofBundle "m" wrappedBundle = [wrappedMethod] := by decide +kernel
  refine ⟨⟨hpieces, ?_⟩, hcr, hbundle, fun ending => ?_⟩
  · rw [(hread mixedText).2.2.2, hpieces]
    rfl
  · rw [hmethods _ _ ending hcr, hbundle]

end Method

end DeclSync

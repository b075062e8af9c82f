import DeclSync.Proofs.Refreshing
import DeclSync.Proofs.SameAscii

/-!
# Refreshing a file twice

A file is read, its text is patched and written, and then all of this is done again with the same
bundle. The second time starts from what the first one wrote, and so it writes the same bytes unless
the block takes another line ending from the new text, or was given the lone CR and is no region any
more.

## Main definitions

- `Sync.IsSettled` — what the text before and after a refresh has to satisfy

`Sync.bytes_refresh_reread_iff` says that the second refresh writes the bytes of the first one
exactly if this is satisfied.
-/

namespace DeclSync

namespace Text

/-- The bytes that stand for a text in a file. -/
abbrev fileBytes (t : Text) : Bytes := t.flatMap CodePoint.bytes

theorem EndsAscii.of_isLineStart {t : Text} (h : t.IsLineStart t.length) : t.EndsAscii := by
  rw [isLineStart_iff_getLast? (Nat.le_refl _), List.take_length] at h
  intro c hc
  rw [Option.mem_def.1 hc] at h
  obtain rfl : c = .scalar '\n' := by simpa using h
  decide

/-- In a decoded text with another text in the place of its middle part, only that text may change
when it is read back. -/
theorem reread_between {before anchor inside after : Text} (hbefore : before.IsDecoded)
    (hanchor : anchor.IsDecoded) (hafter : after.IsDecoded) (hbreak : before.EndsAscii)
    (hinside : inside.BeginsAscii) (hends : EndsAscii (anchor ++ inside)) :
    reread (before ++ (anchor ++ inside) ++ after) =
      before ++ (anchor ++ inside.reread) ++ after := by
  rw [List.append_assoc, reread_append (.inl hbreak), reread_append (.inl hends),
    reread_append (.inr hinside), ← List.append_assoc]
  rw [show before.reread = before from hbefore, show anchor.reread = anchor from hanchor,
    show after.reread = after from hafter]

/-- Texts that are written as the same bytes have the same ASCII characters equally often. -/
theorem count_eq_of_fileBytes_eq {u v : Text} (hu : ∀ c ∈ u, c.isWritable = true)
    (hv : ∀ c ∈ v, c.isWritable = true) (h : u.fileBytes = v.fileBytes) {c : CodePoint}
    (hc : c.isAscii = true) : u.count c = v.count c := by
  have hreread : u.reread = v.reread := congrArg ofBytes h
  rw [(sameAscii_reread hu).count_eq hc, hreread, (sameAscii_reread hv).count_eq hc]

end Text

namespace Declaration

open Text

/-- What a block says after its anchor begins with a blank and holds a line break. -/
theorem exists_block_eq_append (anchor arrayName : Text) (methods : List Method) :
    ∃ inside : Text, block anchor arrayName methods = anchor ++ (" " ++ inside) ∧
      .scalar '\n' ∈ inside := by
  refine ⟨"(auto-generated)" ++ ("\n" ++ (("const " ++ (arrayName ++ " = [")) ++ ("\n" ++
    (List.intercalate ",\n" (methods.map entry) ++ ("\n" ++ "];"))))), ?_, ?_⟩
  · rw [block_eq_append, List.append_assoc]
    rfl
  · rw [List.mem_append, List.mem_append]
    exact .inr (.inl (by decide))

end Declaration

namespace Sync

open Region Text

/-- A text after a refresh without a region, or one with the line ending that the text before it
used, unless that was the lone CR. -/
def IsSettled (cfg : Config) (t refreshed : Text) : Prop :=
  (∀ start close, ¬ StandsAt cfg.anchor standardEndMarker refreshed start close) ∨
    (LineEnding.prevalent t ≠ .cr ∧ LineEnding.prevalent refreshed = LineEnding.prevalent t)

section Refreshed

variable {cfg : Config} {t : Text} {start close : Nat}

theorem mem_framed {before block after : Text} {ending : LineEnding} {c : CodePoint}
    (hc : c ∈ withLineBreak ending.text block) : c ∈ framed before block after ending :=
  List.mem_append_left _ (List.mem_append_right _ hc)

/-- What a block says after its anchor. -/
def insideOf (cfg : Config) (bundle : Text) (ending : LineEnding) : Text :=
  (withLineBreak ending.text (blockOf cfg bundle)).drop cfg.anchor.length

theorem withLineBreak_blockOf (hanchor : cfg.anchor.IsOneLine) (bundle : Text)
    (ending : LineEnding) :
    withLineBreak ending.text (blockOf cfg bundle) = cfg.anchor ++ insideOf cfg bundle ending ∧
      ∃ later, insideOf cfg bundle ending = .scalar ' ' :: later := by
  obtain ⟨inside, hblock, -⟩ := Declaration.exists_block_eq_append cfg.anchor cfg.arrayName
    (Method.ofBundle cfg.apiName bundle)
  have hparts : withLineBreak ending.text (blockOf cfg bundle) =
      cfg.anchor ++ (.scalar ' ' :: withLineBreak ending.text inside) := by
    rw [blockOf, hblock, withLineBreak_append, withLineBreak_eq_self hanchor.lf_notMem]
    rfl
  have hinside : insideOf cfg bundle ending = .scalar ' ' :: withLineBreak ending.text inside := by
    rw [insideOf, hparts, List.drop_left]
  exact ⟨by rw [hinside, hparts], _, hinside⟩

theorem isWritable_insideOf (hanchor : cfg.anchor.IsOneLine) {bundle before after : Text}
    {ending : LineEnding}
    (h : ∀ c ∈ framed before (blockOf cfg bundle) after ending, c.isWritable = true) :
    ∀ c ∈ insideOf cfg bundle ending, c.isWritable = true := by
  intro c hc
  refine h c (mem_framed ?_)
  rw [(withLineBreak_blockOf hanchor bundle ending).1]
  exact List.mem_append_right _ hc

theorem lf_mem_blockOf (cfg : Config) (bundle : Text) : .scalar '\n' ∈ blockOf cfg bundle := by
  obtain ⟨inside, hblock, hlf⟩ := Declaration.exists_block_eq_append cfg.anchor cfg.arrayName
    (Method.ofBundle cfg.apiName bundle)
  rw [blockOf, hblock]
  exact List.mem_append_right _ (List.mem_cons_of_mem _ hlf)

/-- A refreshed text that is read back. -/
theorem reread_framed (hanchor : cfg.anchor.IsOneLine) (ht : t.IsDecoded)
    (hfirst : IsFirst cfg.anchor standardEndMarker t start close) (bundle : Text)
    (ending : LineEnding) :
    reread (framed (t.take start) (blockOf cfg bundle)
        (t.drop (close + standardEndMarker.length)) ending) =
      t.take start ++ (cfg.anchor ++ (insideOf cfg bundle ending).reread) ++
        t.drop (close + standardEndMarker.length) := by
  obtain ⟨hblock, later, hlater⟩ := withLineBreak_blockOf hanchor bundle ending
  obtain ⟨hline, hlength⟩ := hfirst.isLineStart_take
  have hbefore : IsDecoded (t.take start) := by
    refine IsDecoded.of_append (v := t.drop start) ?_
    rw [List.take_append_drop]
    exact ht
  have hopen : cfg.anchor.IsDecoded := by
    obtain ⟨rest, hrest⟩ := hfirst.opens
    refine IsDecoded.of_append (v := rest) ?_
    rw [hrest]
    exact ht.drop start
  -- on both sides the block meets the text around it at an ASCII character
  have hends : EndsAscii (cfg.anchor ++ insideOf cfg bundle ending) := by
    intro c hc
    rw [← hblock, blockOf, Declaration.getLast?_withLineBreak_block] at hc
    obtain rfl : .scalar ';' = c := by simpa using hc
    decide
  have hbegins : BeginsAscii (insideOf cfg bundle ending) := by
    intro c hc
    rw [hlater] at hc
    obtain rfl : .scalar ' ' = c := by simpa using hc
    decide
  rw [framed, hblock]
  exact reread_between hbefore hopen (ht.drop _)
    (.of_isLineStart (hlength.symm ▸ hline)) hbegins hends

/-! ## The line endings of a block can be told apart -/

/-- Which code points of a text can be written does not depend on its line break. -/
theorem isWritable_withLineBreak {u : Text} {ending ending' : LineEnding}
    (h : ∀ c ∈ withLineBreak ending.text u, c.isWritable = true) :
    ∀ c ∈ withLineBreak ending'.text u, c.isWritable = true := by
  intro c hc
  obtain ⟨d, hd, hcd⟩ := List.mem_flatMap.1 hc
  split at hcd
  · cases ending' <;> simp [LineEnding.text, ofString] at hcd <;> grind [CodePoint.isWritable]
  · next hlf =>
    obtain rfl := List.mem_singleton.1 hcd
    exact h c (List.mem_flatMap.2 ⟨c, hd, by simp [hlf]⟩)

/-- With a line break in it, a block is written as other bytes for every line ending. -/
theorem ending_eq_of_fileBytes_eq {before block after : Text} {ending ending' : LineEnding}
    (hlf : .scalar '\n' ∈ block)
    (hu : ∀ c ∈ framed before block after ending, c.isWritable = true)
    (hv : ∀ c ∈ framed before block after ending', c.isWritable = true)
    (h : fileBytes (framed before block after ending) =
      fileBytes (framed before block after ending')) : ending = ending' := by
  have hcount : ∀ c : CodePoint, c.isAscii = true →
      ending.text.count c = ending'.text.count c := by
    intro c hc
    -- the texts only differ in the line breaks of the block
    have hsame := count_eq_of_fileBytes_eq hu hv h hc
    rw [framed, framed, List.count_append, List.count_append, List.count_append, List.count_append,
      count_withLineBreak, count_withLineBreak] at hsame
    have hpos := List.count_pos_iff.2 hlf
    exact Nat.eq_of_mul_eq_mul_left hpos (by omega)
  have hlfs := hcount (.scalar '\n') (by decide)
  have hcrs := hcount (.scalar '\r') (by decide)
  cases ending <;> cases ending' <;> first | rfl | exact absurd hlfs (by decide) |
    exact absurd hcrs (by decide)

/-! ## The second refresh -/

/-- With lone CRs in it, what a block says after its anchor is read back without LF, and begins with
a blank. -/
theorem reread_insideOf_cr (hanchor : cfg.anchor.IsOneLine) (bundle : Text)
    (hwritable : ∀ c ∈ insideOf cfg bundle .cr, c.isWritable = true) :
    .scalar '\n' ∉ (insideOf cfg bundle .cr).reread ∧
      ∃ later, (insideOf cfg bundle .cr).reread = .scalar ' ' :: later := by
  obtain ⟨hblock, later, hlater⟩ := withLineBreak_blockOf hanchor bundle .cr
  have hcount : (insideOf cfg bundle .cr).count (.scalar '\n') = 0 := by
    have hsame := congrArg (List.count (CodePoint.scalar '\n')) hblock
    rw [count_withLineBreak, List.count_append] at hsame
    simp [LineEnding.text, ofString] at hsame
    omega
  refine ⟨List.count_eq_zero.1 ?_, reread later, ?_⟩
  · rw [← (sameAscii_reread hwritable).count_eq (by decide), hcount]
  · rw [hlater]
    exact reread_cons rfl later

section Second

variable (hanchor : cfg.anchor.IsOneLine) (ht : t.IsDecoded)
  (hfirst : IsFirst cfg.anchor standardEndMarker t start close)
  (target : Path) (bundle : Text)

include hanchor ht hfirst

/-- With LF or CR LF, the block is the first region of the text that is read back, and takes the
line ending of the text that was written. -/
theorem refresh_reread_of_ne_cr (harrayName : cfg.arrayName.IsOneLine)
    (hending : LineEnding.prevalent t ≠ .cr)
    (hwritable : ∀ c ∈ (refresh cfg target t bundle).text, c.isWritable = true) :
    (∃ close', StandsAt cfg.anchor standardEndMarker (refresh cfg target t bundle).text.reread
      start close') ∧
    (refresh cfg target (refresh cfg target t bundle).text.reread bundle).text =
      framed (t.take start) (blockOf cfg bundle) (t.drop (close + standardEndMarker.length))
        (LineEnding.prevalent (refresh cfg target t bundle).text.reread) := by
  rw [(refresh_of_isFirst hfirst _ _).2] at hwritable ⊢
  obtain ⟨hblock, -⟩ := withLineBreak_blockOf hanchor bundle (LineEnding.prevalent t)
  obtain ⟨-, hlength⟩ := hfirst.isLineStart_take
  -- the block fills a region, and still does when what follows the anchor is read back
  have hread := read?_blockOf hanchor harrayName bundle hending
  have hinside : SameAscii (insideOf cfg bundle (LineEnding.prevalent t))
      (insideOf cfg bundle (LineEnding.prevalent t)).reread :=
    sameAscii_reread (isWritable_insideOf hanchor hwritable)
  rw [hblock] at hread
  obtain ⟨close', hregion, hclose'⟩ := hfirst.replaced hanchor.lf_notMem
    (fills_of_read? (read?_sameAscii (by decide) (by decide) hinside hread))
    (t.drop (close + standardEndMarker.length))
  rw [reread_framed hanchor ht hfirst]
  refine ⟨⟨close', hregion.toStandsAt⟩, ?_⟩
  rw [(refresh_of_isFirst hregion _ _).2, hclose', List.append_assoc, List.take_left' hlength,
    ← List.append_assoc]
  congr 1
  exact List.drop_left' (by rw [List.length_append, hlength])

/-- With lone CRs in the block and a region in what is read back, the second refresh replaces more
than the block: an end marker that stood after it is gone. -/
theorem exists_refresh_reread_of_cr
    (hwritable : ∀ c ∈ insideOf cfg bundle .cr, c.isWritable = true) {start' close' : Nat}
    (hregion : StandsAt cfg.anchor standardEndMarker (framed (t.take start) (blockOf cfg bundle)
      (t.drop (close + standardEndMarker.length)) .cr).reread start' close') :
    ∃ ending rest, (∃ passed, t.drop (close + standardEndMarker.length) =
        passed ++ (standardEndMarker ++ rest)) ∧
      (refresh cfg target (framed (t.take start) (blockOf cfg bundle)
        (t.drop (close + standardEndMarker.length)) .cr).reread bundle).text =
          framed (t.take start) (blockOf cfg bundle) rest ending := by
  obtain ⟨-, hlength⟩ := hfirst.isLineStart_take
  obtain ⟨hlf, later, hlater⟩ := reread_insideOf_cr hanchor bundle hwritable
  have hno : ¬ standardEndMarker <+: (insideOf cfg bundle .cr).reread ++
      t.drop (close + standardEndMarker.length) := by
    rw [hlater]
    exact Declaration.not_standardEndMarker_prefix (by decide) _
  rw [reread_framed hanchor ht hfirst] at hregion ⊢
  obtain ⟨_, _, hnext⟩ := hregion.exists_isFirst
  obtain ⟨q, rfl, hq, hmark⟩ := hfirst.close_behind hanchor.lf_notMem hlf hno hnext.toStandsAt
  -- the region that is found starts where the first one did
  have hle := hnext.least_start _ _ (hfirst.standsAt_behind _ hq hmark)
  have hge := hnext.toStandsAt
  rw [List.append_assoc] at hge
  obtain rfl := Nat.le_antisymm (hfirst.start_le_of_take hanchor.lf_notMem hge) hle
  refine ⟨LineEnding.prevalent (t.take start ++ (cfg.anchor ++ (insideOf cfg bundle .cr).reread) ++
      t.drop (close + standardEndMarker.length)),
    (t.drop (close + standardEndMarker.length)).drop (q + 1 + standardEndMarker.length),
    ⟨(t.drop (close + standardEndMarker.length)).take (q + 1), ?_⟩, ?_⟩
  · rw [← drop_eq_of_prefix hmark, List.take_append_drop]
  · rw [(refresh_of_isFirst hnext _ _).2, List.append_assoc, List.take_left' hlength, Nat.add_assoc,
      Nat.add_assoc, ← List.drop_drop, List.drop_left' hlength, List.drop_length_add_append,
      ← List.append_assoc]

/-- With lone CRs in it, the block is no region by itself: the second refresh leaves the file as it
is exactly if there is no region any more. -/
theorem fileBytes_refresh_reread_of_cr (hending : LineEnding.prevalent t = .cr)
    (hwritable : ∀ c ∈ (refresh cfg target t bundle).text, c.isWritable = true)
    (hwritable' : ∀ c ∈ (refresh cfg target (refresh cfg target t bundle).text.reread bundle).text,
      c.isWritable = true) :
    fileBytes (refresh cfg target (refresh cfg target t bundle).text.reread bundle).text =
        fileBytes (refresh cfg target t bundle).text ↔
      ∀ start close, ¬ StandsAt cfg.anchor standardEndMarker
        (refresh cfg target t bundle).text.reread start close := by
  rw [(refresh_of_isFirst hfirst _ _).2, hending] at hwritable hwritable' ⊢
  constructor
  · intro hsame start' close' hregion
    obtain ⟨ending, rest, ⟨passed, hpassed⟩, htext⟩ := exists_refresh_reread_of_cr hanchor ht hfirst
      target bundle (isWritable_insideOf hanchor hwritable) hregion
    rw [htext] at hsame hwritable'
    -- the end marker that is gone had a bracket, and so the bytes cannot be the same
    have hcount := count_eq_of_fileBytes_eq hwritable' hwritable hsame (c := .scalar ']')
      (by decide)
    have hkept : ∀ ending : LineEnding, (withLineBreak ending.text (blockOf cfg bundle)).count
        (.scalar ']') = (blockOf cfg bundle).count (.scalar ']') := by
      intro ending
      rw [count_withLineBreak]
      cases ending <;> simp [LineEnding.text, ofString]
    have hmarker : standardEndMarker.count (.scalar ']') = 1 := by decide
    simp only [framed, hpassed, List.count_append, hkept, hmarker] at hcount
    omega
  · intro hnone
    rw [(refresh_of_none hnone target bundle).2]
    exact bytes_reread _

end Second

/-! ## When a file is settled -/

/-- A text that can be written is refreshed to one that can be written, if the block can be too. -/
theorem isWritable_refresh {x : Text} (hx : ∀ c ∈ x, c.isWritable = true) (target : Path)
    (bundle : Text)
    (hblock : (∃ start close, StandsAt cfg.anchor standardEndMarker x start close) →
      ∃ ending : LineEnding, ∀ c ∈ withLineBreak ending.text (blockOf cfg bundle),
        c.isWritable = true) :
    ∀ c ∈ (refresh cfg target x bundle).text, c.isWritable = true := by
  intro c hc
  rcases isFirst_or_none cfg.anchor standardEndMarker x with ⟨start, close, hfirst⟩ | hnone
  · obtain ⟨ending, hwritable⟩ := hblock ⟨start, close, hfirst.toStandsAt⟩
    rw [(refresh_of_isFirst hfirst _ _).2, framed, List.mem_append, List.mem_append] at hc
    rcases hc with (hc | hc) | hc
    · exact hx c (List.mem_of_mem_take hc)
    · exact isWritable_withLineBreak hwritable c hc
    · exact hx c (List.mem_of_mem_drop hc)
  · rw [(refresh_of_none hnone target bundle).2] at hc
    exact hx c hc

/-- What the second refresh gives can be written if what the first one gave can. -/
theorem isWritable_refresh_reread (ht : t.IsDecoded) (target : Path) (bundle : Text)
    (hwritable : ∀ c ∈ (refresh cfg target t bundle).text, c.isWritable = true) :
    ∀ c ∈ (refresh cfg target (refresh cfg target t bundle).text.reread bundle).text,
      c.isWritable = true := by
  refine isWritable_refresh (x := (refresh cfg target t bundle).text.reread)
    (fun c hc => isWritable_of_mem_ofBytes hc) target bundle fun ⟨_, _, hstands⟩ => ?_
  rcases isFirst_or_none cfg.anchor standardEndMarker t with ⟨start, close, hfirst⟩ | hnone
  · rw [(refresh_of_isFirst hfirst _ _).2] at hwritable
    exact ⟨LineEnding.prevalent t, fun c hc => hwritable c (mem_framed hc)⟩
  · rw [(refresh_of_none hnone target bundle).2, show t.reread = t from ht] at hstands
    exact absurd hstands (hnone _ _)

theorem bytes_refresh_reread_iff (hanchor : cfg.anchor.IsOneLine)
    (harrayName : cfg.arrayName.IsOneLine) (ht : t.IsDecoded) (target : Path) (bundle : Text)
    (hwritable : ∀ c ∈ (refresh cfg target t bundle).text, c.isWritable = true) :
    fileBytes (refresh cfg target (refresh cfg target t bundle).text.reread bundle).text =
        fileBytes (refresh cfg target t bundle).text ↔
      IsSettled cfg t (refresh cfg target t bundle).text.reread := by
  have hwritable' := isWritable_refresh_reread ht target bundle hwritable
  rcases isFirst_or_none cfg.anchor standardEndMarker t with ⟨start, close, hfirst⟩ | hnone
  · by_cases hending : LineEnding.prevalent t = .cr
    · rw [fileBytes_refresh_reread_of_cr hanchor ht hfirst target bundle hending hwritable
        hwritable', IsSettled]
      simp [hending]
    · obtain ⟨⟨close', hregion⟩, htext⟩ := refresh_reread_of_ne_cr hanchor ht hfirst target bundle
        harrayName hending hwritable
      have hsame := hwritable'
      rw [htext] at hsame ⊢
      have hkept := (refresh_of_isFirst hfirst target bundle).2
      constructor
      · intro hbytes
        rw [hkept] at hwritable
        exact .inr ⟨hending, ending_eq_of_fileBytes_eq (lf_mem_blockOf cfg bundle) hsame hwritable
          (hbytes.trans (congrArg fileBytes hkept))⟩
      · rintro (hnone | ⟨-, hprevalent⟩)
        · exact absurd hregion (hnone _ _)
        · rw [hprevalent, ← hkept]
  · rw [(refresh_of_none hnone target bundle).2, show t.reread = t from ht,
      (refresh_of_none hnone target bundle).2]
    exact ⟨fun _ => .inl hnone, fun _ => rfl⟩

end Refreshed

end Sync

end DeclSync

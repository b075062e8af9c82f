import DeclSync.Proofs.BlockRegions
import DeclSync.Sync

/-!
# Refreshing a consumer again and again

One bundle after another is put into the text of a consumer, each time with the line ending that the
text uses then. What stands around the first region is never touched, since every block is again the
first region of its text. The block takes part in deciding the line ending, and so it may change the
ending once; but the ending that it then has it keeps.

## Main definitions

- `Sync.blockOf` — the block of a bundle
- `Sync.refresh` — one bundle put into a text
- `Sync.textAfter` — many bundles put into a text, one after another
- `Sync.Surrounded` — the invariant: what stands around the first region
-/

namespace DeclSync

namespace Sync

open Region Text

/-- The block of a bundle. -/
def blockOf (cfg : Config) (bundle : Text) : Text :=
  Declaration.block cfg.anchor cfg.arrayName (Method.ofBundle cfg.apiName bundle)

/-- The text of a consumer with the block of a bundle in it. -/
def refresh (cfg : Config) (target : Path) (t bundle : Text) : Update :=
  updateOf cfg (blockOf cfg bundle) target t

/-- The text of a consumer after the blocks of bundles were put into it, one after another. -/
def textAfter (cfg : Config) (target : Path) (t : Text) (bundles : List Text) : Text :=
  bundles.foldl (fun now bundle => (refresh cfg target now bundle).text) t

/-- A text without lone CRs, with one text before its first region and another one after it. -/
structure Surrounded (cfg : Config) (before after now : Text) : Prop where
  noLoneCr : now.HasNoLoneCr
  region : ∃ start close, IsFirst cfg.anchor standardEndMarker now start close ∧
    now.take start = before ∧ now.drop (close + standardEndMarker.length) = after

/-- The text with a block between what stands before it and what stands after it. -/
def framed (before block after : Text) (ending : LineEnding) : Text :=
  before ++ withLineBreak ending.text block ++ after

theorem refresh_of_isFirst {cfg : Config} {t : Text} {start close : Nat}
    (h : IsFirst cfg.anchor standardEndMarker t start close) (target : Path) (bundle : Text) :
    (refresh cfg target t bundle).found = true ∧ (refresh cfg target t bundle).text =
      framed (t.take start) (blockOf cfg bundle) (t.drop (close + standardEndMarker.length))
        (LineEnding.prevalent t) := by
  rw [refresh, updateOf, replace?_of_isFirst h]
  exact ⟨rfl, rfl⟩

theorem refresh_of_none {cfg : Config} {t : Text}
    (h : ∀ start close, ¬ StandsAt cfg.anchor standardEndMarker t start close) (target : Path)
    (bundle : Text) : (refresh cfg target t bundle).found = false ∧
      (refresh cfg target t bundle).text = t := by
  rw [refresh, updateOf, replace?_of_none h]
  exact ⟨rfl, rfl⟩

/-! ## A block in its place -/

section Block

variable {cfg : Config} (hanchor : cfg.anchor.IsOneLine) (harrayName : cfg.arrayName.IsOneLine)
  (bundle : Text)

include hanchor harrayName

theorem read?_blockOf {ending : LineEnding} (hending : ending ≠ .cr) :
    Region.read? cfg.anchor standardEndMarker none
      (withLineBreak ending.text (blockOf cfg bundle)) = some ((), []) :=
  Declaration.read?_withLineBreak_block hanchor.lf_notMem harrayName
    (fun _ hm => Method.isWritable_of_mem_ofBundle hm) hending

theorem cr_notMem_blockOf : .scalar '\r' ∉ blockOf cfg bundle :=
  Declaration.cr_notMem_block hanchor.cr_notMem harrayName.cr_notMem
    fun _ hm => Method.isWritable_of_mem_ofBundle hm

theorem hasNoLoneCr_blockOf {ending : LineEnding} (hending : ending ≠ .cr) :
    HasNoLoneCr (withLineBreak ending.text (blockOf cfg bundle)) := by
  have hcr := cr_notMem_blockOf hanchor harrayName bundle
  cases ending with
  | lf =>
    rw [withLineBreak_lf]
    exact .of_cr_notMem hcr
  | crlf =>
    rw [hasNoLoneCr_iff, crlfCount_withLineBreak_crlf hcr, count_withLineBreak,
      List.count_eq_zero.2 hcr]
    simp [LineEnding.text, ofString]
  | cr => exact absurd rfl hending

end Block

theorem getLast?_withLineBreak_blockOf_ne (cfg : Config) (lineBreak bundle : Text) :
    (withLineBreak lineBreak (blockOf cfg bundle)).getLast? ≠ some (.scalar '\r') := by
  rw [blockOf, Declaration.getLast?_withLineBreak_block]
  decide

/-! ## One step -/

theorem getLast?_ne_cr_of_isLineStart {t : Text} (h : t.IsLineStart t.length) :
    t.getLast? ≠ some (.scalar '\r') := by
  rw [isLineStart_iff_getLast? (Nat.le_refl _), List.take_length] at h
  intro hcr
  rw [hcr] at h
  exact absurd h (by decide)

namespace Surrounded

variable {cfg : Config} {before after now : Text}

theorem getLast?_before_ne (h : Surrounded cfg before after now) :
    before.getLast? ≠ some (.scalar '\r') := by
  obtain ⟨start, close, hfirst, rfl, -⟩ := h.region
  obtain ⟨hline, hlength⟩ := hfirst.isLineStart_take
  exact getLast?_ne_cr_of_isLineStart (hlength.symm ▸ hline)

theorem hasNoLoneCr_before (h : Surrounded cfg before after now) : before.HasNoLoneCr := by
  have hlast := h.getLast?_before_ne
  obtain ⟨start, close, -, rfl, -⟩ := h.region
  have hwhole := h.noLoneCr
  rw [← List.take_append_drop start now] at hwhole
  exact ((hasNoLoneCr_append_iff hlast _).1 hwhole).1

theorem hasNoLoneCr_after (h : Surrounded cfg before after now) : after.HasNoLoneCr := by
  obtain ⟨start, close, -, -, rfl⟩ := h.region
  exact h.noLoneCr.drop _

/-- The text with a block in the place of the first region has the same text around its first
region. -/
theorem framed (h : Surrounded cfg before after now) (hanchor : cfg.anchor.IsOneLine)
    (harrayName : cfg.arrayName.IsOneLine) (bundle : Text) {ending : LineEnding}
    (hending : ending ≠ .cr) :
    Surrounded cfg before after (framed before (blockOf cfg bundle) after ending) := by
  -- no CR and LF meet where the three parts do
  have hlast := h.getLast?_before_ne
  have hlone := hasNoLoneCr_blockOf hanchor harrayName bundle hending
  have hclosing := getLast?_withLineBreak_blockOf_ne cfg ending.text bundle
  refine ⟨?_, ?_⟩
  · rw [Sync.framed, List.append_assoc, hasNoLoneCr_append_iff hlast,
      hasNoLoneCr_append_iff hclosing]
    exact ⟨h.hasNoLoneCr_before, hlone, h.hasNoLoneCr_after⟩
  · obtain ⟨start, close, hfirst, rfl, rfl⟩ := h.region
    obtain ⟨-, hlength⟩ := hfirst.isLineStart_take
    obtain ⟨close', hfirst', hclose'⟩ := hfirst.replaced hanchor.lf_notMem
      (fills_of_read? (read?_blockOf hanchor harrayName bundle hending))
      (now.drop (close + standardEndMarker.length))
    refine ⟨start, close', hfirst', ?_, ?_⟩
    · rw [Sync.framed, List.append_assoc, List.take_left' hlength]
    · rw [hclose', Sync.framed]
      exact List.drop_left' (by rw [List.length_append, hlength])

/-- A step puts the block in the place of the first region, and touches nothing else. -/
theorem refresh_eq (h : Surrounded cfg before after now) (target : Path) (bundle : Text) :
    (refresh cfg target now bundle).found = true ∧ (refresh cfg target now bundle).text =
      Sync.framed before (blockOf cfg bundle) after (LineEnding.prevalent now) := by
  obtain ⟨start, close, hfirst, rfl, rfl⟩ := h.region
  exact refresh_of_isFirst hfirst target bundle

theorem refresh (h : Surrounded cfg before after now) (hanchor : cfg.anchor.IsOneLine)
    (harrayName : cfg.arrayName.IsOneLine) (target : Path) (bundle : Text) :
    Surrounded cfg before after (refresh cfg target now bundle).text := by
  rw [(h.refresh_eq target bundle).2]
  exact h.framed hanchor harrayName bundle (LineEnding.prevalent_ne_cr h.noLoneCr)

theorem textAfter (h : Surrounded cfg before after now) (hanchor : cfg.anchor.IsOneLine)
    (harrayName : cfg.arrayName.IsOneLine) (target : Path) (bundles : List Text) :
    Surrounded cfg before after (textAfter cfg target now bundles) := by
  induction bundles generalizing now with
  | nil => exact h
  | cons bundle bundles ih => exact ih (h.refresh hanchor harrayName target bundle)

end Surrounded

/-! ## The line ending settles -/

section Settle

variable {cfg : Config} {before after now : Text} (hanchor : cfg.anchor.IsOneLine)
  (harrayName : cfg.arrayName.IsOneLine) (bundle : Text)

include hanchor harrayName

theorem prevalent_framed_crlf (h : Surrounded cfg before after now)
    (hlf : LineEnding.prevalent (framed before (blockOf cfg bundle) after .lf) = .crlf) :
    LineEnding.prevalent (framed before (blockOf cfg bundle) after .crlf) = .crlf := by
  have hlast := h.getLast?_before_ne
  have hcr := cr_notMem_blockOf hanchor harrayName bundle
  have hclosing := fun lineBreak => getLast?_withLineBreak_blockOf_ne cfg lineBreak bundle
  -- with LF the block has no CR LF, and with CR LF one for each of its LFs
  have hplain : crlfCount (withLineBreak LineEnding.lf.text (blockOf cfg bundle)) = 0 := by
    have hle := crlfCount_le_count_cr (blockOf cfg bundle)
    rw [List.count_eq_zero.2 hcr] at hle
    rw [withLineBreak_lf]
    exact Nat.le_zero.1 hle
  have hsame : (withLineBreak LineEnding.crlf.text (blockOf cfg bundle)).count (.scalar '\n') =
      (withLineBreak LineEnding.lf.text (blockOf cfg bundle)).count (.scalar '\n') := by
    rw [count_withLineBreak, count_withLineBreak]
    rfl
  rw [LineEnding.prevalent_eq_crlf_iff
    (h.framed hanchor harrayName bundle (by decide)).noLoneCr] at hlf ⊢
  simp only [framed, List.append_assoc, List.count_append, crlfCount_append hlast,
    crlfCount_append (hclosing _), hplain, hsame] at hlf ⊢
  omega

/-- The ending that a block takes from a text with the same block is the one that it keeps. -/
theorem prevalent_framed_prevalent (h : Surrounded cfg before after now) {ending : LineEnding}
    (hending : ending ≠ .cr) :
    LineEnding.prevalent (framed before (blockOf cfg bundle) after
        (LineEnding.prevalent (framed before (blockOf cfg bundle) after ending))) =
      LineEnding.prevalent (framed before (blockOf cfg bundle) after ending) := by
  -- a text that turns to CR LF while its block has LF stays with CR LF once its block has that
  have hmore := prevalent_framed_crlf hanchor harrayName bundle h
  have hne : ∀ ending ≠ .cr,
      LineEnding.prevalent (framed before (blockOf cfg bundle) after ending) ≠ .cr :=
    fun ending hending =>
      LineEnding.prevalent_ne_cr (h.framed hanchor harrayName bundle hending).noLoneCr
  have hlf := hne .lf (by decide)
  have hcrlf := hne .crlf (by decide)
  cases ending with
  | cr => exact absurd rfl hending
  | lf =>
    cases hnext : LineEnding.prevalent (framed before (blockOf cfg bundle) after .lf) with
    | cr => exact absurd hnext hlf
    | lf => exact hnext
    | crlf => exact hmore hnext
  | crlf =>
    cases hnext : LineEnding.prevalent (framed before (blockOf cfg bundle) after .crlf) with
    | cr => exact absurd hnext hcrlf
    | crlf => exact hnext
    | lf =>
      cases hback : LineEnding.prevalent (framed before (blockOf cfg bundle) after .lf) with
      | cr => exact absurd hback hlf
      | lf => rfl
      | crlf => exact absurd (hnext.symm.trans (hmore hback)) (by decide)

end Settle

theorem textAfter_concat (cfg : Config) (target : Path) (t : Text) (bundles : List Text)
    (bundle : Text) :
    textAfter cfg target t (bundles ++ [bundle]) =
      (refresh cfg target (textAfter cfg target t bundles) bundle).text := by
  rw [textAfter, List.foldl_append]
  rfl

/-- With the same bundle again and again, the text is that of the second step from then on. -/
theorem Surrounded.textAfter_replicate {cfg : Config} {before after now : Text}
    (h : Surrounded cfg before after now) (hanchor : cfg.anchor.IsOneLine)
    (harrayName : cfg.arrayName.IsOneLine) (target : Path) (bundle : Text) (n : Nat) :
    Sync.textAfter cfg target now (List.replicate (n + 2) bundle) =
      Sync.textAfter cfg target now (List.replicate 2 bundle) := by
  induction n with
  | zero => rfl
  | succ n ih =>
    have hfirst := h.refresh hanchor harrayName target bundle
    have hsecond := hfirst.refresh hanchor harrayName target bundle
    have hsettled := prevalent_framed_prevalent hanchor harrayName bundle h
      (LineEnding.prevalent_ne_cr h.noLoneCr)
    rw [← (h.refresh_eq target bundle).2, ← (hfirst.refresh_eq target bundle).2] at hsettled
    rw [List.replicate_succ', textAfter_concat, ih]
    change (Sync.refresh cfg target (Sync.refresh cfg target _ bundle).text bundle).text =
      (Sync.refresh cfg target _ bundle).text
    rw [(hsecond.refresh_eq target bundle).2, hsettled, ← (hfirst.refresh_eq target bundle).2]

theorem textAfter_of_none {cfg : Config} {t : Text}
    (h : ∀ start close, ¬ StandsAt cfg.anchor standardEndMarker t start close) (target : Path)
    (bundles : List Text) : textAfter cfg target t bundles = t := by
  induction bundles with
  | nil => rfl
  | cons bundle bundles ih =>
    rw [textAfter, List.foldl_cons, (refresh_of_none h target bundle).2]
    exact ih

/-- Whatever bundles are put into the text of a consumer without lone CRs, one after another: what
stands around its first region stays as it was, and the block has the line ending of the text that
it was put into. A text without a region is not changed. And if the bundle is always the same, the
text does not change after the second time. -/
theorem refresh_run {cfg : Config} {t : Text} (ht : t.HasNoLoneCr) (hanchor : cfg.anchor.IsOneLine)
    (harrayName : cfg.arrayName.IsOneLine) (target : Path) :
    (∀ earlier bundle,
      let now := textAfter cfg target t earlier
      let next := refresh cfg target now bundle
      (∀ start close, IsFirst cfg.anchor standardEndMarker t start close →
        next.found = true ∧ next.text = t.take start ++
          withLineBreak (LineEnding.prevalent now).text (blockOf cfg bundle) ++
            t.drop (close + standardEndMarker.length)) ∧
      ((∀ start close, ¬ StandsAt cfg.anchor standardEndMarker t start close) →
        next.found = false ∧ next.text = t)) ∧
    ∀ bundle n, 2 ≤ n → textAfter cfg target t (List.replicate n bundle) =
      textAfter cfg target t (List.replicate 2 bundle) := by
  have hsurrounded : ∀ start close, IsFirst cfg.anchor standardEndMarker t start close →
      Surrounded cfg (t.take start) (t.drop (close + standardEndMarker.length)) t :=
    fun start close hfirst => ⟨ht, start, close, hfirst, rfl, rfl⟩
  refine ⟨fun earlier bundle => ⟨fun start close hfirst => ?_, fun hnone => ?_⟩, ?_⟩
  · have hnow := (hsurrounded start close hfirst).textAfter hanchor harrayName target earlier
    exact hnow.refresh_eq target bundle
  · rw [textAfter_of_none hnone]
    exact refresh_of_none hnone target bundle
  · intro bundle n hn
    obtain ⟨n, rfl⟩ := Nat.exists_eq_add_of_le' hn
    rcases isFirst_or_none cfg.anchor standardEndMarker t with ⟨start, close, hfirst⟩ | hnone
    · exact (hsurrounded start close hfirst).textAfter_replicate hanchor harrayName target bundle n
    · rw [textAfter_of_none hnone, textAfter_of_none hnone]

/-- Two bundles, the second of them empty, put into a text that mixes CR LF and LF. -/
theorem refresh_run_mixed :
    (HasNoLoneCr "a\r\n// M\n];\nb\n" ∧ IsOneLine "// M" ∧ IsOneLine "ms") ∧
    IsFirst "// M" standardEndMarker "a\r\n// M\n];\nb\n" 3 8 ∧
    (refresh { anchor := "// M", arrayName := "ms" } (.ofText "x.ts")
      (textAfter { anchor := "// M", arrayName := "ms" } (.ofText "x.ts") "a\r\n// M\n];\nb\n"
        ["run() \x7b"]) "").text = "a\r\n// M (auto-generated)\nconst ms = [\n\n];\nb\n" := by
  have hlone : HasNoLoneCr "a\r\n// M\n];\nb\n" := hasNoLoneCr_iff.2 (by decide)
  have hlines : IsOneLine "// M" ∧ IsOneLine "ms" := by
    unfold IsOneLine
    decide
  have hspan : (spans "// M" standardEndMarker "a\r\n// M\n];\nb\n").head? = some ⟨3, 10⟩ := by
    decide
  obtain ⟨start, close, hfirst, heq⟩ := isFirst_of_head?_spans hspan
  obtain ⟨rfl, hclose⟩ := Span.mk.inj heq
  obtain rfl : close = 8 := by
    have hlength : standardEndMarker.length = 2 := rfl
    omega
  have hrun := @refresh_run { anchor := "// M", arrayName := "ms" } _ hlone hlines.1 hlines.2
    (.ofText "x.ts")
  refine ⟨⟨hlone, hlines⟩, hfirst, ?_⟩
  rw [((hrun.1 ["run() \x7b"] "").1 3 8 hfirst).2]
  decide +kernel

end Sync

end DeclSync

import DeclSync.Proofs.ByteSequences
import DeclSync.Proofs.Words
import DeclSync.Script.Literal
import DeclSync.Text.LineEnding

/-!
# Runs of stray bytes

Whether a text is read back as it was depends on its runs of stray bytes only: the bytes of a run
could encode a character together, and nothing else can go wrong, since the bytes of a character
never complete what stray bytes in front of it began. So an operation keeps a text one that is read
back as it was, as long as it brings no stray bytes together that were apart.

## Main definitions

- `Text.IsStray` — a run of surrogates
- `Text.IsInert` — a run whose bytes encode no character together
- `Text.StraysFrom` — a text whose runs of surrogates all stand in another text

`Text.isDecoded_iff` says which texts are read back as they were, and
`Text.isDecoded_append_scalar_cons_iff` that a text can be cut at any character to find out.
-/

namespace DeclSync

namespace Text

variable {t u v : Text}

/-- A run of surrogates, which is what stray bytes are read as. -/
def IsStray (run : Text) : Prop := ∀ c ∈ run, c.isSurrogate = true

/-- A run whose bytes can be written and encode no character together. -/
structure IsInert (run : Text) : Prop where
  writable : ∀ c ∈ run, c.isWritable = true
  no_char : ∀ d : Char, run.flatMap CodePoint.bytes ≠ String.utf8EncodeChar d

theorem isStray_cons_iff {c : CodePoint} {run : Text} :
    IsStray (c :: run) ↔ c.isSurrogate = true ∧ run.IsStray := List.forall_mem_cons

theorem IsStray.of_isInfix {run part : Text} (h : run.IsStray) (hpart : part <:+: run) :
    part.IsStray := fun c hc => h c (hpart.mem hc)

/-! ## Which texts are read back as they were -/

theorem IsDecoded.of_isInfix (h : t.IsDecoded) (hu : u <:+: t) : u.IsDecoded := by
  obtain ⟨before, after, rfl⟩ := hu
  have hdrop := h.of_append.drop before.length
  rwa [List.drop_left] at hdrop

/-- Among stray bytes that are read back, no character is encoded. -/
theorem IsDecoded.not_infix_bytes {run : Text} (h : run.IsDecoded) (hstray : run.IsStray)
    {w : Bytes} {n : Nat} (hw : Bytes.Encodes w n) : ¬ w <:+: run.flatMap CodePoint.bytes := by
  rintro ⟨u, v, hbytes⟩
  induction u generalizing run with
  | nil =>
    -- the run would be read back as text that begins with the character
    obtain ⟨d, -, rfl⟩ := Bytes.encodes_iff.1 hw
    have hread : run = .scalar d :: ofBytes v := by
      rw [← show run.reread = run from h, reread, ← hbytes]
      exact ofBytes_utf8EncodeChar d v
    have hd := hstray (.scalar d) (by simp [hread])
    exact absurd hd (by simp [CodePoint.isSurrogate])
  | cons b u ih =>
    cases run with
    | nil => exact absurd hbytes (by simp)
    | cons c run =>
      rw [isStray_cons_iff] at hstray
      obtain ⟨a, ha, -⟩ :=
        CodePoint.exists_bytes_eq_of_isSurrogate hstray.1 (h.isWritable c List.mem_cons_self)
      rw [List.flatMap_cons, ha] at hbytes
      exact ih h.tail hstray.2 (List.cons.inj hbytes).2

theorem IsDecoded.isInert {run : Text} (h : run.IsDecoded) (hstray : run.IsStray) :
    run.IsInert :=
  ⟨h.isWritable, fun d hd => h.not_infix_bytes hstray (Bytes.encodes_utf8EncodeChar d)
    (hd ▸ List.infix_rfl)⟩

/-- Where bytes stand that begin no character, the text has stray bytes. -/
theorem exists_isStray_of_isTrail {trail rest : Bytes} (htrail : ∀ b ∈ trail, Bytes.IsTrail b)
    (hwritable : ∀ c ∈ t, c.isWritable = true) (h : t.flatMap CodePoint.bytes = trail ++ rest) :
    ∃ run : Text, run <+: t ∧ run.IsStray ∧ run.flatMap CodePoint.bytes = trail := by
  induction trail generalizing t with
  | nil => exact ⟨[], List.nil_prefix, by simp [IsStray], rfl⟩
  | cons b trail ih =>
    rw [List.forall_mem_cons] at htrail
    cases t with
    | nil => exact absurd h (by simp)
    | cons c t =>
      rw [List.forall_mem_cons] at hwritable
      rw [List.flatMap_cons] at h
      cases hc : c.isSurrogate with
      | false =>
        -- the first byte of a character is none of these bytes
        cases c with
        | surrogate s => exact absurd hc (by simp [CodePoint.isSurrogate])
        | scalar d =>
          obtain ⟨a, later, hbytes, ha, -⟩ := (Bytes.encodes_utf8EncodeChar d).exists_cons
          rw [CodePoint.bytes, hbytes] at h
          exact absurd ((List.cons.inj h).1 ▸ htrail.1) ha
      | true =>
        obtain ⟨a, hbytes, -⟩ := CodePoint.exists_bytes_eq_of_isSurrogate hc hwritable.1
        rw [hbytes] at h
        obtain ⟨rfl, hlater⟩ := List.cons.inj h
        obtain ⟨run, hrun, hstray, hbytes'⟩ := ih htrail.2 hwritable.2 hlater
        refine ⟨c :: run, List.cons_prefix_cons.2 ⟨rfl, hrun⟩,
          isStray_cons_iff.2 ⟨hc, hstray⟩, ?_⟩
        rw [List.flatMap_cons, hbytes, hbytes']
        rfl

/-- A text is read back as it was exactly if none of its runs of stray bytes encodes a character.
-/
theorem isDecoded_iff :
    t.IsDecoded ↔ ∀ run : Text, run <:+: t → run.IsStray → run.IsInert := by
  constructor
  · exact fun h run hrun hstray => (h.of_isInfix hrun).isInert hstray
  · intro h
    induction t with
    | nil => rfl
    | cons c t ih =>
      have htail : IsDecoded t := ih fun run hrun => h run (List.infix_cons hrun)
      rw [IsDecoded, reread, List.flatMap_cons]
      cases hc : c.isSurrogate with
      | false =>
        cases c with
        | surrogate s => exact absurd hc (by simp [CodePoint.isSurrogate])
        | scalar d => exact (ofBytes_utf8EncodeChar d _).trans (congrArg _ htail)
      | true =>
        have hwritable : c.isWritable = true :=
          (h [c] (List.prefix_append [c] t).isInfix (by simp [IsStray, hc])).writable c (by simp)
        obtain ⟨b, hbytes, hb⟩ := CodePoint.exists_bytes_eq_of_isSurrogate hc hwritable
        rw [hbytes, List.singleton_append]
        cases hread : Bytes.leadingChar? (b :: t.flatMap CodePoint.bytes) with
        | none => rw [ofBytes_stray hread, ← hb, show ofBytes _ = t from htail]
        | some d =>
          -- the character would be encoded by a run of stray bytes
          obtain ⟨rest, hrest⟩ := Bytes.leadingChar?_eq_some_iff.1 hread
          obtain ⟨a, trail, hd, -, htrail⟩ := (Bytes.encodes_utf8EncodeChar d).exists_cons
          rw [hd] at hrest
          obtain ⟨rfl, hlater⟩ := List.cons.inj hrest
          obtain ⟨run, hrun, hstray, hbytes'⟩ :=
            exists_isStray_of_isTrail htrail htail.isWritable hlater
          have hinert := h (c :: run) (List.cons_prefix_cons.2 ⟨rfl, hrun⟩).isInfix
            (isStray_cons_iff.2 ⟨hc, hstray⟩)
          refine absurd ?_ (hinert.no_char d)
          rw [List.flatMap_cons, hbytes, hbytes', hd]
          rfl

/-! ## Texts that meet at a character -/

/-- A run of surrogates does not reach across a character. -/
theorem IsStray.infix_append_scalar_cons {run : Text} {c : CodePoint} (hrun : run.IsStray)
    (hc : c.isSurrogate = false) (h : run <:+: u ++ c :: v) : run <:+: u ∨ run <:+: v := by
  have hopen : ∀ {part : Text}, part.IsStray → part <+: c :: v → part = [] := by
    intro part hpart hprefix
    rcases List.prefix_cons_iff.1 hprefix with rfl | ⟨later, rfl, -⟩
    · rfl
    · rw [(isStray_cons_iff.1 hpart).1] at hc
      exact absurd hc (by simp)
  rcases List.infix_append_iff.1 h with hu | hv | ⟨before, after, rfl, hbefore, hafter⟩
  · exact .inl hu
  · rcases List.infix_cons_iff.1 hv with hfirst | hv
    · exact .inl (hopen hrun hfirst ▸ List.nil_infix)
    · exact .inr hv
  · rw [hopen (hrun.of_isInfix (List.suffix_append _ _).isInfix) hafter, List.append_nil]
    exact .inl hbefore.isInfix

/-- A text is read back piece by piece where it is cut at a character. -/
theorem isDecoded_append_scalar_cons_iff {c : CodePoint} (hc : c.isSurrogate = false) :
    IsDecoded (u ++ c :: v) ↔ u.IsDecoded ∧ v.IsDecoded := by
  constructor
  · exact fun h => ⟨h.of_append, h.of_isInfix ⟨u ++ [c], [], by simp⟩⟩
  · rintro ⟨hu, hv⟩
    refine isDecoded_iff.2 fun run hrun hstray => ?_
    rcases hstray.infix_append_scalar_cons hc hrun with hrun | hrun
    · exact isDecoded_iff.1 hu run hrun hstray
    · exact isDecoded_iff.1 hv run hrun hstray

theorem isDecoded_scalar_cons_iff {c : CodePoint} (hc : c.isSurrogate = false) :
    IsDecoded (c :: t) ↔ t.IsDecoded :=
  (isDecoded_append_scalar_cons_iff (u := []) hc).trans (and_iff_right rfl)

theorem isDecoded_scalars_append_iff {s : Text} (hs : ∀ c ∈ s, c.isSurrogate = false) :
    IsDecoded (s ++ t) ↔ t.IsDecoded := by
  induction s with
  | nil => rfl
  | cons c s ih =>
    rw [List.forall_mem_cons] at hs
    rw [List.cons_append, isDecoded_scalar_cons_iff hs.1, ih hs.2]

theorem isDecoded_of_scalars (h : ∀ c ∈ t, c.isSurrogate = false) : t.IsDecoded := by
  rw [← List.append_nil t, isDecoded_scalars_append_iff h]
  rfl

theorem isSurrogate_of_mem_ofString {s : String} {c : CodePoint} (hc : c ∈ ofString s) :
    c.isSurrogate = false := by
  obtain ⟨d, -, rfl⟩ := List.mem_map.1 hc
  rfl

theorem isDecoded_ofString (s : String) : (ofString s).IsDecoded :=
  isDecoded_of_scalars fun _ => isSurrogate_of_mem_ofString

theorem isDecoded_ofString_append_iff {s : String} : IsDecoded (ofString s ++ v) ↔ v.IsDecoded :=
  isDecoded_scalars_append_iff fun _ => isSurrogate_of_mem_ofString

/-- A text is read back piece by piece where it is cut at a mark of characters. -/
theorem isDecoded_append_ofString_append_iff {s : String} (hs : s ≠ "") :
    IsDecoded (u ++ (ofString s ++ v)) ↔ u.IsDecoded ∧ v.IsDecoded := by
  have hne : ofString s ≠ [] := by simpa [ofString] using hs
  have hscalar : ∀ c ∈ ofString s, c.isSurrogate = false := fun _ => isSurrogate_of_mem_ofString
  obtain ⟨c, mark, hmark⟩ := List.exists_cons_of_ne_nil hne
  rw [hmark, List.forall_mem_cons] at hscalar
  rw [hmark, List.cons_append, isDecoded_append_scalar_cons_iff hscalar.1,
    isDecoded_scalars_append_iff hscalar.2]

theorem IsDecoded.append_of_head? (hu : u.IsDecoded) (hv : v.IsDecoded)
    (hhead : ∀ c ∈ v.head?, c.isSurrogate = false) : IsDecoded (u ++ v) := by
  cases v with
  | nil => rwa [List.append_nil]
  | cons c v =>
    have hc := hhead c rfl
    exact (isDecoded_append_scalar_cons_iff hc).2 ⟨hu, (isDecoded_scalar_cons_iff hc).1 hv⟩

theorem IsDecoded.append_of_getLast? (hu : u.IsDecoded) (hv : v.IsDecoded)
    (hlast : ∀ c ∈ u.getLast?, c.isSurrogate = false) : IsDecoded (u ++ v) := by
  rcases List.eq_nil_or_concat u with rfl | ⟨u, c, rfl⟩
  · exact hv
  · rw [List.concat_eq_append] at hu ⊢
    rw [List.append_assoc, List.singleton_append,
      isDecoded_append_scalar_cons_iff (hlast c (by simp))]
    exact ⟨hu.of_append, hv⟩

/-- Characters can be put behind any text. -/
theorem IsDecoded.append_scalars {s : Text} (h : t.IsDecoded)
    (hs : ∀ c ∈ s, c.isSurrogate = false) : IsDecoded (t ++ s) :=
  h.append_of_head? (isDecoded_of_scalars hs) fun c hc => hs c (List.mem_of_mem_head? hc)

theorem IsDecoded.intercalate {separator : Text} {pieces : List Text} (hne : separator ≠ [])
    (hseparator : ∀ c ∈ separator, c.isSurrogate = false) (h : ∀ w ∈ pieces, w.IsDecoded) :
    IsDecoded (List.intercalate separator pieces) := by
  induction pieces with
  | nil => rfl
  | cons piece pieces ih =>
    rw [List.forall_mem_cons] at h
    cases pieces with
    | nil => simpa using h.1
    | cons next pieces =>
      obtain ⟨c, separator, rfl⟩ := List.exists_cons_of_ne_nil hne
      rw [List.intercalate_cons_cons, List.append_assoc, List.cons_append,
        isDecoded_append_scalar_cons_iff (hseparator c List.mem_cons_self),
        isDecoded_scalars_append_iff fun d hd => hseparator d (List.mem_cons_of_mem _ hd)]
      exact ⟨h.1, ih h.2⟩

/-! ## Operations that bring no stray bytes together -/

/-- A text whose runs of surrogates all stand in another text, and whose first run opens it. -/
structure StraysFrom (u t : Text) : Prop where
  opening : ∀ run, IsStray run → run <+: u → run <+: t
  inside : ∀ run, IsStray run → run <:+: u → run <:+: t

theorem IsDecoded.of_straysFrom (ht : t.IsDecoded) (h : u.StraysFrom t) : u.IsDecoded :=
  isDecoded_iff.2 fun run hrun hstray => isDecoded_iff.1 ht run (h.inside run hstray hrun) hstray

namespace StraysFrom

theorem refl (t : Text) : t.StraysFrom t := ⟨fun _ _ h => h, fun _ _ h => h⟩

theorem cons (c : CodePoint) (h : u.StraysFrom t) : StraysFrom (c :: u) (c :: t) := by
  have hopening : ∀ run, IsStray run → run <+: c :: u → run <+: c :: t := by
    intro run hstray hrun
    rcases List.prefix_cons_iff.1 hrun with rfl | ⟨later, rfl, hlater⟩
    · exact List.nil_prefix
    · rw [List.cons_prefix_cons]
      exact ⟨rfl, h.opening later (isStray_cons_iff.1 hstray).2 hlater⟩
  refine ⟨hopening, fun run hstray hrun => ?_⟩
  rcases List.infix_cons_iff.1 hrun with hrun | hrun
  · exact (hopening run hstray hrun).isInfix
  · exact (h.inside run hstray hrun).trans (List.suffix_cons c t).isInfix

/-- A character may give way to one or more others. -/
theorem scalars_append {s : Text} (hne : s ≠ []) (hs : ∀ c ∈ s, c.isSurrogate = false)
    (h : u.StraysFrom t) (c : CodePoint) : StraysFrom (s ++ u) (c :: t) := by
  refine ⟨fun run hstray hrun => ?_, fun run hstray hrun => ?_⟩
  · obtain ⟨d, s, rfl⟩ := List.exists_cons_of_ne_nil hne
    rcases List.prefix_cons_iff.1 hrun with rfl | ⟨later, rfl, -⟩
    · exact List.nil_prefix
    · have hd := hs d List.mem_cons_self
      rw [(isStray_cons_iff.1 hstray).1] at hd
      exact absurd hd (by simp)
  · -- the run begins behind these characters
    have hbehind : run <:+: u := by
      clear hne
      induction s with
      | nil => exact hrun
      | cons d s ih =>
        rw [List.forall_mem_cons] at hs
        rcases hstray.infix_append_scalar_cons (u := []) hs.1 hrun with hrun | hrun
        · exact List.infix_nil.1 hrun ▸ List.nil_infix
        · exact ih hs.2 hrun
    exact (h.inside run hstray hbehind).trans (List.suffix_cons c t).isInfix

/-- A character may go if another one follows it. -/
theorem of_scalar_cons {c d : CodePoint} (hd : d.isSurrogate = false)
    (h : u.StraysFrom (d :: t)) : u.StraysFrom (c :: d :: t) := by
  refine ⟨fun run hstray hrun => ?_, fun run hstray hrun => ?_⟩
  · rcases List.prefix_cons_iff.1 (h.opening run hstray hrun) with rfl | ⟨later, rfl, -⟩
    · exact List.nil_prefix
    · rw [(isStray_cons_iff.1 hstray).1] at hd
      exact absurd hd (by simp)
  · exact (h.inside run hstray hrun).trans (List.suffix_cons c _).isInfix

theorem isSurrogate_head? (h : u.StraysFrom t) (ht : ∀ c ∈ t.head?, c.isSurrogate = false) :
    ∀ c ∈ u.head?, c.isSurrogate = false := by
  intro c hc
  obtain ⟨later, rfl⟩ := List.head?_eq_some_iff.1 hc
  by_contra hsurrogate
  -- the first run of `u` would open `t`
  obtain ⟨rest, rfl⟩ := h.opening [c] (by simpa [IsStray] using hsurrogate) ⟨later, rfl⟩
  exact hsurrogate (ht c rfl)

end StraysFrom

theorem straysFrom_flatMap {f : CodePoint → Text}
    (hstray : ∀ c, c.isSurrogate = true → f c = [c])
    (hscalar : ∀ c, c.isSurrogate = false → f c ≠ [] ∧ ∀ d ∈ f c, d.isSurrogate = false)
    (t : Text) : StraysFrom (t.flatMap f) t := by
  induction t with
  | nil => exact .refl []
  | cons c t ih =>
    rw [List.flatMap_cons]
    cases hc : c.isSurrogate with
    | false => exact ih.scalars_append (hscalar c hc).1 (hscalar c hc).2 c
    | true =>
      rw [hstray c hc]
      exact ih.cons c

theorem straysFrom_joinCrLf (t : Text) : (joinCrLf t).StraysFrom t := by
  fun_induction joinCrLf t with
  | case1 => exact .refl _
  | case2 => exact .refl _
  | case3 c d t hcrlf ih => exact ih.of_scalar_cons (hcrlf.2 ▸ rfl)
  | case4 c d t hcrlf ih => exact ih.cons c

namespace IsDecoded

theorem unifyLineEndings (h : t.IsDecoded) : t.unifyLineEndings.IsDecoded := by
  have hmap : t.unifyLineEndings =
      (joinCrLf t).flatMap fun c => [if c = .scalar '\r' then .scalar '\n' else c] :=
    List.map_eq_flatMap
  rw [hmap]
  refine (h.of_straysFrom (straysFrom_joinCrLf t)).of_straysFrom
    (straysFrom_flatMap (fun c hc => ?_) (fun c hc => ?_) _)
  · rw [if_neg]
    rintro rfl
    exact absurd hc (by simp [CodePoint.isSurrogate])
  · refine ⟨by simp, fun d hd => ?_⟩
    rw [List.mem_singleton.1 hd]
    split
    · rfl
    · exact hc

end IsDecoded

theorem straysFrom_withLineBreak (ending : LineEnding) (t : Text) :
    (withLineBreak ending.text t).StraysFrom t := by
  refine straysFrom_flatMap (fun c hc => ?_) (fun c hc => ?_) t
  · rw [if_neg]
    rintro rfl
    exact absurd hc (by simp [CodePoint.isSurrogate])
  · split
    · cases ending <;> exact ⟨by simp [LineEnding.text, ofString],
        fun _ => isSurrogate_of_mem_ofString⟩
    · exact ⟨by simp, by simpa using hc⟩

end Text

end DeclSync

import DeclSync.Proofs.ExtractedMethods
import Mathlib.Data.List.Sort

/-!
# The first method of each name

Of two lists of methods that are combined, the first method of every public name is kept, in the
order of the first places of the names. This determines the result. So lists can be combined in any
grouping, and to combine what is combined already changes nothing.

## Main definitions

- `Method.IsFirstOfEachName` — what is kept of given methods

`Method.eq_combine_iff` says that combining keeps this, and nothing else is kept this way, and
`Method.combine_combine_left`, `Method.combine_combine_right` how combining composes.
-/

namespace DeclSync

namespace Method

/-- What is kept of given methods: the first one of every public name, in the order of the places
where these stand. -/
structure IsFirstOfEachName (given kept : List Method) : Prop where
  sublist : kept.Sublist given
  nodup : (kept.map name).Nodup
  isPublicName : ∀ m ∈ kept, m.name.isPublicName = true
  complete : ∀ m ∈ given, m.name.isPublicName = true → ∃ k ∈ kept, k.name = m.name
  first : ∀ m ∈ kept, given.find? (fun other => other.name = m.name) = some m
  ordered : kept.Pairwise fun m m' =>
    given.findIdx (fun other => other.name = m.name) <
      given.findIdx fun other => other.name = m'.name

variable {methods others given kept : List Method} {m : Method}

/-! ## What is kept -/

theorem sublist_firstOfEachName (methods : List Method) :
    (firstOfEachName methods).Sublist methods := by
  induction methods with
  | nil => exact .slnil
  | cons first methods ih => exact (List.filter_sublist.trans ih).cons_cons first

/-- Whether a method is kept before or after those of a kind of names are picked out is the same. -/
theorem firstOfEachName_filter (p : Text → Bool) (methods : List Method) :
    firstOfEachName (methods.filter fun m => p m.name) =
      (firstOfEachName methods).filter fun m => p m.name := by
  induction methods with
  | nil => rfl
  | cons first methods ih =>
    by_cases hp : p first.name = true
    · rw [List.filter_cons, if_pos hp, firstOfEachName, firstOfEachName, ih, List.filter_cons,
        if_pos hp, List.filter_filter, List.filter_filter]
      exact congrArg _ (List.filter_congr fun m _ => Bool.and_comm _ _)
    · rw [List.filter_cons, if_neg hp, firstOfEachName, ih, List.filter_cons, if_neg hp,
        List.filter_filter]
      refine List.filter_congr fun m _ => ?_
      -- no method of these names has the name of the first one
      by_cases hm : p m.name = true
      · have hne : m.name ≠ first.name := fun heq => hp (heq ▸ hm)
        simp [hm, hne]
      · simp [hm]

/-- The kept methods stand in the order of the first places of their names. -/
theorem pairwise_findIdx_firstOfEachName (methods : List Method) :
    (firstOfEachName methods).Pairwise fun m m' =>
      methods.findIdx (fun other => other.name = m.name) <
        methods.findIdx fun other => other.name = m'.name := by
  induction methods with
  | nil => exact .nil
  | cons first methods ih =>
    have hlater : ∀ m ∈ (firstOfEachName methods).filter fun m => m.name ≠ first.name,
        (first :: methods).findIdx (fun other => other.name = m.name) =
          methods.findIdx (fun other => other.name = m.name) + 1 := by
      intro m hm
      have hne : m.name ≠ first.name := of_decide_eq_true (List.mem_filter.1 hm).2
      simp [List.findIdx_cons, Ne.symm hne]
    rw [firstOfEachName, List.pairwise_cons]
    constructor
    · intro m hm
      rw [hlater m hm]
      simp [List.findIdx_cons]
    · refine (ih.filter _).imp_of_mem fun {m m'} hm hm' hlt => ?_
      rw [hlater m hm, hlater m' hm']
      exact Nat.succ_lt_succ hlt

theorem combine_eq_filter (documented bare : List Method) :
    combine documented bare =
      (firstOfEachName (documented ++ bare)).filter fun m => m.name.isPublicName :=
  firstOfEachName_filter _ _

theorem isFirstOfEachName_combine (documented bare : List Method) :
    IsFirstOfEachName (documented ++ bare) (combine documented bare) where
  sublist := (sublist_firstOfEachName _).trans List.filter_sublist
  nodup := nodup_map_name_firstOfEachName _
  isPublicName _ hm := isPublicName_of_mem_combine hm
  complete _ hm hpublic := exists_mem_combine (List.mem_append.1 hm) hpublic
  first _ hm := find?_of_mem_combine hm
  ordered := by
    rw [combine_eq_filter]
    exact (pairwise_findIdx_firstOfEachName _).filter _

/-! ## Nothing else is kept this way -/

theorem IsFirstOfEachName.mem_iff (h : IsFirstOfEachName given kept) : m ∈ kept ↔
    m.name.isPublicName = true ∧ given.find? (fun other => other.name = m.name) = some m := by
  constructor
  · exact fun hm => ⟨h.isPublicName m hm, h.first m hm⟩
  · rintro ⟨hpublic, hfirst⟩
    obtain ⟨k, hk, hname⟩ := h.complete m (List.mem_of_find?_eq_some hfirst) hpublic
    have hsame := h.first k hk
    rw [hname, hfirst] at hsame
    obtain rfl := Option.some.inj hsame
    exact hk

theorem IsFirstOfEachName.unique {kept' : List Method} (h : IsFirstOfEachName given kept)
    (h' : IsFirstOfEachName given kept') : kept = kept' := by
  have hperm : kept.Perm kept' :=
    (List.perm_ext_iff_of_nodup h.nodup.of_map h'.nodup.of_map).2 fun m =>
      h.mem_iff.trans h'.mem_iff.symm
  refine hperm.eq_of_pairwise (fun m m' _ _ hlt hlt' => ?_) h.ordered h'.ordered
  exact absurd hlt (Nat.lt_asymm hlt')

/-- Combining keeps the first method of every public name, and this determines what is kept. -/
theorem eq_combine_iff {documented bare : List Method} :
    kept = combine documented bare ↔ IsFirstOfEachName (documented ++ bare) kept :=
  ⟨fun h => h ▸ isFirstOfEachName_combine documented bare,
    fun h => h.unique (isFirstOfEachName_combine documented bare)⟩

/-! ## Combining in several steps -/

theorem firstOfEachName_append_left (methods others : List Method) :
    firstOfEachName (firstOfEachName methods ++ others) = firstOfEachName (methods ++ others) := by
  rw [firstOfEachName_append, firstOfEachName_append,
    firstOfEachName_eq_self (nodup_map_name_firstOfEachName methods)]
  refine congrArg _ (List.filter_congr fun m _ => decide_eq_decide.2 ?_)
  constructor
  · intro hnew first hfirst
    obtain ⟨k, hk, hname⟩ := exists_mem_firstOfEachName hfirst
    exact hname ▸ hnew k hk
  · exact fun hnew first hfirst => hnew first (mem_of_mem_firstOfEachName hfirst)

theorem firstOfEachName_append_right (methods others : List Method) :
    firstOfEachName (methods ++ firstOfEachName others) = firstOfEachName (methods ++ others) := by
  rw [firstOfEachName_append, firstOfEachName_append,
    firstOfEachName_eq_self (nodup_map_name_firstOfEachName others)]

theorem filter_combine (documented bare : List Method) :
    (combine documented bare).filter (fun m => m.name.isPublicName) = combine documented bare :=
  List.filter_eq_self.2 fun _ hm => isPublicName_of_mem_combine hm

theorem combine_combine_left (documented bare more : List Method) :
    combine (combine documented bare) more = combine documented (bare ++ more) := by
  rw [combine, List.filter_append, filter_combine, combine, firstOfEachName_append_left,
    ← List.filter_append, List.append_assoc]
  rfl

theorem combine_combine_right (documented bare more : List Method) :
    combine documented (combine bare more) = combine documented (bare ++ more) := by
  rw [combine, List.filter_append, filter_combine, combine, firstOfEachName_append_right,
    ← List.filter_append]
  rfl

/-- Methods that were given already add nothing. -/
theorem combine_again {documented bare again : List Method}
    (hagain : ∀ m ∈ again, m ∈ documented ++ bare) :
    combine (combine documented bare) again = combine documented bare := by
  refine combine_eq_left_of_public (nodup_map_name_firstOfEachName _)
    (fun _ hm => isPublicName_of_mem_combine hm) fun m hm hpublic => ?_
  obtain ⟨k, hk, hname⟩ := exists_mem_combine (List.mem_append.1 (hagain m hm)) hpublic
  exact List.mem_map.2 ⟨k, hk, hname⟩

/-- Combining two lists keeps the first method of every public name, which is a documented one if any
of that name is documented. This determines the result; lists can be combined in any grouping; and to
combine the result again, with itself or with any of the given methods, changes nothing. -/
theorem combine_laws (documented bare : List Method) :
    (∀ kept, kept = combine documented bare ↔ IsFirstOfEachName (documented ++ bare) kept) ∧
    (∀ m ∈ combine documented bare,
      ∀ first ∈ documented.find? (fun other => other.name = m.name), m = first) ∧
    (∀ more, combine (combine documented bare) more = combine documented (bare ++ more) ∧
      combine documented (combine bare more) = combine documented (bare ++ more)) ∧
    combine (combine documented bare) (combine documented bare) = combine documented bare ∧
    (∀ again, (∀ m ∈ again, m ∈ documented ++ bare) →
      combine (combine documented bare) again = combine documented bare) ∧
    combine (combine documented []) bare = combine documented bare ∧
    combine (combine [] documented) bare = combine documented bare ∧
    combine documented (combine bare []) = combine documented bare ∧
    combine documented (combine [] bare) = combine documented bare := by
  have hkept := isFirstOfEachName_combine documented bare
  have hbare : bare ++ [] = bare := List.append_nil bare
  refine ⟨fun _ => eq_combine_iff, ?_, fun more => ⟨combine_combine_left _ _ _,
    combine_combine_right _ _ _⟩, combine_again fun _ hm => hkept.sublist.mem hm,
    fun _ => combine_again, combine_combine_left _ _ _, combine_combine_left _ _ _, ?_,
    combine_combine_right _ _ _⟩
  · intro m hm first hfirst
    have hwhole := hkept.first m hm
    rw [List.find?_append, Option.mem_def.1 hfirst, Option.some_or] at hwhole
    exact (Option.some.inj hwhole).symm
  · rw [combine_combine_right, hbare]

end Method

end DeclSync

import CodeSurvey.Proofs.Path
import Mathlib.Data.List.Chain

/-!
# The paths above a path

A path and those above it are one for each component, and for a relative path the empty
one at the end (`Path.height`). A spelling has more characters than that: segments that
name nothing go with the name in front of them, and a lone slash or dot is a component.
So what falls from a path to the one above it is the number of components, by one
(`Path.exists_components_parent`).

Where there is no path above there is no component left, but for the root
(`Path.components_of_parent_eq_none`). From these two the shape of an ascent follows, for
any bound on its length (`Path.IsAscent`): it ends by itself.
-/

namespace CodeSurvey.Path

instance (p : List Char) : Decidable (IsAbsolute p) :=
  inferInstanceAs (Decidable (p.head? = some '/'))

/-! ## The head of a path -/

/-- The head is told by the first character and the first segment of the text. -/
theorem head_eq (p : List Char) : head p
    = if IsAbsolute p then ['/'] else if (partsAt '/' p).head? = some ['.'] then ['.'] else [] := by
  unfold head
  split
  · exact (if_pos rfl).symm
  · rfl
  · rename_i cs
    rw [if_neg (by simp [IsAbsolute]), partsAt_dot_slash]
    rfl
  · rename_i hslash hdot hdots
    cases p with
    | nil => rfl
    | cons c cs =>
        have hc : c ≠ '/' := fun h => hslash cs (h ▸ rfl)
        obtain ⟨part, parts, hparts⟩ := List.exists_cons_of_ne_nil (partsAt_ne_nil '/' cs)
        rw [if_neg (by simp [IsAbsolute, hc]), partsAt_cons_ne hc hparts, if_neg]
        -- a first segment that is a dot alone would have been the head
        intro hfirst
        obtain ⟨rfl, rfl⟩ : c = '.' ∧ part = [] := by simpa using hfirst
        cases cs with
        | nil => exact hdot rfl
        | cons b bs =>
            by_cases hb : b = '/'
            · exact hdots bs (hb ▸ rfl)
            · obtain ⟨first, rest, hrest⟩ := List.exists_cons_of_ne_nil (partsAt_ne_nil '/' bs)
              rw [partsAt_cons_ne hb hrest] at hparts
              cases hparts

theorem isAbsolute_iff_head {p : List Char} : IsAbsolute p ↔ head p = ['/'] := by
  rw [head_eq]
  split
  · simp_all
  · split <;> simp_all

/-- A path without a head does not begin at the root or with a dot. -/
theorem of_head_eq_nil {p : List Char} (h : head p = []) :
    ¬IsAbsolute p ∧ (partsAt '/' p).head? ≠ some ['.'] := by
  rw [head_eq] at h
  split at h
  · cases h
  · rename_i habs
    split at h
    · cases h
    · rename_i hfirst
      exact ⟨habs, hfirst⟩

/-- The head of a path stays when the path is cut behind one of its segments. -/
theorem head_head_append (p : List Char) {front : List (List Char)} (h : front <+: segments p) :
    head (head p ++ joinWith '/' front) = head p := by
  by_cases hhead : head p = []
  · -- the first segment of a path without a head is no dot
    obtain ⟨hrelative, hdot⟩ := of_head_eq_nil hhead
    have habs := mt (isAbsolute_head_append p h).mp hrelative
    have hslash : ∀ s ∈ front, '/' ∉ s := fun s hs => notMem_of_mem_segments (h.subset hs)
    rw [segments] at h
    simp only [hhead, List.nil_append, List.length_nil, List.drop_zero] at h habs ⊢
    rw [head_eq, if_neg habs, if_neg]
    cases front with
    | nil => decide
    | cons first rest =>
        rw [partsAt_joinWith (List.cons_ne_nil _ _) hslash]
        obtain ⟨rest', hparts⟩ := h
        rwa [← hparts] at hdot
  · rw [segments] at h
    unfold head at hhead h ⊢
    split at h
    · rfl
    · obtain rfl | rfl : front = [] ∨ front = [[]] := by
        simpa [List.prefix_nil] using List.prefix_cons_iff.mp h
      · rfl
      · rfl
    · rename_i cs
      obtain rfl | ⟨rest, rfl⟩ : front = [] ∨ ∃ rest, front = [] :: rest :=
        eq_nil_or_cons_of_prefix cs h
      · rfl
      · cases rest <;> rfl
    · refine absurd ?_ hhead
      split <;> simp_all

/-! ## The path above -/

theorem components_eq (p : List Char) :
    components p = (if head p = [] then [] else [head p]) ++ names p := by
  rw [components]
  cases h : head p <;> simp

/-- The path above has all the components but the last. -/
theorem exists_components_parent {p q : List Char} (h : parent? p = some q) :
    ∃ c, components p = components q ++ [c] := by
  rcases parent?_eq_some h with ⟨front, hfront, rfl, hnames, hne⟩ | ⟨hhead, hnames, rfl⟩
  · refine ⟨(names p).getLast hne, ?_⟩
    rw [components_eq, components_eq, head_head_append p hfront, names_head_append p hfront, hnames,
      List.append_assoc, List.dropLast_append_getLast]
  · exact ⟨['.'], by rw [components_eq p, hhead, hnames]; rfl⟩

theorem names_of_parent_eq_none {p : List Char} (h : parent? p = none) :
    names p = [] ∧ head p ≠ ['.'] := by
  rw [parent?] at h
  split at h
  · cases h
  · rename_i hdrop
    refine ⟨?_, fun hhead => by rw [if_pos hhead] at h; cases h⟩
    have hfilter := filter_dropWhile_not isIdle (segments p).reverse
    rw [hdrop, List.filter_reverse] at hfilter
    exact List.reverse_eq_nil_iff.mp hfilter.symm

/-- A relative path without a path above it is empty: an idle segment at its beginning would be
the head. -/
theorem eq_nil_of_parent_eq_none {p : List Char} (h : parent? p = none)
    (hrelative : ¬IsAbsolute p) : p = [] := by
  obtain ⟨hnames, hhead⟩ := names_of_parent_eq_none h
  have hdot : (partsAt '/' p).head? ≠ some ['.'] := by
    intro hdot
    rw [head_eq, if_neg hrelative, if_pos hdot] at hhead
    exact hhead rfl
  cases p with
  | nil => rfl
  | cons c cs =>
      have hc : c ≠ '/' := fun heq => hrelative (congrArg some heq)
      obtain ⟨part, parts, hparts⟩ := List.exists_cons_of_ne_nil (partsAt_ne_nil '/' cs)
      rw [names_eq, partsAt_cons_ne hc hparts] at hnames
      rw [partsAt_cons_ne hc hparts] at hdot
      have hidle : isIdle (c :: part) := by simpa using List.filter_eq_nil_iff.mp hnames (c :: part)
      exact absurd (by simpa [isIdle] using hidle) hdot

/-- Where there is no path above, there is no component left but the root. -/
theorem components_of_parent_eq_none {p : List Char} (h : parent? p = none) :
    components p = if IsAbsolute p then [['/']] else [] := by
  obtain ⟨hnames, -⟩ := names_of_parent_eq_none h
  split
  · rename_i habs
    rw [components_eq, hnames, isAbsolute_iff_head.mp habs]
    rfl
  · rename_i hrelative
    rw [eq_nil_of_parent_eq_none h hrelative]
    rfl

/-! ## The ascent -/

/-- How many paths there are from a path upwards: one for each component and, for a relative path,
the empty one. -/
def height (p : List Char) : Nat :=
  if IsAbsolute p then (components p).length else (components p).length + 1

theorem height_eq_of_parent {p q : List Char} (h : parent? p = some q) :
    height p = height q + 1 := by
  obtain ⟨c, hc⟩ := exists_components_parent h
  have hlength : (components p).length = (components q).length + 1 := by simp [hc]
  by_cases habs : IsAbsolute p
  · rw [height, height, if_pos habs, if_pos ((isAbsolute_parent h).mpr habs), hlength]
  · rw [height, height, if_neg habs, if_neg (mt (isAbsolute_parent h).mp habs), hlength]

theorem height_of_parent_eq_none {p : List Char} (h : parent? p = none) : height p = 1 := by
  rw [height, components_of_parent_eq_none h]
  split <;> rfl

theorem height_le (p : List Char) : height p ≤ (components p).length + 1 := by
  unfold height
  split <;> omega

/-- What `count` steps upwards from a path come to. -/
structure IsAscent (p : List Char) (count : Nat) (ps : List (List Char)) : Prop where
  length_eq : ps.length = min count (height p)
  first : 0 < count → ps.head? = some p
  /-- Each path is the one above the path in front of it, and is shorter. -/
  above : ps.IsChain fun q r =>
    parent? q = some r ∧ (components r).length < (components q).length
  within : ∀ q ∈ ps, components q <+: components p
  distinct : ps.Pairwise fun q r => components q ≠ components r
  /-- A bound that is not reached leaves the end to the paths. -/
  last : height p ≤ count → ∃ q, ps.getLast? = some q ∧ parent? q = none
    ∧ if IsAbsolute p then components q = [['/']] else q = []

theorem isAscent_zero (p : List Char) : IsAscent p 0 [] where
  length_eq := by simp
  first := fun h => absurd h (Nat.lt_irrefl 0)
  above := .nil
  within := fun _ hq => nomatch hq
  distinct := .nil
  last := fun h => by
    unfold height at h
    split at h
    · rename_i habs
      rw [components_eq, isAbsolute_iff_head.mp habs] at h
      cases h
    · cases h

theorem isAscent_singleton {p : List Char} (h : parent? p = none) (count : Nat) :
    IsAscent p (count + 1) [p] where
  length_eq := by
    rw [height_of_parent_eq_none h, List.length_singleton]
    omega
  first := fun _ => rfl
  above := .singleton p
  within := fun q hq => List.mem_singleton.mp hq ▸ List.prefix_rfl
  distinct := List.pairwise_singleton _ p
  last := fun _ => by
    refine ⟨p, rfl, h, ?_⟩
    split
    · rename_i habs
      rw [components_of_parent_eq_none h, if_pos habs]
    · exact eq_nil_of_parent_eq_none h ‹_›

/-- An ascent from the path above goes on from the path. -/
theorem IsAscent.cons {p q : List Char} {count : Nat} {ps : List (List Char)}
    (h : parent? p = some q) (hps : IsAscent q count ps) : IsAscent p (count + 1) (p :: ps) := by
  obtain ⟨c, hc⟩ := exists_components_parent h
  have hshort : ∀ r ∈ ps, (components r).length < (components p).length := by
    intro r hr
    have := (hps.within r hr).length_le
    rw [hc, List.length_append, List.length_singleton]
    omega
  constructor
  case length_eq =>
    rw [height_eq_of_parent h, List.length_cons, hps.length_eq]
    omega
  case first => exact fun _ => rfl
  case above =>
    refine hps.above.cons fun r hr => ?_
    have hr' : r ∈ ps := List.mem_of_mem_head? hr
    have hcount : 0 < count := by
      by_contra hzero
      have := hps.length_eq
      have := List.length_pos_of_mem hr'
      omega
    rw [hps.first hcount] at hr
    obtain rfl := Option.mem_some.mp hr
    exact ⟨h, hshort q hr'⟩
  case within =>
    intro r hr
    rcases List.mem_cons.mp hr with rfl | hr
    · exact List.prefix_rfl
    · exact (hps.within r hr).trans ⟨[c], hc.symm⟩
  case distinct =>
    refine List.pairwise_cons.mpr ⟨fun r hr heq => ?_, hps.distinct⟩
    exact absurd (congrArg List.length heq) (hshort r hr).ne'
  case last =>
    intro hcount
    rw [height_eq_of_parent h] at hcount
    obtain ⟨r, hlast, hnone, hend⟩ := hps.last (Nat.le_of_succ_le_succ hcount)
    refine ⟨r, ?_, hnone, ?_⟩
    · rw [List.getLast?_cons, hlast]
      rfl
    · simpa only [isAbsolute_parent h] using hend

/-- A bound above the height of a path changes nothing. -/
theorem ancestors_of_height_le {p : List Char} {count : Nat} (h : height p ≤ count) :
    ancestors count p = ancestors (height p) p := by
  induction count generalizing p with
  | zero =>
      rw [Nat.le_zero.mp h]
  | succ count ih =>
      cases hparent : parent? p with
      | none =>
          rw [height_of_parent_eq_none hparent, ancestors, ancestors, hparent]
      | some q =>
          rw [height_eq_of_parent hparent] at h ⊢
          rw [ancestors, ancestors, hparent]
          exact congrArg (p :: ·) (ih (Nat.le_of_succ_le_succ h))

/-- From any path the ascent follows the paths above up to the bound, and it ends at the root or
the empty path once the bound is as high as the path, which no path is beyond the number of its
components and one. Any higher bound gives the same. -/
theorem isAscent_ancestors (p : List Char) (count : Nat) :
    height p ≤ (components p).length + 1 ∧ IsAscent p count (ancestors count p)
      ∧ (height p ≤ count → ancestors count p = ancestors (height p) p) := by
  refine ⟨height_le p, ?_, ancestors_of_height_le⟩
  induction count generalizing p with
  | zero => exact isAscent_zero p
  | succ count ih =>
      rw [ancestors]
      split
      · rename_i above habove
        exact (ih above).cons habove
      · rename_i hnone
        exact isAscent_singleton hnone count

end CodeSurvey.Path

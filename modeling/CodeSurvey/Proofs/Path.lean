import CodeSurvey.Directory.Path

/-!
# Names of a path

What the reading of paths comes to on texts. The names of a path are its segments
without the idle ones (`Path.names_eq`), a name that is joined to a path comes
behind those of the path (`Path.names_join`), and the path above another one has
its names but for the last (`Path.names_parent`).

`Path.settled` goes on from there: it takes the names back that two dots undo.
-/

namespace CodeSurvey

/-! ## Parts of a text -/

section Parts

variable {sep : Char}

theorem partsAt_ne_nil (sep : Char) (cs : List Char) : partsAt sep cs ≠ [] := by
  cases cs with
  | nil => exact List.cons_ne_nil _ _
  | cons c cs =>
      rw [partsAt]
      split
      · exact List.cons_ne_nil _ _
      · split <;> exact List.cons_ne_nil _ _

theorem partsAt_cons_self (cs : List Char) : partsAt sep (sep :: cs) = [] :: partsAt sep cs := by
  rw [partsAt]
  split
  · rename_i h
    exact absurd h (partsAt_ne_nil _ cs)
  · rename_i part parts h
    rw [if_pos rfl, h]

theorem partsAt_cons_ne {c : Char} (h : c ≠ sep) {cs part : List Char} {parts : List (List Char)}
    (hcs : partsAt sep cs = part :: parts) : partsAt sep (c :: cs) = (c :: part) :: parts := by
  rw [partsAt, hcs]
  exact if_neg h

theorem partsAt_append (cs ds : List Char) :
    partsAt sep (cs ++ sep :: ds) = partsAt sep cs ++ partsAt sep ds := by
  induction cs with
  | nil => exact partsAt_cons_self ds
  | cons c cs ih =>
      by_cases hc : c = sep
      · rw [hc, List.cons_append, partsAt_cons_self, partsAt_cons_self, ih, List.cons_append]
      · obtain ⟨part, parts, hcs⟩ := List.exists_cons_of_ne_nil (partsAt_ne_nil sep cs)
        have happ : partsAt sep (cs ++ sep :: ds) = part :: (parts ++ partsAt sep ds) := by
          rw [ih, hcs, List.cons_append]
        rw [List.cons_append, partsAt_cons_ne hc happ, partsAt_cons_ne hc hcs, List.cons_append]

theorem partsAt_of_notMem {cs : List Char} (h : sep ∉ cs) : partsAt sep cs = [cs] := by
  induction cs with
  | nil => rfl
  | cons c cs ih =>
      obtain ⟨hc, hcs⟩ : sep ≠ c ∧ sep ∉ cs := by simpa using h
      exact partsAt_cons_ne hc.symm (ih hcs)

theorem notMem_of_mem_partsAt {cs part : List Char} (h : part ∈ partsAt sep cs) : sep ∉ part := by
  induction cs generalizing part with
  | nil => simp_all [partsAt]
  | cons c cs ih =>
      by_cases hc : c = sep
      · rw [hc, partsAt_cons_self] at h
        rcases List.mem_cons.mp h with rfl | h
        · exact List.not_mem_nil
        · exact ih h
      · obtain ⟨first, parts, hcs⟩ := List.exists_cons_of_ne_nil (partsAt_ne_nil sep cs)
        rw [partsAt_cons_ne hc hcs] at h
        rw [hcs] at ih
        rcases List.mem_cons.mp h with rfl | h
        · exact List.not_mem_cons_of_ne_of_not_mem (fun heq => hc heq.symm) (ih List.mem_cons_self)
        · exact ih (List.mem_cons_of_mem _ h)

theorem partsAt_joinWith {parts : List (List Char)} (hne : parts ≠ [])
    (h : ∀ part ∈ parts, sep ∉ part) : partsAt sep (joinWith sep parts) = parts := by
  induction parts with
  | nil => exact absurd rfl hne
  | cons part parts ih =>
      have hpart : sep ∉ part := h part List.mem_cons_self
      cases parts with
      | nil => exact partsAt_of_notMem hpart
      | cons next parts =>
          have hrest := ih (List.cons_ne_nil _ _) fun p hp => h p (List.mem_cons_of_mem _ hp)
          rw [joinWith, partsAt_append, partsAt_of_notMem hpart, hrest]
          rfl

end Parts

/-! ## Names of a path -/

namespace Path

/-- A path that begins at the root. -/
def IsAbsolute (p : List Char) : Prop := p.head? = some '/'

theorem partsAt_dot_slash (cs : List Char) :
    partsAt '/' ('.' :: '/' :: cs) = ['.'] :: partsAt '/' cs :=
  partsAt_cons_ne (by decide) (partsAt_cons_self cs)

/-- The head of a path is idle, so the names can be read off the whole text. -/
theorem names_eq (p : List Char) : names p = (partsAt '/' p).filter fun s => !isIdle s := by
  rw [names, segments]
  unfold head
  split
  · rename_i cs
    rw [partsAt_cons_self]
    rfl
  · rfl
  · rename_i cs
    show (partsAt '/' ('/' :: cs)).filter _ = _
    rw [partsAt_cons_self, partsAt_dot_slash]
    rfl
  · rfl

theorem names_slash (p : List Char) : names ('/' :: p) = names p := by
  rw [names_eq, names_eq, partsAt_cons_self]
  rfl

theorem names_dot_slash (p : List Char) : names ('.' :: '/' :: p) = names p := by
  rw [names_eq, names_eq, partsAt_dot_slash]
  rfl

theorem names_joinWith {parts : List (List Char)} (h : ∀ part ∈ parts, '/' ∉ part) :
    names (joinWith '/' parts) = parts.filter fun s => !isIdle s := by
  cases parts with
  | nil => rfl
  | cons part rest => rw [names_eq, partsAt_joinWith (List.cons_ne_nil _ _) h]

/-! ### A name within a directory -/

/-- A text that can name an entry of a directory. -/
structure IsName (name : List Char) : Prop where
  no_slash : '/' ∉ name
  not_idle : isIdle name = false

theorem IsName.head?_ne {name : List Char} (h : IsName name) : name.head? ≠ some '/' := by
  intro hhead
  exact h.no_slash (List.mem_of_mem_head? hhead)

/-- What stands in front of a name that is joined to a path. -/
theorem exists_join_eq (p : List Char) {name : List Char} (h : IsName name) :
    ∃ front, partsAt '/' (join p name) = front ++ [name]
      ∧ front.filter (fun s => !isIdle s) = names p := by
  rw [join, if_neg h.head?_ne]
  split
  · rename_i hend
    rcases hend with hempty | hslash
    · rw [List.isEmpty_iff.mp hempty]
      exact ⟨[], partsAt_of_notMem h.no_slash, rfl⟩
    · obtain ⟨q, rfl⟩ := List.getLast?_eq_some_iff.mp hslash
      refine ⟨partsAt '/' q, ?_, ?_⟩
      · rw [List.append_assoc, List.singleton_append, partsAt_append, partsAt_of_notMem h.no_slash]
      · rw [names_eq, partsAt_append, List.filter_append]
        exact (List.append_nil _).symm
  · exact ⟨partsAt '/' p, by rw [partsAt_append, partsAt_of_notMem h.no_slash], (names_eq p).symm⟩

theorem names_join (p : List Char) {name : List Char} (h : IsName name) :
    names (join p name) = names p ++ [name] := by
  obtain ⟨front, hparts, hfront⟩ := exists_join_eq p h
  rw [names_eq, hparts, List.filter_append, hfront]
  simp [h.not_idle]

theorem isAbsolute_join (p : List Char) {name : List Char} (h : IsName name) :
    IsAbsolute (join p name) ↔ IsAbsolute p := by
  rw [join, if_neg h.head?_ne]
  cases p with
  | nil => simpa [IsAbsolute] using h.head?_ne
  | cons c cs => split <;> rfl

/-! ### The path above a path -/

theorem joinWith_cons (sep : Char) (part : List Char) {parts : List (List Char)} (h : parts ≠ []) :
    joinWith sep (part :: parts) = part ++ sep :: joinWith sep parts := by
  obtain ⟨next, rest, rfl⟩ := List.exists_cons_of_ne_nil h
  rfl

theorem filter_dropWhile_not (f : List Char → Bool) (parts : List (List Char)) :
    (parts.dropWhile f).filter (fun s => !f s) = parts.filter fun s => !f s := by
  induction parts with
  | nil => rfl
  | cons part parts ih => cases h : f part <;> simp [h, ih]

theorem notMem_of_mem_segments {p s : List Char} (h : s ∈ segments p) : '/' ∉ s :=
  notMem_of_mem_partsAt h

/-- The first segment behind a slash is empty. -/
theorem eq_nil_or_cons_of_prefix (cs : List Char) {front : List (List Char)}
    (h : front <+: partsAt '/' ('/' :: cs)) : front = [] ∨ ∃ rest, front = [] :: rest := by
  rw [partsAt_cons_self] at h
  rcases List.prefix_cons_iff.mp h with rfl | ⟨rest, rfl, -⟩
  · exact .inl rfl
  · exact .inr ⟨rest, rfl⟩

/-- The names of a path that is cut behind one of its segments. -/
theorem names_head_append (p : List Char) {front : List (List Char)} (h : front <+: segments p) :
    names (head p ++ joinWith '/' front) = front.filter fun s => !isIdle s := by
  have hslash : ∀ s ∈ front, '/' ∉ s := fun s hs => notMem_of_mem_segments (h.subset hs)
  rw [segments] at h
  unfold head at h ⊢
  split at h
  · rw [List.singleton_append, names_slash, names_joinWith hslash]
  · -- a lone dot has no segment but an empty one
    have hfront : front = [] ∨ front = [[]] := by
      have := List.prefix_cons_iff.mp h
      simpa [List.prefix_nil] using this
    rcases hfront with rfl | rfl <;> rfl
  · rename_i cs
    obtain rfl | ⟨rest, rfl⟩ : front = [] ∨ ∃ rest, front = [] :: rest :=
      eq_nil_or_cons_of_prefix cs h
    · rfl
    · cases rest with
      | nil => rfl
      | cons next rest =>
          rw [joinWith_cons _ _ (List.cons_ne_nil _ _), List.nil_append, List.singleton_append,
            names_dot_slash, names_joinWith fun s hs => hslash s (List.mem_cons_of_mem _ hs)]
          rfl
  · rw [List.nil_append, names_joinWith hslash]

/-- The path above is the head with the segments in front of the last name, as
far as these name something. -/
theorem parent?_eq_some {p q : List Char} (h : parent? p = some q) :
    (∃ front, front <+: segments p ∧ q = head p ++ joinWith '/' front
        ∧ (front.filter fun s => !isIdle s) = (names p).dropLast ∧ names p ≠ [])
      ∨ (head p = ['.'] ∧ names p = [] ∧ q = []) := by
  have hnames : names p = ((segments p).reverse.filter fun s => !isIdle s).reverse := by
    rw [names, List.filter_reverse, List.reverse_reverse]
  rw [parent?] at h
  split at h
  · rename_i last rest hdrop
    obtain rfl := Option.some.inj h
    have hrest : rest.dropWhile isIdle <:+ (segments p).reverse :=
      (List.dropWhile_suffix _).trans ((List.suffix_cons last rest).trans
        (hdrop ▸ List.dropWhile_suffix _))
    have hlast : isIdle last = false := by
      have := List.head?_dropWhile_not isIdle (segments p).reverse
      rw [hdrop] at this
      simpa using this
    have hfilter : ((segments p).reverse.filter fun s => !isIdle s)
        = last :: rest.filter fun s => !isIdle s := by
      rw [← filter_dropWhile_not, hdrop, List.filter_cons_of_pos (by simp [hlast])]
    refine .inl ⟨_, by simpa using List.reverse_prefix.mpr hrest, rfl, ?_, ?_⟩
    · rw [List.filter_reverse, filter_dropWhile_not, hnames, hfilter, List.reverse_cons,
        List.dropLast_concat]
    · rw [hnames, hfilter]
      simp
  · rename_i hdrop
    split at h
    · rename_i hhead
      refine .inr ⟨hhead, ?_, (Option.some.inj h).symm⟩
      rw [hnames, ← filter_dropWhile_not, hdrop]
      rfl
    · cases h

theorem names_parent {p q : List Char} (h : parent? p = some q) : names q = (names p).dropLast := by
  rcases parent?_eq_some h with ⟨front, hfront, rfl, hnames, -⟩ | ⟨-, hnames, rfl⟩
  · rw [names_head_append p hfront, hnames]
  · rw [hnames]
    rfl

theorem isAbsolute_head_append (p : List Char) {front : List (List Char)}
    (h : front <+: segments p) : IsAbsolute (head p ++ joinWith '/' front) ↔ IsAbsolute p := by
  rw [segments] at h
  unfold head at h ⊢
  split at h
  · exact ⟨fun _ => rfl, fun _ => rfl⟩
  · simp [IsAbsolute]
  · simp [IsAbsolute]
  · rename_i hslash _ _
    -- the first segment begins as the path does
    cases p with
    | nil =>
        have hfront : front = [] ∨ front = [[]] := by
          have := List.prefix_cons_iff.mp h
          simpa [List.prefix_nil] using this
        rcases hfront with rfl | rfl <;> rfl
    | cons c cs =>
        have hc : c ≠ '/' := fun heq => hslash cs (heq ▸ rfl)
        obtain ⟨part, parts, hparts⟩ := List.exists_cons_of_ne_nil (partsAt_ne_nil '/' cs)
        rw [List.length_nil, List.drop_zero, partsAt_cons_ne hc hparts] at h
        rcases List.prefix_cons_iff.mp h with rfl | ⟨rest, rfl, -⟩
        · simp [IsAbsolute, joinWith, hc]
        · cases rest with
          | nil => simp [IsAbsolute, joinWith]
          | cons next rest => simp [IsAbsolute, joinWith]

theorem isAbsolute_parent {p q : List Char} (h : parent? p = some q) :
    IsAbsolute q ↔ IsAbsolute p := by
  rcases parent?_eq_some h with ⟨front, hfront, rfl, -, -⟩ | ⟨hhead, -, rfl⟩
  · exact isAbsolute_head_append p hfront
  · have hp : p.head? = some '.' := by
      unfold head at hhead
      split at hhead
      · exact absurd hhead (by decide)
      · rfl
      · rfl
      · cases hhead
    simp [IsAbsolute, hp]

theorem names_prefix_of_mem_ancestors {count : Nat} {p q : List Char}
    (h : q ∈ ancestors count p) : names q <+: names p ∧ (IsAbsolute q ↔ IsAbsolute p) := by
  induction count generalizing p with
  | zero => cases h
  | succ count ih =>
      rw [ancestors] at h
      split at h
      · rename_i above habove
        rcases List.mem_cons.mp h with rfl | h
        · exact ⟨List.prefix_rfl, Iff.rfl⟩
        · obtain ⟨hnames, habs⟩ := ih h
          rw [names_parent habove] at hnames
          exact ⟨hnames.trans (List.dropLast_prefix _), habs.trans (isAbsolute_parent habove)⟩
      · obtain rfl := List.mem_singleton.mp h
        exact ⟨List.prefix_rfl, Iff.rfl⟩

/-! ### Two dots -/

theorem settledFrom_append (place xs ys : List String) :
    settledFrom place (xs ++ ys) = settledFrom (settledFrom place xs) ys :=
  List.foldl_append

theorem settledFrom_up (place names : List String) :
    settledFrom place (".." :: names) = settledFrom place.dropLast names := rfl

theorem settledFrom_down {name : String} (h : name ≠ "..") (place names : List String) :
    settledFrom place (name :: names) = settledFrom (place ++ [name]) names := by
  rw [settledFrom, List.foldl_cons, if_neg h]
  rfl

/-- Names without two dots lead straight down. -/
theorem settledFrom_of_notMem {names : List String} (h : ".." ∉ names) (place : List String) :
    settledFrom place names = place ++ names := by
  induction names generalizing place with
  | nil => exact (List.append_nil place).symm
  | cons name names ih =>
      obtain ⟨hname, hnames⟩ : ".." ≠ name ∧ ".." ∉ names := by simpa using h
      rw [settledFrom_down hname.symm, ih hnames, List.append_assoc, List.singleton_append]

theorem mem_of_mem_settledFrom {place names : List String} {n : String}
    (h : n ∈ settledFrom place names) : n ∈ place ∨ (n ∈ names ∧ n ≠ "..") := by
  induction names generalizing place with
  | nil => exact .inl h
  | cons name names ih =>
      by_cases hname : name = ".."
      · rw [hname, settledFrom_up] at h
        rcases ih h with hn | ⟨hn, hup⟩
        · exact .inl (List.dropLast_subset _ hn)
        · exact .inr ⟨List.mem_cons_of_mem _ hn, hup⟩
      · rw [settledFrom_down hname] at h
        rcases ih h with hn | ⟨hn, hup⟩
        · rcases List.mem_append.mp hn with hn | hn
          · exact .inl hn
          · obtain rfl := List.mem_singleton.mp hn
            exact .inr ⟨List.mem_cons_self, hname⟩
        · exact .inr ⟨List.mem_cons_of_mem _ hn, hup⟩

theorem length_settledFrom_le (place names : List String) :
    (settledFrom place names).length ≤ place.length + names.length := by
  induction names generalizing place with
  | nil => exact Nat.le_refl _
  | cons name names ih =>
      by_cases hname : name = ".."
      · rw [hname, settledFrom_up]
        have := ih place.dropLast
        simp only [List.length_dropLast, List.length_cons] at *
        omega
      · rw [settledFrom_down hname]
        have := ih (place ++ [name])
        simp only [List.length_append, List.length_cons, List.length_nil] at *
        omega

end Path

end CodeSurvey

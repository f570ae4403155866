import CodeSurvey.Endpoint.Route
import CodeSurvey.Proofs.LastPlace

/-!
# What a route is read off

Both layouts read a path in the same way. They look for a marker, which ends in a slash,
and cut the path at its last slash. What is in between are the directories that make the
route, the file behind the cut decides whether there is a route at all, and in the
layout of the pages directory it has a segment of its own.

`pagesRoute?_eq_some_iff` and `appRoute?_eq_some_iff` say so side by side, with the same
words for both: where the marker ends (`pagesEnd?`, `appEnd?`), the directory and the
file. What a directory contributes is told by its parts (`Route.segments_append`), and
what a part contributes is left as it is by a second reading (`Route.segment?_again`).
-/

namespace CodeSurvey

namespace Route

/-! ## Segments -/

/-- A group is a pair of parentheses with none in between. -/
theorem isGroup_iff {s : List Char} : isGroup s = true ↔
    ∃ g, s = '(' :: (g ++ [')']) ∧ ∀ c ∈ g, isParenthesis c = false := by
  constructor
  · intro h
    unfold isGroup at h
    split at h
    · rename_i cs
      refine ⟨cs.takeWhile fun c => !isParenthesis c, ?_, fun c hc => ?_⟩
      · rw [← eq_of_beq h, List.takeWhile_append_dropWhile]
      · simpa using List.all_eq_true.mp List.all_takeWhile c hc
    · cases h
  · rintro ⟨g, rfl, hg⟩
    have hdrop : (g ++ [')']).dropWhile (fun c => !isParenthesis c) = [')'] := by
      rw [List.dropWhile_append_of_pos fun c hc => by simp [hg c hc]]
      rfl
    show ((g ++ [')']).dropWhile (fun c => !isParenthesis c) == [')']) = true
    rw [hdrop]
    rfl

theorem subset_of_name? {cs name rest : List Char} (h : name? cs = some (name, rest)) :
    name ⊆ cs := by
  unfold name? at h
  dsimp only at h
  split at h
  · cases h
  · cases h
    exact (List.takeWhile_sublist _).subset

theorem subset_of_catchAll? {s name : List Char} (h : catchAll? s = some name) : name ⊆ s := by
  have hname : ∀ front cs rest, s = front ++ cs → name? cs = some (name, rest) → name ⊆ s := by
    rintro front cs rest rfl hcs
    exact List.subset_append_of_subset_right _ (subset_of_name? hcs)
  unfold catchAll? at h
  dsimp only at h
  split at h
  · rename_i name' hinner
    cases h
    split at hinner
    · exact hname ['[', '[', '.', '.', '.'] _ _ rfl hinner
    · exact hname ['[', '.', '.', '.'] _ _ rfl hinner
    · cases hinner
  · rename_i name' hinner
    cases h
    split at hinner
    · exact hname ['[', '[', '.', '.', '.'] _ _ rfl hinner
    · exact hname ['[', '.', '.', '.'] _ _ rfl hinner
    · cases hinner
  · cases h

theorem subset_of_dynamic? {s name : List Char} (h : dynamic? s = some name) : name ⊆ s := by
  unfold dynamic? at h
  split at h
  · split at h
    · rename_i hinner
      cases h
      exact List.subset_cons_of_subset _ (subset_of_name? hinner)
    · cases h
  · cases h

/-- A segment that is no group is copied or named behind a colon. -/
theorem of_segment? {s t : List Char} (h : segment? s = some t) :
    t = s ∨ ∃ name, t = ':' :: name ∧ ∀ c ∈ name, c ∈ s ∨ c = '*' := by
  unfold segment? at h
  split at h
  · cases h
  · split at h
    · rename_i name hname
      obtain rfl := Option.some.inj h
      refine .inr ⟨name ++ ['*'], rfl, fun c hc => ?_⟩
      rcases List.mem_append.mp hc with hc | hc
      · exact .inl (subset_of_catchAll? hname hc)
      · exact .inr (List.mem_singleton.mp hc)
    · split at h
      · rename_i name hname
        obtain rfl := Option.some.inj h
        exact .inr ⟨name, rfl, fun c hc => .inl (subset_of_dynamic? hname hc)⟩
      · obtain rfl := Option.some.inj h
        exact .inl rfl

theorem segment?_of_isGroup {s : List Char} (h : isGroup s = true) : segment? s = none := if_pos h

/-- What a segment contributes contributes itself. -/
theorem segment?_again {s t : List Char} (h : segment? s = some t) : segment? t = some t := by
  rcases of_segment? h with rfl | ⟨name, rfl, -⟩
  · exact h
  · rfl

theorem not_isGroup_of_segment? {s t : List Char} (h : segment? s = some t) :
    isGroup t = false := by
  cases hgroup : isGroup t with
  | false => rfl
  | true =>
      have hagain := segment?_again h
      rw [segment?_of_isGroup hgroup] at hagain
      cases hagain

/-! ## Directories -/

theorem segments_append (dir rest : List Char) :
    segments (dir ++ '/' :: rest) = segments dir ++ segments rest := by
  rw [segments, partsAt_append, List.filter_append, List.filterMap_append]
  rfl

theorem segments_slash (rest : List Char) : segments ('/' :: rest) = segments rest :=
  segments_append [] rest

theorem segments_of_isGroup {s : List Char} (h : isGroup s = true) (hslash : '/' ∉ s) :
    segments s = [] := by
  rw [segments, partsAt_of_notMem hslash, List.filterMap_eq_nil_iff]
  intro part hpart
  obtain rfl := List.mem_singleton.mp (List.mem_filter.mp hpart).1
  exact segment?_of_isGroup h

/-- Every segment of a route stems from a part of the directory. -/
theorem exists_part_of_mem_segments {dir s : List Char} (h : s ∈ segments dir) :
    ∃ part ∈ partsAt '/' dir, part ≠ [] ∧ segment? part = some s := by
  obtain ⟨part, hpart, hs⟩ := List.mem_filterMap.mp h
  obtain ⟨hmem, hne⟩ := List.mem_filter.mp hpart
  exact ⟨part, hmem, by simpa using hne, hs⟩

/-! ## The text of a route -/

theorem joinWith_eq (sep : Char) (part : List Char) (parts : List (List Char)) :
    joinWith sep (part :: parts) = part ++ parts.flatMap (sep :: ·) := by
  induction parts generalizing part with
  | nil => exact (List.append_nil part).symm
  | cons next parts ih => rw [joinWith, ih, List.flatMap_cons, List.cons_append]

theorem toList_text (segs : List (List Char)) :
    (text segs).toList = ['/', 'a', 'p', 'i'] ++ segs.flatMap ('/' :: ·) := by
  rw [text, String.toList_ofList, joinWith_eq]

theorem marker_ne_nil : marker ≠ [] := List.cons_ne_nil _ _

end Route

namespace RouteConfig

variable {c : RouteConfig} {path : List Char} {stop : Nat} {r : String}

/-! ## Where the markers end -/

/-- The path of the `api` directory of the pages directory. -/
def pagesMarker (c : RouteConfig) : List Char := c.pagesDir.toList ++ Route.marker

/-- The offset behind the marker of the pages directory: that at the front of the path,
else the last one that stands behind a slash. -/
def pagesEnd? (c : RouteConfig) (path : List Char) : Option Nat :=
  (if c.pagesMarker.isPrefixOf path then some 0
    else (lastPlace? ('/' :: c.pagesMarker) path).map (· + 1)).map (· + c.pagesMarker.length)

/-- The offset behind the last `api` directory. -/
def appEnd? (path : List Char) : Option Nat :=
  (lastPlace? Route.marker path).map (· + Route.marker.length)

/-- The marker of the pages directory ends with that of an `api` directory. -/
theorem exists_place_of_pagesEnd (h : c.pagesEnd? path = some stop) :
    ∃ place, StandsAtPlace Route.marker path place ∧ c.pagesDir.toList.length ≤ place
      ∧ place + Route.marker.length = stop := by
  rw [pagesEnd?] at h
  obtain ⟨start, hstart, rfl⟩ := Option.map_eq_some_iff.mp h
  have hplace : StandsAtPlace c.pagesMarker path start := by
    split at hstart
    · rename_i hfront
      obtain rfl := Option.some.inj hstart
      exact List.isPrefixOf_iff_prefix.mp hfront
    · obtain ⟨i, hi, rfl⟩ := Option.map_eq_some_iff.mp hstart
      have hslash : StandsAtPlace (['/'] ++ c.pagesMarker) path i :=
        ((lastPlace?_eq_some_iff (List.cons_ne_nil _ _)).mp hi).1
      exact hslash.behind
  refine ⟨_, hplace.behind, Nat.le_add_left _ _, ?_⟩
  rw [pagesMarker, List.length_append, Nat.add_assoc]

/-- A marker ends in a slash. -/
theorem exists_slash_of_pagesEnd (h : c.pagesEnd? path = some stop) :
    ∃ front back, path = front ++ '/' :: back ∧ front.length + 1 = stop := by
  obtain ⟨place, hplace, -, rfl⟩ := exists_place_of_pagesEnd h
  obtain ⟨front, back, rfl, rfl⟩ := hplace.exists_eq Route.marker_ne_nil
  exact ⟨front ++ ['/', 'a', 'p', 'i'], back, by simp [Route.marker], by simp [Route.marker]⟩

/-! ## The layouts -/

/-- A path cut at its last slash, seen from a slash in it. -/
theorem exists_below_of_cut {front back dir file : List Char}
    (h : cutAtLast? '/' (front ++ '/' :: back) = some (dir, file)) :
    ∃ below, dir = front ++ below ∧ '/' :: back = below ++ '/' :: file := by
  obtain ⟨heq, hfile⟩ := cutAtLast?_eq_some_iff.mp h
  rcases List.append_eq_append_iff.mp heq with ⟨below, hdir, hback⟩ | ⟨rest, hfront, hrest⟩
  · exact ⟨below, hdir, hback⟩
  · -- The slash does not stand behind the cut, so it is the one of the cut.
    cases rest with
    | nil => exact ⟨[], by simpa using hfront.symm, hrest.symm⟩
    | cons c rest =>
        obtain ⟨-, rfl⟩ := List.cons.inj hrest
        exact absurd List.mem_append_cons_self hfile

/-- What the name of a file contributes to a route of the pages directory, if it is the
name of a page. -/
def pageSegments? (c : RouteConfig) (file : List Char) : Option (List (List Char)) :=
  (cutAtLast? '.' file).bind fun cut =>
    if cut.1.isEmpty || !c.extensions.contains (String.ofList cut.2) then none
    else some (if cut.1 = "index".toList then [] else (Route.segment? cut.1).toList)

/-- The route of a page of which the path goes on at `i` behind the marker. -/
def pagesRouteFrom? (c : RouteConfig) (path : List Char) (i : Nat) : Option String :=
  let cut := (cutAtLast? '/' (path.drop i)).getD ([], path.drop i)
  (c.pageSegments? cut.2).map fun own => Route.text (Route.segments cut.1 ++ own)

theorem pagesRoute?_eq (c : RouteConfig) (path : List Char) : c.pagesRoute? path
    = if c.pagesDir = "" then none else (c.pagesEnd? path).bind (c.pagesRouteFrom? path) := by
  unfold pagesRoute? pagesEnd? pagesRouteFrom? pageSegments? pagesMarker
  split
  · rfl
  dsimp only
  split
  · simp only [Option.bind_eq_bind, Option.bind_some, Option.map_some, Option.map_bind]
    congr 1
    funext cut
    dsimp only [Function.comp]
    split
    · rfl
    · rfl
  · cases lastPlace? _ path with
    | none => rfl
    | some k =>
        simp only [Option.bind_eq_bind, Option.bind_some, Option.map_some, Option.map_bind]
        congr 1
        funext cut
        dsimp only [Function.comp]
        split
        · rfl
        · rfl

theorem pagesRouteFrom?_eq {dir file : List Char} (hstop : c.pagesEnd? path = some stop)
    (hcut : cutAtLast? '/' path = some (dir, file)) : c.pagesRouteFrom? path stop
      = (c.pageSegments? file).map fun own =>
        Route.text (Route.segments (dir.drop (stop - 1)) ++ own) := by
  obtain ⟨front, back, rfl, rfl⟩ := exists_slash_of_pagesEnd hstop
  have hback : (front ++ '/' :: back).drop (front.length + 1) = back := by
    rw [← List.drop_drop, List.drop_left]
    rfl
  have hfile : '/' ∉ file := (cutAtLast?_eq_some_iff.mp hcut).2
  obtain ⟨below, rfl, hbelow⟩ := exists_below_of_cut hcut
  rw [pagesRouteFrom?, hback, Nat.add_sub_cancel, List.drop_left]
  cases below with
  | nil =>
      obtain ⟨-, rfl⟩ := List.cons.inj hbelow
      rw [cutAtLast?_eq_none_iff.mpr hfile]
      rfl
  | cons slash below =>
      obtain ⟨rfl, heq⟩ := List.cons.inj hbelow
      rw [heq, List.append_eq, cutAtLast?_append hfile, Route.segments_slash]
      rfl

theorem exists_cut_of_slash (front back : List Char) :
    ∃ dir file, cutAtLast? '/' (front ++ '/' :: back) = some (dir, file) := by
  obtain ⟨dir, file, hpath, hfile⟩ :=
    exists_cut_of_mem (List.mem_append_cons_self : '/' ∈ front ++ '/' :: back)
  exact ⟨dir, file, cutAtLast?_eq_some_iff.mpr ⟨hpath, hfile⟩⟩

/-- A route of the pages directory is made of the directories behind the marker and of
the name of the file. -/
theorem pagesRoute?_eq_some_iff : c.pagesRoute? path = some r ↔ c.pagesDir ≠ ""
    ∧ ∃ stop dir file own, c.pagesEnd? path = some stop ∧ cutAtLast? '/' path = some (dir, file)
      ∧ c.pageSegments? file = some own
      ∧ r = Route.text (Route.segments (dir.drop (stop - 1)) ++ own) := by
  rw [pagesRoute?_eq]
  constructor
  · intro h
    split at h
    · cases h
    · rename_i hdir
      obtain ⟨stop, hstop, hfrom⟩ := Option.bind_eq_some_iff.mp h
      obtain ⟨front, back, rfl, -⟩ := exists_slash_of_pagesEnd hstop
      obtain ⟨dir, file, hcut⟩ := exists_cut_of_slash front back
      rw [pagesRouteFrom?_eq hstop hcut] at hfrom
      obtain ⟨own, hown, rfl⟩ := Option.map_eq_some_iff.mp hfrom
      exact ⟨hdir, stop, dir, file, own, hstop, hcut, hown, rfl⟩
  · rintro ⟨hdir, stop, dir, file, own, hstop, hcut, hown, rfl⟩
    rw [if_neg hdir, hstop, Option.bind_some, pagesRouteFrom?_eq hstop hcut, hown]
    rfl

/-- A route of an `api` directory is made of the directories behind the marker; the name of
the file only decides whether there is one. -/
theorem appRoute?_eq_some_iff : c.appRoute? path = some r
    ↔ ∃ stop dir file, appEnd? path = some stop ∧ cutAtLast? '/' path = some (dir, file)
      ∧ c.isEntry file = true ∧ r = Route.text (Route.segments (dir.drop (stop - 1))) := by
  unfold appRoute? appEnd?
  simp only [Option.bind_eq_bind, Option.bind_eq_some_iff, Option.map_eq_some_iff]
  constructor
  · rintro ⟨place, hplace, ⟨dir, file⟩, hcut, h⟩
    dsimp only at h
    split at h
    · cases h
    · rename_i hentry
      exact ⟨_, dir, file, ⟨place, hplace, rfl⟩, hcut, by simpa using hentry,
        (Option.some.inj h).symm⟩
  · rintro ⟨-, dir, file, ⟨place, hplace, rfl⟩, hcut, hentry, rfl⟩
    refine ⟨place, hplace, (dir, file), hcut, ?_⟩
    dsimp only
    rw [hentry]
    rfl

end RouteConfig

end CodeSurvey

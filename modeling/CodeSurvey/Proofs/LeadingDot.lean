import CodeSurvey.Proofs.RouteParts

/-!
# Paths with a dot in front

A relative path stays the path of the same file if `./` is put in front of it. Whether it
keeps its route is decided by the first of its directories, because the layouts look for
their markers in different ways:

- an `api` directory counts behind a slash only, so one at the front of a path does not,
  unless the dot is in front of it;
- the marker of the pages directory counts at the front as well, and there before all
  others, so with the dot in front of it a later one takes its place;
- a pages directory that is itself written with a dot in front is found at the front of
  paths that are written so, and of no others.

`RouteConfig.FrontDecides` says when one of the three makes a difference, and the route is
kept in all other cases and in no others (`route?_leadingDot_iff`). The argument is that
both paths are read behind the same place unless a marker at the front has a part in it
(`lastEnd?_dotted`), and that of two places to read behind the earlier one gives more
segments (`exists_segments_of_lt`).
-/

namespace CodeSurvey

/-- The path with a dot in front. -/
def dotted (path : List Char) : List Char := '.' :: '/' :: path

theorem withSlashes_dotted (path : String) :
    withSlashes ("./" ++ path) = dotted (withSlashes path) := by
  rw [withSlashes, String.toList_append, List.map_append]
  rfl

/-! ## The text of a route -/

namespace Route

theorem length_flatMap_of_text_eq {segs segs' : List (List Char)} (h : text segs = text segs') :
    (segs.flatMap ('/' :: ·)).length = (segs'.flatMap ('/' :: ·)).length := by
  have hlists := congrArg String.toList h
  rw [toList_text, toList_text] at hlists
  exact congrArg List.length (List.append_cancel_left hlists)

/-- A route with more segments in front is another one. -/
theorem text_ne_of_append {front segs : List (List Char)} (hne : front ≠ [])
    (own : List (List Char)) : text (front ++ segs ++ own) ≠ text segs := by
  intro h
  have hlength := length_flatMap_of_text_eq h
  obtain ⟨s, front, rfl⟩ := List.exists_cons_of_ne_nil hne
  simp only [List.flatMap_append, List.flatMap_cons, List.length_append, List.length_cons]
    at hlength
  omega

theorem text_append_inj {segs own : List (List Char)} (h : text (segs ++ own) = text segs) :
    own = [] := by
  have hlength := length_flatMap_of_text_eq h
  cases own with
  | nil => rfl
  | cons s own =>
      simp only [List.flatMap_append, List.flatMap_cons, List.length_append, List.length_cons]
        at hlength
      omega

/-- The path of an `api` directory, without a slash in front. -/
def apiMarker : List Char := ['a', 'p', 'i', '/']

theorem apiMarker_ne_nil : apiMarker ≠ [] := List.cons_ne_nil _ _

/-- Of two slashes the earlier one has more segments behind it, if the later one ends an
`api` directory. -/
theorem exists_segments_of_lt {path dir file front back : List Char} {place : Nat}
    (hcut : cutAtLast? '/' path = some (dir, file)) (hslash : path = front ++ '/' :: back)
    (hplace : StandsAtPlace marker path place) (hlt : front.length < place + 4) :
    ∃ more ≠ [], segments (dir.drop front.length) = more ++ segments (dir.drop (place + 4)) := by
  have hle : front.length ≤ place := by
    -- There is no slash within the name of the directory.
    refine Nat.le_of_not_lt fun hgt => ?_
    have hchar := hplace.getElem? (k := front.length - place) (by simp [marker]; omega)
    rw [Nat.add_sub_cancel' (Nat.le_of_lt hgt), hslash,
      List.getElem?_append_right (Nat.le_refl _), Nat.sub_self] at hchar
    obtain hk | hk | hk : front.length - place = 1 ∨ front.length - place = 2
        ∨ front.length - place = 3 := by omega
    · rw [hk] at hchar
      exact absurd hchar (by simp [marker])
    · rw [hk] at hchar
      exact absurd hchar (by simp [marker])
    · rw [hk] at hchar
      exact absurd hchar (by simp [marker])
  obtain ⟨before, rest, hpath, rfl⟩ := hplace.exists_eq marker_ne_nil
  have hend : path = (before ++ ['/', 'a', 'p', 'i']) ++ '/' :: rest := by
    rw [hpath]
    simp [marker]
  obtain ⟨below, rfl, hbelow⟩ := RouteConfig.exists_below_of_cut (hend ▸ hcut)
  have hdrop : ((before ++ ['/', 'a', 'p', 'i']) ++ below).drop (before.length + 4) = below :=
    List.drop_left' (by simp)
  have hsegments : segments (['a', 'p', 'i'] ++ below) = ['a', 'p', 'i'] :: segments below := by
    cases below with
    | nil => rfl
    | cons slash below =>
        obtain ⟨rfl, -⟩ := List.cons.inj hbelow
        rw [segments_append, segments_slash]
        rfl
  refine ⟨segments (before.drop front.length) ++ [['a', 'p', 'i']], by simp, ?_⟩
  rw [hdrop, List.append_assoc, List.drop_append_of_le_length hle]
  show segments (before.drop front.length ++ '/' :: (['a', 'p', 'i'] ++ below)) = _
  rw [segments_append, hsegments, List.append_assoc]
  rfl

end Route

/-! ## Where a marker ends -/

section Places

variable {marker path : List Char} {stop : Nat}

/-- The offset behind the last place at which the marker stands behind a slash. -/
def lastEnd? (marker path : List Char) : Option Nat :=
  (lastPlace? ('/' :: marker) path).map (· + 1 + marker.length)

theorem lastPlace?_dotted (marker path : List Char) : lastPlace? ('/' :: marker) (dotted path)
    = ((lastPlace? ('/' :: marker) path).map (· + 2)).or
      (if marker.isPrefixOf path then some 1 else none) := by
  have hslash : ('/' :: marker).isPrefixOf ('/' :: path) = marker.isPrefixOf path := by
    simp [List.isPrefixOf]
  have hdot : ('/' :: marker).isPrefixOf ('.' :: '/' :: path) = false := by
    simp [List.isPrefixOf]
  rw [dotted, lastPlace?, lastPlace?, hslash, hdot]
  cases lastPlace? ('/' :: marker) path with
  | some i => rfl
  | none => cases marker.isPrefixOf path <;> rfl

/-- With the dot in front, a marker at the front counts, if there is no other one. -/
theorem lastEnd?_dotted (marker path : List Char) : lastEnd? marker (dotted path)
    = ((lastEnd? marker path).or
      (if marker.isPrefixOf path then some marker.length else none)).map (· + 2) := by
  rw [lastEnd?, lastEnd?, lastPlace?_dotted]
  cases lastPlace? ('/' :: marker) path with
  | some i => simp; omega
  | none => cases marker.isPrefixOf path <;> simp; omega

theorem lastEnd?_eq_none_iff :
    lastEnd? marker path = none ↔ ∀ i, ¬StandsAtPlace ('/' :: marker) path i := by
  rw [lastEnd?, Option.map_eq_none_iff, lastPlace?_eq_none_iff (List.cons_ne_nil _ _)]

theorem exists_place_of_lastEnd (h : lastEnd? marker path = some stop) :
    ∃ i, StandsAtPlace ('/' :: marker) path i ∧ i + 1 + marker.length = stop := by
  obtain ⟨i, hi, rfl⟩ := Option.map_eq_some_iff.mp h
  exact ⟨i, ((lastPlace?_eq_some_iff (List.cons_ne_nil _ _)).mp hi).1, rfl⟩

end Places

/-! ## Reading behind a marker -/

/-- The route that is read behind an offset in the directory, with the segments that the name
of the file has. -/
def Route.behind (dir : List Char) (own : List (List Char)) (stop : Nat) : String :=
  Route.text (Route.segments (dir.drop (stop - 1)) ++ own)

theorem cutAtLast?_dotted {path dir file : List Char}
    (hcut : cutAtLast? '/' path = some (dir, file)) :
    cutAtLast? '/' (dotted path) = some (dotted dir, file) := by
  obtain ⟨rfl, hfile⟩ := cutAtLast?_eq_some_iff.mp hcut
  show cutAtLast? '/' (dotted dir ++ '/' :: file) = _
  exact cutAtLast?_append hfile

/-- What is read behind a marker is read there with the dot in front as well. -/
theorem Route.map_behind_dotted {stop? : Option Nat} (hpos : ∀ stop ∈ stop?, 0 < stop)
    (dir : List Char) (own : List (List Char)) :
    (stop?.map (· + 2)).map (Route.behind (dotted dir) own) = stop?.map (Route.behind dir own) := by
  cases stop? with
  | none => rfl
  | some stop =>
      obtain ⟨k, rfl⟩ := Nat.exists_eq_add_of_lt (hpos stop rfl)
      rfl

theorem pos_of_lastEnd_or {marker path : List Char} (hne : marker ≠ []) :
    ∀ stop ∈ (lastEnd? marker path).or
      (if marker.isPrefixOf path then some marker.length else none), 0 < stop := by
  intro stop hstop
  rcases Option.or_eq_some_iff.mp hstop with h | ⟨-, h⟩
  · obtain ⟨i, -, rfl⟩ := exists_place_of_lastEnd h
    omega
  · obtain ⟨-, hlength⟩ := Option.ite_none_right_eq_some.mp h
    obtain rfl := Option.some.inj hlength
    exact List.length_pos_iff.mpr hne

namespace RouteConfig

variable {c : RouteConfig} {path dir file rest : List Char} {own : List (List Char)}
  {stop place : Nat}

theorem appRoute?_of_isEntry (hcut : cutAtLast? '/' path = some (dir, file))
    (hentry : c.isEntry file = true) :
    c.appRoute? path = (lastEnd? Route.apiMarker path).map (Route.behind dir []) := by
  have hend : appEnd? path = lastEnd? Route.apiMarker path := rfl
  ext r
  rw [appRoute?_eq_some_iff, hend, Option.map_eq_some_iff]
  constructor
  · rintro ⟨stop, dir', file', hstop, hcut', -, rfl⟩
    cases hcut.symm.trans hcut'
    exact ⟨stop, hstop, by rw [Route.behind, List.append_nil]⟩
  · rintro ⟨stop, hstop, rfl⟩
    exact ⟨stop, dir, file, hstop, hcut, hentry, by rw [Route.behind, List.append_nil]⟩

theorem appRoute?_of_not_isEntry (hcut : cutAtLast? '/' path = some (dir, file))
    (hentry : ¬c.isEntry file = true) : c.appRoute? path = none := by
  refine Option.eq_none_iff_forall_ne_some.mpr fun r h => ?_
  obtain ⟨-, dir', file', -, hcut', hentry', -⟩ := appRoute?_eq_some_iff.mp h
  cases hcut.symm.trans hcut'
  exact hentry hentry'

theorem pagesRoute?_of_isPage (hcut : cutAtLast? '/' path = some (dir, file))
    (hdir : c.pagesDir ≠ "") (hpage : c.pageSegments? file = some own) :
    c.pagesRoute? path = (c.pagesEnd? path).map (Route.behind dir own) := by
  ext r
  rw [pagesRoute?_eq_some_iff, Option.map_eq_some_iff]
  constructor
  · rintro ⟨-, stop, dir', file', own', hstop, hcut', hpage', rfl⟩
    cases hcut.symm.trans hcut'
    cases hpage.symm.trans hpage'
    exact ⟨stop, hstop, rfl⟩
  · rintro ⟨stop, hstop, rfl⟩
    exact ⟨hdir, stop, dir, file, own, hstop, hcut, hpage, rfl⟩

theorem pagesRoute?_of_not_isPage (hcut : cutAtLast? '/' path = some (dir, file))
    (hpage : c.pagesDir = "" ∨ c.pageSegments? file = none) : c.pagesRoute? path = none := by
  refine Option.eq_none_iff_forall_ne_some.mpr fun r h => ?_
  obtain ⟨hdir, -, dir', file', own, -, hcut', hown, -⟩ := pagesRoute?_eq_some_iff.mp h
  cases hcut.symm.trans hcut'
  rcases hpage with hpage | hpage
  · exact hdir hpage
  · rw [hpage] at hown
    cases hown

theorem pagesEnd?_eq (c : RouteConfig) (path : List Char) : c.pagesEnd? path
    = if c.pagesMarker.isPrefixOf path then some c.pagesMarker.length
      else lastEnd? c.pagesMarker path := by
  rw [pagesEnd?, lastEnd?]
  split
  · rw [Option.map_some, Nat.zero_add]
  · rw [Option.map_map]
    rfl

theorem pagesMarker_eq (c : RouteConfig) :
    c.pagesMarker = (c.pagesDir.toList ++ ['/', 'a', 'p', 'i']) ++ ['/'] := by
  rw [pagesMarker, List.append_assoc]
  rfl

theorem length_pagesMarker (c : RouteConfig) :
    c.pagesMarker.length = c.pagesDir.toList.length + 5 := by
  rw [pagesMarker, List.length_append]
  rfl

/-- A marker that stands behind a slash ends an `api` directory. -/
theorem standsAtPlace_of_pagesMarker {i : Nat}
    (h : StandsAtPlace ('/' :: c.pagesMarker) path i) :
    StandsAtPlace Route.marker path (i + 1 + c.pagesDir.toList.length) := by
  have hsplit : '/' :: c.pagesMarker = ('/' :: c.pagesDir.toList) ++ Route.marker := rfl
  rw [hsplit] at h
  have hbehind := h.behind
  rwa [List.length_cons, Nat.add_comm c.pagesDir.toList.length, ← Nat.add_assoc] at hbehind

/-- Read behind the marker at the front of a path and behind a later one, a page has two
routes. -/
theorem behind_ne_behind (hcut : cutAtLast? '/' path = some (dir, file)) {front : List Char}
    (hfront : front ++ ['/'] <+: path) (hplace : StandsAtPlace Route.marker path place)
    (hlt : front.length < place + 4) (own own' : List (List Char)) :
    Route.behind dir (own ++ own') (front.length + 1) ≠ Route.behind dir own (place + 5) := by
  obtain ⟨back, hback⟩ := hfront
  have hslash : path = front ++ '/' :: back := by rw [← hback, List.append_assoc]; rfl
  obtain ⟨more, hne, hsegments⟩ := Route.exists_segments_of_lt hcut hslash hplace hlt
  show Route.text (Route.segments (dir.drop front.length) ++ (own ++ own'))
    ≠ Route.text (Route.segments (dir.drop (place + 4)) ++ own)
  rw [hsegments, ← List.append_assoc, List.append_assoc more]
  exact Route.text_ne_of_append hne own'

/-! ## The front of a path -/

/-- The front of the path makes a difference to the route of the file `file`. -/
inductive FrontDecidesFor (c : RouteConfig) (path file : List Char) : Prop where
  /-- There is the only `api` directory of the path. -/
  | api (hentry : c.isEntry file = true) (hfront : Route.apiMarker <+: path)
    (honly : ∀ i, ¬StandsAtPlace Route.marker path i)
  /-- There is the marker of the pages directory, and it stands further on as well. -/
  | pages (hdir : c.pagesDir ≠ "") (hpage : (c.pageSegments? file).isSome = true)
    (hfront : c.pagesMarker <+: path) (hlater : ∃ i, StandsAtPlace ('/' :: c.pagesMarker) path i)
  /-- There is what is left of the marker of the pages directory without the dot in front of
  it, and what is read behind it is not what is read behind the last `api` directory. -/
  | pagesWithDot {rest : List Char} {own : List (List Char)} (hmarker : c.pagesMarker = dotted rest)
    (hfront : rest <+: path) (hpage : c.pageSegments? file = some own)
    (hother : ¬(c.isEntry file = true ∧ own = [] ∧ appEnd? path = some rest.length))

/-- The front of the path makes a difference to its route. -/
def FrontDecides (c : RouteConfig) (path : List Char) : Prop :=
  ∃ dir file, cutAtLast? '/' path = some (dir, file) ∧ c.FrontDecidesFor path file

/-! ### The layout of an `api` directory -/

/-- The layout reads both paths alike, unless the only `api` directory is at the front. -/
theorem appRoute?_dotted_eq_iff (hcut : cutAtLast? '/' path = some (dir, file)) :
    c.appRoute? (dotted path) = c.appRoute? path
      ↔ ¬(c.isEntry file = true ∧ Route.apiMarker <+: path
        ∧ ∀ i, ¬StandsAtPlace Route.marker path i) := by
  by_cases hentry : c.isEntry file = true
  · rw [appRoute?_of_isEntry (cutAtLast?_dotted hcut) hentry, appRoute?_of_isEntry hcut hentry,
      lastEnd?_dotted, Route.map_behind_dotted (pos_of_lastEnd_or Route.apiMarker_ne_nil)]
    cases hlast : lastEnd? Route.apiMarker path with
    | some stop =>
        obtain ⟨i, hi, -⟩ := exists_place_of_lastEnd hlast
        exact ⟨fun _ h => h.2.2 i hi, fun _ => rfl⟩
    | none =>
        have hnone := lastEnd?_eq_none_iff.mp hlast
        rw [Option.none_or]
        split
        · rename_i hfront
          have hprefix := List.isPrefixOf_iff_prefix.mp hfront
          exact ⟨fun h => (nomatch h), fun h => absurd ⟨hentry, hprefix, hnone⟩ h⟩
        · rename_i hfront
          exact ⟨fun _ h => hfront (List.isPrefixOf_iff_prefix.mpr h.2.1), fun _ => rfl⟩
  · rw [appRoute?_of_not_isEntry (cutAtLast?_dotted hcut) hentry,
      appRoute?_of_not_isEntry hcut hentry]
    exact ⟨fun _ h => hentry h.1, fun _ => rfl⟩

/-! ### The layout of the pages directory -/

theorem pagesMarker_ne_nil (c : RouteConfig) : c.pagesMarker ≠ [] := by
  intro h
  have hlength := c.length_pagesMarker
  rw [h] at hlength
  cases hlength

/-- Without the dot in front, the marker at the front comes first, with it it comes last. -/
theorem pagesEnd?_dotted (hdot : ¬c.pagesMarker <+: dotted path) : c.pagesEnd? (dotted path)
    = ((lastEnd? c.pagesMarker path).or
      (if c.pagesMarker.isPrefixOf path then some c.pagesMarker.length else none)).map (· + 2) := by
  rw [pagesEnd?_eq, if_neg fun h => hdot (List.isPrefixOf_iff_prefix.mp h), lastEnd?_dotted]

theorem pagesEnd?_dotted_eq_none_iff (hdot : ¬c.pagesMarker <+: dotted path) :
    c.pagesEnd? (dotted path) = none ↔ c.pagesEnd? path = none := by
  rw [pagesEnd?_dotted hdot, Option.map_eq_none_iff, Option.or_eq_none_iff, pagesEnd?_eq]
  split
  · exact ⟨fun h => (nomatch h.2), fun h => (nomatch h)⟩
  · exact ⟨And.left, fun h => ⟨h, rfl⟩⟩

/-- A page is read alike in both paths, unless there is a marker at the front and another
one further on. -/
theorem map_pagesEnd?_dotted_eq_iff (hcut : cutAtLast? '/' path = some (dir, file))
    (hdot : ¬c.pagesMarker <+: dotted path) (own : List (List Char)) :
    (c.pagesEnd? (dotted path)).map (Route.behind (dotted dir) own)
        = (c.pagesEnd? path).map (Route.behind dir own)
      ↔ ¬(c.pagesMarker <+: path ∧ ∃ i, StandsAtPlace ('/' :: c.pagesMarker) path i) := by
  rw [pagesEnd?_dotted hdot, Route.map_behind_dotted (pos_of_lastEnd_or c.pagesMarker_ne_nil),
    pagesEnd?_eq]
  by_cases hfront : c.pagesMarker <+: path
  · have hfront' := List.isPrefixOf_iff_prefix.mpr hfront
    rw [if_pos hfront', if_pos hfront']
    cases hlast : lastEnd? c.pagesMarker path with
    | none =>
        have hnone := lastEnd?_eq_none_iff.mp hlast
        exact ⟨fun _ ⟨_, i, hi⟩ => hnone i hi, fun _ => rfl⟩
    | some stop =>
        obtain ⟨i, hi, rfl⟩ := exists_place_of_lastEnd hlast
        refine ⟨fun h => ?_, fun h => absurd ⟨hfront, i, hi⟩ h⟩
        have hlength : (c.pagesDir.toList ++ ['/', 'a', 'p', 'i']).length
            = c.pagesDir.toList.length + 4 := List.length_append
        rw [pagesMarker_eq] at hfront
        have hne := behind_ne_behind hcut hfront (standsAtPlace_of_pagesMarker hi) (by omega) own []
        rw [List.append_nil, hlength, Nat.add_assoc _ 4, ← length_pagesMarker, Nat.add_assoc _ _ 5,
          ← length_pagesMarker] at hne
        exact absurd (Option.some.inj h).symm hne
  · have hfront' := fun h => hfront (List.isPrefixOf_iff_prefix.mp h)
    rw [if_neg hfront', if_neg hfront', Option.or_none]
    exact ⟨fun _ h => hfront h.1, fun _ => rfl⟩

/-! ### A pages directory that is written with a dot in front -/

/-- The marker of a pages directory that is written with a dot in front. -/
theorem exists_dotted_of_prefix (h : c.pagesMarker <+: dotted path) :
    ∃ rest, c.pagesMarker = dotted rest ∧ rest <+: path := by
  have hlength := c.length_pagesMarker
  obtain ⟨back, hback⟩ := h
  cases hmarker : c.pagesMarker with
  | nil => exact absurd hmarker c.pagesMarker_ne_nil
  | cons dot marker =>
      cases marker with
      | nil =>
          rw [hmarker] at hlength
          simp only [List.length_cons, List.length_nil] at hlength
          omega
      | cons slash rest =>
          rw [hmarker] at hback
          obtain ⟨rfl, htail⟩ := List.cons.inj hback
          obtain ⟨rfl, hrest⟩ := List.cons.inj htail
          exact ⟨rest, rfl, back, hrest⟩

/-- The last `api` directory stands behind all others. -/
theorem exists_last_of_appEnd (h : appEnd? path = some stop) :
    ∃ last, last + 5 = stop ∧ StandsAtPlace Route.marker path last
      ∧ ∀ place, StandsAtPlace Route.marker path place → place ≤ last := by
  obtain ⟨last, hlast, rfl⟩ := Option.map_eq_some_iff.mp h
  obtain ⟨hstands, hlater⟩ := (lastPlace?_eq_some_iff Route.marker_ne_nil).mp hlast
  exact ⟨last, rfl, hstands, fun place hplace => Nat.le_of_not_lt fun hlt => hlater place hlt hplace⟩

theorem length_of_dotted (hmarker : c.pagesMarker = dotted rest) :
    rest.length = c.pagesDir.toList.length + 3 := by
  have hlength := c.length_pagesMarker
  rw [hmarker] at hlength
  simp only [dotted, List.length_cons] at hlength
  omega

theorem pagesDir_ne_of_dotted (hmarker : c.pagesMarker = dotted rest) : c.pagesDir ≠ "" := by
  intro hdir
  rw [pagesMarker, hdir] at hmarker
  cases hmarker

theorem exists_front_of_dotted (hmarker : c.pagesMarker = dotted rest) :
    ∃ front, rest = front ++ ['/'] ∧ front.length = c.pagesDir.toList.length + 2 := by
  have hlength := length_of_dotted hmarker
  rw [pagesMarker_eq] at hmarker
  obtain ⟨d, hd⟩ : ∃ d, c.pagesDir.toList ++ ['/', 'a', 'p', 'i'] = '.' :: '/' :: d := by
    cases hpages : c.pagesDir.toList ++ ['/', 'a', 'p', 'i'] with
    | nil => exact absurd hpages (by simp)
    | cons dot d =>
        cases d with
        | nil => exact absurd (congrArg List.length hpages) (by simp)
        | cons slash d =>
            rw [hpages] at hmarker
            obtain ⟨rfl, htail⟩ := List.cons.inj hmarker
            obtain ⟨rfl, -⟩ := List.cons.inj htail
            exact ⟨d, rfl⟩
  rw [hd] at hmarker
  have hrest : d ++ ['/'] = rest := (List.cons.inj (List.cons.inj hmarker).2).2
  refine ⟨d, hrest.symm, ?_⟩
  rw [← hrest, List.length_append] at hlength
  simpa using hlength

/-- No `api` directory ends before the marker without its dot, if there is one at all. -/
theorem length_le_of_dotted (hmarker : c.pagesMarker = dotted rest) (hfront : rest <+: path)
    (hstop : appEnd? path = some stop) : rest.length ≤ stop := by
  obtain ⟨last, rfl, -, hlast⟩ := exists_last_of_appEnd hstop
  have hlength := length_of_dotted hmarker
  refine Nat.le_of_not_lt fun hlt => ?_
  obtain ⟨front, hrest⟩ : ∃ front, rest = front ++ Route.marker := by
    -- The directory has more than its dot in front of the marker.
    cases hdir : c.pagesDir.toList with
    | nil => rw [hdir] at hlength; simp only [List.length_nil] at hlength; omega
    | cons dot dir =>
        cases dir with
        | nil => rw [hdir] at hlength; simp only [List.length_cons, List.length_nil] at hlength; omega
        | cons slash dir =>
            rw [pagesMarker, hdir] at hmarker
            exact ⟨dir, (List.cons.inj (List.cons.inj hmarker).2).2.symm⟩
  have hplace : StandsAtPlace Route.marker path front.length := by
    obtain ⟨back, rfl⟩ := hfront
    rw [hrest, List.append_assoc]
    exact standsAtPlace_append_left (i := 0).mpr (List.prefix_append _ _)
  rw [hrest, List.length_append] at hlt
  exact absurd (hlast front.length hplace) (Nat.not_le_of_lt (Nat.lt_of_add_lt_add_right hlt))

/-- Read behind the marker without its dot and behind the last `api` directory, a path has
two routes, unless the second is where the first is and the file has no segment of its own. -/
theorem behind_eq_behind_iff (hcut : cutAtLast? '/' path = some (dir, file))
    (hmarker : c.pagesMarker = dotted rest) (hfront : rest <+: path)
    (hstop : appEnd? path = some stop) :
    Route.behind dir own rest.length = Route.behind dir [] stop
      ↔ own = [] ∧ stop = rest.length := by
  constructor
  · intro h
    rcases Nat.lt_or_eq_of_le (length_le_of_dotted hmarker hfront hstop) with hlt | heq
    · obtain ⟨last, rfl, hplace, -⟩ := exists_last_of_appEnd hstop
      obtain ⟨front, rfl, -⟩ := exists_front_of_dotted hmarker
      rw [List.length_append, List.length_singleton] at hlt h
      exact absurd h (behind_ne_behind hcut hfront hplace (by omega) [] own)
    · subst heq
      rw [Route.behind, Route.behind, List.append_nil] at h
      exact ⟨Route.text_append_inj h, rfl⟩
  · rintro ⟨rfl, rfl⟩
    rfl

/-- With the dot in front, the marker is at the front; without it, the path is read behind a
later marker or behind the last `api` directory. -/
theorem behind_dotted_eq_iff (hcut : cutAtLast? '/' path = some (dir, file))
    (hpage : c.pageSegments? file = some own) (hmarker : c.pagesMarker = dotted rest)
    (hfront : rest <+: path) :
    some (Route.behind dir own rest.length) = (c.pagesRoute? path).or (c.appRoute? path)
      ↔ c.isEntry file = true ∧ own = [] ∧ appEnd? path = some rest.length := by
  have hdir := pagesDir_ne_of_dotted hmarker
  rw [pagesRoute?_of_isPage hcut hdir hpage]
  cases hend : c.pagesEnd? path with
  | some stop =>
      obtain ⟨place, hplace, hle, rfl⟩ := exists_place_of_pagesEnd hend
      have hlength := length_of_dotted hmarker
      have hfive : Route.marker.length = 5 := rfl
      refine ⟨fun h => ?_, fun h => ?_⟩
      · obtain ⟨front, rfl, hfrontLength⟩ := exists_front_of_dotted hmarker
        have hne := behind_ne_behind hcut hfront hplace (by omega) own []
        rw [List.append_nil] at hne
        rw [List.length_append] at h
        exact absurd (Option.some.inj h) hne
      · obtain ⟨-, -, happ⟩ := h
        obtain ⟨last, hstop, -, hlast⟩ := exists_last_of_appEnd happ
        have hplaceLast := hlast place hplace
        omega
  | none =>
      rw [Option.map_none, Option.none_or]
      by_cases hentry : c.isEntry file = true
      · rw [appRoute?_of_isEntry hcut hentry]
        cases happ : lastEnd? Route.apiMarker path with
        | none =>
            refine ⟨fun h => (nomatch h), fun h => ?_⟩
            cases happ.symm.trans h.2.2
        | some stop =>
            rw [Option.map_some, Option.some.injEq, behind_eq_behind_iff hcut hmarker hfront happ]
            refine ⟨fun h => ⟨hentry, h.1, ?_⟩, fun h => ⟨h.2.1, ?_⟩⟩
            · exact happ.trans (congrArg some h.2)
            · exact Option.some.inj (happ.symm.trans h.2.2)
      · rw [appRoute?_of_not_isEntry hcut hentry]
        exact ⟨fun h => (nomatch h), fun h => absurd h.1 hentry⟩

/-! ## The route -/

theorem pagesEnd?_of_dotted (hmarker : c.pagesMarker = dotted rest) (hfront : rest <+: path) :
    c.pagesEnd? (dotted path) = some (rest.length + 2) := by
  have hprefix : c.pagesMarker.isPrefixOf (dotted path) = true := by
    rw [List.isPrefixOf_iff_prefix, hmarker]
    exact (List.prefix_append_right_inj ['.', '/']).mpr hfront
  rw [pagesEnd?_eq, if_pos hprefix, hmarker]
  rfl

/-- The file is no page: only the layout of an `api` directory has a route for it. -/
theorem routes_dotted_of_not_isPage (hcut : cutAtLast? '/' path = some (dir, file))
    (hpage : c.pagesDir = "" ∨ c.pageSegments? file = none) :
    (c.pagesRoute? (dotted path)).or (c.appRoute? (dotted path))
        = (c.pagesRoute? path).or (c.appRoute? path) ↔ ¬c.FrontDecidesFor path file := by
  rw [pagesRoute?_of_not_isPage (cutAtLast?_dotted hcut) hpage,
    pagesRoute?_of_not_isPage hcut hpage, Option.none_or, Option.none_or,
    appRoute?_dotted_eq_iff hcut]
  refine not_congr ⟨fun ⟨hentry, hfront, honly⟩ => .api hentry hfront honly, ?_⟩
  rintro (⟨hentry, hfront, honly⟩ | ⟨hdir, hsome, -, -⟩ | ⟨hmarker, -, hsome, -⟩)
  · exact ⟨hentry, hfront, honly⟩
  · rcases hpage with hpage | hpage
    · exact absurd hpage hdir
    · rw [hpage] at hsome
      cases hsome
  · rcases hpage with hpage | hpage
    · exact absurd hpage (pagesDir_ne_of_dotted hmarker)
    · rw [hpage] at hsome
      cases hsome

/-- The marker has a dot in front, and the path begins with the rest of it. -/
theorem routes_dotted_of_dottedMarker (hcut : cutAtLast? '/' path = some (dir, file))
    (hpage : c.pageSegments? file = some own) (hmarker : c.pagesMarker = dotted rest)
    (hfront : rest <+: path) :
    (c.pagesRoute? (dotted path)).or (c.appRoute? (dotted path))
        = (c.pagesRoute? path).or (c.appRoute? path) ↔ ¬c.FrontDecidesFor path file := by
  have hlength := length_of_dotted hmarker
  have hpos : ∀ stop ∈ some rest.length, 0 < stop := by
    rintro _ ⟨⟩
    omega
  have hroute : c.pagesRoute? (dotted path) = some (Route.behind dir own rest.length) := by
    rw [pagesRoute?_of_isPage (cutAtLast?_dotted hcut) (pagesDir_ne_of_dotted hmarker) hpage,
      pagesEnd?_of_dotted hmarker hfront]
    exact Route.map_behind_dotted hpos dir own
  rw [hroute, Option.some_or, behind_dotted_eq_iff hcut hpage hmarker hfront]
  constructor
  · rintro ⟨hentry, hown, happ⟩ (⟨-, -, honly⟩ | ⟨-, -, -, i, hi⟩ | ⟨hmarker', -, hpage', hother⟩)
    · obtain ⟨last, -, hstands, -⟩ := exists_last_of_appEnd happ
      exact honly last hstands
    · obtain ⟨last, hstop, -, hlast⟩ := exists_last_of_appEnd happ
      have hplaceLast := hlast _ (standsAtPlace_of_pagesMarker hi)
      omega
    · cases hmarker.symm.trans hmarker'
      cases hpage.symm.trans hpage'
      exact hother ⟨hentry, hown, happ⟩
  · intro h
    exact Classical.byContradiction fun hother => h (.pagesWithDot hmarker hfront hpage hother)

/-- The file is a page, and the marker stands in the path with the dot only where it stands
in the path without it. -/
theorem routes_dotted_of_isPage (hcut : cutAtLast? '/' path = some (dir, file))
    (hdir : c.pagesDir ≠ "") (hpage : c.pageSegments? file = some own)
    (hdot : ¬c.pagesMarker <+: dotted path) :
    (c.pagesRoute? (dotted path)).or (c.appRoute? (dotted path))
        = (c.pagesRoute? path).or (c.appRoute? path) ↔ ¬c.FrontDecidesFor path file := by
  have hnoDot : ∀ {rest}, c.pagesMarker = dotted rest → ¬rest <+: path := by
    intro rest hmarker hfront
    rw [hmarker] at hdot
    exact hdot ((List.prefix_append_right_inj ['.', '/']).mpr hfront)
  have hmap := map_pagesEnd?_dotted_eq_iff hcut hdot own
  rw [pagesRoute?_of_isPage (cutAtLast?_dotted hcut) hdir hpage,
    pagesRoute?_of_isPage hcut hdir hpage]
  cases hend : c.pagesEnd? path with
  | none =>
      rw [(pagesEnd?_dotted_eq_none_iff hdot).mpr hend, hend] at hmap
      rw [(pagesEnd?_dotted_eq_none_iff hdot).mpr hend, Option.map_none, Option.map_none,
        Option.none_or, Option.none_or, appRoute?_dotted_eq_iff hcut]
      refine not_congr ⟨fun ⟨hentry, hfront, honly⟩ => .api hentry hfront honly, ?_⟩
      rintro (⟨hentry, hfront, honly⟩ | ⟨-, -, hfront, hlater⟩ | ⟨hmarker, hfront, -, -⟩)
      · exact ⟨hentry, hfront, honly⟩
      · exact absurd ⟨hfront, hlater⟩ (hmap.mp rfl)
      · exact absurd hfront (hnoDot hmarker)
  | some stop =>
      obtain ⟨stop', hend'⟩ : ∃ stop', c.pagesEnd? (dotted path) = some stop' := by
        refine Option.ne_none_iff_exists'.mp fun hnone => ?_
        rw [(pagesEnd?_dotted_eq_none_iff hdot).mp hnone] at hend
        cases hend
      rw [hend, hend'] at hmap
      rw [hend', Option.map_some, Option.map_some, Option.some_or, Option.some_or]
      refine hmap.trans (not_congr ⟨fun h => ?_, ?_⟩)
      · exact .pages hdir (by rw [hpage]; rfl) h.1 h.2
      · rintro (⟨-, -, honly⟩ | ⟨-, -, hfront, hlater⟩ | ⟨hmarker, hfront, -, -⟩)
        · obtain ⟨place, hplace, -, -⟩ := exists_place_of_pagesEnd hend
          exact absurd hplace (honly place)
        · exact ⟨hfront, hlater⟩
        · exact absurd hfront (hnoDot hmarker)

theorem routes_dotted_eq_iff (hcut : cutAtLast? '/' path = some (dir, file)) :
    (c.pagesRoute? (dotted path)).or (c.appRoute? (dotted path))
        = (c.pagesRoute? path).or (c.appRoute? path) ↔ ¬c.FrontDecidesFor path file := by
  by_cases hdir : c.pagesDir = ""
  · exact routes_dotted_of_not_isPage hcut (.inl hdir)
  cases hpage : c.pageSegments? file with
  | none => exact routes_dotted_of_not_isPage hcut (.inr hpage)
  | some own =>
      by_cases hdot : c.pagesMarker <+: dotted path
      · obtain ⟨rest, hmarker, hfront⟩ := exists_dotted_of_prefix hdot
        exact routes_dotted_of_dottedMarker hcut hpage hmarker hfront
      · exact routes_dotted_of_isPage hcut hdir hpage hdot

theorem not_standsAtPlace_dotted (hslash : '/' ∉ path) (place : Nat) :
    ¬StandsAtPlace Route.marker (dotted path) place := by
  intro h
  have hchar : path[place + 2]? = some '/' := h.getElem? (k := 4) (by decide)
  exact hslash (List.mem_of_getElem? hchar)

/-- A path in which no `api` directory stands has no route. -/
theorem routes_eq_none (h : ∀ place, ¬StandsAtPlace Route.marker path place) :
    (c.pagesRoute? path).or (c.appRoute? path) = none := by
  refine Option.or_eq_none_iff.mpr ⟨?_, ?_⟩
  · refine Option.eq_none_iff_forall_ne_some.mpr fun r hroute => ?_
    obtain ⟨-, stop, -, -, -, hstop, -⟩ := pagesRoute?_eq_some_iff.mp hroute
    obtain ⟨place, hplace, -⟩ := exists_place_of_pagesEnd hstop
    exact h place hplace
  · refine Option.eq_none_iff_forall_ne_some.mpr fun r hroute => ?_
    obtain ⟨stop, -, -, hstop, -⟩ := appRoute?_eq_some_iff.mp hroute
    have hend : lastEnd? Route.apiMarker path = some stop := hstop
    obtain ⟨place, hplace, -⟩ := exists_place_of_lastEnd hend
    exact h place hplace

theorem route?_eq_or (c : RouteConfig) (path : String) : c.route? path
    = (c.pagesRoute? (withSlashes path)).or (c.appRoute? (withSlashes path)) :=
  Option.orElse_eq_or

/-- The dot in front keeps the route exactly if the front of the path does not decide it. -/
theorem route?_leadingDot_iff (c : RouteConfig) (path : String) :
    c.route? ("./" ++ path) = c.route? path ↔ ¬c.FrontDecides (withSlashes path) := by
  rw [route?_eq_or, route?_eq_or, withSlashes_dotted]
  cases hcut : cutAtLast? '/' (withSlashes path) with
  | none =>
      have hslash := cutAtLast?_eq_none_iff.mp hcut
      have hplain : ∀ place, ¬StandsAtPlace Route.marker (withSlashes path) place := by
        intro place hplace
        exact hslash (List.mem_of_mem_drop (hplace.subset (List.mem_cons_self ..)))
      rw [routes_eq_none hplain, routes_eq_none (not_standsAtPlace_dotted hslash)]
      refine ⟨fun _ h => ?_, fun _ => rfl⟩
      obtain ⟨dir, file, hcut', -⟩ := h
      cases hcut.symm.trans hcut'
  | some cut =>
      rw [routes_dotted_eq_iff hcut]
      refine not_congr ⟨fun h => ⟨cut.1, cut.2, hcut, h⟩, ?_⟩
      rintro ⟨dir, file, hcut', h⟩
      cases hcut.symm.trans hcut'
      exact h

/-- An `api` directory at the front of a path is no place for routes, and with the dot in
front of it it is one. -/
theorem route?_ne_leadingDot :
    RouteConfig.standard.route? "api/users/route.ts" = none
      ∧ RouteConfig.standard.route? ("./" ++ "api/users/route.ts") = some "/api/users" :=
  ⟨rfl, rfl⟩

/-- A pages directory at the front of a path comes before a later one, and with the dot in
front of it behind it. -/
example : RouteConfig.standard.route? "pages/api/x/pages/api/y.ts" = some "/api/x/pages/api/y"
    ∧ RouteConfig.standard.route? "./pages/api/x/pages/api/y.ts" = some "/api/y" :=
  ⟨rfl, rfl⟩

end RouteConfig

end CodeSurvey

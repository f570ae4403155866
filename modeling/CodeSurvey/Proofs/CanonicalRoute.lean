import CodeSurvey.Proofs.RouteParts
import Mathlib.Data.List.Basic

/-!
# Routes are canonical

A route can be read as a directory, and a file of the same name in this directory
serves it again (`appRoute_canonical`). The argument is on segments. What a route shows
is *plain* (`Route.IsPlain`): a second reading leaves it as it is, and it is no `api`
directory. In a path that is made of plain segments below a first `api` directory there
is no other one (`Route.place_eq_zero`), so the marker that the route is read behind is
the one at the front. For the same reason the layout of the pages directory, whatever
this directory is, has no claim on the path: its marker would end in an `api` directory
with something in front of it.

That the segments of a route are plain is where the *last* `api` directory matters: a
segment of that name would be part of a marker further on.
-/

namespace CodeSurvey

/-- The name of the file at a path. -/
def fileName (path : String) : String :=
  String.ofList (Language.behindLast Language.isPathSeparator path.toList)

/-! ## Slashes -/

theorem notMem_withSlashes (path : String) : '\\' ∉ withSlashes path := by
  intro h
  obtain ⟨c, -, hc⟩ := List.mem_map.mp h
  by_cases hback : c = '\\'
  · rw [if_pos hback] at hc
    exact absurd hc (by decide)
  · rw [if_neg hback] at hc
    exact hback hc

theorem withSlashes_of_notMem {path : String} (h : '\\' ∉ path.toList) :
    withSlashes path = path.toList := by
  have hkeep : ∀ c ∈ path.toList, (if c = '\\' then '/' else c) = c := by
    intro c hc
    refine if_neg ?_
    rintro rfl
    exact h hc
  rw [withSlashes, List.map_congr_left hkeep, List.map_id']

/-- The file behind the last slash has the name that is behind the last separator. -/
theorem toList_fileName {path : String} {dir file : List Char}
    (h : cutAtLast? '/' (withSlashes path) = some (dir, file)) : (fileName path).toList = file := by
  obtain ⟨hpath, hslash⟩ := cutAtLast?_eq_some_iff.mp h
  have hback : '\\' ∉ file := by
    intro hmem
    exact notMem_withSlashes path (hpath ▸ List.mem_append_right _ (List.mem_cons_of_mem _ hmem))
  have hfile : ∀ c ∈ file, Language.isPathSeparator c = false := by
    intro c hc
    have hne : c ≠ '/' ∧ c ≠ '\\' := ⟨fun h => hslash (h ▸ hc), fun h => hback (h ▸ hc)⟩
    simp [Language.isPathSeparator, hne]
  rw [fileName, String.toList_ofList, ← behindLast_withSlashes, hpath,
    behindLast_append_cons _ (by decide), behindLast_of_forall _ hfile]

/-- A part of a text between two separators, the ends of the text counted as such. -/
theorem exists_place_of_mem_partsAt {sep : Char} {part : List Char} (cs : List Char)
    (h : part ∈ partsAt sep cs) :
    ∃ front back, sep :: (cs ++ [sep]) = front ++ sep :: (part ++ sep :: back) := by
  by_cases hsep : sep ∈ cs
  · obtain ⟨first, rest, rfl, hfirst⟩ := List.eq_append_cons_of_mem hsep
    rw [partsAt_append, partsAt_of_notMem hfirst] at h
    rcases List.mem_cons.mp h with rfl | h
    · exact ⟨[], rest ++ [sep], by simp⟩
    · obtain ⟨front, back, heq⟩ := exists_place_of_mem_partsAt rest h
      refine ⟨sep :: (first ++ front), back, ?_⟩
      rw [List.append_assoc, List.cons_append, heq]
      simp
  · rw [partsAt_of_notMem hsep] at h
    obtain rfl := List.mem_singleton.mp h
    exact ⟨[], [], rfl⟩
termination_by cs.length

namespace Route

/-! ## Plain segments -/

/-- A segment that a route shows. -/
structure IsPlain (s : List Char) : Prop where
  nonempty : s ≠ []
  no_slash : '/' ∉ s
  no_backslash : '\\' ∉ s
  ne_api : s ≠ ['a', 'p', 'i']
  no_group : ¬∃ g, s = '(' :: (g ++ [')']) ∧ ∀ c ∈ g, isParenthesis c = false
  again : segment? s = some s

theorem isPlain_of_segment? {part s : List Char} (h : segment? part = some s) (hne : part ≠ [])
    (hslash : '/' ∉ part) (hback : '\\' ∉ part) (hapi : part ≠ ['a', 'p', 'i']) : IsPlain s := by
  have hgroup : ¬∃ g, s = '(' :: (g ++ [')']) ∧ ∀ c ∈ g, isParenthesis c = false := by
    intro h'
    have hfalse := not_isGroup_of_segment? h
    rw [isGroup_iff.mpr h'] at hfalse
    cases hfalse
  have hagain := segment?_again h
  rcases of_segment? h with rfl | ⟨name, rfl, hname⟩
  · exact ⟨hne, hslash, hback, hapi, hgroup, hagain⟩
  · have hmem : ∀ c ∈ ':' :: name, c ∈ part ∨ c = '*' ∨ c = ':' := by
      intro c hc
      rcases List.mem_cons.mp hc with rfl | hc
      · exact .inr (.inr rfl)
      · exact (hname c hc).imp_right .inl
    refine ⟨List.cons_ne_nil _ _, fun hmem' => ?_, fun hmem' => ?_, by simp, hgroup, hagain⟩
    · simpa [hslash] using hmem _ hmem'
    · simpa [hback] using hmem _ hmem'

/-- Plain segments are read as they are. -/
theorem segments_flatMap {segs : List (List Char)} (h : ∀ s ∈ segs, IsPlain s) :
    segments (segs.flatMap ('/' :: ·)) = segs := by
  have hjoin : segs.flatMap ('/' :: ·) = joinWith '/' ([] :: segs) := by
    rw [joinWith_eq, List.nil_append]
  have hslash : ∀ s ∈ [] :: segs, '/' ∉ s :=
    List.forall_mem_cons.mpr ⟨List.not_mem_nil, fun s hs => (h s hs).no_slash⟩
  have hfilter : ([] :: segs).filter (fun s => !s.isEmpty) = segs := by
    rw [List.filter_cons_of_neg (by simp)]
    exact List.filter_eq_self.mpr fun s hs => by simp [(h s hs).nonempty]
  calc segments (segs.flatMap ('/' :: ·))
      = segs.filterMap segment? := by
        rw [segments, hjoin, partsAt_joinWith (List.cons_ne_nil _ _) hslash, hfilter]
    _ = segs.filterMap some := List.filterMap_congr fun s hs => (h s hs).again
    _ = segs := List.filterMap_some

/-! ## The file below a route -/

variable {segs : List (List Char)} {file : List Char} {i : Nat}

theorem partsAt_below_text (h : ∀ s ∈ segs, '/' ∉ s) (hfile : '/' ∉ file) :
    partsAt '/' ((text segs).toList ++ '/' :: file) = [] :: ['a', 'p', 'i'] :: (segs ++ [file]) := by
  have hjoin : (text segs).toList ++ '/' :: file
      = joinWith '/' ([] :: ['a', 'p', 'i'] :: (segs ++ [file])) := by
    rw [toList_text, joinWith_eq]
    simp
  rw [hjoin, partsAt_joinWith (List.cons_ne_nil _ _)]
  simp only [List.mem_cons, List.mem_append, List.not_mem_nil, or_false]
  rintro s (rfl | rfl | hs | rfl)
  · exact List.not_mem_nil
  · decide
  · exact h s hs
  · exact hfile

/-- A marker makes an `api` directory, which has a file or a directory in it. -/
theorem partsAt_of_marker (front back : List Char) :
    partsAt '/' (front ++ (marker ++ back))
      = partsAt '/' front ++ ['a', 'p', 'i'] :: partsAt '/' back := by
  have hapi : partsAt '/' ['a', 'p', 'i'] = [['a', 'p', 'i']] := partsAt_of_notMem (by decide)
  calc partsAt '/' (front ++ (marker ++ back))
      = partsAt '/' front ++ partsAt '/' (['a', 'p', 'i'] ++ '/' :: back) := partsAt_append _ _
    _ = partsAt '/' front ++ ['a', 'p', 'i'] :: partsAt '/' back := by
      rw [partsAt_append, hapi, List.singleton_append]

theorem standsAtPlace_marker_text (segs : List (List Char)) (file : List Char) :
    StandsAtPlace marker ((text segs).toList ++ '/' :: file) 0 := by
  rw [toList_text]
  cases segs with
  | nil => exact ⟨file, rfl⟩
  | cons s segs => exact ⟨s ++ segs.flatMap ('/' :: ·) ++ '/' :: file, by simp [marker]⟩

/-- The first `api` directory is the only one. -/
theorem place_eq_zero (h : ∀ s ∈ segs, IsPlain s) (hfile : '/' ∉ file)
    (hplace : StandsAtPlace marker ((text segs).toList ++ '/' :: file) i) : i = 0 := by
  have hparts := partsAt_below_text (fun s hs => (h s hs).no_slash) hfile
  obtain ⟨front, back, heq, rfl⟩ := hplace.exists_eq marker_ne_nil
  cases front with
  | nil => rfl
  | cons slash front =>
      obtain rfl : '/' = slash := by
        rw [toList_text] at heq
        exact (List.cons.inj heq).1
      rw [heq, partsAt_of_marker, partsAt_cons_self] at hparts
      -- In front of the directory are the empty part and at least one more.
      obtain ⟨first, before, hbefore⟩ := List.exists_cons_of_ne_nil (partsAt_ne_nil '/' front)
      obtain ⟨behind, last, hbehind⟩ :=
        (List.eq_nil_or_concat' (partsAt '/' back)).resolve_left (partsAt_ne_nil _ _)
      rw [hbefore, hbehind] at hparts
      have hsegs : (before ++ ['a', 'p', 'i'] :: behind) ++ [last] = segs ++ [file] := by
        simpa using (List.cons.inj (List.cons.inj hparts).2).2
      have hapi : ['a', 'p', 'i'] ∈ segs := by
        rw [← (List.append_inj' hsegs rfl).1]
        exact List.mem_append_cons_self
      exact absurd rfl (h _ hapi).ne_api

end Route

namespace RouteConfig

variable {c : RouteConfig}

/-- The route of a path is the route of the file that has its name in the directory that
the route is. -/
theorem routes_below_text {segs : List (List Char)} {file : List Char}
    (h : ∀ s ∈ segs, Route.IsPlain s) (hfile : '/' ∉ file) (hentry : c.isEntry file = true) :
    c.pagesRoute? ((Route.text segs).toList ++ '/' :: file) = none
      ∧ c.appRoute? ((Route.text segs).toList ++ '/' :: file) = some (Route.text segs) := by
  constructor
  · refine Option.eq_none_iff_forall_ne_some.mpr fun r hr => ?_
    obtain ⟨hdir, stop, -, -, -, hstop, -⟩ := pagesRoute?_eq_some_iff.mp hr
    obtain ⟨place, hplace, hle, -⟩ := exists_place_of_pagesEnd hstop
    obtain rfl := Route.place_eq_zero h hfile hplace
    exact hdir (String.toList_eq_nil_iff.mp (List.length_eq_zero_iff.mp (Nat.le_zero.mp hle)))
  · have hlast : lastPlace? Route.marker ((Route.text segs).toList ++ '/' :: file) = some 0 := by
      refine (lastPlace?_eq_some_iff Route.marker_ne_nil).mpr
        ⟨Route.standsAtPlace_marker_text segs file, fun j hj hplace => ?_⟩
      exact absurd (Route.place_eq_zero h hfile hplace) (Nat.ne_of_gt hj)
    refine appRoute?_eq_some_iff.mpr ⟨_, _, file, congrArg (Option.map _) hlast,
      cutAtLast?_append hfile, hentry, ?_⟩
    have hbelow : (Route.text segs).toList.drop 4 = segs.flatMap ('/' :: ·) := by
      rw [Route.toList_text]
      rfl
    show Route.text segs = Route.text (Route.segments ((Route.text segs).toList.drop 4))
    rw [hbelow, Route.segments_flatMap h]

/-- What a route of an `api` directory is read off: the directory of the file behind the
last `api` directory. -/
theorem exists_below_of_appRoute {path : List Char} {r : String} (h : c.appRoute? path = some r) :
    ∃ front below file, cutAtLast? '/' path = some (front ++ ['/', 'a', 'p', 'i'] ++ below, file)
      ∧ lastPlace? Route.marker path = some front.length
      ∧ c.isEntry file = true ∧ r = Route.text (Route.segments below) := by
  obtain ⟨stop, dir, file, hstop, hcut, hentry, rfl⟩ := appRoute?_eq_some_iff.mp h
  obtain ⟨place, hlast, rfl⟩ := Option.map_eq_some_iff.mp hstop
  obtain ⟨front, back, hpath, rfl⟩ :=
    ((lastPlace?_eq_some_iff Route.marker_ne_nil).mp hlast).1.exists_eq Route.marker_ne_nil
  have hslash : path = front ++ ['/', 'a', 'p', 'i'] ++ '/' :: back := by
    rw [hpath]
    simp [Route.marker]
  obtain ⟨below, rfl, -⟩ := exists_below_of_cut (hslash ▸ hcut)
  have hdrop : (front ++ ['/', 'a', 'p', 'i'] ++ below).drop (front.length + 4) = below :=
    List.drop_left' (by simp)
  exact ⟨front, below, file, hcut, hlast, hentry, congrArg (fun d => Route.text (Route.segments d))
    hdrop⟩

/-- Behind the last `api` directory there is none, so the segments there are plain. -/
theorem isPlain_of_mem_segments {path : List Char} {front below file s : List Char}
    (hcut : cutAtLast? '/' path = some (front ++ ['/', 'a', 'p', 'i'] ++ below, file))
    (hlast : lastPlace? Route.marker path = some front.length) (hback : '\\' ∉ path)
    (hs : s ∈ Route.segments below) : Route.IsPlain s := by
  obtain ⟨hstands, hlater⟩ := (lastPlace?_eq_some_iff Route.marker_ne_nil).mp hlast
  obtain ⟨hpath, -⟩ := cutAtLast?_eq_some_iff.mp hcut
  obtain ⟨part, hpart, hne, hsegment⟩ := Route.exists_part_of_mem_segments hs
  cases below with
  | nil => exact absurd (List.mem_singleton.mp hpart) hne
  | cons slash below =>
      -- What is behind the marker begins with the slash that the marker ends with.
      obtain rfl : '/' = slash := by
        have hchar := hstands.getElem? (k := 4) (by decide)
        rw [hpath, List.append_assoc, List.append_assoc,
          List.getElem?_append_right (Nat.le_add_right _ _), Nat.add_sub_cancel_left] at hchar
        exact (Option.some.inj hchar).symm
      rw [partsAt_cons_self] at hpart
      have hpart : part ∈ partsAt '/' below := (List.mem_cons.mp hpart).resolve_left hne
      obtain ⟨before, behind, heq⟩ := exists_place_of_mem_partsAt below hpart
      have hplace : path = front ++ ['/', 'a', 'p', 'i'] ++ before
          ++ ('/' :: (part ++ '/' :: (behind ++ file))) := by
        calc path = front ++ ['/', 'a', 'p', 'i'] ++ ('/' :: (below ++ ['/'])) ++ file := by
              rw [hpath]
              simp
          _ = _ := by rw [heq]; simp
      refine Route.isPlain_of_segment? hsegment hne (notMem_of_mem_partsAt hpart) ?_ ?_
      · exact fun hmem => hback (by rw [hplace]; simp [hmem])
      · rintro rfl
        refine hlater (front ++ ['/', 'a', 'p', 'i'] ++ before).length ?_ ?_
        · simp only [List.length_append, List.length_cons]
          omega
        · rw [hplace, StandsAtPlace, List.drop_left]
          exact ⟨behind ++ file, rfl⟩

/-- A route of an `api` directory is `/api` with plain segments behind it, each behind one
slash; what it is read off begins within the directory of the file, at the end of the last
`api` directory; and the file with the same name below the route serves the route, and does
so as a file in an `api` directory. -/
theorem appRoute_canonical {c : RouteConfig} {path r : String}
    (h : c.appRoute? (withSlashes path) = some r) :
    (∃ front below file,
        cutAtLast? '/' (withSlashes path) = some (front ++ "/api".toList ++ below, file)
          ∧ lastPlace? Route.marker (withSlashes path) = some front.length
          ∧ r = Route.text (Route.segments below))
      ∧ (∃ segs : List (List Char), r.toList = "/api".toList ++ segs.flatMap ('/' :: ·)
          ∧ ∀ s ∈ segs, Route.IsPlain s)
      ∧ c.pagesRoute? (withSlashes (r ++ "/" ++ fileName path)) = none
      ∧ c.route? (r ++ "/" ++ fileName path) = some r := by
  obtain ⟨front, below, file, hcut, hlast, hentry, rfl⟩ := exists_below_of_appRoute h
  have hplain : ∀ s ∈ Route.segments below, Route.IsPlain s :=
    fun s => isPlain_of_mem_segments hcut hlast (notMem_withSlashes path)
  obtain ⟨hpath, hfile⟩ := cutAtLast?_eq_some_iff.mp hcut
  -- The new path has slashes only, so it is read as it stands.
  have hslashes : withSlashes (Route.text (Route.segments below) ++ "/" ++ fileName path)
      = (Route.text (Route.segments below)).toList ++ '/' :: file := by
    have htext : (Route.text (Route.segments below) ++ "/" ++ fileName path).toList
        = (Route.text (Route.segments below)).toList ++ '/' :: file := by
      rw [String.toList_append, String.toList_append, toList_fileName hcut, List.append_assoc]
      rfl
    rw [withSlashes_of_notMem, htext]
    rw [htext, Route.toList_text]
    simp only [List.mem_append, List.mem_cons, List.mem_flatMap]
    rintro ((hmem | ⟨s, hs, hmem | hmem⟩) | hmem | hmem)
    · exact absurd hmem (by decide)
    · exact absurd hmem (by decide)
    · exact (hplain s hs).no_backslash hmem
    · exact absurd hmem (by decide)
    · exact notMem_withSlashes path (by rw [hpath]; simp [hmem])
  obtain ⟨hpages, happ⟩ := routes_below_text hplain hfile hentry
  refine ⟨⟨front, below, file, hcut, hlast, rfl⟩, ⟨_, Route.toList_text _, hplain⟩, ?_, ?_⟩
  · rw [hslashes, hpages]
  · rw [route?, hslashes, hpages, happ]
    rfl

/-- The last of two `api` directories counts, the group and the doubled slash are left out,
and a pages directory of the name `api` has no claim on the route. -/
theorem appRoute_canonical_nested :
    RouteConfig.route? ⟨["route"], ["ts"], "api"⟩ "/api/:id/:rest*/route.ts"
      = some "/api/:id/:rest*" := by
  have h : RouteConfig.appRoute? ⟨["route"], ["ts"], "api"⟩
      (withSlashes "api\\x/api//(admin)/[id]\\[[...rest]]/route.ts") = some "/api/:id/:rest*" := rfl
  have hname : "/api/:id/:rest*" ++ "/" ++ fileName "api\\x/api//(admin)/[id]\\[[...rest]]/route.ts"
      = "/api/:id/:rest*/route.ts" := rfl
  rw [← hname]
  exact (appRoute_canonical h).2.2.2

end RouteConfig

end CodeSurvey

import CodeSurvey.Proofs.RouteParts
import Mathlib.Data.List.Basic
import Mathlib.Logic.Relation

/-!
# Groups in the path of a route

A group is a directory that is no part of the route. Putting groups into a path behind
the marker that the route is read behind changes neither the route nor the layout that
gives it (`route_of_groups`), however many there are and wherever they stand.

Routes leave groups out, so what has to be shown is that the markers stay where they
are. A marker begins with a slash and has no parenthesis, so it stands on one side of
the group or on the other, with the slash that is on either side of the new name
(`standsAtPlace_group`). There it has stood before. So nothing new stands behind the last
marker, and where there has been none there is none now: the layout of the pages
directory, which is asked first, does not take the path from the other one.
-/

namespace CodeSurvey

/-- The layouts that files are laid out in. -/
inductive Router where
  | pages
  | app
  deriving DecidableEq, Repr

namespace RouteConfig

/-- The route that a layout gives a path. -/
def routeBy? (c : RouteConfig) : Router → String → Option String
  | .pages, path => c.pagesRoute? (withSlashes path)
  | .app, path => c.appRoute? (withSlashes path)

/-- The route of a path with the layout that answers. -/
def answer? (c : RouteConfig) (path : String) : Option (Router × String) :=
  match c.routeBy? .pages path with
  | some r => some (.pages, r)
  | none => (c.routeBy? .app path).map fun r => (.app, r)

/-- The offset behind the marker that a layout looks for. -/
def markerEnd? (c : RouteConfig) : Router → List Char → Option Nat
  | .pages, path => c.pagesEnd? path
  | .app, path => appEnd? path

/-- The second path has a group more than the first: behind a separator, which is that at
the end of the marker of the layout or one behind it. -/
def InsertsGroup (c : RouteConfig) (router : Router) (path path' : String) : Prop :=
  ∃ (front group back : List Char) (sep sep' : Char) (stop : Nat),
    path.toList = front ++ sep :: back
    ∧ path'.toList = front ++ sep :: '(' :: (group ++ ')' :: sep' :: back)
    ∧ Language.isPathSeparator sep = true ∧ Language.isPathSeparator sep' = true
    ∧ (∀ x ∈ group, Route.isParenthesis x = false ∧ Language.isPathSeparator x = false)
    ∧ c.markerEnd? router (withSlashes path) = some stop ∧ stop ≤ front.length + 1

theorem route?_eq (c : RouteConfig) (path : String) :
    c.route? path = (c.answer? path).map (·.2) := by
  rw [route?, answer?, routeBy?, routeBy?]
  cases c.pagesRoute? (withSlashes path) with
  | some r => rfl
  | none =>
      cases c.appRoute? (withSlashes path) with
      | some r => rfl
      | none => rfl

theorem answer?_eq_pages_iff {c : RouteConfig} {path r : String} :
    c.answer? path = some (.pages, r) ↔ c.routeBy? .pages path = some r := by
  rw [answer?]
  cases c.routeBy? .pages path with
  | some r' => simp
  | none => simp

theorem answer?_eq_app_iff {c : RouteConfig} {path r : String} :
    c.answer? path = some (.app, r)
      ↔ c.routeBy? .pages path = none ∧ c.routeBy? .app path = some r := by
  rw [answer?]
  cases c.routeBy? .pages path with
  | some r' => simp
  | none => simp

end RouteConfig

section Group

variable {part front name back dir file : List Char} {i : Nat}

/-! ## Places beside a group -/

/-- What begins with a slash and has no parenthesis stands on one side of the name of a
group. -/
theorem standsAtPlace_group (hgroup : Route.isGroup name = true) (hslash : '/' ∉ name)
    (hfirst : part.head? = some '/') (hparen : '(' ∉ part) :
    StandsAtPlace part (front ++ '/' :: (name ++ '/' :: back)) i
      ↔ StandsAtPlace part (front ++ ['/']) i
        ∨ ∃ j, i = front.length + 1 + name.length + j ∧ StandsAtPlace part ('/' :: back) j := by
  have hleft : front ++ '/' :: (name ++ '/' :: back)
      = (front ++ ['/']) ++ (name ++ '/' :: back) := by simp
  have hright : front ++ '/' :: (name ++ '/' :: back)
      = (front ++ ['/'] ++ name) ++ '/' :: back := by simp
  have hlength : (front ++ ['/'] ++ name).length = front.length + 1 + name.length := by
    rw [List.length_append, List.length_append, List.length_singleton]
  constructor
  · intro h
    obtain ⟨rest, rfl⟩ := List.head?_eq_some_iff.mp hfirst
    obtain ⟨group, rfl, -⟩ := Route.isGroup_iff.mp hgroup
    by_cases hbefore : i + ('/' :: rest).length ≤ (front ++ ['/']).length
    · exact .inl ((hleft ▸ h).of_append hbefore)
    · rw [List.length_append, List.length_singleton] at hbefore
      by_cases hopen : i ≤ front.length
      · -- The part would go over the parenthesis.
        have hchar := h.getElem? (k := front.length + 1 - i) (by omega)
        rw [show i + (front.length + 1 - i) = (front ++ ['/']).length by simp; omega, hleft,
          List.getElem?_append_right (Nat.le_refl _), Nat.sub_self] at hchar
        exact absurd (List.mem_of_getElem? hchar.symm) hparen
      · by_cases hclose : i < front.length + 1 + ('(' :: (group ++ [')'])).length
        · -- The part would begin within the name.
          have hchar := h.getElem? (k := 0) (Nat.succ_pos _)
          rw [hleft, Nat.add_zero, List.getElem?_append_right (by simp; omega),
            List.getElem?_append_left (by simp at hclose ⊢; omega)] at hchar
          exact absurd (List.mem_of_getElem? hchar) hslash
        · obtain ⟨j, rfl⟩ := Nat.exists_eq_add_of_le (Nat.le_of_not_lt hclose)
          rw [hright, ← hlength] at h
          exact .inr ⟨j, rfl, standsAtPlace_append_left.mp h⟩
  · rintro (h | ⟨j, rfl, h⟩)
    · rw [hleft]
      exact h.append_right _
    · rw [hright, ← hlength]
      exact standsAtPlace_append_left.mpr h

/-- A place in the text without the group for one on either side of it. -/
theorem StandsAtPlace.without_group
    (h : StandsAtPlace part (front ++ ['/']) i
      ∨ ∃ j, i = front.length + 1 + name.length + j ∧ StandsAtPlace part ('/' :: back) j) :
    StandsAtPlace part (front ++ '/' :: back) i
      ∨ ∃ j, StandsAtPlace part (front ++ '/' :: back) (front.length + j) := by
  rcases h with h | ⟨j, -, h⟩
  · have hsplit : front ++ '/' :: back = (front ++ ['/']) ++ back := by simp
    exact .inl (hsplit ▸ h.append_right back)
  · exact .inr ⟨j, standsAtPlace_append_left.mpr h⟩

theorem lastPlace?_group_of_some (hgroup : Route.isGroup name = true) (hslash : '/' ∉ name)
    (hfirst : part.head? = some '/') (hparen : '(' ∉ part)
    (h : lastPlace? part (front ++ '/' :: back) = some i)
    (hbefore : i + part.length ≤ front.length + 1) (htwo : 2 ≤ part.length) :
    lastPlace? part (front ++ '/' :: (name ++ '/' :: back)) = some i := by
  have hne : part ≠ [] := List.ne_nil_of_length_pos (by omega)
  obtain ⟨hplace, hlater⟩ := (lastPlace?_eq_some_iff hne).mp h
  refine (lastPlace?_eq_some_iff hne).mpr ⟨?_, fun j hj hplace' => ?_⟩
  · have hsplit : front ++ '/' :: back = (front ++ ['/']) ++ back := by simp
    refine (standsAtPlace_group hgroup hslash hfirst hparen).mpr (.inl ?_)
    exact (hsplit ▸ hplace).of_append (by simpa using hbefore)
  · rcases StandsAtPlace.without_group
      ((standsAtPlace_group hgroup hslash hfirst hparen).mp hplace') with h' | ⟨k, h'⟩
    · exact hlater j hj h'
    · exact hlater _ (by omega) h'

theorem lastPlace?_group_of_none (hgroup : Route.isGroup name = true) (hslash : '/' ∉ name)
    (hfirst : part.head? = some '/') (hparen : '(' ∉ part)
    (h : lastPlace? part (front ++ '/' :: back) = none) :
    lastPlace? part (front ++ '/' :: (name ++ '/' :: back)) = none := by
  have hne : part ≠ [] := by
    rintro rfl
    cases hfirst
  refine (lastPlace?_eq_none_iff hne).mpr fun j hplace => ?_
  have hnone := (lastPlace?_eq_none_iff hne).mp h
  rcases StandsAtPlace.without_group
    ((standsAtPlace_group hgroup hslash hfirst hparen).mp hplace) with h' | ⟨k, h'⟩
  · exact hnone j h'
  · exact hnone _ h'

/-! ## The directories -/

/-- The file stays, and so do the segments of its directory. -/
theorem cut_group (hgroup : Route.isGroup name = true) (hslash : '/' ∉ name)
    (h : cutAtLast? '/' (front ++ '/' :: back) = some (dir, file)) :
    ∃ dir', cutAtLast? '/' (front ++ '/' :: (name ++ '/' :: back)) = some (dir', file)
      ∧ ∀ k ≤ front.length, Route.segments (dir'.drop k) = Route.segments (dir.drop k) := by
  have hfile : '/' ∉ file := (cutAtLast?_eq_some_iff.mp h).2
  obtain ⟨below, rfl, hbelow⟩ := RouteConfig.exists_below_of_cut h
  refine ⟨front ++ '/' :: (name ++ below), ?_, fun k hk => ?_⟩
  · have hpath : front ++ '/' :: (name ++ '/' :: back)
        = (front ++ '/' :: (name ++ below)) ++ '/' :: file := by
      rw [hbelow]
      simp
    rw [hpath, cutAtLast?_append hfile]
  · rw [List.drop_append_of_le_length hk, List.drop_append_of_le_length hk,
      Route.segments_append]
    cases below with
    | nil => rw [List.append_nil, List.append_nil, Route.segments_of_isGroup hgroup hslash,
        List.append_nil]
    | cons c below =>
        obtain ⟨rfl, -⟩ := List.cons.inj hbelow
        rw [Route.segments_append, Route.segments_append,
          Route.segments_of_isGroup hgroup hslash, List.nil_append]

end Group

namespace RouteConfig

variable {c : RouteConfig} {front name back : List Char} {stop : Nat} {r : String}

/-! ## The markers -/

theorem appEnd?_group (hgroup : Route.isGroup name = true) (hslash : '/' ∉ name)
    (h : appEnd? (front ++ '/' :: back) = some stop) (hstop : stop ≤ front.length + 1) :
    appEnd? (front ++ '/' :: (name ++ '/' :: back)) = some stop := by
  obtain ⟨place, hplace, rfl⟩ := Option.map_eq_some_iff.mp h
  rw [appEnd?, lastPlace?_group_of_some hgroup hslash rfl (by decide) hplace hstop (by decide)]
  rfl

/-- The marker of the pages directory stands at the front of a path if it did so without
the group. -/
theorem pagesMarker_isPrefixOf_group (hgroup : Route.isGroup name = true) (hslash : '/' ∉ name)
    (hparen : '(' ∉ c.pagesMarker)
    (h : c.pagesMarker.isPrefixOf (front ++ '/' :: (name ++ '/' :: back)) = true) :
    c.pagesMarker.isPrefixOf (front ++ '/' :: back) = true := by
  rw [List.isPrefixOf_iff_prefix] at h ⊢
  have hplace : StandsAtPlace ('/' :: c.pagesMarker)
      (('/' :: front) ++ '/' :: (name ++ '/' :: back)) 0 :=
    List.cons_prefix_cons.mpr ⟨rfl, h⟩
  have hparen' : '(' ∉ '/' :: c.pagesMarker := by simpa using hparen
  rcases (standsAtPlace_group hgroup hslash rfl hparen').mp hplace with hfront | ⟨j, hj, -⟩
  · have hprefix : c.pagesMarker <+: front ++ ['/'] := (List.cons_prefix_cons.mp hfront).2
    exact hprefix.trans ⟨back, by simp⟩
  · rw [List.length_cons] at hj
    omega

theorem pagesEnd?_group_of_none (hgroup : Route.isGroup name = true) (hslash : '/' ∉ name)
    (hparen : '(' ∉ c.pagesMarker) (h : c.pagesEnd? (front ++ '/' :: back) = none) :
    c.pagesEnd? (front ++ '/' :: (name ++ '/' :: back)) = none := by
  have hparen' : '(' ∉ '/' :: c.pagesMarker := by simpa using hparen
  rw [pagesEnd?] at h ⊢
  split at h
  · cases h
  · rename_i hfront
    rw [if_neg fun h' => hfront (pagesMarker_isPrefixOf_group hgroup hslash hparen h'),
      lastPlace?_group_of_none hgroup hslash rfl hparen' (by simpa using h)]
    rfl

theorem pagesEnd?_group (hgroup : Route.isGroup name = true) (hslash : '/' ∉ name)
    (hparen : '(' ∉ c.pagesMarker) (h : c.pagesEnd? (front ++ '/' :: back) = some stop)
    (hstop : stop ≤ front.length + 1) :
    c.pagesEnd? (front ++ '/' :: (name ++ '/' :: back)) = some stop := by
  have hparen' : '(' ∉ '/' :: c.pagesMarker := by simpa using hparen
  rw [pagesEnd?] at h ⊢
  obtain ⟨start, hstart, rfl⟩ := Option.map_eq_some_iff.mp h
  split at hstart
  · rename_i hfront
    obtain rfl := Option.some.inj hstart
    have hfront' : c.pagesMarker.isPrefixOf (front ++ '/' :: (name ++ '/' :: back)) = true := by
      rw [List.isPrefixOf_iff_prefix] at hfront ⊢
      have hprefix : c.pagesMarker <+: front ++ ['/'] :=
        List.prefix_of_prefix_length_le hfront ⟨back, by simp⟩ (by simpa using hstop)
      exact hprefix.trans ⟨name ++ '/' :: back, by simp⟩
    rw [if_pos hfront']
    rfl
  · rename_i hfront
    obtain ⟨place, hplace, rfl⟩ := Option.map_eq_some_iff.mp hstart
    have hle : place + ('/' :: c.pagesMarker).length ≤ front.length + 1 := by
      rw [List.length_cons]
      omega
    have htwo : 2 ≤ ('/' :: c.pagesMarker).length := by
      simp only [pagesMarker, List.length_cons, List.length_append, Route.marker]
      omega
    rw [if_neg fun h' => hfront (pagesMarker_isPrefixOf_group hgroup hslash hparen h'),
      lastPlace?_group_of_some hgroup hslash rfl hparen' hplace hle htwo]
    rfl

/-! ## The layouts -/

theorem appRoute?_group (hgroup : Route.isGroup name = true) (hslash : '/' ∉ name)
    (h : c.appRoute? (front ++ '/' :: back) = some r)
    (hend : appEnd? (front ++ '/' :: back) = some stop) (hstop : stop ≤ front.length + 1) :
    c.appRoute? (front ++ '/' :: (name ++ '/' :: back)) = some r := by
  obtain ⟨stop', dir, file, hend', hcut, hentry, rfl⟩ := appRoute?_eq_some_iff.mp h
  obtain rfl := Option.some.inj (hend.symm.trans hend')
  obtain ⟨dir', hcut', hsegments⟩ := cut_group hgroup hslash hcut
  refine appRoute?_eq_some_iff.mpr
    ⟨stop, dir', file, appEnd?_group hgroup hslash hend hstop, hcut', hentry, ?_⟩
  rw [hsegments _ (by omega)]

theorem pagesRoute?_group (hgroup : Route.isGroup name = true) (hslash : '/' ∉ name)
    (hparen : '(' ∉ c.pagesMarker) (h : c.pagesRoute? (front ++ '/' :: back) = some r)
    (hend : c.pagesEnd? (front ++ '/' :: back) = some stop) (hstop : stop ≤ front.length + 1) :
    c.pagesRoute? (front ++ '/' :: (name ++ '/' :: back)) = some r := by
  obtain ⟨hdir, stop', dir, file, own, hend', hcut, hown, rfl⟩ := pagesRoute?_eq_some_iff.mp h
  obtain rfl := Option.some.inj (hend.symm.trans hend')
  obtain ⟨dir', hcut', hsegments⟩ := cut_group hgroup hslash hcut
  refine pagesRoute?_eq_some_iff.mpr ⟨hdir, stop, dir', file, own,
    pagesEnd?_group hgroup hslash hparen hend hstop, hcut', hown, ?_⟩
  rw [hsegments _ (by omega)]

/-- A group does not bring a path into the pages directory, wherever it stands. -/
theorem pagesRoute?_group_of_none (hgroup : Route.isGroup name = true) (hslash : '/' ∉ name)
    (hparen : '(' ∉ c.pagesMarker) (h : c.pagesRoute? (front ++ '/' :: back) = none) :
    c.pagesRoute? (front ++ '/' :: (name ++ '/' :: back)) = none := by
  refine Option.eq_none_iff_forall_ne_some.mpr fun r hr => ?_
  obtain ⟨hdir, stop, dir', file', own, hend', hcut', hown, -⟩ := pagesRoute?_eq_some_iff.mp hr
  obtain ⟨dir, file, hcut⟩ := exists_cut_of_slash front back
  obtain ⟨dir'', hcut'', -⟩ := cut_group hgroup hslash hcut
  obtain ⟨-, rfl⟩ := Prod.mk.inj (Option.some.inj (hcut'.symm.trans hcut''))
  cases hend : c.pagesEnd? (front ++ '/' :: back) with
  | none =>
      rw [pagesEnd?_group_of_none hgroup hslash hparen hend] at hend'
      cases hend'
  | some stop =>
      have hsome := pagesRoute?_eq_some_iff.mpr ⟨hdir, stop, dir, _, own, hend, hcut, hown, rfl⟩
      rw [h] at hsome
      cases hsome

/-! ## Groups in a path -/

/-- How both paths are read. -/
theorem InsertsGroup.exists_group {router : Router} {path path' : String}
    (h : c.InsertsGroup router path path') :
    ∃ front name back stop, Route.isGroup name = true ∧ '/' ∉ name
      ∧ withSlashes path = front ++ '/' :: back
      ∧ withSlashes path' = front ++ '/' :: (name ++ '/' :: back)
      ∧ c.markerEnd? router (withSlashes path) = some stop ∧ stop ≤ front.length + 1 := by
  obtain ⟨front, group, back, sep, sep', stop, hpath, hpath', hsep, hsep', hgroup, hend, hstop⟩ := h
  have hslash : ∀ s, Language.isPathSeparator s = true → (if s = '\\' then '/' else s) = '/' := by
    intro s hs
    have : s = '/' ∨ s = '\\' := by simpa [Language.isPathSeparator] using hs
    rcases this with rfl | rfl <;> rfl
  have hkeep : group.map (fun x => if x = '\\' then '/' else x) = group := by
    refine (List.map_congr_left fun x hx => if_neg ?_).trans (List.map_id' group)
    rintro rfl
    exact absurd (hgroup _ hx).2 (by decide)
  refine ⟨front.map fun x => if x = '\\' then '/' else x, '(' :: (group ++ [')']),
    back.map fun x => if x = '\\' then '/' else x, stop,
    Route.isGroup_iff.mpr ⟨group, rfl, fun x hx => (hgroup x hx).1⟩, ?_, ?_, ?_, hend,
    by rwa [List.length_map]⟩
  · simp only [List.mem_cons, List.mem_append, List.not_mem_nil, or_false]
    rintro (h | h | h)
    · exact absurd h (by decide)
    · exact absurd (hgroup _ h).2 (by decide)
    · exact absurd h (by decide)
  · rw [withSlashes, hpath, List.map_append, List.map_cons, hslash sep hsep]
  · rw [withSlashes, hpath']
    simp only [List.map_append, List.map_cons, hslash sep hsep, hslash sep' hsep', hkeep,
      List.append_assoc, List.cons_append, List.nil_append]
    rfl

variable {router : Router} {path path' : String}

/-- A layout gives a path with one group more the route that it gives the path. -/
theorem routeBy?_of_insertsGroup (hparen : '(' ∉ c.pagesDir.toList)
    (h : c.InsertsGroup router path path') (hroute : c.routeBy? router path = some r) :
    c.routeBy? router path' = some r := by
  obtain ⟨front, name, back, stop, hgroup, hslash, hpath, hpath', hend, hstop⟩ := h.exists_group
  have hmarker : '(' ∉ c.pagesMarker := by simpa [pagesMarker, Route.marker] using hparen
  cases router with
  | pages =>
      rw [routeBy?, hpath] at hroute
      rw [markerEnd?, hpath] at hend
      rw [routeBy?, hpath']
      exact pagesRoute?_group hgroup hslash hmarker hroute hend hstop
  | app =>
      rw [routeBy?, hpath] at hroute
      rw [markerEnd?, hpath] at hend
      rw [routeBy?, hpath']
      exact appRoute?_group hgroup hslash hroute hend hstop

/-- The same layout answers for the path with one group more. -/
theorem answer?_of_insertsGroup (hparen : '(' ∉ c.pagesDir.toList)
    (h : c.InsertsGroup router path path') (hanswer : c.answer? path = some (router, r)) :
    c.answer? path' = some (router, r) := by
  have hkept : c.routeBy? router path = some r → c.routeBy? router path' = some r :=
    routeBy?_of_insertsGroup hparen h
  cases router with
  | pages => exact answer?_eq_pages_iff.mpr (hkept (answer?_eq_pages_iff.mp hanswer))
  | app =>
      obtain ⟨hnone, happ⟩ := answer?_eq_app_iff.mp hanswer
      refine answer?_eq_app_iff.mpr ⟨?_, hkept happ⟩
      obtain ⟨front, name, back, -, hgroup, hslash, hpath, hpath', -⟩ := h.exists_group
      have hmarker : '(' ∉ c.pagesMarker := by simpa [pagesMarker, Route.marker] using hparen
      rw [routeBy?, hpath] at hnone
      rw [routeBy?, hpath']
      exact pagesRoute?_group_of_none hgroup hslash hmarker hnone

/-- Groups behind the marker of a layout, one after the other and as many as one likes,
leave a path the route that the layout gives it. If the layout is the one that answers for
the path, it is so for the path with the groups. -/
theorem route_of_groups (hparen : '(' ∉ c.pagesDir.toList) (hroute : c.routeBy? router path = some r)
    (h : Relation.ReflTransGen (c.InsertsGroup router) path path') :
    c.routeBy? router path' = some r
      ∧ (c.answer? path = some (router, r) →
        c.answer? path' = some (router, r) ∧ c.route? path' = some r) := by
  refine ⟨?_, fun hanswer => ?_⟩
  · induction h with
    | refl => exact hroute
    | tail _ hinsert ih => exact routeBy?_of_insertsGroup hparen hinsert ih
  · have hkept : c.answer? path' = some (router, r) := by
      induction h with
      | refl => exact hanswer
      | tail _ hinsert ih => exact answer?_of_insertsGroup hparen hinsert ih
    refine ⟨hkept, ?_⟩
    rw [route?_eq, hkept]
    rfl

/-- Two groups behind the last of two pages directories, one right behind the marker and one
without a name in front of the file. -/
theorem route_of_groups_pages :
    RouteConfig.standard.answer? "src/pages/api/x/pages\\api/(a)/users\\()/[id].ts"
      = some (.pages, "/api/users/:id") := by
  have hroute : RouteConfig.standard.answer? "src/pages/api/x/pages\\api/users\\[id].ts"
      = some (.pages, "/api/users/:id") := rfl
  have hfirst : RouteConfig.standard.InsertsGroup .pages
      "src/pages/api/x/pages\\api/users\\[id].ts"
      "src/pages/api/x/pages\\api/(a)/users\\[id].ts" :=
    ⟨"src/pages/api/x/pages\\api".toList, ['a'], "users\\[id].ts".toList, '/', '/', 26,
      rfl, rfl, rfl, rfl, List.forall_mem_singleton.mpr ⟨rfl, rfl⟩, rfl, Nat.le_refl 26⟩
  have hsecond : RouteConfig.standard.InsertsGroup .pages
      "src/pages/api/x/pages\\api/(a)/users\\[id].ts"
      "src/pages/api/x/pages\\api/(a)/users\\()/[id].ts" :=
    ⟨"src/pages/api/x/pages\\api/(a)/users".toList, [], "[id].ts".toList, '\\', '/', 26,
      rfl, rfl, rfl, rfl, fun x hx => absurd hx List.not_mem_nil, rfl, (by decide : 26 ≤ 36)⟩
  exact ((route_of_groups (by decide) (answer?_eq_pages_iff.mp hroute)
    ((Relation.ReflTransGen.single hfirst).tail hsecond)).2 hroute).1

end RouteConfig

end CodeSurvey

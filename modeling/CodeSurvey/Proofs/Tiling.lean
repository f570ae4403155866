import CodeSurvey.Grammar.Parse
import CodeSurvey.Proofs.Layout
import CodeSurvey.Proofs.TokenEnd
import CodeSurvey.Proofs.TreeShape

/-!
# Trees that cover a text

The tokens of a text leave gaps, in which there are blanks and comments only
(`Source.IsGap`). A tree is *tiled* if its tokens cover its span but for such gaps
(`Tree.IsTiled`); nodes are built of what they cover, by a form, by a step of a chain or
by an operator, and are tiled if their parts are.

The comments come last. They are looked for between the tokens, by a search that would
take a token for a comment if there were one, so a tree has to be tiled for them to be
put where they belong. Then it is laid out (`isLaidOut_placeComments`).
-/

namespace CodeSurvey

/-! ## Gaps -/

namespace Tree

variable {i j k : Nat} {ts us : List Tree}

theorem areLaidOut_of_le (hle : i ≤ j) (h : AreLaidOut j k ts) : AreLaidOut i k ts := by
  cases ts with
  | nil => exact Nat.le_trans hle h
  | cons t ts => exact ⟨Nat.le_trans hle h.1, h.2⟩

theorem areLaidOut_append (hts : AreLaidOut i j ts) (hus : AreLaidOut j k us) :
    AreLaidOut i k (ts ++ us) := by
  induction ts generalizing i with
  | nil => exact areLaidOut_of_le hts hus
  | cons t ts ih => exact ⟨hts.1, hts.2.1, ih hts.2.2⟩

end Tree

namespace Source

variable {s : Source} {i j k : Nat}

/-- Between two offsets there are blanks and comments only. -/
inductive IsGap (s : Source) : Nat → Nat → Prop where
  | refl (i : Nat) : s.IsGap i i
  | blank {i j : Nat} : isBlank (s.peek i) = true → s.IsGap (i + 1) j → s.IsGap i j
  | comment {i j k : Nat} {kind : NodeKind} :
    s.anyCommentEnd? true i = some (kind, k) → s.IsGap k j → s.IsGap i j

theorem IsGap.le (h : s.IsGap i j) : i ≤ j := by
  induction h with
  | refl => exact Nat.le_refl _
  | blank _ _ ih => exact Nat.le_of_succ_le ih
  | comment hcomment _ ih => exact Nat.le_trans (Nat.le_of_lt (lt_anyCommentEnd hcomment)) ih

theorem IsGap.trans (h : s.IsGap i j) (h' : s.IsGap j k) : s.IsGap i k := by
  induction h with
  | refl => exact h'
  | blank hblank _ ih => exact .blank hblank (ih h')
  | comment hcomment _ ih => exact .comment hcomment (ih h')

theorem anyCommentEnd_of_commentEnd (h : s.commentEnd? i = some j) :
    s.anyCommentEnd? true i = some (.comment, j) := by
  rw [anyCommentEnd?, h]

/-- What is a comment where no markup is looked for is one where it is. -/
theorem exists_anyCommentEnd {markup : Bool} {kind : NodeKind}
    (h : s.anyCommentEnd? markup i = some (kind, j)) : ∃ kind, s.anyCommentEnd? true i = some (kind, j) := by
  cases markup with
  | true => exact ⟨kind, h⟩
  | false =>
      unfold anyCommentEnd? at h
      split at h
      · rename_i hcomment
        cases h
        exact ⟨_, anyCommentEnd_of_commentEnd hcomment⟩
      · cases h

theorem isGap_skipTrivia (markup : Bool) (i : Nat) : s.IsGap i (s.skipTrivia markup i) := by
  fun_induction skipTrivia s markup i with
  | case1 i _ hblank ih => exact .blank hblank ih
  | case2 i _ _ k j hc ih =>
      obtain ⟨kind, hkind⟩ := exists_anyCommentEnd hc
      exact .comment hkind ih
  | case3 => exact .refl _
  | case4 => exact .refl _

theorem isGap_skipWhile_isBlank (i : Nat) : s.IsGap i (s.skipWhile isBlank i) := by
  fun_induction skipWhile s isBlank i with
  | case1 i hi hblank ih =>
      refine .blank ?_ ih
      rw [peek, dif_pos hi]
      exact hblank
  | case2 => exact .refl _
  | case3 => exact .refl _

theorem isGap_virtualSemicolon {d : Dialect} {afterOperand : Bool}
    (h : s.virtualSemicolon? d afterOperand i = some j) : s.IsGap i j := by
  fun_induction virtualSemicolon? s d afterOperand i with
  | case1 i _ =>
      obtain rfl := Option.some.inj h
      exact .refl _
  | case2 i _ k' k hc _ ih =>
      exact (isGap_skipWhile_isBlank i).trans (.comment (anyCommentEnd_of_commentEnd hc) (ih h))
  | case3 => cases h
  | case4 => cases h

/-- No comment begins with a blank. -/
theorem anyCommentEnd_of_isBlank (h : isBlank (s.peek i) = true) : s.anyCommentEnd? true i = none := by
  have hne : ∀ c, isBlank c = false → s.peek i ≠ c := by
    rintro c hc rfl
    rw [h] at hc
    cases hc
  have hslash := hne '/' (by decide)
  have hless := hne '<' (by decide)
  have hminus := hne '-' (by decide)
  simp [anyCommentEnd?, commentEnd?, htmlCommentEnd?, startsWith, hslash, hless, hminus]

/-- The comments of a gap stand one behind the other in it. -/
theorem areLaidOut_commentsBetween (h : s.IsGap i j) :
    Tree.AreLaidOut i j (s.commentsBetween i j) := by
  induction h with
  | refl i =>
      rw [commentsBetween, dif_neg (Nat.lt_irrefl i)]
      exact Nat.le_refl i
  | @blank i j hblank hrest ih =>
      have hlt : i < j := hrest.le
      rw [commentsBetween, dif_pos hlt]
      split
      · rename_i hcomment
        rw [anyCommentEnd_of_isBlank hblank] at hcomment
        cases hcomment
      · exact Tree.areLaidOut_of_le (Nat.le_succ i) ih
  | @comment i j k kind hcomment hrest ih =>
      have hlt := lt_anyCommentEnd hcomment
      rw [commentsBetween, dif_pos (Nat.lt_of_lt_of_le hlt hrest.le)]
      split
      · rename_i hfound
        rw [hcomment] at hfound
        cases hfound
        exact ⟨Nat.le_refl _, Nat.le_of_lt hlt, ih⟩
      · rename_i hnone
        rw [hcomment] at hnone
        cases hnone

end Source

/-! ## Trees -/

namespace Tree

variable {src : Source} {i j k : Nat} {ts us : List Tree} {t : Tree}

mutual

/-- The children of a node cover its span but for gaps, and so do theirs. A node without
children is a token. -/
def IsTiled (src : Source) : Tree → Prop
  | .node _ _ s [] => s.start ≤ s.stop
  | .node _ _ s (c :: cs) => AreTiled src s.start s.stop (c :: cs)

/-- The trees cover the text between two offsets but for gaps. -/
def AreTiled (src : Source) (i stop : Nat) : List Tree → Prop
  | [] => src.IsGap i stop
  | t :: ts => src.IsGap i t.span.start ∧ t.IsTiled src ∧ AreTiled src t.span.stop stop ts

end

mutual

/-- Comments in the gaps of a tree. -/
theorem isLaidOut_placeComments : (t : Tree) → t.IsTiled src →
    (t.placeComments src).IsLaidOut ∧ (t.placeComments src).span = t.span
  | .node l f s [], h => by
      rw [placeComments]
      exact ⟨h, rfl⟩
  | .node l f s (c :: cs), h => by
      rw [placeComments]
      exact ⟨areLaidOut_placeCommentsAmong (c :: cs) h, rfl⟩

theorem areLaidOut_placeCommentsAmong {i stop : Nat} : (ts : List Tree) →
    AreTiled src i stop ts → AreLaidOut i stop (placeCommentsAmong src i stop ts)
  | [], h => by
      rw [placeCommentsAmong]
      exact Source.areLaidOut_commentsBetween h
  | t :: ts, ⟨hgap, ht, hts⟩ => by
      obtain ⟨hlaid, hspan⟩ := isLaidOut_placeComments t ht
      rw [placeCommentsAmong]
      refine areLaidOut_append (Source.areLaidOut_commentsBetween hgap) ⟨?_, hlaid, ?_⟩
      · exact Nat.le_of_eq (congrArg Span.start hspan.symm)
      · rw [hspan]
        exact areLaidOut_placeCommentsAmong ts hts

end

theorem AreTiled.of_gap (hgap : src.IsGap i j) (h : AreTiled src j k ts) : AreTiled src i k ts := by
  cases ts with
  | nil => exact hgap.trans h
  | cons t ts => exact ⟨hgap.trans h.1, h.2⟩

theorem AreTiled.append (hts : AreTiled src i j ts) (hus : AreTiled src j k us) :
    AreTiled src i k (ts ++ us) := by
  induction ts generalizing i with
  | nil => exact hus.of_gap hts
  | cons t ts ih => exact ⟨hts.1, hts.2.1, ih hts.2.2⟩

theorem AreTiled.gap_behind (h : AreTiled src i j ts) (hgap : src.IsGap j k) :
    AreTiled src i k ts := by
  have hnil : AreTiled src j k [] := hgap
  have happ := h.append hnil
  rwa [List.append_nil] at happ

theorem isTiled_of_children {l : Label} {f : Option Field} {s : Span}
    (h : AreTiled src s.start s.stop ts) : (node l f s ts).IsTiled src := by
  cases ts with
  | nil => exact h.le
  | cons t ts => exact h

/-- The children of the tree cover its span, which for a token would be a gap. -/
def IsCovered (src : Source) (t : Tree) : Prop :=
  AreTiled src t.span.start t.span.stop t.children

theorem isCovered_withField {f : Field} : (t.withField f).IsCovered src ↔ t.IsCovered src := by
  obtain ⟨l, g, s, cs⟩ := t
  exact Iff.rfl

theorem isTiled_withField {f : Field} : (t.withField f).IsTiled src ↔ t.IsTiled src := by
  obtain ⟨l, g, s, cs⟩ := t
  cases cs <;> exact Iff.rfl

/-- A field does not change where a tree stands. -/
theorem areTiled_map_withField {f : Field} :
    AreTiled src i j (ts.map fun t => if t.field.isNone then t.withField f else t)
      ↔ AreTiled src i j ts := by
  induction ts generalizing i with
  | nil => exact Iff.rfl
  | cons t ts ih =>
      rw [List.map_cons]
      split
      · rw [AreTiled, AreTiled, span_withField, isTiled_withField, ih]
      · rw [AreTiled, AreTiled, ih]

/-- The first child of a step of a chain is what came before, but for its field. -/
theorem exists_prependChild (src : Source) (t : Tree) (l : Label) (f : Option Field) (s : Span)
    (cs : List Tree) : ∃ first : Tree, first.span = t.span ∧ (first.IsTiled src ↔ t.IsTiled src)
      ∧ t.prependChild (node l f s cs) = node l f ⟨t.span.start, s.stop⟩ (first :: cs) := by
  have hfield : ∀ g : Field, (t.withField g).span = t.span := fun g => span_withField g t
  unfold prependChild
  dsimp only
  split
  · split
    · rename_i g _
      exact ⟨t.withField g, hfield g, isTiled_withField, by rw [hfield]⟩
    · exact ⟨t, rfl, Iff.rfl, rfl⟩
  · exact ⟨t, rfl, Iff.rfl, rfl⟩

/-- A step of a chain covers what came before and what it covers itself, if it is no token. -/
theorem areTiled_prependChild {next : Tree} (ht : AreTiled src i j [t])
    (hnext : AreTiled src j k [next]) (hchildren : next.IsCovered src) :
    AreTiled src i k [t.prependChild next] := by
  obtain ⟨hgap, htiled, hbehind⟩ := ht
  obtain ⟨hgap', -, hbehind'⟩ := hnext
  obtain ⟨l, f, s, cs⟩ := next
  obtain ⟨first, hspan, hfirst, heq⟩ := exists_prependChild src t l f s cs
  have hbelow : AreTiled src t.span.stop s.stop cs :=
    AreTiled.of_gap (Source.IsGap.trans hbehind hgap') hchildren
  rw [heq]
  refine ⟨hgap, isTiled_of_children ⟨?_, hfirst.mpr htiled, ?_⟩, hbehind'⟩
  · rw [hspan]
    exact .refl _
  · rw [hspan]
    exact hbelow

end Tree

/-! ## Operations -/

namespace PendingOperation

variable {src : Source} {i j k : Nat} {t : Tree}

/-- The pending operations, the innermost first, cover the text between two offsets. -/
def AreWaiting (src : Source) (i : Nat) : List PendingOperation → Nat → Prop
  | [], stop => src.IsGap i stop
  | p :: ps, stop => AreWaiting src i ps p.left.span.start
    ∧ Tree.AreTiled src p.left.span.start stop [p.left, p.operator]

theorem span_close (p : PendingOperation) (right : Tree) :
    (p.close right).span = ⟨p.left.span.start, right.span.stop⟩ := by
  unfold close
  dsimp only
  split <;> rfl

/-- A closed operation covers what its parts cover. -/
theorem isTiled_close {p : PendingOperation} {right : Tree}
    (h : Tree.AreTiled src p.left.span.start right.span.start [p.left, p.operator])
    (hright : right.IsTiled src) : (p.close right).IsTiled src := by
  have hlast : Tree.AreTiled src right.span.start right.span.stop [right] :=
    ⟨.refl _, hright, .refl _⟩
  have hparts : Tree.AreTiled src p.left.span.start right.span.stop [p.left, p.operator, right] :=
    h.append hlast
  unfold close
  dsimp only
  split
  · exact hparts
  · exact hparts
  · obtain ⟨hgap, hleft, hgap', hoperator, hgap'', -⟩ := hparts
    refine Tree.isTiled_of_children ⟨?_, Tree.isTiled_withField.mpr hleft, ?_,
      Tree.isTiled_withField.mpr hoperator, ?_, Tree.isTiled_withField.mpr hright, ?_⟩
    all_goals rw [Tree.span_withField]
    · exact hgap
    · rw [Tree.span_withField]
      exact hgap'
    · rw [Tree.span_withField]
      exact hgap''
    · exact .refl _

theorem areTiled_foldl_close {pending : List PendingOperation}
    (hpending : AreWaiting src i pending t.span.start) (ht : t.IsTiled src)
    (hgap : src.IsGap t.span.stop k) :
    Tree.AreTiled src i k [pending.foldl (fun t p => p.close t) t] := by
  induction pending generalizing t with
  | nil => exact ⟨hpending, ht, hgap⟩
  | cons p ps ih =>
      refine ih (t := p.close t) ?_ (isTiled_close hpending.2 ht) ?_
      · rw [span_close]
        exact hpending.1
      · rw [span_close]
        exact hgap

theorem areWaiting_closeTighter {binding : Nat × Bool} {pending : List PendingOperation}
    (hpending : AreWaiting src i pending t.span.start) (ht : t.IsTiled src) :
    AreWaiting src i (closeTighter binding pending t).1
        (closeTighter binding pending t).2.span.start
      ∧ (closeTighter binding pending t).2.IsTiled src
      ∧ (closeTighter binding pending t).2.span.stop = t.span.stop := by
  induction pending generalizing t with
  | nil => exact ⟨hpending, ht, rfl⟩
  | cons p ps ih =>
      rw [closeTighter]
      split
      · have hclose := ih (t := p.close t) (by rw [span_close]; exact hpending.1)
          (isTiled_close hpending.2 ht)
        rw [span_close] at hclose
        exact hclose
      · exact ⟨hpending, ht, rfl⟩

/-- Operators and their right sides, as a row of trees. -/
def row (pairs : List (Tree × Tree)) : List Tree := pairs.flatMap fun pair => [pair.1, pair.2]

/-- Grouped operands cover what the operands and operators cover. -/
theorem areTiled_group {pending : List PendingOperation} {pairs : List (Tree × Tree)}
    (hpending : AreWaiting src i pending t.span.start) (ht : t.IsTiled src)
    (hpairs : Tree.AreTiled src t.span.stop k (row pairs)) :
    Tree.AreTiled src i k [group pending t pairs] := by
  induction pairs generalizing pending t with
  | nil => exact areTiled_foldl_close hpending ht hpairs
  | cons pair rest ih =>
      obtain ⟨hgap, hoperator, hgap', hright, hrest⟩ := hpairs
      rw [group]
      dsimp only
      obtain ⟨hwaiting, htiled, hstop⟩ := areWaiting_closeTighter hpending ht
      refine ih ⟨hwaiting, .refl _, htiled, ?_, hoperator, hgap'⟩ hright hrest
      rw [hstop]
      exact hgap

end PendingOperation

end CodeSurvey

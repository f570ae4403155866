import CodeSurvey.Proofs.NestedArrows
import CodeSurvey.Proofs.Weight
import CodeSurvey.Record.File
import Mathlib.Algebra.BigOperators.Group.List.Basic
import Mathlib.Algebra.Order.BigOperators.Group.List
import Mathlib.Data.String.Basic
import Mathlib.Tactic.Ring

/-!
# The total complexity of a file

The total complexity of a file is the sum of those of its functions. Both are numbers of
32 bits, so they are the exact ones up to multiples of 2 ^ 32
(`totalComplexity_eq_exactTotal_iff`).

A decision counts for every function around it. So the exact total is at most one for
each function and the decisions as often as functions stand in one another
(`exactTotal_le`), and as every function and every decision takes a character of the
text, there is room for it if the text is short. But the text need not be long for the
product to be large: of `n` functions around `m` decisions each has them all
(`analyze_arrowFile`), so that some texts within the standard size limit have a
total that is not the sum.
-/

namespace CodeSurvey

/-! ## Sums in 32 bits -/

theorem toNat_foldl_add (cs : List Nat) (k : UInt32) :
    (cs.foldl (fun n c => n + .ofNat c) k).toNat = (k.toNat + cs.sum) % 4294967296 := by
  induction cs generalizing k with
  | nil =>
      have hlt := k.toNat_lt
      show k.toNat = (k.toNat + 0) % 4294967296
      omega
  | cons c cs ih =>
      have hc : (UInt32.ofNat c).toNat = c % 4294967296 := UInt32.toNat_ofNat
      rw [List.foldl_cons, ih, List.sum_cons, UInt32.toNat_add, hc]
      omega

theorem addComplexities_eq (cs : List Nat) : addComplexities cs = cs.sum % 4294967296 := by
  refine (toNat_foldl_add cs 0).trans ?_
  rw [UInt32.toNat_zero, Nat.zero_add]

namespace Tree

/-! ## The exact complexities -/

section Exact

variable (src : Source)

/-- The complexities of the functions of a tree, in pre-order, with all the room that
they need. -/
def exactComplexities (t : Tree) : List Nat :=
  (t.preorder.filter (·.isFunctionKind)).map fun f => 1 + f.decisions src

/-- What they come to. -/
def exactTotal (t : Tree) : Nat := (t.exactComplexities src).sum

/-- How many functions a tree holds. -/
def functionCount (t : Tree) : Nat := t.preorder.countP (·.isFunctionKind)

mutual

/-- How many functions stand in one another, where they are the most. -/
def nesting : Tree → Nat
  | .node l f s cs => (if (node l f s cs).isFunctionKind then 1 else 0) + nestingAmong cs

def nestingAmong : List Tree → Nat
  | [] => 0
  | t :: ts => max t.nesting (nestingAmong ts)

end

/-- The functions of a tree are its root, if it is one, and those of its children. -/
theorem exactComplexities_eq (t : Tree) : t.exactComplexities src
    = (if t.isFunctionKind then [1 + t.decisions src] else [])
      ++ t.children.flatMap (exactComplexities src) := by
  obtain ⟨l, f, s, cs⟩ := t
  rw [exactComplexities, preorder, preorderOfAll_eq_flatMap, List.filter_cons, List.filter_flatMap]
  split
  · rw [List.map_cons, List.map_flatMap]
    rfl
  · rw [List.map_flatMap]
    rfl

theorem exactTotal_eq (t : Tree) : t.exactTotal src
    = (if t.isFunctionKind then 1 + t.decisions src else 0)
      + (t.children.map (exactTotal src)).sum := by
  have hbelow : (t.children.flatMap (exactComplexities src)).sum
      = (t.children.map (exactTotal src)).sum := by
    rw [List.flatMap, List.sum_flatten, List.map_map]
    rfl
  rw [exactTotal, exactComplexities_eq, List.sum_append, hbelow]
  split
  · rw [List.sum_singleton]
  · rfl

theorem functionCount_eq (t : Tree) : t.functionCount
    = (if t.isFunctionKind then 1 else 0) + (t.children.map functionCount).sum :=
  countP_preorder (·.isFunctionKind) t

theorem length_exactComplexities (t : Tree) :
    (t.exactComplexities src).length = t.functionCount := by
  rw [exactComplexities, List.length_map, functionCount, List.countP_eq_length_filter]

mutual

/-- A decision counts once for each function around it, and there are no more of these
than stand in one another. -/
theorem exactTotal_le : (t : Tree) →
    t.exactTotal src ≤ t.functionCount + t.nesting * t.decisions src
  | .node l f s cs => by
      have hbelow := sum_exactTotal_le cs
      have hmore : nestingAmong cs * (cs.map (decisions src)).sum
          ≤ nestingAmong cs * (node l f s cs).decisions src := by
        rw [decisions_eq]
        exact Nat.mul_le_mul_left _ (Nat.le_add_left _ _)
      rw [exactTotal_eq, functionCount_eq, nesting, children]
      split
      · rw [Nat.add_mul, Nat.one_mul]
        omega
      · rw [Nat.zero_add, Nat.zero_add, Nat.zero_add]
        omega

theorem sum_exactTotal_le : (ts : List Tree) → (ts.map (exactTotal src)).sum
    ≤ (ts.map functionCount).sum + nestingAmong ts * (ts.map (decisions src)).sum
  | [] => Nat.le_refl 0
  | t :: ts => by
      have hfirst := exactTotal_le t
      have hrest := sum_exactTotal_le ts
      have hdeep : t.nesting * t.decisions src ≤ nestingAmong (t :: ts) * t.decisions src :=
        Nat.mul_le_mul_right _ (Nat.le_max_left _ _)
      have hdeeper : nestingAmong ts * (ts.map (decisions src)).sum
          ≤ nestingAmong (t :: ts) * (ts.map (decisions src)).sum :=
        Nat.mul_le_mul_right _ (Nat.le_max_right _ _)
      simp only [List.map_cons, List.sum_cons, Nat.mul_add]
      omega

end

mutual

theorem nesting_le : (t : Tree) → t.nesting ≤ t.functionCount
  | .node l f s cs => by
      have hbelow := nestingAmong_le cs
      rw [nesting, functionCount_eq, children]
      omega

theorem nestingAmong_le : (ts : List Tree) → nestingAmong ts ≤ (ts.map functionCount).sum
  | [] => Nat.le_refl 0
  | t :: ts => by
      have hfirst := nesting_le t
      have hrest := nestingAmong_le ts
      rw [nestingAmong, List.map_cons, List.sum_cons]
      omega

end

/-! ## What a record says -/

theorem map_complexity_ofTree (t : Tree) :
    (Extraction.ofTree src t).functions.map (·.complexity)
      = (t.exactComplexities src).map (· % 4294967296) := by
  have hnodes : ((Cursor.preorderFrom [] t).filter (·.tree.isFunctionKind)).map (·.tree)
      = t.preorder.filter (·.isFunctionKind) := by
    rw [← Cursor.map_tree_preorderFrom [] t, List.filter_map]
    rfl
  rw [Extraction.ofTree, Extraction.functions_ofNodes, Cursor.walk_ofTree, exactComplexities,
    ← hnodes, List.map_map, List.map_map, List.map_map]
  refine List.map_congr_left ?_
  intro c _
  exact c.tree.complexity_eq src

theorem map_mod_eq_self {cs : List Nat} :
    cs.map (· % 4294967296) = cs ↔ ∀ n ∈ cs, n < 4294967296 := by
  have hid : cs.map (· % 4294967296) = cs ↔ cs.map (· % 4294967296) = cs.map id := by
    rw [List.map_id]
  rw [hid, List.map_inj_left]
  refine forall₂_congr fun n _ => ?_
  show n % 4294967296 = n ↔ n < 4294967296
  omega

/-- A function has no more decisions than the tree that it stands in. -/
theorem le_of_mem_exactComplexities {t : Tree} {n : Nat} (h : n ∈ t.exactComplexities src) :
    n ≤ 1 + t.decisions src := by
  obtain ⟨u, hu, rfl⟩ := List.mem_map.mp h
  have hmem := (List.mem_filter.mp hu).1
  rw [← Cursor.map_tree_preorderFrom [] t] at hmem
  obtain ⟨c, hc, rfl⟩ := List.mem_map.mp hmem
  obtain ⟨p, -, hat, -⟩ := Cursor.at?_of_mem_preorderFrom [] t hc
  exact Nat.add_le_add_left (decisions_le_of_at? src hat) 1

end Exact

/-! ## Short texts -/

/-- The exact total of a text is at most a product of two numbers that are no more than
its characters together. -/
theorem exactTotal_parse_lt {src : Source} (h : src.size ≤ 131070) (d : Dialect) :
    (src.parse d).exactTotal src < 4294967296 := by
  have hweight := functions_add_decisions_le src d
  have htotal := exactTotal_le src (src.parse d)
  have hnesting := Nat.mul_le_mul_right ((src.parse d).decisions src) (nesting_le (src.parse d))
  rw [← functionCount] at hweight
  generalize (src.parse d).functionCount = k at *
  generalize (src.parse d).decisions src = l at *
  have hproduct : 4 * k * (1 + l) ≤ (k + (1 + l)) ^ 2 := four_mul_le_sq_add k (1 + l)
  have hsum : (k + (1 + l)) ^ 2 ≤ 131071 ^ 2 := Nat.pow_le_pow_left (by omega) 2
  have hexpand : 4 * k * (1 + l) = 4 * k + 4 * (k * l) := by ring
  omega

end Tree

/-! ## Files -/

namespace Source

variable {src : Source} {d : Dialect}

theorem parse?_of_hasError (h : (src.parse d).hasError = true) :
    ∃ failure, src.parse? d = .error failure := by
  simp [parse?, Tree.faultPosition?, Tree.firstFault?, h]

theorem parse?_of_not_hasError (h : (src.parse d).hasError = false) :
    src.parse? d = .ok (src.parse d) := by
  simp [parse?, Tree.faultPosition?, Tree.firstFault?, h]

end Source

namespace SourceFile

def source (f : SourceFile) : Source := Source.ofString f.content

/-- The tree of a file in a dialect. -/
def tree (f : SourceFile) (d : Dialect) : Tree := f.source.parse d

theorem size_source (f : SourceFile) : f.source.size = f.content.length := by
  simp [source, Source.ofString, Source.size, String.length]

variable {c : ParserConfig} {f : SourceFile} {d : Dialect} {r : ParsedFile}

theorem analyze_eq_ok_iff (hd : f.language.dialect? = some d) : f.analyze c = .ok r
    ↔ ¬(0 < c.maxFileBytes ∧ c.maxFileBytes < f.bytes) ∧ (f.tree d).hasError = false
      ∧ r = .ofTree f.path f.language f.source (f.tree d) := by
  rw [analyze, hd]
  dsimp only
  split
  · rename_i hlarge
    simp [hlarge]
  · rename_i hsmall
    show (f.source.parse? d).map (ParsedFile.ofTree f.path f.language f.source) = .ok r ↔ _
    cases herror : (f.tree d).hasError with
    | true =>
        obtain ⟨failure, hfailure⟩ := Source.parse?_of_hasError herror
        rw [hfailure]
        simp [Except.map]
    | false =>
        rw [Source.parse?_of_not_hasError herror]
        simp [Except.map, hsmall, tree, eq_comm]

/-- The complexities of an accepted file are the exact ones up to multiples of 2 ^ 32. -/
theorem complexities_of_analyze (hd : f.language.dialect? = some d) (h : f.analyze c = .ok r) :
    r.functions.map (·.complexity)
        = ((f.tree d).exactComplexities f.source).map (· % 4294967296)
      ∧ r.totalComplexity = (f.tree d).exactTotal f.source % 4294967296 := by
  obtain ⟨-, -, rfl⟩ := (analyze_eq_ok_iff hd).mp h
  refine ⟨Tree.map_complexity_ofTree _ _, ?_⟩
  show addComplexities _ = _
  rw [addComplexities_eq, Tree.map_complexity_ofTree, ← List.sum_nat_mod, Tree.exactTotal]

end SourceFile

/-- In an accepted file the complexities of the functions and the total are the exact ones
up to multiples of 2 ^ 32, so the total is the sum exactly where there is room for it. What the
sum comes to depends on how functions stand in one another. -/
theorem totalComplexity_eq_exactTotal_iff (c : ParserConfig) (f : SourceFile) (d : Dialect)
    (r : ParsedFile) (hd : f.language.dialect? = some d) (h : f.analyze c = .ok r) :
    r.functions.map (·.complexity)
        = ((f.tree d).exactComplexities f.source).map (· % 4294967296)
      ∧ r.totalComplexity = (f.tree d).exactTotal f.source % 4294967296
      ∧ (r.totalComplexity = (f.tree d).exactTotal f.source
        ↔ (f.tree d).exactTotal f.source < 4294967296)
      ∧ (r.totalComplexity = (f.tree d).exactTotal f.source →
        r.functions.map (·.complexity) = (f.tree d).exactComplexities f.source)
      ∧ (f.tree d).exactTotal f.source
        ≤ r.functions.length + (f.tree d).nesting * (f.tree d).decisions f.source
      ∧ r.functions.length + (f.tree d).decisions f.source ≤ f.content.length
      ∧ (f.content.length < 4294967295 →
        r.functions.map (·.complexity) = (f.tree d).exactComplexities f.source)
      ∧ (f.content.length ≤ 131070 →
        r.totalComplexity = (f.tree d).exactTotal f.source) := by
  obtain ⟨hfunctions, htotal⟩ := SourceFile.complexities_of_analyze hd h
  have hlength : r.functions.length = (f.tree d).functionCount := by
    rw [← Tree.length_exactComplexities f.source, ← List.length_map (f := (·.complexity)),
      hfunctions, List.length_map]
  have hweight : (f.tree d).functionCount + (f.tree d).decisions f.source ≤ f.content.length := by
    rw [← f.size_source]
    exact functions_add_decisions_le f.source d
  have hiff : r.totalComplexity = (f.tree d).exactTotal f.source
      ↔ (f.tree d).exactTotal f.source < 4294967296 := by
    omega
  refine ⟨hfunctions, htotal, hiff, ?_, ?_, ?_, ?_, ?_⟩
  · intro htotal
    rw [hfunctions, Tree.map_mod_eq_self]
    intro n hn
    exact Nat.lt_of_le_of_lt (List.single_le_sum (fun _ _ => Nat.zero_le _) n hn) (hiff.mp htotal)
  · rw [hlength]
    exact Tree.exactTotal_le f.source (f.tree d)
  · rw [hlength]
    exact hweight
  · intro hshort
    rw [hfunctions, Tree.map_mod_eq_self]
    intro n hn
    have hle := Tree.le_of_mem_exactComplexities f.source hn
    omega
  · intro hshort
    refine hiff.mpr (Tree.exactTotal_parse_lt ?_ d)
    rw [f.size_source]
    exact hshort

/-! ## Functions around functions -/

section Arrows

open CodeSurvey.Tree

theorem Tree.exactComplexities_withField (src : Source) (f : Field) (t : Tree) :
    (t.withField f).exactComplexities src = t.exactComplexities src := by
  rw [exactComplexities_eq, decisions_withField, exactComplexities_eq (t := t)]
  obtain ⟨l, g, s, cs⟩ := t
  rfl

theorem Tree.anyHasError_eq (ts : List Tree) : anyHasError ts = ts.any hasError := by
  induction ts with
  | nil => rfl
  | cons t ts ih => rw [anyHasError, ih, List.any_cons]

theorem Tree.hasError_eq (t : Tree) :
    t.hasError = (t.label.isError || t.label.isMissing || t.children.any hasError) := by
  obtain ⟨l, f, s, cs⟩ := t
  rw [hasError, anyHasError_eq]
  rfl

theorem Tree.hasError_withField (f : Field) (t : Tree) : (t.withField f).hasError = t.hasError := by
  rw [hasError_eq, hasError_eq t]
  obtain ⟨l, g, s, cs⟩ := t
  rfl

variable {src : Source} {i n m : Nat}

/-! ### The choice -/

theorem Tree.isDecision_of_operator {src : Source} {t op : Tree}
    (hlabel : t.label = .named .binaryExpression) (hop : t.child? .operator = some op)
    (hshort : isShortCircuit (op.text src) = true) : t.isDecision src = true := by
  unfold isDecision
  rw [hlabel]
  dsimp only
  rw [hop]
  exact hshort

theorem isDecision_choiceTree (h : src.rest i = nestedArrows 0 m) {k : Nat} (hk : k < m) :
    (choiceTree i (k + 1)).isDecision src = true := by
  have hchild : (choiceTree i (k + 1)).child? .operator
      = some ((choicePair i k).1.withField .operator) := by
    rw [choiceTree, child?, children,
      List.find?_cons_of_neg (by rw [field_withField]; decide),
      List.find?_cons_of_pos (by rw [field_withField]; decide)]
  have htext : ((choicePair i k).1.withField .operator).text src = "||" := by
    obtain ⟨j, rfl⟩ : ∃ j, m = k + (j + 1) := ⟨m - k - 1, by omega⟩
    have hname := rest_choice h rfl
    rw [nestedArrows] at hname
    show src.slice (i + 3 * k + 1) (i + 3 * k + 1 + 2) = "||"
    rw [Source.slice_eq, Source.rest_succ hname]
    rfl
  refine isDecision_of_operator rfl hchild ?_
  rw [htext]
  decide

theorem decisions_choiceTree (h : src.rest i = nestedArrows 0 m) {k : Nat} (hk : k ≤ m) :
    (choiceTree i k).decisions src = k := by
  induction k with
  | zero => rfl
  | succ k ih =>
      have hsign : ((choicePair i k).1.withField .operator).decisions src = 0 := rfl
      have hname : ((choicePair i k).2.withField .right).decisions src = 0 := rfl
      rw [decisions_eq, if_pos (isDecision_choiceTree h hk), choiceTree, children, List.map_cons,
        List.map_cons, List.map_cons, decisions_withField, ih (by omega), hsign, hname]
      show 1 + (k + (0 + (0 + 0))) = k + 1
      omega

theorem exactComplexities_choiceTree (src : Source) (i k : Nat) :
    (choiceTree i k).exactComplexities src = [] := by
  induction k with
  | zero => rfl
  | succ k ih =>
      rw [exactComplexities_eq, choiceTree, children, List.flatMap_cons,
        exactComplexities_withField, ih]
      rfl

theorem hasError_choiceTree (i k : Nat) : (choiceTree i k).hasError = false := by
  induction k with
  | zero => rfl
  | succ k ih =>
      rw [hasError_eq, choiceTree, children, List.any_cons, hasError_withField, ih]
      rfl

/-! ### The functions -/

theorem decisions_arrowTree (h : src.rest i = nestedArrows n m) :
    (arrowTree m n i).decisions src = m := by
  induction n generalizing i with
  | zero => exact decisions_choiceTree h (Nat.le_refl m)
  | succ n ih =>
      have hbody : (arrowTree m n (i + 3)).decisions src = m := by
        rw [nestedArrows] at h
        exact ih (Source.rest_succ (Source.rest_succ (Source.rest_succ h)))
      have hname : ((nameLeaf i).withField .parameter).decisions src = 0 := rfl
      have harrow : (Tree.ofToken "=>" (i + 1) (i + 3)).decisions src = 0 := rfl
      rw [decisions_eq, arrowTree, children, List.map_cons, List.map_cons, List.map_cons,
        decisions_withField src .body, hbody, hname, harrow]
      show 0 + (0 + (0 + (m + 0))) = m
      omega

theorem exactComplexities_arrowTree (h : src.rest i = nestedArrows n m) :
    (arrowTree m n i).exactComplexities src = List.replicate n (1 + m) := by
  induction n generalizing i with
  | zero => exact exactComplexities_choiceTree src i m
  | succ n ih =>
      have hself := decisions_arrowTree h
      have hbody : (arrowTree m n (i + 3)).exactComplexities src = List.replicate n (1 + m) := by
        rw [nestedArrows] at h
        exact ih (Source.rest_succ (Source.rest_succ (Source.rest_succ h)))
      rw [exactComplexities_eq, hself, arrowTree, children, List.flatMap_cons, List.flatMap_cons,
        List.flatMap_cons, exactComplexities_withField src .body, hbody, List.replicate_succ]
      show [1 + m] ++ ([] ++ ([] ++ (List.replicate n (1 + m) ++ []))) = _
      simp

theorem hasError_arrowTree (m n i : Nat) : (arrowTree m n i).hasError = false := by
  induction n generalizing i with
  | zero => exact hasError_choiceTree i m
  | succ n ih =>
      rw [hasError_eq, arrowTree, children, List.any_cons, List.any_cons, List.any_cons,
        hasError_withField .body, ih]
      rfl

/-! ### The file -/

/-- The file with such a text. -/
def arrowFile (n m : Nat) : SourceFile :=
  ⟨"a.js", String.ofList (nestedArrows n m), 3 * (n + m) + 1⟩

theorem dialect?_arrowFile (n m : Nat) : (arrowFile n m).language.dialect? = some .javascript := by
  show (Language.classify "a.js").dialect? = some .javascript
  decide +kernel

theorem source_arrowFile (n m : Nat) : (arrowFile n m).source = arrowSource n m := by
  rw [SourceFile.source, arrowFile, Source.ofString, String.toList_ofList, arrowSource]

theorem tree_arrowFile (n m : Nat) : (arrowFile n m).tree .javascript = arrowProgram n m := by
  rw [SourceFile.tree, source_arrowFile, parse_nestedArrows]

theorem bytes_arrowFile (n m : Nat) : (arrowFile n m).bytes = 3 * (n + m) + 1 := by
  have hlength : ∀ n m, String.utf8Len (nestedArrows n m) = 3 * (n + m) + 1 := by
    intro n m
    fun_induction nestedArrows n m with
    | case1 n m ih =>
        rw [String.utf8Len_cons, String.utf8Len_cons, String.utf8Len_cons, ih]
        show 3 * (n + m) + 1 + 1 + 1 + 1 = _
        omega
    | case2 m ih =>
        rw [String.utf8Len_cons, String.utf8Len_cons, String.utf8Len_cons, ih]
        show 3 * (0 + m) + 1 + 1 + 1 + 1 = _
        omega
    | case3 => rfl
  show max (3 * (n + m) + 1) (String.ofList (nestedArrows n m)).utf8ByteSize = _
  rw [String.utf8ByteSize_ofList, hlength, Nat.max_self]

theorem exactComplexities_arrowFile (n m : Nat) :
    ((arrowFile n m).tree .javascript).exactComplexities (arrowFile n m).source
      = List.replicate n (1 + m) := by
  have hrest : (arrowSource n m).rest 0 = nestedArrows n m := rfl
  rw [tree_arrowFile, source_arrowFile, exactComplexities_eq, arrowProgram, children,
    List.flatMap_singleton, exactComplexities_eq, arrowStatement, children, List.flatMap_singleton,
    exactComplexities_arrowTree hrest]
  rfl

theorem exactTotal_arrowFile (n m : Nat) :
    ((arrowFile n m).tree .javascript).exactTotal (arrowFile n m).source = n * (1 + m) := by
  rw [exactTotal, exactComplexities_arrowFile, List.sum_replicate_nat]

theorem hasError_arrowFile (n m : Nat) : ((arrowFile n m).tree .javascript).hasError = false := by
  rw [tree_arrowFile, hasError_eq, arrowProgram, children, List.any_cons, hasError_eq,
    arrowStatement, children, List.any_cons, hasError_arrowTree]
  rfl

/-- If the size limit lets it pass, the file is accepted, and each of its functions has all
its decisions. -/
theorem analyze_arrowFile {c : ParserConfig} {n m : Nat}
    (hlimit : c.maxFileBytes = 0 ∨ 3 * (n + m) + 1 ≤ c.maxFileBytes) :
    ∃ r, (arrowFile n m).analyze c = .ok r
      ∧ r.functions.map (·.complexity) = List.replicate n ((1 + m) % 4294967296)
      ∧ r.totalComplexity = n * (1 + m) % 4294967296 := by
  have hd := dialect?_arrowFile n m
  have hsmall : ¬(0 < c.maxFileBytes ∧ c.maxFileBytes < (arrowFile n m).bytes) := by
    rw [bytes_arrowFile]
    omega
  have haccepted := (SourceFile.analyze_eq_ok_iff hd).mpr ⟨hsmall, hasError_arrowFile n m, rfl⟩
  obtain ⟨hfunctions, htotal⟩ := SourceFile.complexities_of_analyze hd haccepted
  rw [exactComplexities_arrowFile, List.map_replicate] at hfunctions
  rw [exactTotal_arrowFile] at htotal
  exact ⟨_, haccepted, hfunctions, htotal⟩

end Arrows

/-- Two functions around three decisions each. -/
theorem totalComplexity_eq_exactTotal_arrowFile : ∃ r,
    (arrowFile 2 3).language.dialect? = some .javascript
      ∧ (arrowFile 2 3).analyze .standard = .ok r
      ∧ r.totalComplexity = 8
      ∧ ((arrowFile 2 3).tree .javascript).exactTotal (arrowFile 2 3).source < 4294967296 := by
  have hd := dialect?_arrowFile 2 3
  obtain ⟨r, hr, -, htotal⟩ :=
    analyze_arrowFile (c := .standard) (n := 2) (m := 3) (.inr (by decide))
  obtain ⟨-, -, hiff, -⟩ :=
    totalComplexity_eq_exactTotal_iff .standard (arrowFile 2 3) .javascript r hd hr
  exact ⟨r, hd, hr, htotal, hiff.mp (htotal.trans (exactTotal_arrowFile 2 3).symm)⟩

/-- Within the standard size limit, with 16384 functions around 262144 decisions, the total
starts again at zero; without a limit, with 4096 functions around 1048576 decisions, too. -/
theorem totalComplexity_ne_exactTotal_arrowFile :
    (∃ r, (arrowFile 16384 262144).analyze .standard = .ok r
      ∧ r.functions.map (·.complexity) = List.replicate 16384 262145
      ∧ ((arrowFile 16384 262144).tree .javascript).exactTotal (arrowFile 16384 262144).source
        = 4294983680
      ∧ r.totalComplexity = 16384)
    ∧ ∃ r, (arrowFile 4096 1048576).analyze ⟨0, 0⟩ = .ok r
      ∧ r.functions.map (·.complexity) = List.replicate 4096 1048577
      ∧ ((arrowFile 4096 1048576).tree .javascript).exactTotal (arrowFile 4096 1048576).source
        = 4294971392
      ∧ r.totalComplexity = 4096 := by
  obtain ⟨r, hr, hfunctions, htotal⟩ :=
    analyze_arrowFile (c := .standard) (n := 16384) (m := 262144) (.inr (by decide))
  obtain ⟨r', hr', hfunctions', htotal'⟩ :=
    analyze_arrowFile (c := ⟨0, 0⟩) (n := 4096) (m := 1048576) (.inl rfl)
  exact ⟨⟨r, hr, hfunctions, exactTotal_arrowFile 16384 262144, htotal⟩,
    ⟨r', hr', hfunctions', exactTotal_arrowFile 4096 1048576, htotal'⟩⟩

end CodeSurvey

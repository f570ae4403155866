import CodeSurvey.Proofs.Sorted
import CodeSurvey.Report.Terminal
import Mathlib

/-!
# The ranking of functions

The hotspots of a survey are the first functions of a ranking of all of them: by complexity
from the largest down, then by path, then by line (`Hotspot.key`). The ranking holds every
function once. Functions that agree in all three stay in the order of the files, which is
said for one key at a time: the functions with this key are the same list before and after
(`filter_key_ranked`).

Where no two functions agree there is one ranking only, so the order of the files plays no
part (`ranked_eq_of_perm`).
-/

namespace CodeSurvey

namespace Hotspot

/-- What a function is ranked by: the smaller key comes first. -/
def key (h : Hotspot) : ℕᵒᵈ ×ₗ List Char ×ₗ ℕ :=
  toLex (OrderDual.toDual h.function.complexity, toLex (h.path.toList, h.function.lineStart))

theorem key_eq_iff {a b : Hotspot} : a.key = b.key ↔
    a.function.complexity = b.function.complexity ∧ a.path = b.path
      ∧ a.function.lineStart = b.function.lineStart := by
  simp [key, String.toList_inj]

theorem ranksBefore_iff (a b : Hotspot) : a.ranksBefore b = true ↔ a.key < b.key := by
  simp [ranksBefore, key, Prod.Lex.toLex_lt_toLex, textLess, String.toList_inj]

theorem not_ranksBefore_iff (a b : Hotspot) : (!b.ranksBefore a) = true ↔ a.key ≤ b.key := by
  rw [Bool.not_eq_true', ← Bool.not_eq_true, ranksBefore_iff, not_lt]

/-! ## The ranking -/

/-- All functions of some files, by rank. -/
def ranked (files : List ParsedFile) : List Hotspot :=
  (ofFiles files).mergeSort fun a b => !ranksBefore b a

theorem top_eq_take_ranked (limit : Nat) (files : List ParsedFile) :
    top limit files = (ranked files).take limit := rfl

theorem ranked_perm (files : List ParsedFile) : (ranked files).Perm (ofFiles files) :=
  List.mergeSort_perm ..

theorem rank_trans (a b c : Hotspot) (hab : (!b.ranksBefore a) = true)
    (hbc : (!c.ranksBefore b) = true) : (!c.ranksBefore a) = true := by
  rw [not_ranksBefore_iff] at *
  exact hab.trans hbc

theorem rank_total (a b : Hotspot) : ((!b.ranksBefore a) || !a.ranksBefore b) = true := by
  rw [Bool.or_eq_true, not_ranksBefore_iff, not_ranksBefore_iff]
  exact le_total a.key b.key

theorem pairwise_ranked (files : List ParsedFile) :
    (ranked files).Pairwise fun a b => a.key ≤ b.key :=
  (List.pairwise_mergeSort rank_trans rank_total (ofFiles files)).imp
    fun h => (not_ranksBefore_iff ..).mp h

/-- Functions with the same key keep their order. -/
theorem filter_key_ranked (files : List ParsedFile) (k : ℕᵒᵈ ×ₗ List Char ×ₗ ℕ) :
    (ranked files).filter (·.key = k) = (ofFiles files).filter (·.key = k) := by
  have hties : ((ofFiles files).filter (·.key = k)).Pairwise
      fun a b => (!b.ranksBefore a) = true := by
    refine List.pairwise_of_forall_mem_list fun a ha b hb => ?_
    have hak : a.key = k := of_decide_eq_true (List.mem_filter.mp ha).2
    have hbk : b.key = k := of_decide_eq_true (List.mem_filter.mp hb).2
    exact (not_ranksBefore_iff a b).mpr (le_of_eq (hak.trans hbk.symm))
  have hsub : ((ofFiles files).filter (·.key = k)).Sublist ((ranked files).filter (·.key = k)) := by
    have hkept : ((ofFiles files).filter (·.key = k)).Sublist (ranked files) :=
      List.sublist_mergeSort rank_trans rank_total hties List.filter_sublist
    simpa only [List.filter_filter, Bool.and_self] using hkept.filter (·.key = k)
  have hlength := ((ranked_perm files).filter (·.key = k)).length_eq
  exact (hsub.eq_of_length hlength.symm).symm

/-! ## Rankings without ties -/

/-- No two functions agree in all that they are ranked by. -/
def AllDiffer (files : List ParsedFile) : Prop :=
  (ofFiles files).Pairwise fun a b => ¬(a.function.complexity = b.function.complexity
    ∧ a.path = b.path ∧ a.function.lineStart = b.function.lineStart)

theorem pairwise_lt_ranked {files : List ParsedFile}
    (h : (ofFiles files).Pairwise fun a b => a.key ≠ b.key) :
    (ranked files).Pairwise fun a b => a.key < b.key := by
  have hranked : (ranked files).Pairwise fun a b => a.key ≠ b.key :=
    (ranked_perm files).symm.pairwise h fun hab => hab.symm
  exact (pairwise_ranked files).imp₂ (fun _ _ hle hab => lt_of_le_of_ne hle hab) hranked

/-- All functions in an order in which the keys go up are the ranking. -/
theorem ranked_eq_of_pairwise {files : List ParsedFile} {hotspots : List Hotspot}
    (hperm : hotspots.Perm (ofFiles files))
    (horder : hotspots.Pairwise fun a b => a.key < b.key) : ranked files = hotspots := by
  have hdiffer : (ofFiles files).Pairwise fun a b => a.key ≠ b.key :=
    hperm.pairwise (horder.imp fun hab => ne_of_lt hab) fun hab => hab.symm
  have hall : (ranked files).Perm hotspots := (ranked_perm files).trans hperm.symm
  exact hall.eq_of_pairwise (fun a b _ _ hab hba => absurd hba (lt_asymm hab))
    (pairwise_lt_ranked hdiffer) horder

/-- Functions that all differ are ranked in one way only. -/
theorem ranked_eq_of_perm {files files' : List ParsedFile} (hperm : files'.Perm files)
    (h : AllDiffer files) : ranked files' = ranked files := by
  have hall : (ofFiles files').Perm (ofFiles files) := hperm.flatMap_right _
  have hdiffer : (ofFiles files).Pairwise fun a b => a.key ≠ b.key :=
    h.imp fun hab heq => hab (key_eq_iff.mp heq)
  exact ranked_eq_of_pairwise ((ranked_perm files).trans hall.symm) (pairwise_lt_ranked hdiffer)

/-! ## The first functions of the ranking -/

theorem length_ofFiles (files : List ParsedFile) :
    (ofFiles files).length = totalOf (fun f => f.functions.length) files := by
  induction files with
  | nil => rfl
  | cons f files ih =>
      rw [ofFiles, List.flatMap_cons, List.length_append, List.length_map, totalOf, ← ih, ofFiles]

/-- The functions that are listed are the first of a ranking that holds every function once:
as many as are asked for, or all; from the largest complexity down, then by path, then by line;
and in the order of the files where they agree in all three. None that is left out ranks
before a listed one. If no two functions agree, the order of the files plays no part, in the
list or in the report. -/
theorem top_ranks_first (limit : Nat) (files : List ParsedFile) :
    (top limit files).length = min limit (totalOf (fun f => f.functions.length) files)
      ∧ (∃ rest, (top limit files ++ rest).Perm (ofFiles files)
        ∧ (top limit files ++ rest).Pairwise (fun a b => a.key ≤ b.key)
        ∧ (∀ k, (top limit files ++ rest).filter (·.key = k)
          = (ofFiles files).filter (·.key = k))
        ∧ ∀ a ∈ top limit files, ∀ b ∈ rest, ¬b.key < a.key)
      ∧ ∀ files', files'.Perm files → AllDiffer files →
        top limit files' = top limit files
          ∧ ∀ colour, TerminalReport.hotspotLines colour files'
            = TerminalReport.hotspotLines colour files := by
  have hsplit : top limit files ++ (ranked files).drop limit = ranked files :=
    List.take_append_drop limit (ranked files)
  refine ⟨?_, ⟨(ranked files).drop limit, ?_, ?_, ?_, ?_⟩, fun files' hperm h => ⟨?_, ?_⟩⟩
  · rw [top_eq_take_ranked, List.length_take, (ranked_perm files).length_eq, length_ofFiles]
  · rw [hsplit]
    exact ranked_perm files
  · rw [hsplit]
    exact pairwise_ranked files
  · rw [hsplit]
    exact filter_key_ranked files
  · intro a ha b hb
    have hpairs := pairwise_ranked files
    rw [← hsplit, List.pairwise_append] at hpairs
    exact not_lt_of_ge (hpairs.2.2 a ha b hb)
  · rw [top_eq_take_ranked, top_eq_take_ranked, ranked_eq_of_perm hperm h]
  · intro colour
    have htop : top TerminalReport.hotspotLimit files' = top TerminalReport.hotspotLimit files := by
      rw [top_eq_take_ranked, top_eq_take_ranked, ranked_eq_of_perm hperm h]
    rw [TerminalReport.hotspotLines, TerminalReport.hotspotLines, htop]

/-- A function on one line. -/
def functionOn (name : String) (line complexity : Nat) : FunctionRecord :=
  ⟨name, [], none, line, line, complexity, false, false, none⟩

/-- Two files in which the largest complexity occurs twice. -/
def twoFiles : List ParsedFile :=
  [⟨"src/b.ts", .typescript, 9, [functionOn "parse" 1 4, functionOn "print" 6 2], [], [], [], 6⟩,
    ⟨"src/a.ts", .typescript, 5, [functionOn "read" 2 4], [], [], [], 4⟩]

/-- Of the two most complex functions the one comes first whose path does, in whatever order
the files are. -/
theorem top_ranks_twoFiles :
    AllDiffer twoFiles ∧ top 2 twoFiles.reverse = top 2 twoFiles
      ∧ (top 2 twoFiles).map (·.function.name) = ["read", "parse"] := by
  have hdiffer : AllDiffer twoFiles := by
    unfold AllDiffer
    decide +kernel
  obtain ⟨-, -, hreorder⟩ := top_ranks_first 2 twoFiles
  refine ⟨hdiffer, (hreorder twoFiles.reverse twoFiles.reverse_perm hdiffer).1, ?_⟩
  have hranked : ranked twoFiles = [⟨"src/a.ts", functionOn "read" 2 4⟩,
      ⟨"src/b.ts", functionOn "parse" 1 4⟩, ⟨"src/b.ts", functionOn "print" 6 2⟩] := by
    refine ranked_eq_of_pairwise (by decide +kernel) ?_
    simp only [← ranksBefore_iff]
    decide +kernel
  rw [top_eq_take_ranked, hranked]
  rfl

end Hotspot

end CodeSurvey

/-
  Pairs: the loops of a program as a list.

  The list is read off the table of closing brackets, so an entry of it is an entry of the table
  (`mem_pairs_iff`), and it ascends because the table is read from its beginning.  In a program all
  of whose brackets have partners the table has an entry exactly where the program has a `[`, so
  the list has one entry for each of them (`length_pairs`).
-/
import Brainfuck.Proofs.Balance

namespace Brainfuck

namespace Program

variable {program : Program} {i : Nat}

/-- A `[` that nothing closes is open to the end. -/
theorem openAt_length (hopening : program[i]? = some .loopOpen)
    (hcloses : ∀ j, ¬ program.Closes i j) : program.OpenAt program.length i := by
  have hlt : i < program.length := (List.getElem?_eq_some_iff.mp hopening).1
  -- By induction on the position: nothing on the way closes it.
  have hopen (n : Nat) (hin : i < n) : program.OpenAt n i := by
    induction n with
    | zero => omega
    | succ n ih =>
      rw [openAt_succ_iff]
      rcases Nat.lt_or_eq_of_le (Nat.le_of_lt_succ hin) with hlt | rfl
      · exact .inr ⟨ih hlt, hcloses n⟩
      · exact .inl ⟨rfl, hopening⟩
  exact hopen program.length hlt

/-- In a well-nested program every `[` is closed. -/
theorem WellNested.exists_closes (h : program.WellNested) (hopening : program[i]? = some .loopOpen) :
    ∃ j, program.Closes i j := by
  apply Classical.byContradiction
  intro hnone
  have hopen := openAt_length hopening fun j hj => hnone ⟨j, hj⟩
  exact wellNested_iff_forall_not_partnerless.mp h _ (.unclosed hopen)

end Program

namespace Loops

variable {program : Program} {i j : Nat}

/-- **The pairs that are listed are those of the program.** -/
theorem mem_pairs_iff : (i, j) ∈ (ofProgram program).pairs ↔ program.Closes i j := by
  rw [← closeOf_eq_ok_iff, closeOf, lookup_eq_ok_iff, ← Array.getElem?_toList,
    ← List.mk_mem_zipIdx_iff_getElem?, pairs, List.mem_filterMap]
  constructor
  · rintro ⟨⟨close?, opening⟩, hentry, hpair⟩
    obtain ⟨close, rfl, heq⟩ := Option.map_eq_some_iff.mp hpair
    obtain ⟨rfl, rfl⟩ := Prod.mk.inj heq
    exact hentry
  · intro hentry
    exact ⟨(some j, i), hentry, rfl⟩

/-- The list ascends, for it is read off a table. -/
theorem pairs_ascending (loops : Loops) : loops.pairs.Pairwise fun p q => p.1 < q.1 := by
  have hpositions : loops.closeTable.toList.zipIdx.Pairwise fun p q => p.2 < q.2 := by
    rw [← List.pairwise_map (f := Prod.snd), List.zipIdx_map_snd]
    exact List.pairwise_lt_range'
  rw [pairs, List.pairwise_filterMap]
  apply hpositions.imp
  rintro ⟨first?, i⟩ ⟨second?, j⟩ hlt p hp q hq
  obtain ⟨_, _, rfl⟩ := Option.map_eq_some_iff.mp hp
  obtain ⟨_, _, rfl⟩ := Option.map_eq_some_iff.mp hq
  exact hlt

/-- If every bracket has a partner, then the table has its entries where the program has a `[`. -/
theorem map_isSome_closeTable (h : program.WellNested) :
    (ofProgram program).closeTable.toList.map Option.isSome
      = program.map fun i => decide (i = .loopOpen) := by
  have hsize : (ofProgram program).closeTable.size = program.length :=
    (Pairing.covers_visitAll program).size_closeTable
  have hentry (i j : Nat) :
      (ofProgram program).closeTable.toList[i]? = some (some j) ↔ program.Closes i j := by
    rw [Array.getElem?_toList, ← lookup_eq_ok_iff, ← closeOf_eq_ok_iff, closeOf]
  apply List.ext_getElem
  · simp [hsize]
  · intro k hk hk'
    rw [List.getElem_map, List.getElem_map, Bool.eq_iff_iff, Option.isSome_iff_exists,
      decide_eq_true_iff]
    rw [List.length_map] at hk hk'
    constructor
    · rintro ⟨j, hj⟩
      have hcloses := (hentry k j).mp (List.getElem?_eq_some_iff.mpr ⟨hk, hj⟩)
      exact (List.getElem?_eq_some_iff.mp hcloses.opening).2
    · intro hopening
      obtain ⟨j, hj⟩ := h.exists_closes (List.getElem?_eq_some_iff.mpr ⟨hk', hopening⟩)
      exact ⟨j, (List.getElem?_eq_some_iff.mp ((hentry k j).mpr hj)).2⟩

/-- There is a pair for every entry of the table. -/
theorem length_pairs_eq_count (loops : Loops) :
    loops.pairs.length = (loops.closeTable.toList.map Option.isSome).count true := by
  rw [pairs, List.length_filterMap_eq_countP, List.count_eq_countP, List.countP_map]
  conv => rhs; rw [← List.zipIdx_map_fst 0 loops.closeTable.toList, List.countP_map]
  apply List.countP_congr
  intro entry _
  simp

/-- **A well-nested program has as many pairs as it has `[`.** -/
theorem length_pairs (h : program.WellNested) :
    (ofProgram program).pairs.length = program.count .loopOpen := by
  rw [length_pairs_eq_count, map_isSome_closeTable h, List.count_eq_countP, List.countP_map,
    List.count_eq_countP]
  apply List.countP_congr
  intro i _
  simp

end Loops

end Brainfuck

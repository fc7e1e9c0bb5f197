/-
  Census: every bracket of a program is listed once, with a partner or without one.

  The pass over a program keeps two tables, a counter, a stack and a list, and each of them is
  right for a reason of its own.  Two kinds of facts are put together here:

  1. COUNTS.  The counter of pairs is never compared with anything, so that it agrees with the
     tables has to be carried through the pass (`Pairing.Tallied`): a `]` that takes a bracket off
     the stack writes an entry where there was none, because a bracket that waits has no partner
     yet.  Along with it goes the sum: every bracket visited is in a pair, a stray or waiting.
  2. PLACES.  What is listed at the end are the pairs and the brackets without a partner that the
     depth defines (`mem_pairs_iff`, `mem_unmatched_iff`), and of these it is known that no two
     share a bracket, that pairs do not cross (`Closes.inner_lt`) and that what has no partner is
     not inside a pair (`Partnerless.exposed`).

  `Loops.listed` is everything the tables say of a program, as one list of places and sides; the
  census is that each bracket is in it exactly once (`count_listed`).
-/
import Brainfuck.Proofs.Strictness

namespace Brainfuck

/-! ## Counting along the pass -/

namespace Pairing

variable {program : Program} {n : Nat} {p : Pairing}

/-- The counts that hold when the pass has come to position `n`. -/
structure Tallied (program : Program) (n : Nat) (p : Pairing) : Prop where
  /-- The counter is the number of entries of the table. -/
  entries : p.closeTable.toList.countP Option.isSome = p.pairs
  /-- A pair takes two brackets, and no bracket gets lost. -/
  brackets : 2 * p.pairs + p.strays.size + p.waiting.length
    = (Program.brackets (program.take n)).length

theorem tallied_start (program : Program) : Tallied program 0 (start program.length) where
  entries := by simp [start]
  brackets := rfl

/-- A bracket that waits has no entry yet. -/
theorem Covers.closeTable_of_waiting (h : Covers program n p) {i : Nat} (hi : i ∈ p.waiting) :
    p.closeTable[i]? = some none := by
  have hopen := (h.waiting i).mp hi
  have hlt : i < p.closeTable.size := by
    rw [h.size_closeTable]
    exact (List.getElem?_eq_some_iff.mp hopen.opening).1
  cases hentry : p.closeTable[i]? with
  | none => exact absurd hlt (Nat.not_lt_of_le (Array.getElem?_eq_none_iff.mp hentry))
  | some entry =>
    cases entry with
    | none => rfl
    | some j =>
      obtain ⟨hcloses, hj⟩ := (h.closeTable i j).mp hentry
      exact absurd hopen (hcloses.not_openAt hj)

/-- An entry where there was none is one entry more. -/
theorem countP_isSome_setIfInBounds {table : Array (Option Nat)} {i j : Nat}
    (h : table[i]? = some none) :
    (table.setIfInBounds i (some j)).toList.countP Option.isSome
      = table.toList.countP Option.isSome + 1 := by
  obtain ⟨hi, hget⟩ := Array.getElem?_eq_some_iff.mp h
  have hlt : i < table.toList.length := by rw [Array.length_toList]; exact hi
  have hget : table.toList[i] = none := by rw [Array.getElem_toList]; exact hget
  rw [Array.toList_setIfInBounds, List.countP_set hlt, hget]
  rfl

/-- A bracket more is visited, or something that is none. -/
theorem length_brackets_take_succ {x : Instruction} (hx : program[n]? = some x) :
    (Program.brackets (program.take (n + 1))).length
      = (Program.brackets (program.take n)).length + (Program.brackets [x]).length := by
  rw [List.take_add_one, hx, Program.brackets_append, List.length_append]
  rfl

/-- **One instruction keeps the counts.** -/
theorem Tallied.visit (h : Tallied program n p) (hcovers : Covers program n p) {x : Instruction}
    (hx : program[n]? = some x) : Tallied program (n + 1) (p.visit n x) := by
  have hlength := length_brackets_take_succ hx
  have hbrackets := h.brackets
  cases x with
  | loopOpen =>
    refine ⟨h.entries, ?_⟩
    rw [hlength]
    show 2 * p.pairs + p.strays.size + (p.waiting.length + 1) = _ + 1
    omega
  | loopClose =>
    rw [Pairing.visit]
    split
    · next hwaiting =>
      refine ⟨h.entries, ?_⟩
      rw [hlength]
      show 2 * p.pairs + (p.strays.push n).size + p.waiting.length = _ + 1
      rw [Array.size_push]
      omega
    · next top outer hwaiting =>
      have htop : p.closeTable[top]? = some none :=
        hcovers.closeTable_of_waiting (by rw [hwaiting]; exact List.mem_cons_self)
      refine ⟨?_, ?_⟩
      · rw [countP_isSome_setIfInBounds htop, h.entries]
      · rw [hwaiting, List.length_cons] at hbrackets
        rw [hlength]
        show 2 * (p.pairs + 1) + p.strays.size + outer.length = _ + 1
        omega
  | _ => exact ⟨h.entries, by rw [hlength]; exact hbrackets⟩

/-- The pass over what is left of the program, from wherever it has come to. -/
theorem Tallied.visitAll {rest : Program} (h : Tallied program n p) (hcovers : Covers program n p)
    (hrest : program.drop n = rest) :
    Tallied program (n + rest.length) (visitAll rest n p) := by
  induction rest generalizing n p with
  | nil => exact h
  | cons x rest ih =>
    have hx : program[n]? = some x := by rw [← List.head?_drop, hrest]; rfl
    have hdrop : program.drop (n + 1) = rest := by rw [← List.tail_drop, hrest]; rfl
    have hvisited := ih (h.visit hcovers hx) (hcovers.visit hx) hdrop
    have hlength : n + (rest.length + 1) = n + 1 + rest.length := by omega
    rw [Pairing.visitAll, List.length_cons, hlength]
    exact hvisited

theorem tallied_visitAll (program : Program) :
    Tallied program program.length (Pairing.visitAll program 0 (start program.length)) := by
  have h := (tallied_start program).visitAll (covers_start program) rfl
  rwa [Nat.zero_add] at h

end Pairing

/-! ## With a partner or without -/

namespace Program

variable {program : Program} {i j : Nat} {u : Unmatched}

/-- A `[` is closed or has no partner, -/
theorem closes_or_partnerless_iff_loopOpen :
    (∃ j, program.Closes i j) ∨ program.Partnerless ⟨i, .opening⟩
      ↔ program[i]? = some .loopOpen := by
  constructor
  · rintro (⟨j, h⟩ | h)
    · exact h.opening
    · cases h with
      | unclosed hopen => exact hopen.opening
  · intro hopening
    by_cases hcloses : ∃ j, program.Closes i j
    · exact .inl hcloses
    · exact .inr (.unclosed (openAt_length hopening fun j hj => hcloses ⟨j, hj⟩))

/-- and a `]` closes something or has no partner. -/
theorem closes_or_partnerless_iff_loopClose :
    (∃ i, program.Closes i j) ∨ program.Partnerless ⟨j, .closing⟩
      ↔ program[j]? = some .loopClose := by
  constructor
  · rintro (⟨i, h⟩ | h)
    · exact h.closing
    · cases h with
      | stray hstray => exact hstray.closing
  · intro hclosing
    by_cases hcloses : ∃ i, program.Closes i j
    · exact .inl hcloses
    · exact .inr (.stray ⟨hclosing, fun i hi => hcloses ⟨i, hi⟩⟩)

/-- What has no partner closes nothing and is closed by nothing. -/
theorem Partnerless.not_closes (h : program.Partnerless u) :
    (u.side = .opening → ∀ j, ¬ program.Closes u.index j)
      ∧ (u.side = .closing → ∀ i, ¬ program.Closes i u.index) := by
  cases h with
  | stray h =>
    refine ⟨fun hside => (nomatch hside), fun _ i hi => ?_⟩
    exact h.closes_nothing i hi
  | unclosed h =>
    refine ⟨fun _ j hj => ?_, fun hside => (nomatch hside)⟩
    exact hj.not_openAt hj.lt_length h

end Program

/-! ## The census -/

/-- The instruction that a bracket of this side is. -/
def Side.instruction : Side → Instruction
  | .opening => .loopOpen
  | .closing => .loopClose

namespace Loops

variable {program : Program}

/-- Every place that the tables speak of, with the side on which they have it: both ends of the
    pairs, and the brackets without a partner. -/
def listed (loops : Loops) : List (Nat × Side) :=
  loops.pairs.map (fun pair => (pair.1, .opening))
    ++ loops.pairs.map (fun pair => (pair.2, .closing))
    ++ loops.unmatched.map (fun u => (u.index, u.side))

/-- What is listed are the brackets of the program, -/
theorem mem_listed_iff {position : Nat} {side : Side} :
    (position, side) ∈ (ofProgram program).listed ↔ program[position]? = some side.instruction := by
  have hunmatched : (position, side) ∈ (ofProgram program).unmatched.map (fun u => (u.index, u.side))
      ↔ program.Partnerless ⟨position, side⟩ := by
    rw [List.mem_map, ← mem_unmatched_iff]
    constructor
    · rintro ⟨⟨_, _⟩, hu, heq⟩
      obtain ⟨rfl, rfl⟩ := Prod.mk.inj heq
      exact hu
    · intro hu
      exact ⟨_, hu, rfl⟩
  rw [listed, List.mem_append, List.mem_append, hunmatched, List.mem_map, List.mem_map]
  cases side with
  | opening =>
    rw [Side.instruction, ← Program.closes_or_partnerless_iff_loopOpen]
    simp [mem_pairs_iff]
  | closing =>
    rw [Side.instruction, ← Program.closes_or_partnerless_iff_loopClose]
    simp [mem_pairs_iff]

/-- and none of them twice. -/
theorem nodup_listed (program : Program) : (ofProgram program).listed.Nodup := by
  have hpairs := pairs_ascending (ofProgram program)
  have hopenings :
      ((ofProgram program).pairs.map fun pair => (pair.1, Side.opening)).Nodup := by
    rw [List.nodup_iff_pairwise_ne, List.pairwise_map]
    refine hpairs.imp fun hlt heq => ?_
    exact Nat.ne_of_lt hlt (Prod.mk.inj heq).1
  have hclosings :
      ((ofProgram program).pairs.map fun pair => (pair.2, Side.closing)).Nodup := by
    rw [List.nodup_iff_pairwise_ne, List.pairwise_map]
    refine hpairs.imp_of_mem fun {p q} hp hq hlt heq => ?_
    -- Two pairs with one `]` would have one `[`.
    have hp : program.Closes p.1 p.2 := mem_pairs_iff.mp hp
    have hq : program.Closes q.1 q.2 := mem_pairs_iff.mp hq
    rw [(Prod.mk.inj heq).1] at hp
    exact Nat.ne_of_lt hlt (hp.left_unique hq)
  have hunmatched :
      ((ofProgram program).unmatched.map fun u => (u.index, u.side)).Nodup := by
    rw [List.nodup_iff_pairwise_ne, List.pairwise_map]
    refine (unmatched_ascending program).imp fun hlt heq => ?_
    exact Nat.ne_of_lt hlt (Prod.mk.inj heq).1
  rw [listed, List.nodup_append, List.nodup_append]
  refine ⟨⟨hopenings, hclosings, ?_⟩, hunmatched, ?_⟩
  · intro a ha b hb heq
    obtain ⟨p, -, rfl⟩ := List.mem_map.mp ha
    obtain ⟨q, -, rfl⟩ := List.mem_map.mp hb
    nomatch (Prod.mk.inj heq).2
  · intro a ha b hb heq
    obtain ⟨u, hu, rfl⟩ := List.mem_map.mp hb
    obtain ⟨hopening, hclosing⟩ := (mem_unmatched_iff.mp hu).not_closes
    rcases List.mem_append.mp ha with ha | ha
    · obtain ⟨p, hp, rfl⟩ := List.mem_map.mp ha
      obtain ⟨hindex, hside⟩ := Prod.mk.inj heq
      exact hopening hside.symm p.2 (hindex ▸ mem_pairs_iff.mp hp)
    · obtain ⟨p, hp, rfl⟩ := List.mem_map.mp ha
      obtain ⟨hindex, hside⟩ := Prod.mk.inj heq
      exact hclosing hside.symm p.1 (hindex ▸ mem_pairs_iff.mp hp)

theorem count_listed (program : Program) (position : Nat) (side : Side) :
    (ofProgram program).listed.count (position, side)
      = if program[position]? = some side.instruction then 1 else 0 := by
  rw [(nodup_listed program).count]
  simp only [mem_listed_iff]

example : (ofProgram (Program.ofText "][+[]")).listed
    = [(3, .opening), (4, .closing), (0, .closing), (1, .opening)] := by
  decide

/-- The counter counts the pairs. -/
theorem size_ofProgram (program : Program) :
    (ofProgram program).size = (ofProgram program).pairs.length := by
  rw [length_pairs_eq_count, List.count_eq_countP, List.countP_map]
  have hentries := (Pairing.tallied_visitAll program).entries
  refine hentries.symm.trans (List.countP_congr fun entry _ => ?_)
  simp

/-- What the tables, the list and the counter are for a program. -/
structure Represents (loops : Loops) (program : Program) : Prop where
  /-- Every bracket is at exactly one place of the lists, on its own side, and nothing else is. -/
  listed_once : ∀ position side, loops.listed.count (position, side)
    = if program[position]? = some side.instruction then 1 else 0
  pairs_ascending : loops.pairs.Pairwise fun p q => p.1 < q.1
  lt : ∀ p ∈ loops.pairs, p.1 < p.2
  /-- A pair that begins behind another one is behind it or inside it. -/
  disjoint_or_nested : ∀ p ∈ loops.pairs, ∀ q ∈ loops.pairs, p.1 < q.1 → p.2 < q.1 ∨ q.2 < p.2
  not_between : ∀ p ∈ loops.pairs, ∀ u ∈ loops.unmatched, ¬ (p.1 < u.index ∧ u.index < p.2)
  unmatched_ascending : loops.unmatched.Pairwise fun u v => u.index < v.index
  /-- Behind an unclosed bracket there are only unclosed ones. -/
  strays_first : loops.unmatched.Pairwise fun u v => u.side = .opening → v.side = .opening
  size_eq : loops.size = loops.pairs.length
  isEmpty_iff : loops.isEmpty = true ↔ loops.size = 0
  total : 2 * loops.size + loops.unmatched.length = program.brackets.length

/-- **The tables represent the brackets of every program**, balanced or not. -/
theorem tables_represent_brackets (program : Program) : (ofProgram program).Represents program where
  listed_once := count_listed program
  pairs_ascending := pairs_ascending _
  lt _ hp := (mem_pairs_iff.mp hp).lt
  disjoint_or_nested p hp q hq hlt := by
    have hp : program.Closes p.1 p.2 := mem_pairs_iff.mp hp
    have hq : program.Closes q.1 q.2 := mem_pairs_iff.mp hq
    rcases Nat.lt_trichotomy p.2 q.1 with hbehind | heq | hinside
    · exact .inl hbehind
    · -- One place holds no two brackets.
      have hclosing := hp.closing
      rw [heq, hq.opening] at hclosing
      nomatch hclosing
    · exact .inr (hp.inner_lt hq hlt hinside)
  not_between p hp u hu := by
    have hexposed := (mem_unmatched_iff.mp hu).exposed p.1 p.2 (mem_pairs_iff.mp hp)
    omega
  unmatched_ascending := unmatched_ascending program
  strays_first := by
    refine (unmatched_ascending program).imp_of_mem fun {u v} hu hv hlt hside => ?_
    have hu := mem_unmatched_iff.mp hu
    have hv := mem_unmatched_iff.mp hv
    cases hu with
    | stray _ => nomatch hside
    | unclosed hopen =>
      cases hv with
      | stray hstray => exact absurd (hstray.lt_of_openAt hopen) (Nat.lt_asymm hlt)
      | unclosed _ => rfl
  size_eq := size_ofProgram program
  isEmpty_iff := by rw [isEmpty, beq_iff_eq]
  total := by
    have hbrackets := (Pairing.tallied_visitAll program).brackets
    rw [List.take_length] at hbrackets
    have hunmatched : (ofProgram program).unmatched.length
        = (Pairing.visitAll program 0 (Pairing.start program.length)).strays.size
          + (Pairing.visitAll program 0 (Pairing.start program.length)).waiting.length := by
      rw [ofProgram, List.length_append, List.length_map, List.length_map, List.length_reverse,
        Array.length_toList]
    rw [hunmatched, ← Nat.add_assoc]
    exact hbrackets

end Loops

end Brainfuck

/-
  Depth: the walk that a program's brackets make.

  Reading a program from the left, the depth before position `n` is `level program n`.  It
  starts at 0 and changes by at most one at a time, so it passes no value without taking it, and
  that is all there is to nesting:

  1. a `[` at `i` is OPEN at `n` while the level stays above `level program i`
     (`Program.OpenAt`), and it is closed by the first instruction that brings the level back
     (`closes_iff`);
  2. pairs are nested or disjoint (`Closes.inner_lt`, `Closes.lt_inner`);
  3. a `]` that brings the level down to a value it has had before closes something
     (`exists_closes`), so a STRAY one brings it to a new minimum (`Stray.level_lt`).

  `Program.Closes` counts from the bracket and `Program.backToZero?` counts while it scans; both
  are compared with the levels once, here, and the levels are used everywhere else.
-/
import Brainfuck.Nesting

namespace Brainfuck

namespace Program

variable {program : Program} {i j k n : Nat}

/-! ## Levels -/

@[simp] theorem level_zero (program : Program) : program.level 0 = 0 := rfl

theorem level_length (program : Program) : program.level program.length = depth program := by
  rw [level, List.take_length]

theorem level_of_length_le (h : program.length ≤ n) : program.level n = depth program := by
  rw [level, List.take_of_length_le h]

/-- An instruction changes the level by what it adds to the depth. -/
theorem level_succ {x : Instruction} (h : program[n]? = some x) :
    program.level (n + 1) = program.level n + x.nesting := by
  rw [level, List.take_add_one, h, depth_append]
  show level program n + (x.nesting + 0) = _
  rw [Int.add_zero]

theorem level_succ_of_loopOpen (h : program[n]? = some .loopOpen) :
    program.level (n + 1) = program.level n + 1 := level_succ h

theorem level_succ_of_loopClose (h : program[n]? = some .loopClose) :
    program.level (n + 1) = program.level n - 1 := level_succ h

/-- An instruction that is no bracket leaves the level as it is, and so does none at all. -/
theorem level_succ_of_ne (hopen : program[n]? ≠ some .loopOpen)
    (hclose : program[n]? ≠ some .loopClose) : program.level (n + 1) = program.level n := by
  cases hx : program[n]? with
  | none =>
    have hn : program.length ≤ n := List.getElem?_eq_none_iff.mp hx
    rw [level_of_length_le hn, level_of_length_le (by omega)]
  | some x =>
    rw [hx] at hopen hclose
    rw [level_succ hx]
    cases x with
    | loopOpen => exact absurd rfl hopen
    | loopClose => exact absurd rfl hclose
    | _ => exact Int.add_zero _

/-- No instruction changes the level by more than one. -/
theorem level_succ_bounds (program : Program) (n : Nat) :
    program.level n - 1 ≤ program.level (n + 1)
      ∧ program.level (n + 1) ≤ program.level n + 1 := by
  by_cases hopen : program[n]? = some .loopOpen
  · rw [level_succ_of_loopOpen hopen]; omega
  · by_cases hclose : program[n]? = some .loopClose
    · rw [level_succ_of_loopClose hclose]; omega
    · rw [level_succ_of_ne hopen hclose]; omega

/-- The level rises at a `[` only. -/
theorem loopOpen_of_level_lt (h : program.level n < program.level (n + 1)) :
    program[n]? = some .loopOpen := by
  by_cases hopen : program[n]? = some .loopOpen
  · exact hopen
  · by_cases hclose : program[n]? = some .loopClose
    · rw [level_succ_of_loopClose hclose] at h; omega
    · rw [level_succ_of_ne hopen hclose] at h; omega

/-- The level falls at a `]` only. -/
theorem loopClose_of_level_lt (h : program.level (n + 1) < program.level n) :
    program[n]? = some .loopClose := by
  by_cases hclose : program[n]? = some .loopClose
  · exact hclose
  · by_cases hopen : program[n]? = some .loopOpen
    · rw [level_succ_of_loopOpen hopen] at h; omega
    · rw [level_succ_of_ne hopen hclose] at h; omega

/-- Counting from a position is the same as comparing levels. -/
theorem depth_take_drop (program : Program) (i m : Nat) :
    depth ((program.drop i).take m) = program.level (i + m) - program.level i := by
  rw [level, level, List.take_add, depth_append]
  omega

/-! ## Open brackets -/

/-- A `[` that nothing has closed before position `n`. -/
structure OpenAt (program : Program) (n i : Nat) : Prop where
  lt : i < n
  opening : program[i]? = some .loopOpen
  above : ∀ k, i < k → k ≤ n → program.level i < program.level k

/-- A `[` is open right behind itself. -/
theorem openAt_succ_self (h : program[i]? = some .loopOpen) : program.OpenAt (i + 1) i := by
  refine ⟨Nat.lt_succ_self i, h, fun k hik hk => ?_⟩
  obtain rfl : k = i + 1 := by omega
  rw [level_succ_of_loopOpen h]; omega

theorem OpenAt.of_le (h : program.OpenAt n i) (hik : i < k) (hkn : k ≤ n) :
    program.OpenAt k i :=
  ⟨hik, h.opening, fun m hm hmk => h.above m hm (Nat.le_trans hmk hkn)⟩

/-- What is open stays open as long as the level stays above it. -/
theorem OpenAt.succ (h : program.OpenAt n i) (hlevel : program.level i < program.level (n + 1)) :
    program.OpenAt (n + 1) i := by
  refine ⟨Nat.lt_succ_of_lt h.lt, h.opening, fun k hik hk => ?_⟩
  rcases Nat.lt_or_eq_of_le hk with hlt | rfl
  · exact h.above k hik (Nat.le_of_lt_succ hlt)
  · exact hlevel

/-- A level that never comes back to where it was before a `[` stays above it. -/
theorem openAt_of_ne (h : program[i]? = some .loopOpen) (hin : i < n)
    (hne : ∀ k, i < k → k ≤ n → program.level k ≠ program.level i) : program.OpenAt n i := by
  -- By induction on `n`: the level cannot get below without coming back first.
  induction n with
  | zero => exact absurd hin (Nat.not_lt_zero i)
  | succ n ih =>
    rcases Nat.lt_or_eq_of_le (Nat.le_of_lt_succ hin) with hlt | rfl
    · have hopen := ih hlt fun k hik hk => hne k hik (Nat.le_succ_of_le hk)
      refine hopen.succ ?_
      have habove := hopen.above n hlt (Nat.le_refl n)
      have hback := hne (n + 1) hin (Nat.le_refl _)
      have hstep := level_succ_bounds program n
      omega
    · exact openAt_succ_self h

/-! ## Pairs in terms of levels -/

/-- **A pair, said with levels**: the `[` is open up to the `]`, which brings the level back. -/
theorem closes_iff :
    program.Closes i j ↔ program.OpenAt j i ∧ j < program.length
      ∧ program.level (j + 1) = program.level i := by
  have hback (k : Nat) (hik : i ≤ k) :
      depth ((program.drop i).take (k + 1 - i)) = program.level (k + 1) - program.level i := by
    rw [depth_take_drop]; congr 2; omega
  constructor
  · intro h
    have hlevel : program.level (j + 1) = program.level i := by
      have := h.back; rw [hback j h.le] at this; omega
    have hij : i < j := by
      rcases Nat.lt_or_eq_of_le h.le with hlt | rfl
      · exact hlt
      · rw [level_succ_of_loopOpen h.opening] at hlevel; omega
    refine ⟨openAt_of_ne h.opening hij fun k hik hkj heq => ?_, h.lt_length, hlevel⟩
    have hfirst := h.first (k - 1) (by omega) (by omega)
    rw [hback (k - 1) (by omega), Nat.sub_add_cancel (by omega)] at hfirst
    omega
  · rintro ⟨hopen, hlt, hlevel⟩
    refine ⟨hopen.opening, Nat.le_of_lt hopen.lt, hlt, ?_, fun k hik hkj => ?_⟩
    · rw [hback j (Nat.le_of_lt hopen.lt)]; omega
    · rw [hback k hik]
      have := hopen.above (k + 1) (by omega) (by omega)
      omega

theorem Closes.openAt (h : program.Closes i j) : program.OpenAt j i := (closes_iff.mp h).1

theorem Closes.lt (h : program.Closes i j) : i < j := h.openAt.lt

theorem Closes.level_eq (h : program.Closes i j) :
    program.level (j + 1) = program.level i := (closes_iff.mp h).2.2

theorem Closes.closing (h : program.Closes i j) : program[j]? = some .loopClose := by
  apply loopClose_of_level_lt
  rw [h.level_eq]
  exact h.openAt.above j h.lt (Nat.le_refl j)

/-- A bracket that is closed is not open any more. -/
theorem Closes.not_openAt (h : program.Closes i j) (hjn : j < n) : ¬ program.OpenAt n i := by
  intro hopen
  have := hopen.above (j + 1) (by have := h.lt; omega) hjn
  rw [h.level_eq] at this
  omega

/-- An open bracket is closed by the instruction that brings the level back. -/
theorem OpenAt.closes (h : program.OpenAt j i) (hlevel : program.level (j + 1) = program.level i) :
    program.Closes i j := by
  refine closes_iff.mpr ⟨h, ?_, hlevel⟩
  have hclose : program[j]? = some .loopClose := by
    apply loopClose_of_level_lt
    rw [hlevel]
    exact h.above j h.lt (Nat.le_refl j)
  exact (List.getElem?_eq_some_iff.mp hclose).1

/-- **What is open after one more instruction**: what was open and has not been closed by it, and
    a `[` that it is itself. -/
theorem openAt_succ_iff :
    program.OpenAt (n + 1) i ↔ i = n ∧ program[n]? = some .loopOpen
      ∨ program.OpenAt n i ∧ ¬ program.Closes i n := by
  constructor
  · intro h
    rcases Nat.lt_or_eq_of_le (Nat.le_of_lt_succ h.lt) with hlt | rfl
    · refine .inr ⟨h.of_le hlt (Nat.le_succ n), fun hcloses => ?_⟩
      exact hcloses.not_openAt (Nat.lt_succ_self n) h
    · exact .inl ⟨rfl, h.opening⟩
  · rintro (⟨rfl, hopening⟩ | ⟨hopen, hnot⟩)
    · exact openAt_succ_self hopening
    · refine hopen.succ ?_
      have habove := hopen.above n hopen.lt (Nat.le_refl n)
      have hback : program.level (n + 1) ≠ program.level i := fun h => hnot (hopen.closes h)
      have hstep := level_succ_bounds program n
      omega

/-- A `[` has one partner. -/
theorem Closes.right_unique {j' : Nat} (h : program.Closes i j) (h' : program.Closes i j') :
    j = j' := by
  rcases Nat.lt_trichotomy j j' with hlt | heq | hlt
  · exact absurd h'.openAt (h.not_openAt hlt)
  · exact heq
  · exact absurd h.openAt (h'.not_openAt hlt)

/-- A `]` has one partner. -/
theorem Closes.left_unique {i' : Nat} (h : program.Closes i j) (h' : program.Closes i' j) :
    i = i' := by
  have heq : program.level i = program.level i' := by rw [← h.level_eq, ← h'.level_eq]
  rcases Nat.lt_trichotomy i i' with hlt | heq' | hlt
  · have := h.openAt.above i' hlt (Nat.le_of_lt h'.lt); omega
  · exact heq'
  · have := h'.openAt.above i hlt (Nat.le_of_lt h.lt); omega

/-- **Pairs do not cross**: what opens inside a pair closes inside it. -/
theorem Closes.inner_lt {p q : Nat} (h : program.Closes p q) (h' : program.Closes i j)
    (hpi : p < i) (hiq : i < q) : j < q := by
  have habove := h.openAt.above i hpi (Nat.le_of_lt hiq)
  -- At the end of the outer pair the level is below that of the inner `[`.
  have hend := h.level_eq
  rcases Nat.lt_trichotomy j q with hlt | rfl | hlt
  · exact hlt
  · have := h'.level_eq; omega
  · have := h'.openAt.above (q + 1) (by omega) hlt; omega

/-- What closes inside a pair opens inside it. -/
theorem Closes.lt_inner {p q : Nat} (h : program.Closes p q) (h' : program.Closes i j)
    (hpj : p < j) (hjq : j < q) : p < i := by
  have habove := h.openAt.above (j + 1) (by omega) hjq
  have hend := h'.level_eq
  rcases Nat.lt_trichotomy p i with hlt | rfl | hlt
  · exact hlt
  · have := h.right_unique h'; omega
  · have := h'.openAt.above p hlt (Nat.le_of_lt hpj); omega

/-- **Below every level that is higher than some level before it there is an open bracket**, and
    the innermost one is one level below. -/
theorem exists_openAt (hkn : k ≤ n) (hlevel : program.level k < program.level n) :
    ∃ i, program.OpenAt n i ∧ program.level n = program.level i + 1 := by
  -- The LAST such `k` is that bracket; strong induction on the distance from `n` gets there.
  induction hd : n - k using Nat.strongRecOn generalizing k with
  | ind d ih =>
    by_cases hlater : ∃ m, k < m ∧ m ≤ n ∧ program.level m < program.level n
    · obtain ⟨m, hkm, hmn, hm⟩ := hlater
      exact ih (n - m) (by omega) hmn hm rfl
    · have habove : ∀ m, k < m → m ≤ n → program.level n ≤ program.level m :=
        fun m hkm hmn => Int.not_lt.mp fun hm => hlater ⟨m, hkm, hmn, hm⟩
      have hlt : k < n := by
        rcases Nat.lt_or_eq_of_le hkn with hlt | rfl
        · exact hlt
        · exact absurd hlevel (Int.lt_irrefl _)
      have hrise := habove (k + 1) (Nat.lt_succ_self k) hlt
      have hopen : program[k]? = some .loopOpen := loopOpen_of_level_lt (by omega)
      rw [level_succ_of_loopOpen hopen] at hrise
      refine ⟨k, ⟨hlt, hopen, fun m hkm hmn => ?_⟩, by omega⟩
      exact Int.lt_of_lt_of_le hlevel (habove m hkm hmn)

/-- **A `]` that brings the level down to a value it has had before closes something.** -/
theorem exists_closes (hclose : program[j]? = some .loopClose) (hkj : k ≤ j)
    (hlevel : program.level k ≤ program.level (j + 1)) : ∃ i, program.Closes i j := by
  have hstep := level_succ_of_loopClose hclose
  have hlower : program.level k < program.level j := by omega
  obtain ⟨i, hopen, hi⟩ := exists_openAt hkj hlower
  exact ⟨i, hopen.closes (by omega)⟩

/-! ## Brackets without a partner -/

/-- A `]` that closes nothing. -/
structure Stray (program : Program) (j : Nat) : Prop where
  closing : program[j]? = some .loopClose
  closes_nothing : ∀ i, ¬ program.Closes i j

/-- A stray bracket takes the level below everything before it. -/
theorem Stray.level_lt (h : program.Stray j) (hkj : k ≤ j) :
    program.level (j + 1) < program.level k := by
  refine Int.not_le.mp fun hge => ?_
  obtain ⟨i, hi⟩ := exists_closes h.closing hkj hge
  exact h.closes_nothing i hi

theorem stray_of_level_lt (h : ∀ k, k ≤ j → program.level (j + 1) < program.level k) :
    program.Stray j := by
  refine ⟨loopClose_of_level_lt (h j (Nat.le_refl j)), fun i hi => ?_⟩
  have hlt := h i hi.le
  rw [hi.level_eq] at hlt
  exact absurd hlt (Int.lt_irrefl _)

/-- **Every stray bracket is to the left of every one that is left open**: behind an open bracket
    there is something to close. -/
theorem Stray.lt_of_openAt (h : program.Stray j) (hopen : program.OpenAt program.length i) :
    j < i := by
  have hj : j < program.length := (List.getElem?_eq_some_iff.mp h.closing).1
  rcases Nat.lt_or_ge j i with hlt | hge
  · exact hlt
  · have hbelow := h.level_lt hge
    have habove := hopen.above (j + 1) (Nat.lt_succ_of_le hge) hj
    omega

/-! ## The scan -/

theorem depth_take_succ_cons (x : Instruction) (program : Program) (m : Nat) :
    depth ((x :: program).take (m + 1)) = x.nesting + depth (program.take m) := rfl

/-- **The scan finds the first place at which the depth is 0.** -/
theorem backToZero?_eq_some_iff {d : Int} :
    backToZero? d program = some n ↔ 0 < n ∧ n ≤ program.length
      ∧ d + depth (program.take n) = 0
      ∧ ∀ m, 0 < m → m < n → d + depth (program.take m) ≠ 0 := by
  induction program generalizing d n with
  | nil =>
    constructor
    · intro h
      nomatch h
    · rintro ⟨hpos, hle, -⟩
      exact absurd hle (Nat.not_le_of_lt hpos)
  | cons x program ih =>
    -- One instruction later the scan starts from depth `d + x.nesting`.
    have hshift (m : Nat) :
        d + depth ((x :: program).take (m + 1)) = d + x.nesting + depth (program.take m) := by
      rw [depth_take_succ_cons, Int.add_assoc]
    by_cases hzero : d + x.nesting = 0
    · rw [backToZero?, if_pos hzero]
      have hone : d + depth ((x :: program).take 1) = 0 := by
        rw [hshift 0, hzero]; rfl
      constructor
      · rintro ⟨rfl⟩
        refine ⟨Nat.zero_lt_one, ?_, hone, fun m hpos hm => by omega⟩
        rw [List.length_cons]; omega
      · rintro ⟨hpos, -, -, hfirst⟩
        rcases Nat.lt_or_ge 1 n with hlt | hge
        · exact absurd hone (hfirst 1 Nat.zero_lt_one hlt)
        · rw [show n = 1 by omega]
    · rw [backToZero?, if_neg hzero]
      cases n with
      | zero => simp
      | succ n =>
        have hmap : (backToZero? (d + x.nesting) program).map (· + 1) = some (n + 1)
            ↔ backToZero? (d + x.nesting) program = some n := by simp
        rw [hmap, ih, hshift, List.length_cons]
        constructor
        · rintro ⟨-, hle, hback, hfirst⟩
          refine ⟨Nat.succ_pos n, Nat.succ_le_succ hle, hback, fun m hpos hm => ?_⟩
          obtain ⟨m, rfl⟩ := Nat.exists_eq_add_one_of_ne_zero (Nat.ne_of_gt hpos)
          rw [hshift]
          rcases Nat.eq_zero_or_pos m with rfl | hpos
          · show d + x.nesting + 0 ≠ 0; omega
          · exact hfirst m hpos (by omega)
        · rintro ⟨-, hle, hback, hfirst⟩
          refine ⟨?_, Nat.le_of_succ_le_succ hle, hback, fun m hpos hm => ?_⟩
          · rcases Nat.eq_zero_or_pos n with rfl | hpos
            · have : d + x.nesting + 0 = 0 := hback
              omega
            · exact hpos
          · rw [← hshift]
            exact hfirst (m + 1) (Nat.succ_pos m) (Nat.succ_lt_succ hm)

/-- **The scan from behind a `[` finds its partner**, as far as it looks: `ahead` is what it may
    look at, and more of the program may follow. -/
theorem closes_iff_backToZero? {ahead behind : Program} {p : Nat}
    (h : program.drop p = .loopOpen :: (ahead ++ behind)) (hn : n ≤ ahead.length) :
    program.Closes p (p + n) ↔ backToZero? 1 ahead = some n := by
  have hopening : program[p]? = some .loopOpen := by
    rw [← List.head?_drop, h]; rfl
  have hlength : p + 1 + ahead.length ≤ program.length := by
    have := congrArg List.length h
    rw [List.length_drop, List.length_cons, List.length_append] at this
    omega
  have hdepth (m : Nat) (hm : m ≤ ahead.length) :
      depth ((program.drop p).take (m + 1)) = 1 + depth (ahead.take m) := by
    rw [h, depth_take_succ_cons, List.take_append_of_le_length hm]; rfl
  rw [backToZero?_eq_some_iff]
  constructor
  · intro hcloses
    have hback := hcloses.back
    rw [show p + n + 1 - p = n + 1 by omega, hdepth n hn] at hback
    refine ⟨by have := hcloses.lt; omega, hn, hback, fun m hpos hm => ?_⟩
    have hfirst := hcloses.first (p + m) (by omega) (by omega)
    rwa [show p + m + 1 - p = m + 1 by omega, hdepth m (by omega)] at hfirst
  · rintro ⟨hpos, -, hback, hfirst⟩
    refine ⟨hopening, by omega, by omega, ?_, fun k hpk hk => ?_⟩
    · rw [show p + n + 1 - p = n + 1 by omega, hdepth n hn]; exact hback
    · rw [show k + 1 - p = k - p + 1 by omega, hdepth (k - p) (by omega)]
      rcases Nat.eq_zero_or_pos (k - p) with hzero | hpos
      · rw [hzero]; show (1 : Int) + 0 ≠ 0; omega
      · exact hfirst (k - p) hpos (by omega)

/-- Scanning for a partner finds it. -/
theorem closing?_eq_some_iff : program.closing? i = some j ↔ program.Closes i j := by
  by_cases hopening : program[i]? = some .loopOpen
  · have hdrop : program.drop i = .loopOpen :: (program.drop (i + 1) ++ []) := by
      obtain ⟨hlt, hget⟩ := List.getElem?_eq_some_iff.mp hopening
      rw [List.append_nil, List.drop_eq_getElem_cons hlt, hget]
    have hscan : program.closing? i
        = ((backToZero? 1 (program.drop (i + 1))).map (· + 1)).map (i + · - 1) := by
      rw [closing?, if_pos hopening, hdrop, List.append_nil]; rfl
    rw [hscan, Option.map_map, Option.map_eq_some_iff]
    constructor
    · rintro ⟨n, hn, rfl⟩
      have hle : n ≤ (program.drop (i + 1)).length := (backToZero?_eq_some_iff.mp hn).2.1
      exact (closes_iff_backToZero? hdrop hle).mpr hn
    · intro h
      have hle : j - i ≤ (program.drop (i + 1)).length := by
        have := h.lt_length; rw [List.length_drop]; omega
      have hj : i + (j - i) = j := Nat.add_sub_of_le h.le
      refine ⟨j - i, (closes_iff_backToZero? hdrop hle).mp (hj.symm ▸ h), ?_⟩
      show i + (j - i + 1) - 1 = j
      omega
  · rw [closing?, if_neg hopening]
    constructor
    · intro h
      nomatch h
    · intro h
      exact absurd h.opening hopening

example : (Program.ofText "+[[-]>]]").closing? 1 = some 6 := by decide

end Program

end Brainfuck

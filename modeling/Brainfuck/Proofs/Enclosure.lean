/-
  Enclosure: a loop is entered at its `[` and left behind its `]`, and in no other place.

  There are THREE things an instruction that succeeds can do to the instruction pointer, and they
  are told apart once (`Advances.moves`): go on to the next place, skip from a `[` to behind its
  partner, or go back from a `]` to behind its partner.  Each of them is harmless to every loop, its
  own and all others, because any two pairs are equal, apart or one inside the other
  (`Closes.apart_or_nested`):

  1. From outside a loop the pointer comes to its `[` or stays outside
     (`Advances.enters_at_opening`): a jump of another loop over this one passes it whole, and one
     inside another loop lands where that loop goes on.
  2. From inside a loop the pointer stays inside or comes to the place behind its `]`, and that with
     a zero cell (`Advances.leaves_behind_closing`): the last place of a loop is its `]`, which goes
     on only with a zero cell.

  What lies inside no loop is EXPOSED, so it is never come back to (`Trail.beyond`).  Hence the
  exposed places of a past ascend (`Trail.exposed_ascend`), which says both that each is executed at
  most once and that they are executed in their order.
-/
import Brainfuck.Proofs.Strictness

namespace Brainfuck

/-! ## Two pairs -/

namespace Program

variable {program : Program} {i j p q : Nat}

/-- A place holds one bracket. -/
theorem Closes.opening_ne_closing (h : program.Closes i j) (h' : program.Closes p q) : i ≠ q := by
  rintro rfl
  nomatch h.opening.symm.trans h'.closing

/-- **Two pairs are the same, or apart, or one is inside the other.** -/
theorem Closes.apart_or_nested (h : program.Closes i j) (h' : program.Closes p q) :
    (p = i ∧ q = j) ∨ (j < p ∨ q < i) ∨ (i < p ∧ q < j) ∨ (p < i ∧ j < q) := by
  rcases Nat.lt_trichotomy i p with hlt | rfl | hlt
  · have hne := h'.opening_ne_closing h
    rcases Nat.lt_or_gt_of_ne hne with hinside | hbehind
    · exact .inr (.inr (.inl ⟨hlt, h.inner_lt h' hlt hinside⟩))
    · exact .inr (.inl (.inl hbehind))
  · exact .inl ⟨rfl, h'.right_unique h⟩
  · have hne := h.opening_ne_closing h'
    rcases Nat.lt_or_gt_of_ne hne with hinside | hbehind
    · exact .inr (.inr (.inr ⟨hlt, h'.inner_lt h hlt hinside⟩))
    · exact .inr (.inl (.inr hbehind))

end Program

/-! ## Where an instruction leads -/

variable {α : Type} [Cell α] {code : Code} {s t : State α} {states : List (State α)}

/-- What an instruction does to the pointer. -/
inductive Moves (code : Code) (s t : State α) : Prop
  /-- On to the next place; from a `]` this takes a zero cell. -/
  | next (hip : t.ip = s.ip + 1) (hleave : code.program[s.ip]? = some .loopClose →
      t.tape = s.tape ∧ s.tape.value = 0)
  | forward {partner : Nat} (hpair : Program.Closes code.program.toList s.ip partner)
      (hip : t.ip = partner + 1) (htape : t.tape = s.tape) (hzero : s.tape.value = 0)
  | back {partner : Nat} (hpair : Program.Closes code.program.toList partner s.ip)
      (hip : t.ip = partner + 1)

theorem Advances.moves (h : Advances code s t) : Moves code s t := by
  -- A place that holds another instruction is no `]`.
  have hother {i : Instruction} (hi : code.program[s.ip]? = some i) (hne : i ≠ .loopClose)
      (hclose : code.program[s.ip]? = some .loopClose) : t.tape = s.tape ∧ s.tape.value = 0 :=
    absurd (Option.some.inj (hi.symm.trans hclose)) hne
  cases h with
  | right hi => exact .next rfl (hother hi (by decide))
  | left hi _ => exact .next rfl (hother hi (by decide))
  | increment hi => exact .next rfl (hother hi (by decide))
  | decrement hi => exact .next rfl (hother hi (by decide))
  | output hi => exact .next rfl (hother hi (by decide))
  | input _ hi => exact .next rfl (hother hi (by decide))
  | enter hi _ => exact .next rfl (hother hi (by decide))
  | skip _ hzero hpartner =>
    rw [code.loops_eq, Loops.closeOf_eq_ok_iff] at hpartner
    exact .forward hpartner rfl rfl hzero
  | leave _ hzero => exact .next rfl fun _ => ⟨rfl, hzero⟩
  | again _ _ hpartner =>
    rw [code.loops_eq, Loops.openOf_eq_ok_iff] at hpartner
    exact .back hpartner rfl

/-- The place is in the loop, or one of its brackets. -/
def InLoop (loop : Nat × Nat) (ip : Nat) : Prop := loop.1 ≤ ip ∧ ip ≤ loop.2

variable {loop : Nat × Nat}

/-- **A loop is entered at its `[` only.** -/
theorem Advances.enters_at_opening (h : Advances code s t)
    (hloop : Program.Closes code.program.toList loop.1 loop.2) (houtside : ¬ InLoop loop s.ip) :
    ¬ InLoop loop t.ip ∨ t.ip = loop.1 := by
  unfold InLoop at houtside ⊢
  cases h.moves with
  | next hip _ => omega
  | forward hpair hip _ _ =>
    have hlt := hpair.lt
    have hnested := hloop.apart_or_nested hpair
    omega
  | back hpair hip =>
    have hlt := hpair.lt
    have hnested := hloop.apart_or_nested hpair
    omega

/-- **A loop is left behind its `]` only**, and with a zero cell. -/
theorem Advances.leaves_behind_closing (h : Advances code s t)
    (hloop : Program.Closes code.program.toList loop.1 loop.2) (hinside : InLoop loop s.ip) :
    InLoop loop t.ip ∨ t.ip = loop.2 + 1 ∧ t.tape = s.tape ∧ s.tape.value = 0 := by
  unfold InLoop at hinside ⊢
  cases h.moves with
  | next hip hleave =>
    rcases Nat.lt_or_eq_of_le hinside.2 with hlt | hlast
    · left
      omega
    · have hclose : code.program[s.ip]? = some .loopClose := by
        rw [hlast, ← Array.getElem?_toList]
        exact hloop.closing
      right
      exact ⟨by omega, hleave hclose⟩
  | forward hpair hip htape hzero =>
    have hlt := hpair.lt
    rcases hloop.apart_or_nested hpair with ⟨-, heq⟩ | hnested
    · right
      exact ⟨by omega, htape, hzero⟩
    · left
      omega
  | back hpair hip =>
    have hlt := hpair.lt
    have hnested := hloop.apart_or_nested hpair
    left
    omega

/-! ## Instructions that are executed -/

/-- The instruction under the pointer of `s` succeeds and leaves the machine in `t`, in a real run
    with some host or in a rehearsal. -/
inductive Executes (code : Code) (s t : State α) : Prop
  | real {σ : Type} (host : Host σ) {w w' : σ} (hunfinished : ¬ s.Finished code)
      (h : attempt host code s w = ⟨.ok (), t, w'⟩)
  | rehearsed (hunfinished : ¬ s.Finished code) (h : rehearse code s = (.ok (), t))

/-- A host that takes every byte and answers every request with the same line. -/
def Host.answering (line : Option String) : Host Unit where
  write _ w := (.ok (), w)
  readLine w := (.ok line, w)
  flush w := (.ok (), w)

/-- What an effect can yield it yields with a suitable host. -/
theorem exists_perform_of_yields {e : Effect α} (h : e.Yields t) :
    ∃ line, e.perform (Host.answering line) () = ⟨.ok (), t, ()⟩ := by
  cases e with
  | done next =>
    obtain rfl : t = next := h
    exact ⟨none, rfl⟩
  | emit byte here =>
    obtain rfl : t = here.advance := h
    exact ⟨none, rfl⟩
  | ask here =>
    obtain ⟨line, rfl⟩ := h
    exact ⟨line, rfl⟩
  | fault cause here => exact h.elim

theorem executes_iff_advances : Executes code s t ↔ Advances code s t := by
  constructor
  · intro h
    cases h with
    | real host hunfinished h => exact advances_of_attempt hunfinished h
    | rehearsed hunfinished h => exact advances_of_rehearse hunfinished h
  · intro h
    obtain ⟨i, hi, hyields⟩ := advances_iff.mp h
    obtain ⟨line, hperform⟩ := exists_perform_of_yields hyields
    have hattempt : attempt (Host.answering line) code s () = ⟨.ok (), t, ()⟩ := by
      rw [attempt, hi]
      exact hperform
    exact .real _ (Nat.not_le_of_lt h.ip_lt) hattempt

/-! ## What lies inside no loop -/

/-- The place lies inside no loop that the code has. -/
def Code.Outside (code : Code) (ip : Nat) : Prop := ∀ loop ∈ code.loops.pairs, ¬ InLoop loop ip

theorem Code.mem_pairs_iff : loop ∈ code.loops.pairs
    ↔ Program.Closes code.program.toList loop.1 loop.2 := by
  rw [code.loops_eq]
  exact Loops.mem_pairs_iff

theorem Code.Outside.exposed {ip : Nat} (h : code.Outside ip) :
    Program.Exposed code.program.toList ip := by
  intro opening close hcloses
  have hnot : ¬ InLoop (opening, close) ip := h _ (Code.mem_pairs_iff.mpr hcloses)
  unfold InLoop at hnot
  omega

/-- Two states of a trail that follow each other. -/
theorem Trail.advances_getElem? {k : Nat} {u v : State α} (h : Trail code s states t)
    (hu : (s :: states)[k]? = some u) (hv : (s :: states)[k + 1]? = some v) :
    Advances code u v := by
  induction h generalizing k with
  | nil => nomatch hv
  | cons hadvances _ ih =>
    cases k with
    | zero =>
      obtain rfl := Option.some.inj hu
      obtain rfl := Option.some.inj hv
      exact hadvances
    | succ k => exact ih hu hv

/-- **Behind a state at an exposed place all are beyond it.** -/
theorem Trail.exposed_ascend (h : Trail code s states t) :
    (s :: states).Pairwise fun u v => Program.Exposed code.program.toList u.ip → u.ip < v.ip := by
  induction h with
  | nil => exact List.pairwise_singleton _ _
  | cons hadvances hrest ih =>
    refine List.pairwise_cons.mpr ⟨fun v hv hexposed => ?_, ih⟩
    exact (Trail.cons hadvances hrest).beyond hexposed (Nat.le_refl _) v hv

/-- What is certain of all that a machine has ever done: its states, from the first one on, come
    from each other by executing instructions, and the instructions that lie inside no loop are
    executed at most once each and in the order in which they stand. -/
structure OnceInOrder (code : Code) (past : List (State α)) : Prop where
  executes : ∀ k s t, past[k]? = some s → past[k + 1]? = some t → Executes code s t
  once : ∀ ip, code.Outside ip → timesExecuted past ip ≤ 1
  /-- The last state is left out: its instruction has not been executed yet. -/
  ordered : past.dropLast.Pairwise fun s t => code.Outside s.ip → code.Outside t.ip → s.ip < t.ip

theorem Trail.onceInOrder (h : Trail code s states t) : OnceInOrder code (s :: states) where
  executes _ _ _ hu hv := executes_iff_advances.mpr (h.advances_getElem? hu hv)
  once _ houtside := h.timesExecuted_le_one houtside.exposed
  ordered := by
    refine (h.exposed_ascend.sublist (List.dropLast_sublist _)).imp ?_
    intro u v hascend houtside _
    exact hascend houtside.exposed

namespace Session

/-- **Loops have one entrance and one exit, and code outside of them runs at most once.**  Whatever
    the state and the way in which it is executed, an instruction outside a loop leads to its `[` or
    leaves the machine outside, and one inside it leads behind its `]`, with a zero cell, or leaves
    the machine inside.

    In the whole life of a session, with a call that may still be going on, every instruction inside
    no loop is executed at most once, and these are executed in program order. -/
theorem loops_have_one_entrance_and_one_exit (code : Code) :
    (∀ s t : State α, Executes code s t → ∀ loop ∈ code.loops.pairs,
      (¬ InLoop loop s.ip → ¬ InLoop loop t.ip ∨ t.ip = loop.1)
      ∧ (InLoop loop s.ip → InLoop loop t.ip
        ∨ t.ip = loop.2 + 1 ∧ t.tape = s.tape ∧ s.tape.value = 0))
    ∧ ∀ (console : Console) (events : List Event) (passed : List (State α)) (session : Session α),
      ({ code, console } : Session α).Lives events passed session →
      ∀ (turns : Nat) (c : Call),
        OnceInOrder code (State.initial :: (passed ++ session.passed turns c)) := by
  constructor
  · intro s t hexecutes loop hloop
    have hadvances := executes_iff_advances.mp hexecutes
    have hloop := Code.mem_pairs_iff.mp hloop
    exact ⟨hadvances.enters_at_opening hloop, hadvances.leaves_behind_closing hloop⟩
  · intro console events passed session h turns c
    have htrail := session.trail_reached turns c
    rw [h.code_eq] at htrail
    exact (h.trail.append htrail).onceInOrder

/-- A loop in a loop, of which the inner one is skipped, and an instruction in front of both and one
    behind them: skipping leaves the inner loop and not the outer one. -/
theorem skipped_loop_is_left :
    Executes (Code.ofText "+[-[+]]+")
        ({ tape := Tape.blank.increment.decrement, ip := 3 } : State Word)
        { tape := Tape.blank.increment.decrement, ip := 6 }
      ∧ (InLoop (3, 5) 3 ∧ 6 = 5 + 1 ∧ (Tape.blank.increment.decrement : Tape Word).value = 0)
      ∧ (InLoop (1, 6) 3 ∧ InLoop (1, 6) 6)
      ∧ OnceInOrder (Code.ofText "+[-[+]]+")
        [(State.initial : State Word), { tape := Tape.blank.increment, ip := 1 },
          { tape := Tape.blank.increment, ip := 2 },
          { tape := Tape.blank.increment.decrement, ip := 3 },
          { tape := Tape.blank.increment.decrement, ip := 6 },
          { tape := Tape.blank.increment.decrement, ip := 7 },
          { tape := Tape.blank.increment.decrement.increment, ip := 8 }] := by
  obtain ⟨hstep, hlife⟩ := loops_have_one_entrance_and_one_exit (α := Word)
    (Code.ofText "+[-[+]]+")
  have hskip : Executes (Code.ofText "+[-[+]]+")
      ({ tape := Tape.blank.increment.decrement, ip := 3 } : State Word)
      { tape := Tape.blank.increment.decrement, ip := 6 } := .rehearsed (by decide) rfl
  have hinner : InLoop (3, 5) 3 := ⟨by decide, by decide⟩
  have houter : InLoop (1, 6) 3 := ⟨by decide, by decide⟩
  refine ⟨hskip, ⟨hinner, ?_⟩, ⟨houter, ?_⟩, hlife {} _ _ _ .fresh 9 (.run {})⟩
  · rcases (hstep _ _ hskip (3, 5) (by decide)).2 hinner with hinside | ⟨hip, -, hzero⟩
    · exact absurd hinside.2 (by decide)
    · exact ⟨hip, hzero⟩
  · rcases (hstep _ _ hskip (1, 6) (by decide)).2 houter with hinside | ⟨hip, -⟩
    · exact hinside
    · exact absurd hip (by decide)

end Session

end Brainfuck

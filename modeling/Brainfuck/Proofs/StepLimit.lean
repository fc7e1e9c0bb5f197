/-
  Step limits: a call with a limit is that many single instructions, and never more.

  What an instruction does is said here without any loop, by a STEPPER.  There are two: the real one
  attempts the instruction against a host, the rehearsing one rehearses it.  `Executes n a b` says
  that `n` instructions succeed one after the other and lead from `a` to `b`.

  A limited call is compared with that, and the order in which the loop looks at things shows at the
  boundary:

  * a program that is finished by its last allowed instruction is FINISHED, and one that is
    finished from the beginning needs no allowance at all;
  * an instruction that would be one too many is not attempted, so it cannot fail either.

  1. The turns of a call are instructions that succeed (`Follows.executes_of_run`), and as far as the
     limit allows every instruction that succeeds is a turn (`Follows.run_of_executes`).
  2. The turn after them ends the call, in one of three ways (`Follows.ends_iff`).

  Both engines follow their steppers, so everything is proved once.
-/
import Brainfuck.Proofs.Table

namespace Brainfuck

variable {α M ω : Type}

/-! ## Single instructions -/

/-- A way to carry out the instruction under the pointer. -/
structure Stepper (α M : Type) where
  code : Code
  /-- The machine; there may be a world around it. -/
  state : M → State α
  act : M → Except Fault Unit × M

namespace Stepper

def Finished (stepper : Stepper α M) (m : M) : Prop := (stepper.state m).Finished stepper.code

instance (stepper : Stepper α M) (m : M) : Decidable (stepper.Finished m) :=
  inferInstanceAs (Decidable ((stepper.state m).Finished stepper.code))

/-- So many instructions succeed, and lead from one machine to the other. -/
inductive Executes (stepper : Stepper α M) : Nat → M → M → Prop
  | none {m : M} : Executes stepper 0 m m
  | more {n : Nat} {a b c : M} (hunfinished : ¬ stepper.Finished a)
      (hact : stepper.act a = (.ok (), b)) (hrest : Executes stepper n b c) :
      Executes stepper (n + 1) a c

/-- An instruction that fails leaves the machine alone and is the one that is blamed. -/
def Stays (stepper : Stepper α M) : Prop :=
  ∀ (m m' : M) (fault : Fault), stepper.act m = (.error fault, m') →
    stepper.state m' = stepper.state m ∧ fault.position? = some (stepper.state m).ip

/-- What becomes of a machine that may execute at most `n` instructions. -/
inductive Ending (stepper : Stepper α M) (n : Nat) (first : M) : Except Fault Unit → M → Prop
  | finished {j : Nat} {last : M} (hj : j ≤ n) (h : stepper.Executes j first last)
      (hfinished : stepper.Finished last) : Ending stepper n first (.ok ()) last
  | limited {last : M} (h : stepper.Executes n first last)
      (hunfinished : ¬ stepper.Finished last) :
      Ending stepper n first (.error (.stepLimit n)) last
  | failed {j : Nat} {point last : M} {fault : Fault} (hj : j < n)
      (h : stepper.Executes j first point) (hunfinished : ¬ stepper.Finished point)
      (hact : stepper.act point = (.error fault, last)) :
      Ending stepper n first (.error fault) last

/-- A call, which ends with some result and some machine, has an exact limit of `n` instructions. -/
structure ExactLimit (stepper : Stepper α M) (n : Nat) (first : M)
    (Ends : Except Fault Unit → M → Prop) : Prop where
  /-- It does end, -/
  ends : ∃ result last, Ends result last
  /-- well if and only if the program is finished by then, -/
  ok_iff : ∀ last, Ends (.ok ()) last
    ↔ ∃ j ≤ n, stepper.Executes j first last ∧ stepper.Finished last
  /-- at the limit if and only if the program needs more, -/
  limit_iff : ∀ last, Ends (.error (.stepLimit n)) last
    ↔ stepper.Executes n first last ∧ ¬ stepper.Finished last
  /-- and in every other way if and only if an instruction fails like this before. -/
  fault_iff : ∀ fault last, fault ≠ .stepLimit n →
    (Ends (.error fault) last
      ↔ ∃ j < n, ∃ point, stepper.Executes j first point ∧ ¬ stepper.Finished point
        ∧ stepper.act point = (.error fault, last) ∧ stepper.state last = stepper.state point)

variable {stepper : Stepper α M} {m n : Nat} {a b c first : M}

theorem Executes.one (hunfinished : ¬ stepper.Finished a) (hact : stepper.act a = (.ok (), b)) :
    stepper.Executes 1 a b :=
  .more hunfinished hact .none

theorem Executes.append (h : stepper.Executes m a b) (h' : stepper.Executes n b c) :
    stepper.Executes (m + n) a c := by
  induction h with
  | none =>
    rw [Nat.zero_add]
    exact h'
  | more hunfinished hact _ ih =>
    rw [Nat.succ_add]
    exact .more hunfinished hact (ih h')

/-- An execution can be cut anywhere. -/
theorem Executes.split (h : stepper.Executes (m + n) a c) :
    ∃ b, stepper.Executes m a b ∧ stepper.Executes n b c := by
  induction m generalizing a with
  | zero =>
    rw [Nat.zero_add] at h
    exact ⟨a, .none, h⟩
  | succ m ih =>
    rw [Nat.succ_add] at h
    cases h with
    | more hunfinished hact hrest =>
      obtain ⟨b, hfirst, hsecond⟩ := ih hrest
      exact ⟨b, .more hunfinished hact hfirst, hsecond⟩

/-- The three endings exclude each other by their results. -/
theorem Stays.exactLimit (stays : stepper.Stays) {Ends : Except Fault Unit → M → Prop}
    (hends : ∃ result last, Ends result last)
    (hiff : ∀ result last, Ends result last ↔ stepper.Ending n first result last) :
    stepper.ExactLimit n first Ends where
  ends := hends
  ok_iff last := by
    rw [hiff]
    constructor
    · rintro (⟨hj, h, hfinished⟩ | _ | _)
      exact ⟨_, hj, h, hfinished⟩
    · rintro ⟨j, hj, h, hfinished⟩
      exact .finished hj h hfinished
  limit_iff last := by
    rw [hiff]
    constructor
    · rintro (_ | ⟨h, hunfinished⟩ | ⟨_, _, _, hact⟩)
      · exact ⟨h, hunfinished⟩
      · -- No instruction fails for want of an allowance.
        nomatch (stays _ _ _ hact).2
    · rintro ⟨h, hunfinished⟩
      exact .limited h hunfinished
  fault_iff fault last hfault := by
    rw [hiff]
    constructor
    · rintro (_ | _ | ⟨hj, h, hunfinished, hact⟩)
      · exact absurd rfl hfault
      · exact ⟨_, hj, _, h, hunfinished, hact, (stays _ _ _ hact).1⟩
    · rintro ⟨j, hj, point, h, hunfinished, hact, -⟩
      exact .failed hj h hunfinished hact

end Stepper

/-! ## Calls -/

/-- A call that has a limit ends. -/
theorem Engine.exists_ends_of_limit {control : Control ω} {n : Nat}
    (hlimit : control.limit = some n) (engine : Engine α ω) (s : State α) (w : ω) :
    ∃ o, engine.Ends control (Run.start s w) o := by
  cases hrun : engine.run control n (Run.start s w) with
  | ended result last => exact ⟨_, n, by rw [hrun]; rfl⟩
  | running point =>
    have hsteps : point.steps = 0 + n := (Engine.run_free_of_run hrun).2
    have hturn := engine.turn_tick control point
    generalize engine.tick control point = progress at hturn
    cases hturn with
    | succeeded _ hadmits _ =>
      have hroom := hadmits.room n hlimit
      omega
    | finished hfinished hclose => exact ⟨_, Engine.ends_of_turn hrun (.finished hfinished hclose)⟩
    | canceled hunfinished hcanceled =>
      exact ⟨_, Engine.ends_of_turn hrun (.canceled hunfinished hcanceled)⟩
    | limited hunfinished hgoing hlimit hused =>
      exact ⟨_, Engine.ends_of_turn hrun (.limited hunfinished hgoing hlimit hused)⟩
    | failed hunfinished hadmits hattempt =>
      exact ⟨_, Engine.ends_of_turn hrun (.failed hunfinished hadmits hattempt)⟩

/-- In worlds with a property that stays true, an engine does what a stepper does, with the machine
    and the world seen through `view`; it has nothing to close, and nobody cancels it. -/
structure Engine.Follows (engine : Engine α ω) (control : Control ω) (stepper : Stepper α M)
    (view : State α → ω → M) (P : ω → Prop) : Prop where
  code : engine.code = stepper.code
  state : ∀ s w, stepper.state (view s w) = s
  attempt : ∀ {w}, P w → ∀ (steps : Nat) (s : State α),
    stepper.act (view s w) = ((engine.attempt steps s w).result,
      view (engine.attempt steps s w).state (engine.attempt steps s w).world)
    ∧ P (engine.attempt steps s w).world
  close : ∀ {w}, P w → engine.close w = (.ok (), w)
  going : ∀ {w}, P w → control.canceled w = false

namespace Engine.Follows

variable {engine : Engine α ω} {control : Control ω} {stepper : Stepper α M}
  {view : State α → ω → M} {P : ω → Prop} {first last : Run α ω} {n j : Nat}

theorem finished_iff (h : engine.Follows control stepper view P) (s : State α) (w : ω) :
    stepper.Finished (view s w) ↔ s.Finished engine.code := by
  rw [Stepper.Finished, h.state, h.code]

/-- The turns that have succeeded are instructions that have succeeded. -/
theorem executes_of_run (h : engine.Follows control stepper view P) (hP : P first.world)
    (hrun : engine.run control j first = .running last) :
    stepper.Executes j (view first.state first.world) (view last.state last.world)
      ∧ P last.world := by
  induction j generalizing first with
  | zero =>
    obtain rfl := Progress.running.inj hrun
    exact ⟨.none, hP⟩
  | succ j ih =>
    rw [Engine.run] at hrun
    have hturn := engine.turn_tick control first
    generalize engine.tick control first = progress at hturn hrun
    cases hturn with
    | succeeded hunfinished _ hattempt =>
      obtain ⟨hact, hP'⟩ := h.attempt hP first.steps first.state
      rw [hattempt] at hact hP'
      obtain ⟨hrest, hlast⟩ := ih hP' hrun
      exact ⟨.more (mt (h.finished_iff _ _).mp hunfinished) hact hrest, hlast⟩
    | failed | finished | canceled | limited => cases hrun

/-- **Instructions that succeed are turns of the call**, as far as the limit allows. -/
theorem run_of_executes (h : engine.Follows control stepper view P) (first : Run α ω)
    {a b : M} (hexecutes : stepper.Executes j a b) (ha : view first.state first.world = a)
    (hP : P first.world)
    (hroom : ∀ limit, control.limit = some limit → first.steps + j ≤ limit) :
    ∃ last, engine.run control j first = .running last ∧ view last.state last.world = b
      ∧ P last.world ∧ last.steps = first.steps + j := by
  induction hexecutes generalizing first with
  | none => exact ⟨first, rfl, ha, hP, rfl⟩
  | @more j a b c hunfinished hact _ ih =>
    obtain ⟨hact', hP'⟩ := h.attempt hP first.steps first.state
    rw [← ha] at hunfinished hact
    rw [hact] at hact'
    rcases hattempt : engine.attempt first.steps first.state first.world with ⟨result, s, w⟩
    rw [hattempt] at hact' hP'
    obtain ⟨hresult, hb⟩ := Prod.mk.inj hact'
    obtain rfl : Except.ok () = result := hresult
    have hadmits : control.Admits first := by
      refine ⟨h.going hP, ?_⟩
      intro limit hsome
      have hlimit := hroom limit hsome
      omega
    have hroom' (limit : Nat) (hsome : control.limit = some limit) :
        first.steps + 1 + j ≤ limit := by
      have hlimit := hroom limit hsome
      omega
    have htick := Engine.tick_of_ok (mt (h.finished_iff _ _).mpr hunfinished) hadmits hattempt
    obtain ⟨last, hrun, hlast, hPlast, hsteps⟩ :=
      @ih { state := s, world := w, steps := first.steps + 1 } hb.symm hP' hroom'
    refine ⟨last, ?_, hlast, hPlast, ?_⟩
    · rw [Engine.run, htick]
      exact hrun
    · rw [hsteps]
      show first.steps + 1 + j = _
      omega

variable {s : State α} {w : ω}

/-- What ends a call is an ending of the machine. -/
theorem ending_of_ends (h : engine.Follows control stepper view P)
    (hlimit : control.limit = some n) (hP : P w) {o : Outcome α ω}
    (hends : engine.Ends control (Run.start s w) o) :
    stepper.Ending n (view s w) o.result (view o.state o.world) := by
  obtain ⟨turns, hturns⟩ := hends
  cases hrun : engine.run control turns (Run.start s w) with
  | running last =>
    rw [hrun] at hturns
    nomatch hturns
  | ended result last =>
    rw [hrun] at hturns
    obtain rfl := Option.some.inj hturns
    obtain ⟨j, point, hpoint, hturn⟩ := Engine.exists_of_run_eq_ended hrun
    have hsteps : point.steps = 0 + j := (Engine.run_free_of_run hpoint).2
    have hle : point.steps ≤ n := Engine.steps_le_of_run hpoint hlimit (Nat.zero_le n)
    obtain ⟨hexecutes, hPpoint⟩ := h.executes_of_run hP hpoint
    have hexecutes : stepper.Executes j (view s w) (view point.state point.world) := hexecutes
    cases hturn with
    | finished hfinished hclose =>
      rw [h.close hPpoint] at hclose
      obtain ⟨rfl, rfl⟩ := Prod.mk.inj hclose
      exact .finished (by omega) hexecutes ((h.finished_iff _ _).mpr hfinished)
    | canceled _ hcanceled => nomatch (h.going hPpoint).symm.trans hcanceled
    | limited hunfinished _ hsome hused =>
      obtain rfl := Option.some.inj (hlimit.symm.trans hsome)
      obtain rfl : j = n := by omega
      exact .limited hexecutes (mt (h.finished_iff _ _).mp hunfinished)
    | failed hunfinished hadmits hattempt =>
      have hroom := hadmits.room n hlimit
      obtain ⟨hact, -⟩ := h.attempt hPpoint point.steps point.state
      rw [hattempt] at hact
      exact .failed (by omega) hexecutes (mt (h.finished_iff _ _).mp hunfinished) hact

/-- Every ending of the machine ends the call. -/
theorem ends_of_ending (h : engine.Follows control stepper view P)
    (hlimit : control.limit = some n) (hP : P w) {result : Except Fault Unit} {b : M}
    (hending : stepper.Ending n (view s w) result b) :
    ∃ o, engine.Ends control (Run.start s w) o ∧ o.result = result
      ∧ view o.state o.world = b := by
  have hstart : (Run.start s w).steps = 0 := rfl
  have hroom {j : Nat} (hj : j ≤ n) (limit : Nat) (hsome : control.limit = some limit) :
      (Run.start s w).steps + j ≤ limit := by
    obtain rfl := Option.some.inj (hlimit.symm.trans hsome)
    omega
  cases hending with
  | @finished j _ hj hexecutes hfinished =>
    obtain ⟨point, hrun, rfl, hPpoint, -⟩ :=
      h.run_of_executes (Run.start s w) hexecutes rfl hP (hroom hj)
    have hturn : engine.Turn control point _ :=
      .finished ((h.finished_iff _ _).mp hfinished) (h.close hPpoint)
    exact ⟨_, Engine.ends_of_turn hrun hturn, rfl, rfl⟩
  | limited hexecutes hunfinished =>
    obtain ⟨point, hrun, rfl, hPpoint, hsteps⟩ :=
      h.run_of_executes (Run.start s w) hexecutes rfl hP (hroom (Nat.le_refl n))
    have hturn : engine.Turn control point _ :=
      .limited (mt (h.finished_iff _ _).mpr hunfinished) (h.going hPpoint) hlimit (by omega)
    exact ⟨_, Engine.ends_of_turn hrun hturn, rfl, rfl⟩
  | @failed j _ _ fault hj hexecutes hunfinished hact =>
    obtain ⟨point, hrun, rfl, hPpoint, hsteps⟩ :=
      h.run_of_executes (Run.start s w) hexecutes rfl hP (hroom (Nat.le_of_lt hj))
    obtain ⟨hact', -⟩ := h.attempt hPpoint point.steps point.state
    rw [hact] at hact'
    rcases hattempt : engine.attempt point.steps point.state point.world with ⟨result, t, v⟩
    rw [hattempt] at hact'
    obtain ⟨hresult, rfl⟩ := Prod.mk.inj hact'
    obtain rfl : Except.error fault = result := hresult
    have hadmits : control.Admits point := by
      refine ⟨h.going hPpoint, ?_⟩
      intro limit hsome
      obtain rfl := Option.some.inj (hlimit.symm.trans hsome)
      omega
    have hturn : engine.Turn control point _ :=
      .failed (mt (h.finished_iff _ _).mpr hunfinished) hadmits hattempt
    exact ⟨_, Engine.ends_of_turn hrun hturn, rfl, rfl⟩

/-- **A limited call ends as its machine does.** -/
theorem ends_iff (h : engine.Follows control stepper view P) (hlimit : control.limit = some n)
    (hP : P w) {result : Except Fault Unit} {b : M} :
    (∃ o, engine.Ends control (Run.start s w) o ∧ o.result = result ∧ view o.state o.world = b)
      ↔ stepper.Ending n (view s w) result b := by
  constructor
  · rintro ⟨o, hends, rfl, rfl⟩
    exact h.ending_of_ends hlimit hP hends
  · exact h.ends_of_ending hlimit hP

end Engine.Follows

/-! ## The two kinds of call -/

variable [Cell α] {σ : Type} {host : Host σ} {installed : σ → Prop} {w : σ} {n : Nat}

namespace Stepper

/-- Instructions reach a host. -/
def real (host : Host σ) (code : Code) : Stepper α (State α × σ) where
  code := code
  state := Prod.fst
  act m :=
    let o := attempt host code m.1 m.2
    (o.result, o.state, o.world)

/-- Instructions are rehearsed. -/
def rehearsing (code : Code) : Stepper α (State α) where
  code := code
  state := id
  act := rehearse code

theorem real_stays (host : Host σ) (code : Code) : (real host code : Stepper α _).Stays := by
  rintro ⟨s, w⟩ ⟨s', w'⟩ fault h
  rcases hattempt : attempt host code s w with ⟨result, t, v⟩
  simp only [real, hattempt] at h
  obtain ⟨rfl, rfl, rfl⟩ : result = _ ∧ t = s' ∧ v = w' := by simpa using h
  exact attempt_eq_error hattempt

theorem rehearsing_stays (code : Code) : (rehearsing code : Stepper α _).Stays := by
  intro s s' fault h
  have h : rehearse code s = (.error fault, s') := h
  obtain ⟨-, -, -, hstays⟩ := effect_of_rehearse_error h
  exact ⟨hstays, position?_of_rehearse_error h⟩

end Stepper

theorem Engine.real_follows (hooked : host.Hooked installed) {control : Control σ}
    (hgoing : ∀ w, installed w → control.canceled w = false) (code : Code) :
    (Engine.real host code : Engine α σ).Follows control (Stepper.real host code) Prod.mk
      installed where
  code := rfl
  state _ _ := rfl
  attempt hw _ s := ⟨rfl, hooked.attempt hw code s⟩
  close hw := hooked.flush _ hw
  going hw := hgoing _ hw

/-- A rehearsal of a console on which the flag is not up. -/
theorem Session.printing_follows {bounds : Bounds} {first : Console}
    (hgoing : (bounds.cancelable && first.canceled) = false) (code : Code) :
    (printing code : Engine α Console).Follows bounds.control (Stepper.rehearsing code)
      (fun s _ => s) first.Printed where
  code := rfl
  state _ _ := rfl
  attempt hprinted steps s := by
    obtain ⟨console', hattempt, hprinted'⟩ := printing_attempt_eq hprinted code s steps
    rw [hattempt]
    exact ⟨rfl, hprinted'⟩
  close _ := rfl
  going := by
    rintro _ ⟨stdout, rfl⟩
    exact hgoing

/-- A collector is installed, and nobody has raised the flag or will. -/
structure Console.Calm (console : Console) : Prop where
  collecting : console.collecting = true
  canceled : console.canceled = false
  tripwire : console.tripwire = {}

theorem Console.Calm.notice {console : Console} (h : console.Calm) : console.notice.Calm where
  collecting := h.collecting
  canceled := by simp [Console.notice, h.canceled, h.tripwire]
  tripwire := h.tripwire

theorem Console.hooked_calm : Console.host.Hooked Console.Calm where
  write byte console h := by
    refine ⟨Console.notice { console with collected := console.collected.push byte }, ?_, ?_⟩
    · show console.write byte = _
      rw [Console.write, if_pos h.collecting]
    · exact Console.Calm.notice ⟨h.collecting, h.canceled, h.tripwire⟩
  readLine console h := by
    show (console.readLine).2.Calm
    rw [Console.readLine]
    split
    · exact Console.Calm.notice ⟨h.collecting, h.canceled, h.tripwire⟩
    · exact ⟨h.collecting, h.canceled, h.tripwire⟩
  flush console h := Console.hooked_host.flush console h.collecting

/-- **The step limit is exact.**  Take hooks that never raise the flag, and a limit of `n`
    instructions.  A run ends well if and only if the program is finished by `n` instructions that
    succeed; it ends at the limit if and only if `n` instructions succeed and the program is not
    finished; and it ends with a fault if and only if an instruction fails like this after fewer than
    `n` have succeeded.  It leaves the machine as those instructions do, and it always ends.  The
    same is true of a rehearsal. -/
theorem step_limit_is_exact (hooked : host.Hooked installed) (hw : installed w)
    (control : Control σ) (hlimit : control.limit = some n)
    (hgoing : ∀ w, installed w → control.canceled w = false) (code : Code) (s : State α)
    (session : Session α) (bounds : Bounds) (hbounds : bounds.limit = some n)
    (hflag : (bounds.cancelable && session.console.canceled) = false) :
    (Stepper.real host code).ExactLimit n (s, w)
        (fun result m => (Engine.real host code).Ends control (Run.start s w) ⟨result, m.1, m.2⟩)
      ∧ (Stepper.rehearsing session.code).ExactLimit n session.state
        (fun result t => ∃ next, session.Ends (.rehearse bounds) result next
          ∧ next.state = t) := by
  constructor
  · have hfollows := Engine.real_follows (α := α) hooked hgoing code
    refine (Stepper.real_stays host code).exactLimit ?_ ?_
    · obtain ⟨o, ho⟩ := Engine.exists_ends_of_limit hlimit (Engine.real host code) s w
      exact ⟨o.result, (o.state, o.world), ho⟩
    · rintro result ⟨t, v⟩
      rw [← hfollows.ends_iff hlimit hw]
      constructor
      · intro hends
        exact ⟨_, hends, rfl, rfl⟩
      · rintro ⟨o, hends, rfl, ho⟩
        obtain ⟨rfl, rfl⟩ := Prod.mk.inj ho
        exact hends
  · have hfollows := Session.printing_follows (α := α) hflag session.code
    have hstart : session.console.Printed (session.console.print Row.header) :=
      ⟨_, Console.print_eq _ _⟩
    refine (Stepper.rehearsing_stays session.code).exactLimit ?_ ?_
    · have hlimit : bounds.control.limit = some n := hbounds
      obtain ⟨o, ho⟩ := Engine.exists_ends_of_limit hlimit
        (Session.printing session.code) session.state (session.console.print Row.header)
      exact ⟨o.result, o.state, _, Session.ends_rehearse_iff.mpr ⟨o, ho, rfl, rfl⟩, rfl⟩
    · intro result t
      rw [← hfollows.ends_iff (s := session.state) hbounds hstart]
      constructor
      · rintro ⟨next, hends, rfl⟩
        obtain ⟨o, ho, rfl, rfl⟩ := Session.ends_rehearse_iff.mp hends
        exact ⟨o, ho, rfl, rfl⟩
      · rintro ⟨o, ho, rfl, rfl⟩
        exact ⟨_, Session.ends_rehearse_iff.mpr ⟨o, ho, rfl, rfl⟩, rfl⟩

/-- Two instructions are enough for a program of two, and are all that is rehearsed of one whose
    third would fail. -/
theorem two_instructions_and_no_more :
    (∃ last, (Engine.real Console.host (Code.ofText "+.")).Ends
        { limit := some 2, canceled := Console.canceled }
        (Run.start (State.initial : State Word) { collecting := true }) last
      ∧ last.result = .ok () ∧ last.world.collected = #[1])
    ∧ ∃ next, ({ code := Code.ofText "++<" } : Session).Ends
        (.rehearse { limit := some 2, cancelable := true }) (.error (.stepLimit 2)) next
      ∧ next.state = { tape := Tape.blank.increment.increment, ip := 2 } := by
  obtain ⟨hrun, hrehearsal⟩ := step_limit_is_exact (n := 2) (w := { collecting := true })
    Console.hooked_calm ⟨rfl, rfl, rfl⟩ { limit := some 2, canceled := Console.canceled } rfl
    (fun _ h => h.canceled) (Code.ofText "+.") (State.initial : State Word)
    { code := Code.ofText "++<" } { limit := some 2, cancelable := true } rfl rfl
  constructor
  · have hexecutes : (Stepper.real Console.host (Code.ofText "+.")).Executes 2
        ((State.initial : State Word), { collecting := true })
        ({ tape := Tape.blank.increment, ip := 2 }, { collecting := true, collected := #[1] }) :=
      .more (by decide) rfl (.more (by decide) rfl .none)
    exact ⟨_, (hrun.ok_iff _).mpr ⟨2, Nat.le_refl 2, hexecutes, by decide⟩, rfl, rfl⟩
  · have hexecutes : (Stepper.rehearsing (Code.ofText "++<")).Executes 2 (State.initial : State Word)
        { tape := Tape.blank.increment.increment, ip := 2 } :=
      .more (by decide) rfl (.more (by decide) rfl .none)
    exact (hrehearsal.limit_iff _).mpr ⟨hexecutes, by decide⟩

end Brainfuck

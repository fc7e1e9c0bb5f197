/-
  Lost output: a run on a full device beside the same run on one that works.

  A full device is not noticed as long as everything is HELD.  So up to the first line feed the two
  runs go the same way, and then there are two ways in which they part:

  * a `.` writes the first line feed.  It succeeds on the device that works; on the full one the
    transfer fails, and so does the instruction, which leaves the machine where it stands;
  * the program ends, and what is held has to be flushed.

  This cannot be a lockstep, which related calls never leave.  In its place `Together` says how the
  two runs stand after the same number of turns and `PartsAt` how a line feed parts them;
  `Console.Beside.tick` is one turn and `Console.Beside.run` the induction.  Everything that is said
  about the result of the run on the full device is read off these cases.

  What counts here is not what the device gets but what it is given: `Session.emitted`, also while
  the run is going on, since a run that would never end is parted from the other all the same.
-/
import Brainfuck.Proofs.Blame
import Brainfuck.Proofs.Streams

namespace Brainfuck

/-! ## The device -/

namespace Stdout

/-- Everything that was written is still held, and any number of bytes can be. -/
def unsent (full : Bool) (held : Array UInt8) : Stdout := { full, capacity := none, held }

variable {full : Bool} {held : Array UInt8} {byte : UInt8}

theorem bytes_unsent (held : Array UInt8) : (unsent false held).bytes = held := by
  rw [bytes_of_working rfl]
  exact Array.empty_append

/-- A byte that ends no line is held, on any device. -/
theorem write_unsent (h : byte ≠ 10) :
    (unsent full held).write byte = (.ok (), unsent full (held.push byte)) := by
  show (unsent full held).hold byte = _
  rw [hold, if_neg h]
  rfl

/-- A line feed does not get to a full device. -/
theorem write_feed_full (held : Array UInt8) :
    (unsent true held).write 10 = (.error noSpace, unsent true (held.push 10)) := by
  show (unsent true (held.push 10)).flush = _
  have hheld : (held.push 10).isEmpty = false := by simp
  rw [flush]
  simp only [unsent, hheld]
  rfl

theorem flush_unsent_empty (full : Bool) :
    (unsent full #[]).flush = (.ok (), unsent full #[]) := rfl

theorem flush_unsent_full (h : held ≠ #[]) :
    (unsent true held).flush = (.error noSpace, unsent true held) := by
  have hheld : held.isEmpty = false := by simpa using h
  rw [flush]
  simp only [unsent, hheld]
  rfl

end Stdout

/-! ## Two consoles -/

namespace Console

/-- The console with a device that is full or not, to which nothing has been transferred. -/
def onDevice (c : Console) (full : Bool) (held : Array UInt8) : Console :=
  { c with stdout := Stdout.unsent full held }

variable {c d : Console} {full : Bool} {held : Array UInt8} {byte : UInt8}

/-- The device has no part in reading. -/
theorem readLine_onDevice (c : Console) (full : Bool) (held : Array UInt8) :
    (c.onDevice full held).readLine = ((c.readLine).1, (c.readLine).2.onDevice full held) := by
  rcases c with ⟨script, stdin, collecting, collected, asked, stdout, tripwire, canceled⟩
  cases script with
  | none => rfl
  | some answers => rfl

/-- Neither is any collector installed by reading. -/
theorem collecting_readLine (c : Console) : (c.readLine).2.collecting = c.collecting := by
  rcases c with ⟨script, stdin, collecting, collected, asked, stdout, tripwire, canceled⟩
  cases script with
  | none => rfl
  | some answers => rfl

theorem stdout_readLine (c : Console) : (c.readLine).2.stdout = c.stdout := by
  rcases c with ⟨script, stdin, collecting, collected, asked, stdout, tripwire, canceled⟩
  cases script with
  | none => rfl
  | some answers => rfl

/-- Standard output, on a device that works, has been given these bytes first. -/
structure HasWritten (given : List UInt8) (c : Console) : Prop where
  standard : c.collecting = false
  works : c.stdout.full = false
  given_le : given <+: c.stdout.bytes.toList

/-- **What has been written stays written.** -/
theorem alike_hasWritten (given : List UInt8) :
    Console.host.Alike Console.host fun c d => c = d ∧ c.HasWritten given where
  write := by
    rintro c _ ⟨rfl, h⟩ byte
    obtain ⟨stdout, hwrite, hgains⟩ := Stdout.write_of_working h.works byte
    have hc : Console.host.write byte c = _ := write_eq c h.standard hwrite
    refine ⟨_, _, _, hc, hc, rfl, h.standard, hgains.full, ?_⟩
    exact h.given_le.trans ⟨[byte], hgains.bytes_eq.symm⟩
  readLine := by
    rintro c _ ⟨rfl, h⟩
    refine ⟨_, _, _, rfl, rfl, rfl, ?_⟩
    constructor
    · exact (collecting_readLine c).trans h.standard
    · exact (congrArg Stdout.full (stdout_readLine c)).trans h.works
    · show given <+: (c.readLine).2.stdout.bytes.toList
      rw [stdout_readLine c]
      exact h.given_le
  flush := by
    rintro c _ ⟨rfl, h⟩
    obtain ⟨stdout, hflush, hgains⟩ := Stdout.flush_of_working h.works
    have hc : Console.host.flush c = _ := flush_eq c h.standard hflush
    refine ⟨_, _, _, hc, hc, rfl, h.standard, hgains.full, ?_⟩
    exact h.given_le.trans ⟨[], hgains.bytes_eq.symm⟩

/-- A device that works beside a full one, before the first line feed. -/
inductive Beside : Console → Console → Prop
  | intro {c : Console} {held : Array UInt8} (hstd : c.collecting = false)
      (hfeed : 10 ∉ held.toList) : Beside (c.onDevice false held) (c.onDevice true held)

theorem Beside.feed_not_mem (h : Beside c d) : 10 ∉ c.stdout.bytes.toList := by
  cases h with
  | @intro c held hstd hfeed =>
    show 10 ∉ (Stdout.unsent false held).bytes.toList
    rw [Stdout.bytes_unsent]
    exact hfeed

/-- Nobody is canceled by a device. -/
theorem Beside.canceled_eq (h : Beside c d) (bounds : Bounds) :
    bounds.control.canceled c = bounds.control.canceled d := by
  cases h with
  | intro _ _ => rfl

/-- Any byte but a line feed is held on both devices. -/
theorem Beside.write (h : Beside c d) (hbyte : byte ≠ 10) :
    ∃ c' d', c.write byte = (.ok (), c') ∧ d.write byte = (.ok (), d') ∧ Beside c' d' := by
  cases h with
  | @intro c held hstd hfeed =>
    refine ⟨c.onDevice false (held.push byte), c.onDevice true (held.push byte), ?_, ?_, ?_⟩
    · exact write_eq (c.onDevice false held) hstd (Stdout.write_unsent hbyte)
    · exact write_eq (c.onDevice true held) hstd (Stdout.write_unsent hbyte)
    · refine .intro hstd ?_
      rw [Array.toList_push, List.mem_append, List.mem_singleton]
      rintro (hheld | hlast)
      · exact hfeed hheld
      · exact hbyte hlast.symm

/-- A line feed gets through on the one and fails on the other. -/
theorem Beside.write_feed (h : Beside c d) :
    ∃ c' d', c.write 10 = (.ok (), c') ∧ d.write 10 = (.error Stdout.noSpace, d')
      ∧ c'.stdout.bytes.toList = c.stdout.bytes.toList ++ [10] := by
  cases h with
  | @intro c held hstd hfeed =>
    obtain ⟨stdout, hwrite, hgains⟩ :=
      Stdout.write_of_working (show (Stdout.unsent false held).full = false from rfl) 10
    refine ⟨_, _, write_eq (c.onDevice false held) hstd hwrite,
      write_eq (c.onDevice true held) hstd (Stdout.write_feed_full held), hgains.bytes_eq⟩

theorem Beside.readLine (h : Beside c d) :
    ∃ answer c' d', c.readLine = (answer, c') ∧ d.readLine = (answer, d') ∧ Beside c' d' := by
  cases h with
  | @intro c held hstd hfeed =>
    refine ⟨_, _, _, readLine_onDevice c false held, readLine_onDevice c true held, ?_⟩
    exact .intro ((collecting_readLine c).trans hstd) hfeed

/-- Nothing is lost by flushing nothing. -/
theorem Beside.flush_of_empty (h : Beside c d) (hempty : c.stdout.bytes = #[]) :
    c.flush = (.ok (), c) ∧ d.flush = (.ok (), d) := by
  cases h with
  | @intro c held hstd hfeed =>
    obtain rfl : held = #[] := (Stdout.bytes_unsent held).symm.trans hempty
    exact ⟨flush_eq (c.onDevice false #[]) hstd (Stdout.flush_unsent_empty false),
      flush_eq (c.onDevice true #[]) hstd (Stdout.flush_unsent_empty true)⟩

/-- All else that was held gets through on the one, and fails on the other. -/
theorem Beside.flush (h : Beside c d) (hne : c.stdout.bytes ≠ #[]) :
    ∃ c' d', c.flush = (.ok (), c') ∧ d.flush = (.error Stdout.noSpace, d')
      ∧ c'.stdout.bytes.toList = c.stdout.bytes.toList := by
  cases h with
  | @intro c held hstd hfeed =>
    have hheld : held ≠ #[] := by
      intro hempty
      exact hne ((Stdout.bytes_unsent held).trans hempty)
    obtain ⟨stdout, hflush, hgains⟩ :=
      Stdout.flush_of_working (show (Stdout.unsent false held).full = false from rfl)
    refine ⟨_, _, flush_eq (c.onDevice false held) hstd hflush,
      flush_eq (c.onDevice true held) hstd (Stdout.flush_unsent_full hheld), ?_⟩
    exact hgains.bytes_eq.trans (List.append_nil _)

end Console

/-! ## Together or parted -/

section Courses

variable {α : Type} {code : Code} {working full working' full' : Nat → Progress α Console} {m : Nat}
  {point : Run α Console}

/-- How the two runs stand after the same number of turns, as long as no line feed has parted
    them. -/
inductive Together (code : Code) : Progress α Console → Progress α Console → Prop
  | running {s : State α} {c d : Console} {steps : Nat} (hbeside : c.Beside d) :
      Together code (.running ⟨s, c, steps⟩) (.running ⟨s, d, steps⟩)
  /-- For the same reason; a run that ends well has had nothing to flush. -/
  | ended {result : Except Fault Unit} {s : State α} {c d : Console} {steps : Nat}
      (hbeside : c.Beside d) (hempty : result = .ok () → c.stdout.bytes = #[]) :
      Together code (.ended result ⟨s, c, steps⟩) (.ended result ⟨s, d, steps⟩)
  /-- Both at the end of the program, where what was held is flushed. -/
  | unflushed {s : State α} {c d : Console} {steps : Nat} (hfinished : s.Finished code)
      (hne : c.stdout.bytes ≠ #[]) (hfeed : 10 ∉ c.stdout.bytes.toList) :
      Together code (.ended (.ok ()) ⟨s, c, steps⟩)
        (.ended (.error (.io s.ip Stdout.noSpace)) ⟨s, d, steps⟩)

theorem Together.feed_not_mem {progress progress' : Progress α Console}
    (h : Together code progress progress') : 10 ∉ progress.point.world.stdout.bytes.toList := by
  cases h with
  | running hbeside => exact hbeside.feed_not_mem
  | ended hbeside _ => exact hbeside.feed_not_mem
  | unflushed _ _ hfeed => exact hfeed

/-- Given turn by turn, the two runs are at the same `.` after `m` turns, and it writes the first
    line feed: the one goes on, and the other fails there. -/
structure PartsAt (code : Code) (working full : Nat → Progress α Console) (m : Nat)
    (point : Run α Console) : Prop where
  before : working m = .running point
  clean : 10 ∉ point.world.stdout.bytes.toList
  output : code.program[point.state.ip]? = some .output
  fed : ∃ next, working (m + 1) = .running next
    ∧ next.world.stdout.bytes.toList = point.world.stdout.bytes.toList ++ [10]
  failed : ∃ d, full (m + 1)
    = .ended (.error (.io point.state.ip Stdout.noSpace)) { point with world := d }

/-- Runs part that do so after a turn. -/
theorem PartsAt.succ (h : PartsAt code working' full' m point)
    (hworking : ∀ n, working (n + 1) = working' n) (hfull : ∀ n, full (n + 1) = full' n) :
    PartsAt code working full (m + 1) point where
  before := (hworking m).trans h.before
  clean := h.clean
  output := h.output
  fed := by
    rw [hworking]
    exact h.fed
  failed := by
    rw [hfull]
    exact h.failed

end Courses

/-! ## Turns and runs -/

section Runs

variable {α : Type} [Cell α] {code : Code} {bounds : Bounds} {s : State α} {c d : Console}

/-- What an instruction wants goes the same way on both devices, unless it is to write a line
    feed. -/
theorem Console.Beside.perform (h : c.Beside d) {e : Effect α} {i : Instruction}
    (hconcerns : e.Concerns s) (hfits : e.Fits i) :
    (∃ result t c' d', e.perform host c = ⟨result, t, c'⟩ ∧ e.perform host d = ⟨result, t, d'⟩
      ∧ c'.Beside d')
    ∨ i = .output ∧ ∃ t c' d', e.perform host c = ⟨.ok (), t, c'⟩
      ∧ e.perform host d = ⟨.error (.io s.ip Stdout.noSpace), s, d'⟩
      ∧ c'.stdout.bytes.toList = c.stdout.bytes.toList ++ [10] := by
  cases e with
  | done next => exact .inl ⟨_, _, _, _, rfl, rfl, h⟩
  | emit byte here =>
    obtain rfl : here = s := hconcerns
    by_cases hbyte : byte = 10
    · obtain rfl := hbyte
      obtain ⟨c', d', hwrite, hwrite', hbytes⟩ := h.write_feed
      have hc : host.write 10 c = _ := hwrite
      have hd : host.write 10 d = _ := hwrite'
      refine .inr ⟨hfits, here.advance, c', d', ?_, ?_, hbytes⟩
      · rw [Effect.perform, hc]
      · rw [Effect.perform, hd]
    · obtain ⟨c', d', hwrite, hwrite', h'⟩ := h.write hbyte
      have hc : host.write byte c = _ := hwrite
      have hd : host.write byte d = _ := hwrite'
      refine .inl ⟨.ok (), here.advance, c', d', ?_, ?_, h'⟩
      · rw [Effect.perform, hc]
      · rw [Effect.perform, hd]
  | ask here =>
    obtain ⟨answer, c', d', hread, hread', h'⟩ := h.readLine
    have hc : host.readLine c = _ := hread
    have hd : host.readLine d = _ := hread'
    rw [Effect.perform, Effect.perform, hc, hd]
    cases answer with
    | ok line => exact .inl ⟨_, _, _, _, rfl, rfl, h'⟩
    | error reason => exact .inl ⟨_, _, _, _, rfl, rfl, h'⟩
  | fault cause here => exact .inl ⟨_, _, _, _, rfl, rfl, h⟩

theorem Console.Beside.attempt (h : c.Beside d) (code : Code) (s : State α) :
    (∃ result t c' d', attempt host code s c = ⟨result, t, c'⟩
      ∧ attempt host code s d = ⟨result, t, d'⟩ ∧ c'.Beside d')
    ∨ code.program[s.ip]? = some .output ∧ ∃ t c' d', attempt host code s c = ⟨.ok (), t, c'⟩
      ∧ attempt host code s d = ⟨.error (.io s.ip Stdout.noSpace), s, d'⟩
      ∧ c'.stdout.bytes.toList = c.stdout.bytes.toList ++ [10] := by
  cases hi : code.program[s.ip]? with
  | none =>
    rw [Brainfuck.attempt, Brainfuck.attempt, hi]
    exact .inl ⟨_, _, _, _, rfl, rfl, h⟩
  | some i =>
    rw [Brainfuck.attempt, Brainfuck.attempt, hi]
    rcases h.perform (effect_concerns code s i) (effect_fits code s i) with hsame | ⟨rfl, hfeed⟩
    · exact .inl hsame
    · exact .inr ⟨rfl, hfeed⟩

/-- At the end of the program everything depends on whether there is something to flush. -/
theorem Console.Beside.tick_of_finished (h : c.Beside d) (bounds : Bounds)
    (hfinished : s.Finished code) (steps : Nat) :
    Together code ((Engine.real host code).tick bounds.control ⟨s, c, steps⟩)
      ((Engine.real host code).tick bounds.control ⟨s, d, steps⟩) := by
  have htick {console after : Console} {closing : Except String Unit}
      (hflush : console.flush = (closing, after)) :
      (Engine.real host code).tick bounds.control ⟨s, console, steps⟩
        = .ended (closing.mapError (.io s.ip)) ⟨s, after, steps⟩ :=
    (Engine.Turn.finished hfinished hflush).tick_eq
  by_cases hempty : c.stdout.bytes = #[]
  · obtain ⟨hflush, hflush'⟩ := h.flush_of_empty hempty
    rw [htick hflush, htick hflush']
    exact .ended h fun _ => hempty
  · obtain ⟨c', d', hflush, hflush', hbytes⟩ := h.flush hempty
    rw [htick hflush, htick hflush']
    refine .unflushed hfinished ?_ ?_
    · intro hempty'
      exact hempty (Array.toList_inj.mp (hbytes.symm.trans (congrArg Array.toList hempty')))
    · rw [hbytes]
      exact h.feed_not_mem

/-- An instruction that nothing stops is attempted in both runs. -/
theorem Console.Beside.tick_of_admits (h : c.Beside d) {steps : Nat}
    (hunfinished : ¬ s.Finished code) (hadmits : bounds.control.Admits ⟨s, c, steps⟩) :
    Together code ((Engine.real host code).tick bounds.control ⟨s, c, steps⟩)
        ((Engine.real host code).tick bounds.control ⟨s, d, steps⟩)
      ∨ PartsAt code ((Engine.real host code).run bounds.control · ⟨s, c, steps⟩)
        ((Engine.real host code).run bounds.control · ⟨s, d, steps⟩) 0 ⟨s, c, steps⟩ := by
  have hadmits' : bounds.control.Admits ⟨s, d, steps⟩ :=
    ⟨(h.canceled_eq bounds).symm.trans hadmits.going, hadmits.room⟩
  have hfailed {console after : Console} {fault : Fault} {t : State α}
      (hadmits : bounds.control.Admits ⟨s, console, steps⟩)
      (hattempt : Brainfuck.attempt host code s console = ⟨.error fault, t, after⟩) :
      (Engine.real host code).tick bounds.control ⟨s, console, steps⟩
        = .ended (.error fault) ⟨t, after, steps⟩ :=
    (Engine.Turn.failed hunfinished hadmits hattempt).tick_eq
  have hsucceeded {console after : Console} {t : State α}
      (hadmits : bounds.control.Admits ⟨s, console, steps⟩)
      (hattempt : Brainfuck.attempt host code s console = ⟨.ok (), t, after⟩) :
      (Engine.real host code).tick bounds.control ⟨s, console, steps⟩
        = .running ⟨t, after, steps + 1⟩ :=
    Engine.tick_of_ok hunfinished hadmits hattempt
  rcases h.attempt code s with ⟨⟨fault⟩ | ⟨⟨⟩⟩, t, c', d', hattempt, hattempt', h'⟩
    | ⟨houtput, t, c', d', hattempt, hattempt', hbytes⟩
  · rw [hfailed hadmits hattempt, hfailed hadmits' hattempt']
    exact .inl (.ended h' fun hok => nomatch hok)
  · rw [hsucceeded hadmits hattempt, hsucceeded hadmits' hattempt']
    exact .inl (.running h')
  · refine .inr ⟨rfl, h.feed_not_mem, houtput, ⟨⟨t, c', steps + 1⟩, ?_, hbytes⟩, d', ?_⟩
    · simp only [Engine.run, hsucceeded hadmits hattempt]
    · simp only [Engine.run, hfailed hadmits' hattempt']

/-- **One turn.** -/
theorem Console.Beside.tick (h : c.Beside d) (code : Code) (bounds : Bounds) (s : State α)
    (steps : Nat) :
    Together code ((Engine.real host code).tick bounds.control ⟨s, c, steps⟩)
        ((Engine.real host code).tick bounds.control ⟨s, d, steps⟩)
      ∨ PartsAt code ((Engine.real host code).run bounds.control · ⟨s, c, steps⟩)
        ((Engine.real host code).run bounds.control · ⟨s, d, steps⟩) 0 ⟨s, c, steps⟩ := by
  have hturn := (Engine.real host code : Engine α Console).turn_tick bounds.control ⟨s, c, steps⟩
  generalize htick : (Engine.real host code : Engine α Console).tick bounds.control ⟨s, c, steps⟩
    = progress at hturn
  cases hturn with
  | finished hfinished _ =>
    rw [← htick]
    exact .inl (h.tick_of_finished bounds hfinished steps)
  | canceled hunfinished hcanceled =>
    -- What stops a run does not look at the device.
    have hcanceled' := (h.canceled_eq bounds).symm.trans hcanceled
    have hturn' : (Engine.real host code).Turn bounds.control ⟨s, d, steps⟩ _ :=
      .canceled hunfinished hcanceled'
    rw [hturn'.tick_eq]
    exact .inl (.ended h fun hok => nomatch hok)
  | limited hunfinished hgoing hlimit hused =>
    have hgoing' := (h.canceled_eq bounds).symm.trans hgoing
    have hturn' : (Engine.real host code).Turn bounds.control ⟨s, d, steps⟩ _ :=
      .limited hunfinished hgoing' hlimit hused
    rw [hturn'.tick_eq]
    exact .inl (.ended h fun hok => nomatch hok)
  | failed hunfinished hadmits _ =>
    rw [← htick]
    exact h.tick_of_admits hunfinished hadmits
  | succeeded hunfinished hadmits _ =>
    rw [← htick]
    exact h.tick_of_admits hunfinished hadmits

/-- **The runs are together, or a line feed has parted them.** -/
theorem Console.Beside.run (h : c.Beside d) (code : Code) (bounds : Bounds) (turns : Nat)
    (s : State α) (steps : Nat) :
    Together code ((Engine.real host code).run bounds.control turns ⟨s, c, steps⟩)
        ((Engine.real host code).run bounds.control turns ⟨s, d, steps⟩)
      ∨ ∃ m point, m < turns
        ∧ PartsAt code ((Engine.real host code).run bounds.control · ⟨s, c, steps⟩)
          ((Engine.real host code).run bounds.control · ⟨s, d, steps⟩) m point := by
  -- `Beside` is the invariant; it ends with the first line feed, and then the runs have parted.
  induction turns generalizing s c d steps with
  | zero => exact .inl (.running h)
  | succ turns ih =>
    rcases h.tick code bounds s steps with htogether | hparts
    · generalize htick : Engine.tick _ bounds.control ⟨s, c, steps⟩ = progress at htogether
      generalize htick' : Engine.tick _ bounds.control ⟨s, d, steps⟩ = progress' at htogether
      rw [Engine.run, Engine.run, htick, htick']
      cases htogether with
      | running h' =>
        rcases ih h' _ _ with htogether | ⟨m, point, hm, hparts⟩
        · exact .inl htogether
        · refine .inr ⟨m + 1, point, Nat.succ_lt_succ hm, hparts.succ ?_ ?_⟩
          · intro n
            rw [Engine.run, htick]
          · intro n
            rw [Engine.run, htick']
      | ended h' hempty => exact .inl (.ended h' hempty)
      | unflushed hfinished hne hfeed => exact .inl (.unflushed hfinished hne hfeed)
    · exact .inr ⟨0, _, Nat.succ_pos turns, hparts⟩

end Runs

/-! ## Sessions -/

namespace Session

variable {α : Type} [Cell α] {code : Code} {console : Console} {bounds : Bounds} {m n turns : Nat}
  {result : Except Fault Unit} {s next : Session α}

/-- A fresh session before a device that is full or not; there is no limit to what can be held. -/
def before (full : Bool) (code : Code) (console : Console) : Session α :=
  { code, console := { console with stdout := { full, capacity := none } } }

/-- A run of a session, turn by turn. -/
def course (s : Session α) (bounds : Bounds) (turns : Nat) : Progress α Console :=
  (Engine.real Console.host s.code).run bounds.control turns (Run.start s.state s.console)

/-- The bytes that a run has written after at most so many turns, on a device that works. -/
def emitted (s : Session α) (bounds : Bounds) (turns : Nat) : List UInt8 :=
  (s.reached turns (.run bounds)).console.stdout.bytes.toList

/-- After `m` turns the run is at a `.`, which writes the first line feed. -/
structure FeedsAt (s : Session α) (bounds : Bounds) (m : Nat) : Prop where
  clean : 10 ∉ s.emitted bounds m
  output : s.code.program[(s.reached m (.run bounds)).state.ip]? = some .output
  fed : s.emitted bounds (m + 1) = s.emitted bounds m ++ [10]

theorem reached_of_running {point : Run α Console} (h : s.course bounds turns = .running point) :
    s.reached turns (.run bounds) = { s with state := point.state, console := point.world } := by
  rw [course] at h
  rw [reached, h]
  rfl

theorem emitted_of_ended {last : Run α Console} (h : s.course bounds turns = .ended result last) :
    s.emitted bounds turns = last.world.stdout.bytes.toList := by
  rw [course] at h
  rw [emitted, reached, h]
  rfl

theorem ends_run_iff : s.Ends (.run bounds) result next
    ↔ ∃ turns last, s.course bounds turns = .ended result last
      ∧ next = { s with state := last.state, console := last.world } := by
  constructor
  · rintro ⟨turns, h⟩
    exact ⟨turns, exists_run_of_ended h⟩
  · rintro ⟨turns, last, h, rfl⟩
    refine ⟨turns, ?_⟩
    rw [course] at h
    rw [call, h]
    rfl

/-- More turns write more bytes. -/
theorem emitted_mono (s : Session α) (bounds : Bounds) (hstd : s.console.collecting = false)
    (hworks : s.console.stdout.full = false) (hmn : m ≤ n) :
    s.emitted bounds m <+: s.emitted bounds n := by
  obtain ⟨k, rfl⟩ := Nat.exists_eq_add_of_le hmn
  have hkeeps (given : List UInt8) : (Engine.real Console.host s.code : Engine α Console).Keeps
      (Console.HasWritten given) :=
    Engine.keeps_real (Console.alike_hasWritten given) s.code
  simp only [emitted, reached]
  rw [Engine.run_add]
  cases hrun : (Engine.real Console.host s.code).run bounds.control m
    (Run.start s.state s.console) with
  | running point =>
    -- The device is known to work here, and from here on these bytes are kept.
    have hstart : Console.HasWritten [] s.console := ⟨hstd, hworks, List.nil_prefix⟩
    have hpoint : Console.HasWritten [] (Progress.running point).point.world := by
      rw [← hrun]
      exact (hkeeps []).point bounds.control hstart m
    have hhere : Console.HasWritten point.world.stdout.bytes.toList point.world :=
      ⟨hpoint.standard, hpoint.works, List.prefix_rfl⟩
    exact ((hkeeps _).point bounds.control hhere k).given_le
  | ended result last => exact List.prefix_rfl

variable {working : Session α} {full : Nat → Progress α Console} {point : Run α Console}

/-- Where the runs part, the first line feed is written. -/
theorem feedsAt_of_partsAt (h : PartsAt working.code (working.course bounds) full m point) :
    working.FeedsAt bounds m := by
  obtain ⟨next, hnext, hbytes⟩ := h.fed
  have hm := reached_of_running h.before
  have hm' := reached_of_running hnext
  refine ⟨?_, ?_, ?_⟩
  · rw [emitted, hm]
    exact h.clean
  · rw [hm]
    exact h.output
  · rw [emitted, emitted, hm, hm']
    exact hbytes

theorem together_or_partsAt (code : Code) (bounds : Bounds) (hstd : console.collecting = false)
    (turns : Nat) :
    Together code ((before false code console : Session α).course bounds turns)
        ((before true code console : Session α).course bounds turns)
      ∨ ∃ m point, m < turns ∧ PartsAt code ((before false code console : Session α).course bounds)
        ((before true code console : Session α).course bounds) m point := by
  have hbeside : Console.Beside (console.onDevice false #[]) (console.onDevice true #[]) :=
    .intro hstd List.not_mem_nil
  exact hbeside.run code bounds turns State.initial 0

/-- Without a line feed the runs do not part. -/
theorem together_of_clean (hstd : console.collecting = false)
    (hclean : ∀ turns, 10 ∉ (before false code console : Session α).emitted bounds turns)
    (turns : Nat) :
    Together code ((before false code console : Session α).course bounds turns)
      ((before true code console : Session α).course bounds turns) := by
  refine (together_or_partsAt code bounds hstd turns).resolve_right ?_
  rintro ⟨m, point, -, hparts⟩
  refine hclean (m + 1) ?_
  rw [(feedsAt_of_partsAt hparts).fed]
  exact List.mem_append_right _ (List.mem_singleton_self 10)

/-- Nor do they part in a run that ends without having written anything. -/
theorem together_of_empty (hstd : console.collecting = false) {last : Run α Console}
    (h : (before false code console : Session α).course bounds turns = .ended result last)
    (hempty : last.world.stdout.bytes = #[]) :
    Together code ((before false code console : Session α).course bounds turns)
      ((before true code console : Session α).course bounds turns) := by
  refine (together_or_partsAt code bounds hstd turns).resolve_right ?_
  rintro ⟨m, point, hm, hparts⟩
  have hlast : (before false code console : Session α).emitted bounds turns = [] :=
    (emitted_of_ended h).trans (congrArg Array.toList hempty)
  have hle := (before false code console : Session α).emitted_mono bounds hstd rfl
    (Nat.succ_le_of_lt hm)
  rw [(feedsAt_of_partsAt hparts).fed, hlast] at hle
  simp at hle

/-- Nor where the run on the full device ends well: where they part, it fails. -/
theorem together_of_success (hstd : console.collecting = false) {last : Run α Console}
    (h : (before true code console : Session α).course bounds turns = .ended (.ok ()) last) :
    Together code ((before false code console : Session α).course bounds turns)
      ((before true code console : Session α).course bounds turns) := by
  refine (together_or_partsAt code bounds hstd turns).resolve_right ?_
  rintro ⟨m, point, hm, hparts⟩
  obtain ⟨d, hfailed⟩ := hparts.failed
  have hlater : (before true code console : Session α).course bounds turns = _ :=
    Engine.run_of_ended hfailed hm
  nomatch h.symm.trans hlater

/-- A run that has come to the end of the program is just behind its last instruction. -/
theorem ip_eq_size_of_finished {last : Run α Console}
    (h : (before false code console : Session α).course bounds turns = .ended result last)
    (hfinished : last.state.Finished code) : last.state.ip = code.size := by
  have htrail := (before false code console : Session α).trail_reached turns (.run bounds)
  have hle := htrail.ip_le (Nat.zero_le _)
  rw [course] at h
  rw [reached, h] at hle
  exact Nat.le_antisymm hle hfinished

/-- **From the device that works to the full one**: the run ends in the same way, unless there is
    something to flush at the end. -/
theorem ends_full_of_together {last : Run α Console}
    (h : (before false code console : Session α).course bounds turns = .ended result last)
    (htogether : Together code ((before false code console : Session α).course bounds turns)
      ((before true code console : Session α).course bounds turns)) :
    ∃ next : Session α, next.state = last.state
      ∧ ((before true code console).Ends (.run bounds) result next
          ∧ (result = .ok () → last.world.stdout.bytes = #[])
        ∨ (before true code console).Ends (.run bounds) (.error (.io code.size Stdout.noSpace)) next
          ∧ last.state.Finished code ∧ result = .ok () ∧ last.world.stdout.bytes ≠ #[]) := by
  rw [h] at htogether
  generalize hfull : (before true code console : Session α).course bounds turns = progress
    at htogether
  cases htogether with
  | ended _ hempty => exact ⟨_, rfl, .inl ⟨ends_run_iff.mpr ⟨turns, _, hfull, rfl⟩, hempty⟩⟩
  | unflushed hfinished hne _ =>
    rw [← ip_eq_size_of_finished h hfinished]
    exact ⟨_, rfl, .inr ⟨ends_run_iff.mpr ⟨turns, _, hfull, rfl⟩, hfinished, rfl, hne⟩⟩

/-- **And back**: the run ends, and there was nothing to flush if that was a success. -/
theorem ends_working_of_together {last : Run α Console}
    (h : (before true code console : Session α).course bounds turns = .ended result last)
    (htogether : Together code ((before false code console : Session α).course bounds turns)
      ((before true code console : Session α).course bounds turns)) :
    ∃ (result' : Except Fault Unit) (next : Session α),
      (before false code console).Ends (.run bounds) result' next
        ∧ (result = .ok () → result' = .ok () ∧ next.console.stdout.bytes = #[]) := by
  rw [h] at htogether
  generalize hworking : (before false code console : Session α).course bounds turns = progress
    at htogether
  cases htogether with
  | ended _ hempty =>
    exact ⟨_, _, ends_run_iff.mpr ⟨turns, _, hworking, rfl⟩, fun hok => ⟨hok, hempty hok⟩⟩
  | unflushed _ _ _ =>
    exact ⟨_, _, ends_run_iff.mpr ⟨turns, _, hworking, rfl⟩, fun hok => nomatch hok⟩

/-- **Lost output is never taken for success.**  Beside the same run on a device that works, a run
    of a fresh session on a full device comes to this:

    * if a line feed is ever written, it fails at the `.` that writes the first one, and the machine
      is left as it was before;
    * if none is, but the other run ends well and has written something, it fails behind the last
      instruction;
    * otherwise the two runs end in the same way, or neither ends.

    So it succeeds if and only if the other does so without having written anything. -/
theorem lost_output_is_never_success (code : Code) (console : Console) (bounds : Bounds)
    (hstd : console.collecting = false) :
    let working : Session α := before false code console
    let full : Session α := before true code console
    (∀ turns, 10 ∈ working.emitted bounds turns → ∃ m next, working.FeedsAt bounds m
      ∧ full.Ends (.run bounds) (.error (.io next.state.ip Stdout.noSpace)) next
      ∧ next.state = (working.reached m (.run bounds)).state)
    ∧ ((∀ turns, 10 ∉ working.emitted bounds turns) →
      (∀ last, working.Ends (.run bounds) (.ok ()) last → last.console.stdout.bytes ≠ #[] →
        ∃ next, full.Ends (.run bounds) (.error (.io code.size Stdout.noSpace)) next
          ∧ next.state.Finished code ∧ next.state = last.state)
      ∧ (∀ result last, working.Ends (.run bounds) result last →
        (result = .ok () → last.console.stdout.bytes = #[]) →
        ∃ next, full.Ends (.run bounds) result next ∧ next.state = last.state)
      ∧ ∀ result next, full.Ends (.run bounds) result next →
        ∃ result' last, working.Ends (.run bounds) result' last)
    ∧ ((∃ next, full.Ends (.run bounds) (.ok ()) next)
      ↔ ∃ last, working.Ends (.run bounds) (.ok ()) last ∧ last.console.stdout.bytes = #[]) := by
  intro working full
  refine ⟨?_, fun hclean => ⟨?_, ?_, ?_⟩, ?_, ?_⟩
  · intro turns hfeed
    rcases together_or_partsAt (α := α) code bounds hstd turns with
      htogether | ⟨m, point, -, hparts⟩
    · exact absurd hfeed htogether.feed_not_mem
    · obtain ⟨d, hfailed⟩ := hparts.failed
      refine ⟨m, { full with state := point.state, console := d }, feedsAt_of_partsAt hparts,
        ends_run_iff.mpr ⟨m + 1, _, hfailed, rfl⟩, ?_⟩
      rw [reached_of_running hparts.before]
  · intro last hends hne
    obtain ⟨turns, run, hworking, rfl⟩ := ends_run_iff.mp hends
    obtain ⟨next, hstate, ⟨-, hempty⟩ | ⟨hfull, hfinished, -, -⟩⟩ :=
      ends_full_of_together hworking (together_of_clean hstd hclean turns)
    · exact absurd (hempty rfl) hne
    · refine ⟨next, hfull, ?_, hstate⟩
      rw [hstate]
      exact hfinished
  · intro result last hends hempty
    obtain ⟨turns, run, hworking, rfl⟩ := ends_run_iff.mp hends
    obtain ⟨next, hstate, ⟨hfull, -⟩ | ⟨-, -, hok, hne⟩⟩ :=
      ends_full_of_together hworking (together_of_clean hstd hclean turns)
    · exact ⟨next, hfull, hstate⟩
    · exact absurd (hempty hok) hne
  · intro result next hends
    obtain ⟨turns, run, hfull, rfl⟩ := ends_run_iff.mp hends
    obtain ⟨result', last, hworking, -⟩ :=
      ends_working_of_together hfull (together_of_clean hstd hclean turns)
    exact ⟨result', last, hworking⟩
  · rintro ⟨next, hends⟩
    obtain ⟨turns, run, hfull, rfl⟩ := ends_run_iff.mp hends
    obtain ⟨result', last, hworking, hempty⟩ :=
      ends_working_of_together hfull (together_of_success hstd hfull)
    obtain ⟨rfl, hbytes⟩ := hempty rfl
    exact ⟨last, hworking, hbytes⟩
  · rintro ⟨last, hends, hempty⟩
    obtain ⟨turns, run, hworking, rfl⟩ := ends_run_iff.mp hends
    obtain ⟨next, -, ⟨hfull, -⟩ | ⟨-, -, -, hne⟩⟩ :=
      ends_full_of_together hworking (together_of_empty hstd hworking hempty)
    · exact ⟨next, hfull⟩
    · exact absurd hempty hne

/-- A line feed that is echoed is lost there, and a byte that is left to the end behind the last
    instruction. -/
theorem echoed_feed_and_last_byte_are_lost :
    (∃ next : Session, (before true (.ofText ",.+") { script := some [.line "\n\n"] }).Ends
        (.run {}) (.error (.io 1 Stdout.noSpace)) next ∧ next.state.tape.value = 10)
      ∧ ∃ next : Session, (before true (.ofText "+.") {}).Ends (.run {})
        (.error (.io 2 Stdout.noSpace)) next ∧ next.state.ip = 2 := by
  constructor
  · obtain ⟨hfeed, -⟩ := lost_output_is_never_success (α := Word) (.ofText ",.+")
      { script := some [.line "\n\n"] } {} rfl
    have htwo : (before false (.ofText ",.+") { script := some [.line "\n\n"] } : Session).emitted
        {} 2 = [10] := rfl
    obtain ⟨m, next, hfeeds, hends, hstate⟩ := hfeed 2 (by rw [htwo]; decide)
    -- At first the run is not at its `.`, and later the line feed has been written.
    match m with
    | 0 => nomatch hfeeds.output
    | 1 =>
      rw [hstate] at hends
      exact ⟨next, hends, by rw [hstate]; rfl⟩
    | m + 2 =>
      have hle := (before false (.ofText ",.+") { script := some [.line "\n\n"] } : Session)
        |>.emitted_mono {} rfl rfl (Nat.le_add_left 2 m)
      rw [htwo] at hle
      exact absurd (hle.subset (List.mem_singleton_self 10)) hfeeds.clean
  · obtain ⟨-, hclean, -⟩ := lost_output_is_never_success (α := Word) (.ofText "+.") {} {} rfl
    have hrun : (before false (.ofText "+.") {} : Session).course {} 3
        = .ended (.ok ())
          { state := { tape := Tape.blank.increment, ip := 2 }
            world := { stdout := { capacity := none, delivered := #[1] } }
            steps := 2 } := rfl
    have hnever (turns : Nat) :
        10 ∉ (before false (.ofText "+.") {} : Session).emitted {} turns := by
      have hle := (before false (.ofText "+.") {} : Session).emitted_mono {} rfl rfl
        (Nat.le_max_left turns 3)
      have hlater : (before false (.ofText "+.") {} : Session).course {} (max turns 3) = _ :=
        Engine.run_of_ended hrun (Nat.le_max_right turns 3)
      have hlast : (before false (.ofText "+.") {} : Session).emitted {} (max turns 3) = [1] :=
        emitted_of_ended hlater
      rw [hlast] at hle
      intro hfeed
      nomatch hle.subset hfeed
    obtain ⟨next, hends, -, hstate⟩ :=
      (hclean hnever).1 _ (ends_run_iff.mpr ⟨3, _, hrun, rfl⟩) (by decide)
    refine ⟨next, hends, ?_⟩
    rw [hstate]

end Session

end Brainfuck

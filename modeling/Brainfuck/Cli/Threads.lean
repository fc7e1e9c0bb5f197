/-
  Threads: a run and whoever waits for it, one access at a time.

  In a `Scene` each party does at once what it has to do.  Really there are two THREADS, and they
  share a flag, a place for one message and the clock.  Here every access to one of these is a step
  of its own, and between any two steps of one thread all others may have acted:

  1. The WORKER looks at the flag, takes a turn with what it has seen, and so on; when the run has
     ended it sends the result, once.
  2. The WAITER looks at the clock, and then for a message, but only for a while.  When none has
     come it looks at the flag, and if that is down at the clock; and if it is too late it raises the
     flag before it makes its report.
  3. An interrupt ARRIVES at some time, and is HANDLED by raising the flag some time later.

  So the flag may go up behind the waiter's back, when it has just found it down, and a message may
  come when nobody looks for it any more.
-/
import Brainfuck.Cli.Waiting

namespace Brainfuck.Cli

/-! ## The two threads -/

/-- What the worker does next. -/
inductive Worker
  /-- It looks at the flag. -/
  | looks (run : Run Word Console)
  /-- It takes a turn, having seen the flag like this. -/
  | acts (flag : Bool) (run : Run Word Console)
  /-- It sends its result. -/
  | sends (result : Except Fault Unit) (run : Run Word Console)
  /-- Nothing: this result is sent. -/
  | rests (result : Except Fault Unit) (run : Run Word Console)

/-- What the worker does after a turn. -/
def Worker.after : Progress Word Console → Worker
  | .running run => .looks run
  | .ended result run => .sends result run

/-- What the waiter does next. -/
inductive Waiter
  /-- It looks at the clock for the first time. -/
  | begins
  /-- It looks for a message. -/
  | receives
  /-- It looks at the flag. -/
  | asks
  /-- It looks at the clock, having seen the flag like this. -/
  | judges (flag : Bool)
  /-- It raises the flag, because it is too late. -/
  | raises
  /-- It makes its report. -/
  | reports (verdict : Verdict)
  /-- Nothing: this is reported. -/
  | rests (verdict : Verdict)

/-- What the waiter does when this is what it concludes without a message. -/
def Waiter.after : Option Verdict → Waiter
  | none => .receives
  | some .timedOut => .raises
  | some verdict => .reports verdict

/-! ## What they do -/

/-- Both threads, what they share, and what is reported. -/
structure Threads where
  worker : Worker
  waiter : Waiter := .begins
  message : Option (Except Fault Unit) := none
  flag : Bool := false
  /-- An interrupt has arrived. -/
  interrupted : Bool := false
  /-- The time, in milliseconds. -/
  now : Nat
  /-- When the waiter looked at the clock for the first time. -/
  began : Option Nat := none
  /-- All reports, the first one first. -/
  reports : List Report := []

namespace Threads

/-- A launch on some console, with nothing done yet. -/
def opening (l : Launch) (console : Console) (now : Nat) : Threads :=
  { worker := .looks (l.start console), now }

/-- The end of the time that a launch has, if it has an end. -/
def deadline? (l : Launch) (s : Threads) : Option Nat :=
  s.began.bind fun began => l.settings.timeoutMs.map (began + ·)

/-- It is too late. -/
def isLate (l : Launch) (s : Threads) : Bool := (s.deadline? l).any (· ≤ s.now)

/-- One access to what is shared. -/
inductive Step (l : Launch) : Threads → Threads → Prop
  | look (s : Threads) {run : Run Word Console} (h : s.worker = .looks run) :
      Step l s { s with worker := .acts s.flag run }
  | act (s : Threads) {flag : Bool} {run : Run Word Console} (h : s.worker = .acts flag run) :
      Step l s { s with worker := .after (l.run 1 (Scene.heeding flag run)) }
  | send (s : Threads) {result : Except Fault Unit} {run : Run Word Console}
      (h : s.worker = .sends result run) :
      Step l s { s with worker := .rests result run, message := some result }
  | arrive (s : Threads) : Step l s { s with interrupted := true }
  | handle (s : Threads) (h : s.interrupted = true) : Step l s { s with flag := true }
  | pass (s : Threads) {later : Nat} (h : s.now ≤ later) : Step l s { s with now := later }
  | begin (s : Threads) (h : s.waiter = .begins) :
      Step l s { s with waiter := .receives, began := some s.now }
  | receive (s : Threads) {result : Except Fault Unit} (h : s.waiter = .receives)
      (hmessage : s.message = some result) :
      Step l s { s with waiter := .reports (.finished result), message := none }
  /-- No message has come in time; it may be there by now. -/
  | miss (s : Threads) (h : s.waiter = .receives) : Step l s { s with waiter := .asks }
  | ask (s : Threads) (h : s.waiter = .asks) : Step l s { s with waiter := .judges s.flag }
  | judge (s : Threads) {flag : Bool} (h : s.waiter = .judges flag) :
      Step l s { s with waiter := .after (poll flag (s.isLate l)) }
  | raise (s : Threads) (h : s.waiter = .raises) :
      Step l s { s with waiter := .reports .timedOut, flag := true }
  | report (s : Threads) {verdict : Verdict} (h : s.waiter = .reports verdict) :
      Step l s { s with waiter := .rests verdict, reports := s.reports ++ [l.judge verdict] }

/-- What the threads can come to. -/
inductive Reachable (l : Launch) (first : Threads) : Threads → Prop
  | here : Reachable l first first
  | step {s t : Threads} (hs : Reachable l first s) (h : Step l s t) : Reachable l first t

end Threads

end Brainfuck.Cli

/-
  Streams: hosts that no program can tell apart, and the two places to which bytes can go.

  A program knows of the outside only what it is told: whether a byte was taken, and the line it
  asked for.  So two hosts that give the same answers (`Host.Alike`) lead to the same run, and what
  relates their worlds at the beginning relates them at the end (`Host.Alike.inStep`).

  The case at hand is output.  A COLLECTOR keeps bytes as they come, standard output holds them back
  and delivers them in lots, and both take every byte as long as the device works.  A run that is
  given one or the other ends in the same way with the same bytes (`Console.alike_mirrors`).
-/
import Brainfuck.Proofs.Lockstep
import Brainfuck.Proofs.Output

namespace Brainfuck

/-! ## Hosts that answer alike -/

variable {α : Type} [Cell α] {σ τ : Type} {host : Host σ} {host' : Host τ} {R : σ → τ → Prop}
  {w : σ} {w' : τ}

/-- In related worlds the two hosts give the same answers, and the worlds are related again. -/
structure Host.Alike (host : Host σ) (host' : Host τ) (R : σ → τ → Prop) : Prop where
  write : ∀ {w w'}, R w w' → ∀ byte, ∃ answer v v',
    host.write byte w = (answer, v) ∧ host'.write byte w' = (answer, v') ∧ R v v'
  readLine : ∀ {w w'}, R w w' → ∃ answer v v',
    host.readLine w = (answer, v) ∧ host'.readLine w' = (answer, v') ∧ R v v'
  flush : ∀ {w w'}, R w w' → ∃ answer v v',
    host.flush w = (answer, v) ∧ host'.flush w' = (answer, v') ∧ R v v'

namespace Host.Alike

theorem symm (h : host.Alike host' R) : host'.Alike host fun w' w => R w w' where
  write := by
    intro w' w hR byte
    obtain ⟨answer, v, v', hwrite, hwrite', hR'⟩ := h.write hR byte
    exact ⟨answer, v', v, hwrite', hwrite, hR'⟩
  readLine := by
    intro w' w hR
    obtain ⟨answer, v, v', hread, hread', hR'⟩ := h.readLine hR
    exact ⟨answer, v', v, hread', hread, hR'⟩
  flush := by
    intro w' w hR
    obtain ⟨answer, v, v', hflush, hflush', hR'⟩ := h.flush hR
    exact ⟨answer, v', v, hflush', hflush, hR'⟩

theorem perform (h : host.Alike host' R) (hR : R w w') (e : Effect α) :
    ∃ result s v v', e.perform host w = ⟨result, s, v⟩ ∧ e.perform host' w' = ⟨result, s, v'⟩
      ∧ R v v' := by
  cases e with
  | done next => exact ⟨_, _, _, _, rfl, rfl, hR⟩
  | emit byte here =>
    obtain ⟨answer, v, v', hwrite, hwrite', hR'⟩ := h.write hR byte
    rw [Effect.perform, Effect.perform, hwrite, hwrite']
    cases answer with
    | ok => exact ⟨_, _, _, _, rfl, rfl, hR'⟩
    | error reason => exact ⟨_, _, _, _, rfl, rfl, hR'⟩
  | ask here =>
    obtain ⟨answer, v, v', hread, hread', hR'⟩ := h.readLine hR
    rw [Effect.perform, Effect.perform, hread, hread']
    cases answer with
    | ok line => exact ⟨_, _, _, _, rfl, rfl, hR'⟩
    | error reason => exact ⟨_, _, _, _, rfl, rfl, hR'⟩
  | fault cause here => exact ⟨_, _, _, _, rfl, rfl, hR⟩

theorem attempt (h : host.Alike host' R) (hR : R w w') (code : Code) (s : State α) :
    ∃ result t v v', Brainfuck.attempt host code s w = ⟨result, t, v⟩
      ∧ Brainfuck.attempt host' code s w' = ⟨result, t, v'⟩ ∧ R v v' := by
  rw [Brainfuck.attempt, Brainfuck.attempt]
  split
  · exact ⟨_, _, _, _, rfl, rfl, hR⟩
  · exact h.perform hR _

/-- **Runs with hosts that answer alike are in lockstep.** -/
theorem inStep (h : host.Alike host' R) (code : Code) {control : Control σ} {control' : Control τ}
    (hlimit : control.limit = control'.limit)
    (hcanceled : ∀ w w', R w w' → control.canceled w = control'.canceled w') :
    Engine.InStep (Engine.real host code : Engine α σ) control (Engine.real host' code) control'
      fun s w t w' => s = t ∧ R w w' where
  limit := hlimit
  finished := by
    rintro s w t w' ⟨rfl, -⟩
    exact Iff.rfl
  canceled := by
    rintro s w t w' ⟨-, hR⟩
    exact hcanceled w w' hR
  close := by
    rintro s w t w' ⟨rfl, hR⟩ -
    obtain ⟨answer, v, v', hflush, hflush', hR'⟩ := h.flush hR
    have hleft : (Engine.real host code : Engine α σ).close w = _ := hflush
    have hright : (Engine.real host' code : Engine α τ).close w' = _ := hflush'
    rw [hleft, hright]
    exact ⟨rfl, rfl, hR'⟩
  attempt := by
    rintro s w t w' ⟨rfl, hR⟩ - steps
    obtain ⟨result, t, v, v', hattempt, hattempt', hR'⟩ := h.attempt hR code s
    have hleft : (Engine.real host code : Engine α σ).attempt steps s w = _ := hattempt
    have hright : (Engine.real host' code : Engine α τ).attempt steps s w' = _ := hattempt'
    rw [hleft, hright]
    exact ⟨rfl, rfl, hR'⟩

end Host.Alike

/-- What a host keeps of its world, a run keeps. -/
theorem Engine.keeps_real {P : σ → Prop} (h : host.Alike host fun w w' => w = w' ∧ P w)
    (code : Code) : (Engine.real host code : Engine α σ).Keeps P where
  attempt := by
    intro w hw steps s
    obtain ⟨_, _, v, _, hattempt, -, -, hv⟩ := h.attempt ⟨rfl, hw⟩ code s
    show P (Brainfuck.attempt host code s w).world
    rw [hattempt]
    exact hv
  close := by
    intro w hw
    obtain ⟨_, v, _, hflush, -, -, hv⟩ := h.flush ⟨rfl, hw⟩
    show P (host.flush w).2
    rw [hflush]
    exact hv

/-! ## Standard streams -/

namespace Console

/-- There is nothing but the standard streams: nothing is installed, and nobody cancels. -/
def Standard (console : Console) : Prop := ∃ stdin stdout, console = { stdin, stdout }

theorem alike_standard : Console.host.Alike Console.host fun c d => c = d ∧ c.Standard where
  write := by
    rintro _ _ ⟨rfl, stdin, stdout, rfl⟩ byte
    exact ⟨_, _, _, rfl, rfl, rfl, stdin, _, rfl⟩
  readLine := by
    rintro _ _ ⟨rfl, stdin, stdout, rfl⟩
    exact ⟨_, _, _, rfl, rfl, rfl, _, stdout, rfl⟩
  flush := by
    rintro _ _ ⟨rfl, stdin, stdout, rfl⟩
    exact ⟨_, _, _, rfl, rfl, rfl, stdin, _, rfl⟩

variable {answer : Except String Unit} {stdout : Stdout} {byte : UInt8}

/-- Without a collector a byte goes to standard output, and nothing else changes. -/
theorem write_eq (c : Console) (hstd : c.collecting = false)
    (h : c.stdout.write byte = (answer, stdout)) : c.write byte = (answer, { c with stdout }) := by
  rw [write, if_neg (by rw [hstd]; decide), onStdout]
  simp only [h]

theorem flush_eq (c : Console) (hstd : c.collecting = false)
    (h : c.stdout.flush = (answer, stdout)) : c.flush = (answer, { c with stdout }) := by
  rw [flush, if_neg (by rw [hstd]; decide), onStdout]
  simp only [h]

/-- Standard output beside a collector: both have been given the same bytes, and the device
    works. -/
inductive Mirrors : Console → Console → Prop
  | intro {stdin : List UInt8} {stdout : Stdout} {collected : Array UInt8}
      (works : stdout.full = false) (bytes_eq : stdout.bytes.toList = collected.toList) :
      Mirrors { stdin, stdout } { stdin, collecting := true, collected }

/-- **Standard output that works answers as a collector does.** -/
theorem alike_mirrors : Console.host.Alike Console.host Mirrors where
  write := by
    rintro _ _ (@⟨stdin, stdout, collected, works, bytes_eq⟩) byte
    obtain ⟨stdout', hwrite, hgains⟩ := Stdout.write_of_working works byte
    refine ⟨.ok (), _, _, ?_, rfl, .intro hgains.full ?_⟩
    · exact write_eq { stdin, stdout } rfl hwrite
    · rw [hgains.bytes_eq, bytes_eq, Array.toList_push]
  readLine := by
    rintro _ _ ⟨works, bytes_eq⟩
    exact ⟨_, _, _, rfl, rfl, .intro works bytes_eq⟩
  flush := by
    rintro _ _ (@⟨stdin, stdout, collected, works, bytes_eq⟩)
    obtain ⟨stdout', hflush, hgains⟩ := Stdout.flush_of_working works
    refine ⟨.ok (), _, _, ?_, rfl, .intro hgains.full ?_⟩
    · exact flush_eq { stdin, stdout } rfl hflush
    · rw [hgains.bytes_eq, bytes_eq, List.append_nil]

end Console

end Brainfuck

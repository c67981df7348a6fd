import Photoplot.Proofs.Plot.Operation

/-! # Shorthand

An operation may leave out the action that is in force, a header may be given again,
and commands may follow the end of the file. Written out, every operation names its
action, the header is given once and nothing follows the end. The machine comes to
the same state and plots the same. -/

namespace Photoplot

namespace Command

variable {K : Type}

def isFormat : Command K → Bool
  | .format _ => true
  | _ => false

def isUnits : Command K → Bool
  | .units _ => true
  | _ => false

end Command

namespace Program

variable {K : Type}

def throughEnd : List (Command K) → List (Command K)
  | [] => []
  | .endOfFile :: _ => [.endOfFile]
  | command :: rest => command :: throughEnd rest

def keepFirst (kind : Command K → Bool) : List (Command K) → List (Command K)
  | [] => []
  | command :: rest =>
      if kind command then command :: rest.filter fun later => !kind later
      else command :: keepFirst kind rest

def nameActions (last : Action) : List (Command K) → List (Command K)
  | [] => []
  | .operation fields action :: rest =>
      .operation fields (some (action.getD last)) :: nameActions (action.getD last) rest
  | command :: rest => command :: nameActions last rest

def writeOut (commands : List (Command K)) : List (Command K) :=
  nameActions .move
    (keepFirst Command.isUnits (keepFirst Command.isFormat (throughEnd commands)))

end Program

namespace Machine

open Program

variable {K : Type} [PlaneScalar K]

theorem run_throughEnd (machine : Machine K) (commands : List (Command K)) :
    (machine.run (throughEnd commands)).value = (machine.run commands).value := by
  induction commands generalizing machine with
  | nil => rfl
  | cons command rest induction =>
      cases command with
      | endOfFile =>
          have ended := machine.ended_step_endOfFile
          rw [throughEnd, run_cons, run_cons, run_of_ended ended, run_of_ended ended]
      | _ => exact induction _

/-! ## Headers -/

/-- Commands of the kind matter once: they bring the machine into states that it does
not leave again and in which it ignores them. -/
structure Settles (kind : Command K → Bool) (Settled : Machine K → Prop) : Prop where
  settle (machine : Machine K) {command : Command K} (own : kind command = true) :
    Settled (machine.step command).value
  stay {machine : Machine K} (settled : Settled machine) (command : Command K) :
    Settled (machine.step command).value
  ignore {machine : Machine K} (settled : Settled machine) {command : Command K}
    (own : kind command = true) : (machine.step command).value = machine

namespace Settles

variable {kind : Command K → Bool} {Settled : Machine K → Prop}

theorem run_filter (settles : Settles kind Settled) {machine : Machine K}
    (settled : Settled machine) (commands : List (Command K)) :
    (machine.run (commands.filter fun later => !kind later)).value =
      (machine.run commands).value := by
  induction commands generalizing machine with
  | nil => rfl
  | cons command rest induction =>
      cases own : kind command with
      | true =>
          rw [List.filter_cons_of_neg (by simp [own]), run_cons,
            settles.ignore settled own]
          exact induction settled
      | false =>
          rw [List.filter_cons_of_pos (by simp [own]), run_cons, run_cons]
          exact induction (settles.stay settled command)

theorem run_keepFirst (settles : Settles kind Settled) (machine : Machine K)
    (commands : List (Command K)) :
    (machine.run (keepFirst kind commands)).value = (machine.run commands).value := by
  induction commands generalizing machine with
  | nil => rfl
  | cons command rest induction =>
      cases own : kind command with
      | true =>
          rw [keepFirst, if_pos own, run_cons, run_cons]
          exact settles.run_filter (settles.settle machine own) rest
      | false =>
          rw [keepFirst, if_neg (by simp [own]), run_cons, run_cons]
          exact induction _

end Settles

/-- What the decoder does not change once it is fixed settles the commands that fix it,
and so does the end of the file. -/
theorem settles_of_fixed {kind : Command K → Bool} {fixed : Decoder → Bool}
    (fixes : ∀ (modes : Modes K) {command : Command K}, kind command = true →
      fixed (modes.after command).decoder = true)
    (keeps : ∀ {modes : Modes K} (command : Command K), fixed modes.decoder = true →
      fixed (modes.after command).decoder = true)
    (ignores : ∀ {machine : Machine K} {command : Command K}, kind command = true →
      fixed machine.modes.decoder = true → (machine.execute command).value = machine) :
    Settles kind fun machine =>
      machine.modes.ended = true ∨ fixed machine.modes.decoder = true where
  settle machine command own := by
    rw [modes_step, Modes.step]
    split
    · rename_i ended
      exact .inl ended
    · exact .inr (fixes machine.modes own)
  stay := by
    rintro machine (ended | isFixed) command
    · rw [step_of_ended ended]
      exact .inl ended
    · rw [modes_step, Modes.step]
      split
      · exact .inr isFixed
      · exact .inr (keeps command isFixed)
  ignore := by
    rintro machine (ended | isFixed) command own
    · rw [step_of_ended ended]
      rfl
    · unfold step
      split
      · rfl
      · exact ignores own isFixed

/-- The first format is the one that counts. -/
theorem settles_format :
    Settles (K := K) Command.isFormat fun machine =>
      machine.modes.ended = true ∨ machine.modes.decoder.formatFixed = true := by
  refine settles_of_fixed ?_ ?_ ?_
  · intro modes command own
    cases command with
    | format format =>
        simp only [Modes.after, Decoder.value_setFormat]
        split
        · assumption
        · rfl
    | _ => cases own
  · intro modes command fixed
    cases command with
    | format format => simp only [Modes.after, Decoder.value_setFormat, fixed, if_true]
    | units units =>
        simp only [Modes.after, Decoder.value_setUnits]
        split <;> exact fixed
    | _ => exact fixed
  · intro machine command own fixed
    cases command with
    | format format => simp [execute, Decoder.value_setFormat, fixed]
    | _ => cases own

/-- The first units are the ones that count. -/
theorem settles_units :
    Settles (K := K) Command.isUnits fun machine =>
      machine.modes.ended = true ∨ machine.modes.decoder.unitsFixed = true := by
  refine settles_of_fixed ?_ ?_ ?_
  · intro modes command own
    cases command with
    | units units =>
        simp only [Modes.after, Decoder.value_setUnits]
        split
        · assumption
        · rfl
    | _ => cases own
  · intro modes command fixed
    cases command with
    | format format =>
        simp only [Modes.after, Decoder.value_setFormat]
        split <;> exact fixed
    | units units => simp only [Modes.after, Decoder.value_setUnits, fixed, if_true]
    | _ => exact fixed
  · intro machine command own fixed
    cases command with
    | units units => simp [execute, Decoder.value_setUnits, fixed]
    | _ => cases own

/-! ## Actions -/

/-- Only operations name actions. -/
theorem action_step {machine : Machine K} (running : machine.modes.ended = false)
    (command : Command K) :
    (machine.step command).value.modes.action =
      match command with
      | .operation _ action => action.getD machine.modes.action
      | _ => machine.modes.action := by
  rw [modes_step, Modes.step, if_neg (by simp [running])]
  cases command <;> rfl

/-- The action in force is the one that was named last, so that naming it again makes no
difference. -/
theorem run_nameActions (machine : Machine K) (commands : List (Command K)) :
    (machine.run (nameActions machine.modes.action commands)).value =
      (machine.run commands).value := by
  induction commands generalizing machine with
  | nil => rfl
  | cons command rest induction =>
      cases ended : machine.modes.ended with
      | true => rw [run_of_ended ended, run_of_ended ended]
      | false =>
          have later := induction (machine.step command).value
          rw [action_step ended command] at later
          cases command with
          | operation fields action =>
              rw [nameActions, run_cons, run_cons, ← later]
              rfl
          | _ => exact later

/-! ## Runs -/

/-- A run of the commands written out ends in the same state, with the same modes, tools
and canvas, and leaves the same plot. -/
theorem run_writeOut (commands : List (Command K)) :
    (start.run (writeOut commands)).value = (start.run commands).value ∧
      (plot (writeOut commands)).value = (plot commands).value := by
  have run : (start.run (writeOut commands)).value = (start.run commands).value := by
    calc (start.run (writeOut commands)).value
      _ = (start.run (keepFirst Command.isUnits
            (keepFirst Command.isFormat (throughEnd commands)))).value :=
          run_nameActions start _
      _ = (start.run (keepFirst Command.isFormat (throughEnd commands))).value :=
          settles_units.run_keepFirst start _
      _ = (start.run (throughEnd commands)).value := settles_format.run_keepFirst start _
      _ = (start.run commands).value := run_throughEnd start commands
  refine ⟨run, ?_⟩
  change (start.run (writeOut commands)).value.finish.value = _
  rw [run]
  rfl

example : writeOut (K := Nat)
    [.operation .none none, .units .inches, .operation .none (some .draw), .beginRegion,
      .units .millimeters, .operation .none none, .endOfFile, .linear] =
    [.operation .none (some .move), .units .inches, .operation .none (some .draw),
      .beginRegion, .operation .none (some .draw),
      .endOfFile] := rfl

end Machine

end Photoplot

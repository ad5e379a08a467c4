import Mathlib.Data.List.TakeWhile
import RoboDbg.DebugStrings
import RoboDbg.Foundation.CommandLine
import RoboDbg.Session

/-!
# The arguments of the debuggee

`start` writes the arguments behind each other, each after a blank. The debuggee takes the
command line apart by the rules of the C runtime or of `CommandLineToArgvW`.
-/

namespace RoboDbg

open CommandLine

/-- Blanks are the space and the tab. In the C runtime a pair of quotation marks leaves a
quoted part open, in `CommandLineToArgvW` it closes it. -/
def windowsRules (pairCloses : Bool) : Rules BYTE where
  blank c := c = 0x20 ∨ c = 0x09
  quote := 0x22
  backslash := 0x5C
  pairCloses := pairCloses
  backslash_ne_quote := by decide
  blank_quote := by decide
  blank_backslash := by decide

namespace Session

/-- The C string that `CreateProcessA` is given. -/
def passedCommandLine (exeName : Text) (args : List Text) : Text :=
  cString (commandLine exeName args ++ [0]) []

variable {exeName : Text} {args : List Text}

theorem commandLine_eq (exeName : Text) (args : List Text) :
    commandLine exeName args = 0x22 :: (exeName ++ 0x22 :: Rules.spaced 0x20 args) := by
  have hfold : ∀ cmdLine : Text,
      args.foldl (fun cmdLine arg => cmdLine ++ literal " " ++ arg) cmdLine =
        cmdLine ++ Rules.spaced 0x20 args := by
    induction args with
    | nil => exact fun cmdLine => (List.append_nil cmdLine).symm
    | cons arg args ih =>
      intro cmdLine
      rw [List.foldl_cons, ih, List.append_assoc, List.append_assoc]
      rfl
  have hquote : literal "\"" = [0x22] := by decide
  rw [commandLine, hfold, hquote]
  simp

theorem passedCommandLine_eq (h : 0 ∉ commandLine exeName args) :
    passedCommandLine exeName args = commandLine exeName args := by
  have hmem : (0 : BYTE) ∈ commandLine exeName args ++ [0] :=
    List.mem_append_right _ (List.mem_singleton_self 0)
  have hall : ∀ c ∈ commandLine exeName args, decide (c ≠ 0) = true := by
    intro c hc
    rw [decide_eq_true_eq]
    rintro rfl
    exact h hc
  rw [passedCommandLine, cString, if_pos hmem, List.takeWhile_append_of_pos hall]
  simp

theorem zero_notMem_passedCommandLine (exeName : Text) (args : List Text) :
    0 ∉ passedCommandLine exeName args := by
  have hmem : (0 : BYTE) ∈ commandLine exeName args ++ [0] :=
    List.mem_append_right _ (List.mem_singleton_self 0)
  rw [passedCommandLine, cString, if_pos hmem]
  intro h
  have hne := List.mem_takeWhile_imp h
  simp at hne

theorem zero_notMem_commandLine (hexe : 0 ∉ exeName) (hargs : ∀ a ∈ args, 0 ∉ a) :
    0 ∉ commandLine exeName args := by
  rw [commandLine_eq, List.mem_cons, List.mem_append, List.mem_cons, Rules.spaced,
    List.mem_flatMap]
  rintro (h | h | h | ⟨a, ha, h⟩)
  · exact absurd h (by decide)
  · exact hexe h
  · exact absurd h (by decide)
  · rcases List.mem_cons.mp h with h | h
    · exact absurd h (by decide)
    · exact hargs a ha h

end Session

open Session

/-- The debuggee gets the path and the arguments exactly if none of these is empty or holds
a blank, a tab or a quotation mark. -/
theorem start_argv_iff (pairCloses : Bool) {exeName : Text} {args : List Text}
    (hexe : 0x22 ∉ exeName) (hargs : ∀ a ∈ args, 0 ∉ a) :
    (windowsRules pairCloses).argv (passedCommandLine exeName args) = exeName :: args ↔
      0 ∉ exeName ∧ ∀ a ∈ args, a ≠ [] ∧ ∀ c ∈ a, c ≠ 0x20 ∧ c ≠ 0x09 ∧ c ≠ 0x22 := by
  have hplain : (∀ a ∈ args, (windowsRules pairCloses).Plain a) ↔
      ∀ a ∈ args, a ≠ [] ∧ ∀ c ∈ a, c ≠ 0x20 ∧ c ≠ 0x09 ∧ c ≠ 0x22 := by
    simp only [Rules.Plain, windowsRules, decide_eq_false_iff_not, not_or, and_assoc]
  by_cases hzero : 0 ∈ exeName
  · constructor
    · intro h
      have hname : ((windowsRules pairCloses).programName false
          (passedCommandLine exeName args)).1 = exeName := (List.cons.inj h).1
      rw [← hname] at hzero
      exact absurd (Rules.mem_programName hzero) (zero_notMem_passedCommandLine exeName args)
    · exact fun h => absurd hzero h.1
  · rw [passedCommandLine_eq (zero_notMem_commandLine hzero hargs), commandLine_eq, ← hplain]
    have hiff : (windowsRules pairCloses).argv
        (0x22 :: (exeName ++ 0x22 :: Rules.spaced 0x20 args)) = exeName :: args ↔
          ∀ a ∈ args, (windowsRules pairCloses).Plain a :=
      Rules.argv_spaced_iff hexe rfl
    rw [and_iff_right hzero]
    exact hiff

theorem start_argv_iff_switches :
    (windowsRules false).argv (passedCommandLine (literal "C:\\My Game\\game.exe")
        [literal "-console", literal "..\\maps\\"]) =
        [literal "C:\\My Game\\game.exe", literal "-console", literal "..\\maps\\"] ↔
      0 ∉ literal "C:\\My Game\\game.exe" ∧
        ∀ a ∈ [literal "-console", literal "..\\maps\\"],
          a ≠ [] ∧ ∀ c ∈ a, c ≠ 0x20 ∧ c ≠ 0x09 ∧ c ≠ 0x22 :=
  start_argv_iff false (by decide) (by decide)

/-- An argument with a blank arrives as two. -/
theorem start_argument_split :
    ¬ (windowsRules false).argv (passedCommandLine (literal "game.exe") [literal "My Map"]) =
      [literal "game.exe", literal "My Map"] := by
  decide

end RoboDbg

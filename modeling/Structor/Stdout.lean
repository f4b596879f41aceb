import Structor.Text

/-!
# The output of a program that starts others

A program prints, and the programs that it starts write to the same file. What it prints
reaches the file at once on a terminal. Otherwise it is held back until the program
flushes its output or ends, so that the output of a started program overtakes it.

## Main definitions

* `Write` -- what happens to the file
* `log` -- the text of the file at the end
-/
namespace Structor.Stdout

inductive Write where
  | print (text : Str)
  | flush
  | system (output : Str)

inductive Buffering where
  | line
  | full

/-- The text of the file, where `held` is what was held back. -/
def log : Buffering → Str → List Write → Str
  | _, held, [] => held
  | .line, held, .print text :: writes => held ++ text ++ log .line [] writes
  | .full, held, .print text :: writes => log .full (held ++ text) writes
  | b, held, .flush :: writes => held ++ log b [] writes
  | b, held, .system output :: writes => output ++ log b held writes

variable (b : Buffering) (held text output : Str) (writes : List Write)

@[simp] theorem log_nil : log b held [] = held := by
  cases b <;> rfl

@[simp] theorem log_flush : log b held (.flush :: writes) = held ++ log b [] writes := by
  cases b <;> rfl

@[simp] theorem log_system :
    log b held (.system output :: writes) = output ++ log b held writes := by
  cases b <;> rfl

@[simp] theorem log_print_flush :
    log b held (.print text :: .flush :: writes) = held ++ text ++ log b [] writes := by
  cases b <;> simp [log]

@[simp] theorem log_print_print (text' : Str) :
    log b held (.print text :: .print text' :: writes) =
      log b held (.print (text ++ text') :: writes) := by
  cases b <;> simp [log]

/-- A started program writes after what is printed on a terminal, else before it. -/
def around : Buffering → Str → Str → Str
  | .line, text, output => text ++ output
  | .full, text, output => output ++ text

/-- Printed texts. Some of them may be held back. -/
theorem exists_log_prints (texts : List Str) :
    ∃ out held', log b held (texts.map .print ++ writes) = out ++ log b held' writes ∧
      out ++ held' = held ++ texts.flatten := by
  induction texts generalizing held with
  | nil => exact ⟨[], held, rfl, by simp⟩
  | cons text texts ih =>
      cases b with
      | line =>
          obtain ⟨out, held', hlog, hheld⟩ := ih []
          refine ⟨held ++ text ++ out, held', ?_, ?_⟩
          · simp [log, hlog]
          · simp [hheld]
      | full =>
          obtain ⟨out, held', hlog, hheld⟩ := ih (held ++ text)
          refine ⟨out, held', ?_, ?_⟩
          · simp [log, hlog]
          · simp [hheld]

end Structor.Stdout

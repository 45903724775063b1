import CueScript.Shell.Arithmetic

/-!
# CueScript.Shell.Signal — signals

Signals have numbers, names and phrases for a process that one has ended. Number 0 stands for the end
of a shell.
-/

namespace CueScript.Shell

/-- The names of the first signals and the phrases for processes that they have ended, by number. -/
def namedSignals : List (String × String) :=
  [("EXIT", ""), ("HUP", "Hangup"), ("INT", "Interrupt"), ("QUIT", "Quit"),
    ("ILL", "Illegal instruction"), ("TRAP", "Trace/breakpoint trap"), ("ABRT", "Aborted"),
    ("BUS", "Bus error"), ("FPE", "Floating point exception"), ("KILL", "Killed"),
    ("USR1", "User defined signal 1"), ("SEGV", "Segmentation fault"),
    ("USR2", "User defined signal 2"), ("PIPE", "Broken pipe"), ("ALRM", "Alarm clock"),
    ("TERM", "Terminated"), ("16", "Stack fault"), ("CHLD", "Child exited"), ("CONT", "Continued"),
    ("STOP", "Stopped (signal)"), ("TSTP", "Stopped"), ("TTIN", "Stopped (tty input)"),
    ("TTOU", "Stopped (tty output)"), ("URG", "Urgent I/O condition"),
    ("XCPU", "CPU time limit exceeded"), ("XFSZ", "File size limit exceeded"),
    ("VTALRM", "Virtual timer expired"), ("PROF", "Profiling timer expired"),
    ("WINCH", "Window changed"), ("IO", "I/O possible"), ("PWR", "Power failure"),
    ("SYS", "Bad system call"), ("32", "Unknown signal 32"), ("33", "Unknown signal 33")]

/-- The number of signals, with the end of a shell. -/
def signalCount : Nat := 65

/-- The name of a signal. Those behind the named ones are counted from the first and the last. -/
def signalName (n : Nat) : Text :=
  match namedSignals[n]? with
  | some s => s.1.toList
  | none =>
    if n = 34 then "RTMIN".toList
    else if n ≤ 49 then "RTMIN+".toList ++ natText (n - 34)
    else if n < 64 then "RTMAX-".toList ++ natText (64 - n)
    else "RTMAX".toList

def signalPhrase (n : Nat) : Text :=
  match namedSignals[n]? with
  | some s => s.2.toList
  | none => "Real-time signal ".toList ++ natText (n - 34)

def quietSignals : List Nat := [2, 13]

def harmlessSignals : List Nat :=
  [0, 17, 18, 19, 20, 21, 22, 23, 28]

/-- The number of a signal that is given by its number. -/
def signalByNumber? (s : Text) : Option Nat :=
  (natOf? s).filter (· < signalCount)

/-- The number of a signal that is given by number or name; names with numbers below `least` do not
count. Capitals and small letters are the same in names. -/
def signalNumber? (least : Nat) (s : Text) : Option Nat :=
  (signalByNumber? s).or
    (((List.range signalCount).drop least).find? fun n =>
      (signalName n).map Char.toUpper == s.map Char.toUpper)

/-- The status of a process that a signal has ended. -/
def signalStatus (n : Nat) : Nat := 128 + n

end CueScript.Shell

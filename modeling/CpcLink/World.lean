/-
  What lies outside the server: the file system, the shell, the clock, and
  whether a library call succeeds.

  `World` is the outside state the server changes.  `Env` is what the outside
  answers during one round of the main loop; every theorem is about every
  `Env`, so any call may succeed or fail at any time.
-/
import CpcLink.Machine

namespace CpcLink

/-- A path, without its NUL. -/
abbrev FileName := List BYTE

/-- The contents of the files there are. -/
abbrev Files := FileName → Option (List BYTE)

/-- A `FILE *`: the handle `fopen` gave out, and the file it stands for. -/
structure File where
  handle : ℕ
  name : FileName
  deriving DecidableEq

/-- The files of the Pi, and the shell commands that were run. -/
structure World where
  files : Files
  /-- the number of handles `fopen` has given out so far -/
  opened : ℕ
  /-- the handles passed to `fclose`, latest first -/
  closed : List ℕ
  /-- the commands passed to `system`, latest first -/
  commands : List (List BYTE)

/-- The fields of a `struct tm` the server reads. -/
structure Tm where
  tmHour : Fin 24
  tmMin : Fin 60
  tmSec : Fin 61
  tmMday : Fin 32
  tmMon : Fin 12
  tmYear : Fin (2 ^ 31)

/-- `struct timeval` -/
structure Timeval where
  tvSec : ℤ
  tvUsec : ℤ

/-- What the library calls of a round deliver. -/
structure Env where
  /-- does `calloc` of so many bytes succeed -/
  calloc : ℤ → Bool
  /-- the exit status of a shell command, and the files after it -/
  system : List BYTE → Files → ℤ × Files
  fopenRead : FileName → Bool
  fopenWrite : FileName → Bool
  /-- does `fseek` to the end succeed -/
  fseekEnd : Bool
  /-- does `fseek` to the start succeed -/
  fseekSet : Bool
  /-- how many of the bytes asked for `fread` delivers at most -/
  fread : ℕ → ℕ
  /-- how many of the bytes given `fwrite` takes at most -/
  fwrite : ℕ → ℕ
  localtime : Tm
  /-- `gettimeofday` at the start of the round -/
  timeOfDay : Timeval
  /-- `gettimeofday` when a command is scheduled -/
  timeOfDayLater : Timeval

/-- `fopen(name, "r")` -/
def fopenRead (env : Env) (w : World) (name : FileName) : Option File × World :=
  if env.fopenRead name ∧ (w.files name).isSome then
    (some ⟨w.opened, name⟩, { w with opened := w.opened + 1 })
  else (none, w)

/-- `fopen(name, "w")` creates the file or empties it. -/
def fopenWrite (env : Env) (w : World) (name : FileName) : Option File × World :=
  if env.fopenWrite name then
    (some ⟨w.opened, name⟩,
      { w with opened := w.opened + 1, files := Function.update w.files name (some []) })
  else (none, w)

def fclose (w : World) (file : File) : World := { w with closed := file.handle :: w.closed }

/-- The content of an open file; `ftell` at its end is the length. -/
def World.content (w : World) (file : File) : List BYTE := (w.files file.name).getD []

/-- The bytes that `fread` of `n` bytes from the start delivers. -/
def fread (env : Env) (w : World) (file : File) (n : ℕ) : List BYTE :=
  (w.content file).take (min n (env.fread n))

/-- `fwrite` into a file just opened: the number of bytes written. -/
def fwrite (env : Env) (w : World) (file : File) (data : List BYTE) : ℕ × World :=
  let written := data.take (env.fwrite data.length)
  (written.length, { w with files := Function.update w.files file.name (some written) })

def system (env : Env) (w : World) (command : List BYTE) : ℤ × World :=
  let r := env.system command w.files
  (r.1, { w with files := r.2, commands := command :: w.commands })

end CpcLink

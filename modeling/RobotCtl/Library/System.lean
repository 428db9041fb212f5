import RobotCtl.Library.Number
import RobotCtl.Library.Logic

/-! # Paths and system calls

The calls that a program makes to its operating system, with the replies it can
get. A path is the sequence of its components below the root. The names in a
directory that are not valid Unicode appear in listings only.
-/

/-- An absolute path, component by component. -/
abbrev FilePath := List Str

namespace FilePath

def join (p : FilePath) (name : Str) : FilePath := p ++ [name]

def parent (p : FilePath) : Option FilePath := if p = [] then none else some p.dropLast

/-- A file name up to its last dot, or all of it if only its first character is a dot. -/
def fileStem (name : Str) : Str :=
  let front := name.rdropWhile (· != '.')
  if front.length ≤ 1 then name else front.dropLast

/-- Replace the extension of the last component. -/
def withExtension (p : FilePath) (ext : Str) : FilePath :=
  match p.getLast? with
  | some name => FilePath.join p.dropLast (fileStem name ++ '.' :: ext)
  | none => p

def display (p : FilePath) : Str := if p = [] then ['/'] else p.flatMap ('/' :: ·)

@[simp] theorem parent_join (p : FilePath) (name : Str) : (p.join name).parent = some p := by
  simp [parent, join]

theorem join_inj {p q : FilePath} {a b : Str} : p.join a = q.join b ↔ p = q ∧ a = b := by
  simp [join]

@[simp] theorem withExtension_join (p : FilePath) (name ext : Str) :
    (p.join name).withExtension ext = p.join (fileStem name ++ '.' :: ext) := by
  simp [withExtension, join]

theorem length_eq_of_parent {p q : FilePath} (h : p.parent = q.parent) : p.length = q.length := by
  by_cases hp : p = [] <;> by_cases hq : q = []
  · rw [hp, hq]
  · simp [parent, hp, hq] at h
  · simp [parent, hp, hq] at h
  · have hl := congrArg (Option.map List.length) h
    have hp' := List.length_pos_iff.mpr hp
    have hq' := List.length_pos_iff.mpr hq
    simp only [parent, hp, hq, if_false, Option.map_some, List.length_dropLast,
      Option.some.injEq] at hl
    omega

/-- A name is its stem, or its stem and a last extension. -/
theorem fileStem_cases (name : Str) :
    fileStem name = name ∨ ∃ ext, name = fileStem name ++ '.' :: ext ∧ '.' ∉ ext := by
  unfold fileStem
  have hs := List.rdropWhile_append_rtakeWhile (p := (· != '.')) (l := name)
  have hd := List.rdropWhile_last_not (· != '.') name
  generalize name.rdropWhile (· != '.') = front at hs hd
  by_cases h : front.length ≤ 1
  · exact Or.inl (if_pos h)
  · have hn : front ≠ [] := by rintro rfl; simp at h
    have hl : front.getLast hn = '.' := by simpa using hd hn
    refine Or.inr ⟨name.rtakeWhile (· != '.'), ?_, fun hm => ?_⟩
    · have hf := List.dropLast_append_getLast hn
      rw [hl] at hf
      rw [if_neg h, List.append_cons, hf, hs]
    · simpa using List.mem_rtakeWhile_imp hm

/-- An extension with a dot in it always changes the name. -/
theorem withExtension_ne (p : FilePath) (name a b : Str) :
    (p.join name).withExtension (a ++ '.' :: b) ≠ p.join name := by
  rw [withExtension_join, ne_eq, join_inj]
  rintro ⟨-, h⟩
  rcases fileStem_cases name with hs | ⟨ext, hs, hd⟩
  · have := congrArg List.length h
    simp [hs] at this
  · nth_rewrite 2 [hs] at h
    simp only [List.append_cancel_left_eq, List.cons.injEq, true_and] at h
    exact hd (h ▸ by simp)

end FilePath

/-- What kind of failure an input or output error reports. -/
inductive IoKind | notFound | permissionDenied | other
  deriving DecidableEq, Repr

structure IoError where
  kind : IoKind
  text : Str
  deriving DecidableEq, Repr

abbrev Io (α : Type) := Except IoError α

structure ExitStatus where
  success : Bool
  text : Str
  deriving DecidableEq, Repr

/-- A duration in nanoseconds. -/
def secs (n : ℕ) : ℕ := n * 1000000000

def millis (n : ℕ) : ℕ := n * 1000000

structure Output where
  status : ExitStatus
  stdout : Str
  stderr : Str
  deriving DecidableEq, Repr

inductive Signal | term | kill
  deriving DecidableEq, Repr

/-- System calls, each as one step of the process that makes it. Times are in nanoseconds. A mark
is no call: it makes a point of the program visible in its traces. -/
inductive SysOp where
  | readToString (path : FilePath)
  | isFile (path : FilePath)
  | readDir (path : FilePath)
  | createDirAll (path : FilePath)
  | create (path : FilePath)
  | write (path : FilePath) (data : Str)
  | rename (src dst : FilePath)
  | removeFile (path : FilePath)
  | status (program : Str) (args : List Str)
  | output (program : Str) (args : List Str)
  | spawn (program : Str) (args : List Str)
  | tryWait (pid : ℕ)
  | wait (pid : ℕ)
  | kill (pid : ℕ) (signal : Signal)
  | sleep (nanos : ℕ)
  | now
  | envVar (name : Str)
  | sendTo (socket : Str) (message : Str)
  | println (line : Str)
  | mark (label : Str) (args : List ℕ)
  deriving DecidableEq, Repr

/-- The reply to a system call. A directory entry whose name is not Unicode reads as `none`. -/
@[reducible] def SysReply : SysOp → Type
  | .readToString _ => Io Str
  | .isFile _ => Bool
  | .readDir _ => Io (List (Io (Option Str)))
  | .createDirAll _ | .create _ | .rename _ _ | .removeFile _ | .sendTo _ _ => Io Unit
  | .write _ _ => Io ℕ
  | .status _ _ | .wait _ => Io ExitStatus
  | .output _ _ => Io Output
  | .spawn _ _ => Io ℕ
  | .tryWait _ => Io (Option ExitStatus)
  | .kill _ _ | .sleep _ | .println _ | .mark _ _ => Unit
  | .now => ℕ
  | .envVar _ => Option Str

@[reducible] def Sys : Sig := ⟨SysOp, SysReply⟩

namespace Sys

def readToString (path : FilePath) : Prog Sys (Io Str) := .call (.readToString path) .ret

def isFile (path : FilePath) : Prog Sys Bool := .call (.isFile path) .ret

def readDir (path : FilePath) : Prog Sys (Io (List (Io (Option Str)))) := .call (.readDir path) .ret

def createDirAll (path : FilePath) : Prog Sys (Io Unit) := .call (.createDirAll path) .ret

def rename (src dst : FilePath) : Prog Sys (Io Unit) := .call (.rename src dst) .ret

def removeFile (path : FilePath) : Prog Sys (Io Unit) := .call (.removeFile path) .ret

def status (program : Str) (args : List Str) : Prog Sys (Io ExitStatus) :=
  .call (.status program args) .ret

def output (program : Str) (args : List Str) : Prog Sys (Io Output) :=
  .call (.output program args) .ret

def spawn (program : Str) (args : List Str) : Prog Sys (Io ℕ) := .call (.spawn program args) .ret

def tryWait (pid : ℕ) : Prog Sys (Io (Option ExitStatus)) := .call (.tryWait pid) .ret

def wait (pid : ℕ) : Prog Sys (Io ExitStatus) := .call (.wait pid) .ret

def kill (pid : ℕ) (signal : Signal) : Prog Sys Unit := .call (.kill pid signal) .ret

def sleep (nanos : ℕ) : Prog Sys Unit := .call (.sleep nanos) .ret

def now : Prog Sys ℕ := .call .now .ret

def envVar (name : Str) : Prog Sys (Option Str) := .call (.envVar name) .ret

def sendTo (socket message : Str) : Prog Sys (Io Unit) := .call (.sendTo socket message) .ret

def println (line : Str) : Prog Sys Unit := .call (.println line) .ret

def mark (label : Str) (args : List ℕ) : Prog Sys Unit := .call (.mark label args) .ret

/-- One round of writing out a buffer: the rest of it, or how the writing ended. -/
def writeRest (path : FilePath) (rest : Str) : Prog Sys (Str ⊕ Io Unit) :=
  if rest = [] then .ret (.inr (.ok ()))
  else .call (.write path rest) fun
    | .ok 0 => .ret (.inr (.error ⟨.other, "failed to write whole buffer".toList⟩))
    | .ok n => .ret (.inl (rest.drop n))
    | .error e => .ret (.inr (.error e))

/-- Create or truncate a file and write all of its contents, in as many writes as it takes. -/
def writeFile (path : FilePath) (contents : Str) : Prog Sys (Io Unit) :=
  .call (.create path) fun
    | .ok _ => .loop (writeRest path) contents .ret
    | .error e => .ret (.error e)

end Sys

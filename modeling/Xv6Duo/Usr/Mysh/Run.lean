import Xv6Duo.Usr.Mysh.Print

/-!
# Running a command

`runcmd` of `usr/src/mysh`. Each process has its own table of descriptors; what a process does with
descriptors between `fork` and `execve` or `wait` gives each command its input and its output and
closes every other end of a pipe.
-/

namespace Xv6Duo
namespace Mysh

open ByteBlock (CString)

/-! ## Descriptors -/

/-- A place in a command: the branches to it, the last one first. -/
abbrev Path : Type := List Bool

/-- The left branch. -/
abbrev goLeft (path : Path) : Path := false :: path

/-- The right branch. -/
abbrev goRight (path : Path) : Path := true :: path

/-- What a descriptor stands for. -/
inductive Obj (α : Type) where
  /-- What the shell was started with. -/
  | given (a : α)
  /-- A file that a redirection opened. -/
  | file (name : List UInt8) (mode : Mode)
  /-- The reading end of the pipe that was made at a place. -/
  | reads (pipe : Path)
  /-- The writing end. -/
  | writes (pipe : Path)
  deriving DecidableEq

/-- `NOFILE`. -/
def nofile : Nat := 16

/-- A table of descriptors. -/
abbrev Fds (α : Type) : Type := List (Option (Obj α))

variable {α : Type}

/-- `fdalloc`: the first free descriptor. -/
def fdalloc (obj : Obj α) : Fds α → Option (Nat × Fds α)
  | [] => none
  | none :: fds => some (0, some obj :: fds)
  | some other :: fds => (fdalloc obj fds).map fun r => (r.1 + 1, some other :: r.2)

/-- `close`. -/
def close (fd : Nat) (fds : Fds α) : Fds α := fds.set fd none

/-- `dup`, without its result. -/
def dup (fd : Nat) (fds : Fds α) : Fds α :=
  match fds[fd]?.join with
  | none => fds
  | some obj => ((fdalloc obj fds).map Prod.snd).getD fds

/-- Which calls succeed. -/
structure Calls where
  /-- `open`, when there is a descriptor, at a place. -/
  opens : Path → Bool
  /-- `pipe`, when there are two, at a place. -/
  pipes : Path → Bool
  /-- `fork`, of the process that runs a place. -/
  forks : Path → Bool

/-- What is seen of a process. -/
inductive Event (τ : Type) where
  /-- `execve`, for the command at a place. -/
  | exec (place : Path) (argv : List (List UInt8)) (fds : τ)
  /-- `wait`, for the children of a place. -/
  | waits (place : Path) (fds : τ)
  deriving DecidableEq

/-- The same event, of a process with another table. -/
def Event.map {σ τ : Type} (f : σ → τ) : Event σ → Event τ
  | exec place argv fds => exec place argv (f fds)
  | waits place fds => waits place (f fds)

/-! ## The shell -/

/-- `runcmd`: what is seen of the process and of those that it forks, each in its order. -/
def runcmd (calls : Calls) : Path → Cmd (List UInt8) → Fds α → List (Event (Fds α))
  | place, .exec argv, fds => if argv = [] then [] else [.exec place argv fds]
  | place, .redir cmd file mode fd, fds =>
      match fdalloc (.file file mode) (close fd fds) with
      | none => []
      | some opened =>
          if calls.opens place then runcmd calls (goLeft place) cmd opened.2 else []
  | place, .list left right, fds =>
      if calls.forks (goLeft place) then
        runcmd calls (goLeft place) left fds ++
          .waits place fds :: runcmd calls (goRight place) right fds
      else []
  | place, .pipe left right, fds =>
      if calls.pipes place then
        match fdalloc (.reads place) fds with
        | none => []
        | some p0 =>
            match fdalloc (.writes place) p0.2 with
            | none => []
            | some p1 =>
                let both := fun fds => close p1.1 (close p0.1 fds)
                if calls.forks (goLeft place) then
                  runcmd calls (goLeft place) left (both (dup p1.1 (close 1 p1.2))) ++
                    if calls.forks (goRight place) then
                      runcmd calls (goRight place) right (both (dup p0.1 (close 0 p1.2))) ++
                        [.waits place (both p1.2), .waits place (both p1.2)]
                    else []
                else []
      else []
  | place, .back cmd, fds =>
      if calls.forks (goLeft place) then runcmd calls (goLeft place) cmd fds else []

/-! ## What each command gets -/

/-- Input, output and error output. -/
structure Std (α : Type) where
  /-- Descriptor 0. -/
  input : Obj α
  /-- Descriptor 1. -/
  output : Obj α
  /-- Descriptor 2. -/
  error : Obj α
  deriving DecidableEq

/-- A table with these and nothing else. -/
def Std.table (std : Std α) : Fds α :=
  some std.input :: some std.output :: some std.error :: List.replicate (nofile - 3) none

/-- A redirection. -/
def Std.redirect (std : Std α) (file : List UInt8) : Mode → Std α
  | .rdonly => { std with input := .file file .rdonly }
  | .trunc => { std with output := .file file .trunc }
  | .append => { std with output := .file file .append }

/-- The commands that are executed and the processes that wait, with what they read and write. -/
def wired (calls : Calls) : Path → Cmd (List UInt8) → Std α → List (Event (Std α))
  | place, .exec argv, std => if argv = [] then [] else [.exec place argv std]
  | place, .redir cmd file mode _, std =>
      if calls.opens place then wired calls (goLeft place) cmd (std.redirect file mode) else []
  | place, .list left right, std =>
      if calls.forks (goLeft place) then
        wired calls (goLeft place) left std ++
          .waits place std :: wired calls (goRight place) right std
      else []
  | place, .pipe left right, std =>
      if calls.pipes place then
        if calls.forks (goLeft place) then
          wired calls (goLeft place) left { std with output := .writes place } ++
            if calls.forks (goRight place) then
              wired calls (goRight place) right { std with input := .reads place } ++
                [.waits place std, .waits place std]
            else []
        else []
      else []
  | place, .back cmd, std =>
      if calls.forks (goLeft place) then wired calls (goLeft place) cmd std else []

theorem open_redirect (std : Std α) (file : List UInt8) (mode : Mode) :
    fdalloc (.file file mode) (close mode.fd std.table) =
      some (mode.fd, (std.redirect file mode).table) := by
  cases mode <;> rfl

/-- What the calls between `pipe` and `wait` do to the tables of the three processes. -/
theorem runcmd_pipe (calls : Calls) (place : Path) (left right : Cmd (List UInt8)) (std : Std α) :
    runcmd calls place (.pipe left right) std.table =
      if calls.pipes place then
        if calls.forks (goLeft place) then
          runcmd calls (goLeft place) left (Std.table { std with output := .writes place }) ++
            if calls.forks (goRight place) then
              runcmd calls (goRight place) right (Std.table { std with input := .reads place }) ++
                [Event.waits place std.table, Event.waits place std.table]
            else []
        else []
      else [] := by
  rw [runcmd]
  rfl

/-- `runcmd` gives each command what it is to read and to write, and nothing else. -/
theorem runcmd_eq (calls : Calls) (place : Path) {cmd : Cmd (List UInt8)}
    (printable : cmd.Printable) (std : Std α) :
    runcmd calls place cmd std.table = (wired calls place cmd std).map (Event.map Std.table) := by
  induction cmd generalizing place std with
  | exec argv =>
      rw [runcmd, wired]
      split <;> rfl
  | redir cmd file mode fd ih =>
      obtain ⟨inner, -, rfl⟩ := printable
      rw [runcmd, wired, open_redirect]
      dsimp only
      split
      · exact ih _ inner _
      · rfl
  | pipe left right ih ih' =>
      rw [runcmd_pipe, wired, ih _ printable.1, ih' _ printable.2]
      split
      · split
        · rw [List.map_append]
          congr 1
          split
          · rw [List.map_append]
            rfl
          · rfl
        · rfl
      · rfl
  | list left right ih ih' =>
      rw [runcmd, wired, ih _ printable.1, ih' _ printable.2]
      split
      · rw [List.map_append, List.map_cons]
        rfl
      · rfl
  | back cmd ih =>
      rw [runcmd, wired, ih _ printable]
      split <;> rfl

/-! ## Who holds the ends of a pipe -/

/-- The place in the command. -/
def Event.place {τ : Type} : Event τ → Path
  | exec place _ _ => place
  | waits place _ => place

/-- The table. -/
def Event.fds {τ : Type} : Event τ → τ
  | exec _ _ fds => fds
  | waits _ fds => fds

/-- One of the three stands for this. -/
def Std.Has (std : Std α) (obj : Obj α) : Prop :=
  obj = std.input ∨ obj = std.output ∨ obj = std.error

/-- What a process may have besides what it was given: files, the writing end of a pipe that it
stands to the left of, and the reading end of one that it stands to the right of. -/
inductive Connected : Path → Obj α → Prop where
  /-- A file. -/
  | file (place : Path) (name : List UInt8) (mode : Mode) : Connected place (.file name mode)
  /-- The writing end. -/
  | writes {place pipe : Path} (below : goLeft pipe <:+ place) : Connected place (.writes pipe)
  /-- The reading end. -/
  | reads {place pipe : Path} (below : goRight pipe <:+ place) : Connected place (.reads pipe)

theorem Std.Has.of_redirect {std : Std α} {file : List UInt8} {mode : Mode} {obj : Obj α}
    (has : (std.redirect file mode).Has obj) (place : Path) :
    std.Has obj ∨ Connected place obj := by
  cases mode with
  | rdonly =>
      rcases has with rfl | has
      · exact Or.inr (.file place file .rdonly)
      · exact Or.inl (Or.inr has)
  | trunc =>
      rcases has with has | rfl | has
      · exact Or.inl (Or.inl has)
      · exact Or.inr (.file place file .trunc)
      · exact Or.inl (Or.inr (Or.inr has))
  | append =>
      rcases has with has | rfl | has
      · exact Or.inl (Or.inl has)
      · exact Or.inr (.file place file .append)
      · exact Or.inl (Or.inr (Or.inr has))

theorem Std.Has.of_output {std : Std α} {pipe place : Path} {obj : Obj α}
    (has : Std.Has { std with output := .writes pipe } obj) (below : goLeft pipe <:+ place) :
    std.Has obj ∨ Connected place obj := by
  rcases has with has | rfl | has
  · exact Or.inl (Or.inl has)
  · exact Or.inr (.writes below)
  · exact Or.inl (Or.inr (Or.inr has))

theorem Std.Has.of_input {std : Std α} {pipe place : Path} {obj : Obj α}
    (has : Std.Has { std with input := .reads pipe } obj) (below : goRight pipe <:+ place) :
    std.Has obj ∨ Connected place obj := by
  rcases has with rfl | has
  · exact Or.inr (.reads below)
  · exact Or.inl (Or.inr has)

/-- What is seen at a place and below it. -/
def Below (place : Path) (std : Std α) (event : Event (Std α)) : Prop :=
  place <:+ event.place ∧
    ∀ obj, event.fds.Has obj → std.Has obj ∨ Connected event.place obj

/-- From a branch to the command that it is a branch of. -/
theorem Below.up {place : Path} {branch : Bool} {std std' : Std α} {event : Event (Std α)}
    (below : Below (branch :: place) std' event)
    (more : ∀ obj, std'.Has obj → std.Has obj ∨ Connected event.place obj) :
    Below place std event := by
  obtain ⟨inside, holds⟩ := below
  refine ⟨(List.suffix_cons branch place).trans inside, fun obj has => ?_⟩
  rcases holds obj has with has | connected
  · exact more obj has
  · exact Or.inr connected

theorem below_waits (place : Path) (std : Std α) : Below place std (.waits place std) :=
  ⟨List.suffix_rfl, fun _ has => Or.inl has⟩

theorem wired_below (calls : Calls) (place : Path) (cmd : Cmd (List UInt8)) (std : Std α) :
    ∀ event ∈ wired calls place cmd std, Below place std event := by
  induction cmd generalizing place std with
  | exec argv =>
      intro event among
      rw [wired] at among
      split at among
      · cases among
      · rw [List.mem_singleton.mp among]
        exact ⟨List.suffix_rfl, fun _ has => Or.inl has⟩
  | redir cmd file mode fd ih =>
      intro event among
      rw [wired] at among
      split at among
      · exact (ih _ _ event among).up fun obj has => has.of_redirect event.place
      · cases among
  | pipe left right ih ih' =>
      intro event among
      rw [wired] at among
      split at among
      · split at among
        · rcases List.mem_append.mp among with first | among
          · have below := ih _ _ event first
            exact below.up fun obj has => has.of_output below.1
          · split at among
            · rcases List.mem_append.mp among with second | waits
              · have below := ih' _ _ event second
                exact below.up fun obj has => has.of_input below.1
              · have same : event = .waits place std := by simpa using waits
                rw [same]
                exact below_waits place std
            · cases among
        · cases among
      · cases among
  | list left right ih ih' =>
      intro event among
      rw [wired] at among
      split at among
      · rcases List.mem_append.mp among with first | among
        · exact (ih _ _ event first).up fun _ has => Or.inl has
        · rcases List.mem_cons.mp among with rfl | second
          · exact below_waits place std
          · exact (ih' _ _ event second).up fun _ has => Or.inl has
      · cases among
  | back cmd ih =>
      intro event among
      rw [wired] at among
      split at among
      · exact (ih _ _ event among).up fun _ has => Or.inl has
      · cases among

/-- What the shell is started with. -/
def Std.given (input output error : α) : Std α :=
  { input := .given input, output := .given output, error := .given error }

/-- For every line that the parser accepts, each command runs with its three descriptors only. Those
processes that hold the writing end of a pipe stand to the left of it, those that hold the reading
end to the right of it, also when they wait; the process that makes a pipe waits without its
ends. -/
theorem runcmd_parsed (calls : Calls) (line : CString) {cmd : Cmd (List UInt8)}
    (returned : parsed line = .ok cmd) (input output error : α) :
    ∃ events : List (Event (Std α)),
      runcmd calls [] cmd (Std.given input output error).table =
          events.map (Event.map Std.table) ∧
        events = wired calls [] cmd (Std.given input output error) ∧
        ∀ event ∈ events, ∀ pipe,
          (event.fds.Has (.writes pipe) → goLeft pipe <:+ event.place) ∧
            (event.fds.Has (.reads pipe) → goRight pipe <:+ event.place) ∧
            (event.place = pipe → ¬event.fds.Has (.writes pipe) ∧
              ¬event.fds.Has (.reads pipe)) := by
  have printable := (parses_of_parsed line returned).printable fun _ => isWord_lexemes line
  refine ⟨_, runcmd_eq calls [] printable _, rfl, fun event among pipe => ?_⟩
  obtain ⟨-, holds⟩ := wired_below calls [] cmd _ event among
  have writes : event.fds.Has (.writes pipe) → goLeft pipe <:+ event.place := by
    intro has
    rcases holds _ has with (same | same | same) | connected
    · cases same
    · cases same
    · cases same
    · cases connected with
      | writes below => exact below
  have reads : event.fds.Has (.reads pipe) → goRight pipe <:+ event.place := by
    intro has
    rcases holds _ has with (same | same | same) | connected
    · cases same
    · cases same
    · cases same
    · cases connected with
      | reads below => exact below
  refine ⟨writes, reads, ?_⟩
  rintro rfl
  constructor
  · intro has
    have longer := (writes has).length_le
    exact absurd longer (Nat.not_succ_le_self _)
  · intro has
    have longer := (reads has).length_le
    exact absurd longer (Nat.not_succ_le_self _)

/-- `a|b`. -/
theorem runcmd_two_commands :
    ∃ events : List (Event (Std Nat)),
      runcmd { opens := fun _ => true, pipes := fun _ => true, forks := fun _ => true } []
            (.pipe (.exec [[97]]) (.exec [[98]])) (Std.given 0 1 2).table =
          events.map (Event.map Std.table) ∧
        events = wired { opens := fun _ => true, pipes := fun _ => true, forks := fun _ => true } []
          (.pipe (.exec [[97]]) (.exec [[98]])) (Std.given 0 1 2) ∧
        ∀ event ∈ events, ∀ pipe,
          (event.fds.Has (.writes pipe) → goLeft pipe <:+ event.place) ∧
            (event.fds.Has (.reads pipe) → goRight pipe <:+ event.place) ∧
            (event.place = pipe →
              ¬event.fds.Has (.writes pipe) ∧ ¬event.fds.Has (.reads pipe)) :=
  runcmd_parsed _ { chars := [97, 124, 98], nonzero := by decide } (by decide) 0 1 2

end Mysh
end Xv6Duo

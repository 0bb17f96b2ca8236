import Mathlib.Data.List.Basic
import Mathlib.Tactic.Common
import Xv6Duo.Library.Longs

/-!
# The shell's parser

The parser of `usr/src/mysh`. A pointer into the line is its distance from the start; the line is
the list of its bytes before the NUL. Each parsing function takes the place `*ps` and returns the
place where it leaves it.
-/

namespace Xv6Duo
namespace Mysh

open ByteBlock (CString)

/-! ## Commands -/

/-- How a redirection opens its file. -/
inductive Mode where
  /-- `O_RDONLY`. -/
  | rdonly
  /-- `O_WRONLY|O_CREAT|O_TRUNC`. -/
  | trunc
  /-- `O_WRONLY|O_CREAT`. -/
  | append
  deriving DecidableEq

/-- `struct cmd`, for a given kind of string. -/
inductive Cmd (σ : Type) where
  /-- `struct execcmd`. -/
  | exec (argv : List σ)
  /-- `struct redircmd`. -/
  | redir (cmd : Cmd σ) (file : σ) (mode : Mode) (fd : Nat)
  /-- `struct pipecmd`. -/
  | pipe (left right : Cmd σ)
  /-- `struct listcmd`. -/
  | list (left right : Cmd σ)
  /-- `struct backcmd`. -/
  | back (cmd : Cmd σ)
  deriving DecidableEq

/-- The same command with other strings. -/
def Cmd.map {σ τ : Type} (f : σ → τ) : Cmd σ → Cmd τ
  | exec argv => exec (argv.map f)
  | redir cmd file mode fd => redir (cmd.map f) (f file) mode fd
  | pipe left right => pipe (left.map f) (right.map f)
  | list left right => list (left.map f) (right.map f)
  | back cmd => back (cmd.map f)

/-- `MAXARGS`. -/
def maxArgs : Nat := 10

/-! ## Tokens -/

/-- `'<'`. -/
def less : UInt8 := 60

/-- `'|'`. -/
def bar : UInt8 := 124

/-- `'>'`. -/
def greater : UInt8 := 62

/-- `'&'`. -/
def amp : UInt8 := 38

/-- `';'`. -/
def semi : UInt8 := 59

/-- `'('`. -/
def left : UInt8 := 40

/-- `')'`. -/
def right : UInt8 := 41

/-- `'+'`, which `gettoken` returns for `>>`. -/
def plus : UInt8 := 43

/-- `'a'`, which `gettoken` returns for a word. -/
def word : UInt8 := 97

/-- `whitespace`. -/
def whitespace : List UInt8 := [32, 9, 13, 10, 11]

/-- `symbols`. -/
def symbols : List UInt8 := [less, bar, greater, amp, semi, left, right]

/-- A byte of a word. -/
def inWord (b : UInt8) : Bool := !whitespace.contains b && !symbols.contains b

/-- `*s`. -/
def byte (line : List UInt8) (s : Nat) : UInt8 := line.getD s 0

/-- The loop `while (s < es && p(*s)) s++`. -/
def skip (p : UInt8 → Bool) (line : List UInt8) (s : Nat) : Nat :=
  s + ((line.drop s).takeWhile p).length

/-- Where a token starts and where it ends. -/
structure Span where
  /-- `q`. -/
  q : Nat
  /-- `eq`. -/
  eq : Nat
  deriving DecidableEq

/-- A token. -/
structure Token (σ : Type) where
  /-- What `gettoken` returns. -/
  ret : UInt8
  /-- The text. -/
  text : σ
  deriving DecidableEq

/-- The `switch` of `gettoken`: what it returns, and the end of the token. -/
def scan (line : List UInt8) (s : Nat) : UInt8 × Nat :=
  let b := byte line s
  if b = 0 then (b, s)
  else if b ∈ [bar, left, right, semi, amp, less] then (b, s + 1)
  else if b = greater then
    if byte line (s + 1) = greater then (plus, s + 2) else (b, s + 1)
  else (word, skip inWord line s)

/-- `gettoken`. -/
def gettoken (line : List UInt8) (s : Nat) : Token Span × Nat :=
  let q := skip whitespace.contains line s
  let scanned := scan line q
  ({ ret := scanned.1, text := { q := q, eq := scanned.2 } },
    skip whitespace.contains line scanned.2)

/-- `peek`. -/
def peek (line : List UInt8) (s : Nat) (toks : List UInt8) : Bool × Nat :=
  let s := skip whitespace.contains line s
  (byte line s != 0 && toks.contains (byte line s), s)

/-! ## Parsing -/

/-- Why a parser does not return a command. -/
inductive Stop where
  /-- `panic`. -/
  | panic (message : String)
  /-- The model stopped counting. -/
  | unfinished
  deriving DecidableEq

/-- A parsing function. -/
abbrev Parser : Type := Nat → Except Stop (Cmd Span × Nat)

/-- `redircmd`, as `parseredirs` calls it for the token `tok`. -/
def redircmd {σ : Type} (tok : UInt8) (file : σ) (cmd : Cmd σ) : Cmd σ :=
  if tok = less then .redir cmd file .rdonly 0
  else if tok = greater then .redir cmd file .trunc 1
  else .redir cmd file .append 1

/-- The redirections that were parsed, put around a command. The command inside is built while they
are. -/
def wrap {σ : Type} (redirs : List (UInt8 × σ)) (cmd : Cmd σ) : Cmd σ :=
  redirs.foldl (fun inner redir => redircmd redir.1 redir.2 inner) cmd

/-- `parseredirs`. -/
def parseredirs (line : List UInt8) : Nat → Nat → Except Stop (List (UInt8 × Span) × Nat)
  | 0, _ => .error .unfinished
  | n + 1, s =>
      let more := peek line s [less, greater]
      if more.1 then
        let tok := gettoken line more.2
        let file := gettoken line tok.2
        if file.1.ret ≠ word then .error (.panic "missing file for redirection")
        else do
          let redirs ← parseredirs line n file.2
          .ok ((tok.1.ret, file.1.text) :: redirs.1, redirs.2)
      else .ok ([], more.2)

/-- The loop of `parseexec`, with `argc` arguments before it: the arguments and the redirections
that it adds. -/
def parseargs (line : List UInt8) :
    Nat → Nat → Nat → Except Stop ((List Span × List (UInt8 × Span)) × Nat)
  | 0, _, _ => .error .unfinished
  | n + 1, argc, s =>
      let ended := peek line s [bar, right, amp, semi]
      if ended.1 then .ok (([], []), ended.2)
      else
        let tok := gettoken line ended.2
        if tok.1.ret = 0 then .ok (([], []), tok.2)
        else if tok.1.ret ≠ word then .error (.panic "syntax")
        else if argc + 1 ≥ maxArgs then .error (.panic "too many args")
        else do
          let redirs ← parseredirs line n tok.2
          let later ← parseargs line n (argc + 1) redirs.2
          .ok ((tok.1.text :: later.1.1, redirs.1 ++ later.1.2), later.2)

/-- `parseblock`, for a given `parseline`. -/
def parseblock (line : List UInt8) (n : Nat) (parseline : Parser) : Parser := fun s =>
  let opened := peek line s [left]
  if !opened.1 then .error (.panic "parseblock")
  else do
    let inner ← parseline (gettoken line opened.2).2
    let closed := peek line inner.2 [right]
    if !closed.1 then .error (.panic "syntax - missing )")
    else do
      let redirs ← parseredirs line n (gettoken line closed.2).2
      .ok (wrap redirs.1 inner.1, redirs.2)

/-- `parseexec`, for a given `parseline`. -/
def parseexec (line : List UInt8) (n : Nat) (parseline : Parser) : Parser := fun s =>
  let block := peek line s [left]
  if block.1 then parseblock line n parseline block.2
  else do
    let redirs ← parseredirs line n block.2
    let args ← parseargs line n 0 redirs.2
    .ok (wrap (redirs.1 ++ args.1.2) (.exec args.1.1), args.2)

/-- `parsepipe`, for a given `parseexec`. -/
def parsepipe (line : List UInt8) (parseexec : Parser) : Nat → Parser
  | 0 => fun _ => .error .unfinished
  | n + 1 => fun s => do
      let first ← parseexec s
      let more := peek line first.2 [bar]
      if more.1 then do
        let rest ← parsepipe line parseexec n (gettoken line more.2).2
        .ok (.pipe first.1 rest.1, rest.2)
      else .ok (first.1, more.2)

/-- The loop of `parseline` over `&`. -/
def parsebacks (line : List UInt8) : Nat → Cmd Span → Parser
  | 0, _ => fun _ => .error .unfinished
  | n + 1, cmd => fun s =>
      let more := peek line s [amp]
      if more.1 then parsebacks line n (.back cmd) (gettoken line more.2).2
      else .ok (cmd, more.2)

/-- `parseline`. -/
def parseline (line : List UInt8) : Nat → Parser
  | 0 => fun _ => .error .unfinished
  | n + 1 => fun s => do
      let first ← parsepipe line (parseexec line (n + 1) (parseline line n)) (n + 1) s
      let backed ← parsebacks line (n + 1) first.1 first.2
      let more := peek line backed.2 [semi]
      if more.1 then do
        let rest ← parseline line n (gettoken line more.2).2
        .ok (.list backed.1 rest.1, rest.2)
      else .ok (backed.1, more.2)

/-- The places where `nulterminate` writes, in its order. -/
def ends : Cmd Span → List Nat
  | .exec argv => argv.map Span.eq
  | .redir cmd file _ _ => ends cmd ++ [file.eq]
  | .pipe left right => ends left ++ ends right
  | .list left right => ends left ++ ends right
  | .back cmd => ends cmd

/-- `nulterminate`: the line afterwards. The byte behind the line is a NUL already. -/
def nulterminate (line : List UInt8) (cmd : Cmd Span) : List UInt8 :=
  (ends cmd).foldl (fun line s => line.set s 0) line

/-- `parsecmd`: the command and the line that its strings stand in. -/
def parsecmd (line : CString) : Except Stop (Cmd Span × List UInt8) := do
  let cmd ← parseline line.chars (line.chars.length + 1) 0
  let rest := peek line.chars cmd.2 []
  if rest.2 ≠ line.chars.length then .error (.panic "syntax")
  else .ok (cmd.1, nulterminate line.chars cmd.1)

/-- The string that starts at a place. -/
def cstring (line : List UInt8) (s : Nat) : List UInt8 := (line.drop s).takeWhile (· != 0)

/-- `parsecmd`, with the strings that `runcmd` finds in the command. -/
def parsed (line : CString) : Except Stop (Cmd (List UInt8)) :=
  (parsecmd line).map fun r => r.1.map fun span => cstring r.2 span.q

end Mysh
end Xv6Duo

import Mathlib.Logic.Function.Iterate
import Xv6Duo.Library.GuardedRun
import Xv6Duo.Usr.Mysh.Tokens

/-!
# The grammar of the shell

The commands that a list of tokens stands for, and that the parser returns exactly these.
-/

namespace Xv6Duo
namespace Mysh

open ByteBlock (CString)

/-! ## The grammar -/

section

variable {σ τ : Type}

/-- Words and redirections in any order: the words, the redirections and the tokens. -/
inductive Args : List σ → List (UInt8 × σ) → List (Token σ) → Prop where
  /-- No token. -/
  | nil : Args [] [] []
  /-- A redirection and its file. -/
  | redir {op : UInt8} {sign file : σ} {argv : List σ} {rs : List (UInt8 × σ)}
      {ts : List (Token σ)} (known : op ∈ redirs) (later : Args argv rs ts) :
      Args argv ((op, file) :: rs) (⟨op, sign⟩ :: ⟨word, file⟩ :: ts)
  /-- A word. -/
  | word {text : σ} {argv : List σ} {rs : List (UInt8 × σ)} {ts : List (Token σ)}
      (later : Args argv rs ts) : Args (text :: argv) rs (⟨word, text⟩ :: ts)

/-- What a part of a line is read as. -/
inductive Level where
  /-- By `parseexec`. -/
  | exec
  /-- By `parsepipe`. -/
  | pipe
  /-- By `parseline`. -/
  | line

/-- The commands that tokens stand for. -/
inductive Parses : Level → Cmd σ → List (Token σ) → Prop where
  /-- A command with fewer than `MAXARGS` words. -/
  | args {argv : List σ} {rs : List (UInt8 × σ)} {ts : List (Token σ)}
      (few : argv.length < maxArgs) (all : Args argv rs ts) :
      Parses .exec (wrap rs (.exec argv)) ts
  /-- A line in parentheses, and redirections. -/
  | block {opening closing : σ} {cmd : Cmd σ} {rs : List (UInt8 × σ)} {ts later : List (Token σ)}
      (inner : Parses .line cmd ts) (behind : Args [] rs later) :
      Parses .exec (wrap rs cmd) (⟨left, opening⟩ :: (ts ++ ⟨right, closing⟩ :: later))
  /-- A pipeline of one command. -/
  | single {cmd : Cmd σ} {ts : List (Token σ)} (only : Parses .exec cmd ts) : Parses .pipe cmd ts
  /-- A longer pipeline. -/
  | pipe {sign : σ} {first rest : Cmd σ} {ts later : List (Token σ)}
      (front : Parses .exec first ts) (behind : Parses .pipe rest later) :
      Parses .pipe (.pipe first rest) (ts ++ ⟨bar, sign⟩ :: later)
  /-- A pipeline and any number of `&`. -/
  | last {cmd : Cmd σ} {ts amps : List (Token σ)} (front : Parses .pipe cmd ts)
      (backs : ∀ t ∈ amps, t.ret = amp) : Parses .line (Cmd.back^[amps.length] cmd) (ts ++ amps)
  /-- The same, `;` and a line. -/
  | list {sign : σ} {cmd rest : Cmd σ} {ts amps later : List (Token σ)}
      (front : Parses .pipe cmd ts) (backs : ∀ t ∈ amps, t.ret = amp)
      (behind : Parses .line rest later) :
      Parses .line (.list (Cmd.back^[amps.length] cmd) rest) (ts ++ amps ++ ⟨semi, sign⟩ :: later)

theorem Args.append {first later : List σ} {rs rs' : List (UInt8 × σ)} {ts ts' : List (Token σ)}
    (front : Args first rs ts) (behind : Args later rs' ts') :
    Args (first ++ later) (rs ++ rs') (ts ++ ts') := by
  induction front with
  | nil => exact behind
  | redir known _ ih => exact .redir known ih
  | word _ ih => exact .word ih

/-- The redirections at the front. -/
theorem Args.split {argv : List σ} {rs : List (UInt8 × σ)} {ts : List (Token σ)}
    (all : Args argv rs ts) :
    ∃ rs₁ rs₂ ts₁ ts₂, rs = rs₁ ++ rs₂ ∧ ts = ts₁ ++ ts₂ ∧ Args [] rs₁ ts₁ ∧ Args argv rs₂ ts₂ ∧
      ∀ t ∈ ts₂.head?, t.ret = Mysh.word := by
  induction all with
  | nil => exact ⟨[], [], [], [], rfl, rfl, .nil, .nil, by simp⟩
  | redir known _ ih =>
      obtain ⟨rs₁, rs₂, ts₁, ts₂, rfl, rfl, front, behind, leads⟩ := ih
      exact ⟨_ :: rs₁, rs₂, _ :: _ :: ts₁, ts₂, rfl, rfl, .redir known front, behind, leads⟩
  | word later => exact ⟨[], _, [], _, rfl, rfl, .nil, .word later, by simp⟩

end

/-! ## What the parser accepts is in the grammar -/

section

variable {line : List UInt8}

/-- What a parsing function that starts at a place may return. -/
def Yields {α : Type} (line : List UInt8) (s : Nat) (P : α → List (Token Span) → Prop) :
    Except Stop (α × Nat) → Prop
  | .ok r => r.2 ≤ line.length ∧ ∃ ts, tokens line s = ts ++ tokens line r.2 ∧ P r.1 ts
  | .error (.panic _) => True
  | .error .unfinished => False

theorem Yields.bind {α β : Type} {s : Nat} {P : α → List (Token Span) → Prop}
    {Q : β → List (Token Span) → Prop} {x : Except Stop (α × Nat)}
    {f : α × Nat → Except Stop (β × Nat)} (first : Yields line s P x)
    (next : ∀ r ts, r.2 ≤ line.length → tokens line s = ts ++ tokens line r.2 → P r.1 ts →
      Yields line r.2 (fun b later => Q b (ts ++ later)) (f r)) :
    Yields line s Q (x >>= f) := by
  cases x with
  | error stop => cases stop with
    | panic message => trivial
    | unfinished => exact first
  | ok r =>
      obtain ⟨inside, ts, read, holds⟩ := first
      have rest := next r ts inside read holds
      change Yields line s Q (f r)
      revert rest
      cases f r with
      | error stop => cases stop with
        | panic message => exact id
        | unfinished => exact id
      | ok q =>
          rintro ⟨inside', later, read', holds'⟩
          refine ⟨inside', ts ++ later, ?_, holds'⟩
          rw [read, read', List.append_assoc]

theorem peek_le {s : Nat} (inside : s ≤ line.length) (toks : List UInt8) :
    (peek line s toks).2 ≤ line.length :=
  skip_le inside

theorem Yields.imp {α : Type} {s : Nat} {P Q : α → List (Token Span) → Prop}
    {x : Except Stop (α × Nat)} (yields : Yields line s P x) (weaker : ∀ a ts, P a ts → Q a ts) :
    Yields line s Q x := by
  cases x with
  | error stop => cases stop with
    | panic message => trivial
    | unfinished => exact yields
  | ok r =>
      obtain ⟨inside, ts, read, holds⟩ := yields
      exact ⟨inside, ts, read, weaker _ _ holds⟩

/-- A command is returned behind white space only. -/
theorem Yields.peeked {α : Type} {s : Nat} {P : α → List (Token Span) → Prop} {a : α}
    (toks : List UInt8) (inside : s ≤ line.length) (holds : P a []) :
    Yields line s P (.ok (a, (peek line s toks).2)) := by
  refine ⟨peek_le inside toks, [], ?_, holds⟩
  rw [tokens_peek, List.nil_append]

/-- The same, for what starts behind the white space. -/
theorem Yields.of_peek {α : Type} {s : Nat} {P : α → List (Token Span) → Prop}
    {x : Except Stop (α × Nat)} (toks : List UInt8)
    (behind : Yields line (peek line s toks).2 P x) :
    Yields line s P x := by
  cases x with
  | error stop => cases stop with
    | panic message => trivial
    | unfinished => exact behind
  | ok r =>
      obtain ⟨inside, ts, read, holds⟩ := behind
      rw [tokens_peek] at read
      exact ⟨inside, ts, read, holds⟩

/-- What starts behind a token. -/
theorem Yields.of_token {α : Type} {s : Nat} {t : Token Span} {ts : List (Token Span)}
    {P : α → List (Token Span) → Prop} {x : Except Stop (α × Nat)}
    (list : tokens line s = t :: ts)
    (behind : Yields line (gettoken line s).2 (fun a later => P a (t :: later)) x) :
    Yields line s P x := by
  obtain ⟨-, rest, -⟩ := gettoken_of_tokens list
  cases x with
  | error stop => cases stop with
    | panic message => trivial
    | unfinished => exact behind
  | ok r =>
      obtain ⟨inside, later, read, holds⟩ := behind
      refine ⟨inside, t :: later, ?_, holds⟩
      rw [list, ← rest, read, List.cons_append]

/-- What is returned last. -/
theorem Yields.done {α : Type} {s : Nat} {P : α → List (Token Span) → Prop} {a : α}
    (inside : s ≤ line.length) (holds : P a []) : Yields line s P (.ok (a, s)) :=
  ⟨inside, [], rfl, holds⟩

@[simp]
theorem gettoken_peek (s : Nat) (toks : List UInt8) :
    gettoken line (peek line s toks).2 = gettoken line s :=
  gettoken_start line s

theorem gettoken_le {s : Nat} {t : Token Span} {ts : List (Token Span)}
    (list : tokens line s = t :: ts) : (gettoken line s).2 ≤ line.length := by
  obtain ⟨same, -, more⟩ := gettoken_of_tokens list
  rw [← same] at more
  exact (gettoken_later more).2

theorem parseredirs_yields {n s : Nat} (inside : s ≤ line.length)
    (enough : (tokens line s).length < n) :
    Yields line s (fun rs ts => Args [] rs ts) (parseredirs line n s) := by
  induction n generalizing s with
  | zero => cases enough
  | succ n ih =>
      rw [parseredirs]
      by_cases more : (peek line s [less, greater]).1 = true
      · obtain ⟨op, ts, list, known⟩ := peek_redir_iff.mp more
        obtain ⟨same, rest, -⟩ := gettoken_of_tokens list
        rw [if_pos more, gettoken_peek]
        dsimp only
        by_cases is_word : (gettoken line (gettoken line s).2).1.ret = word
        · have second : tokens line (gettoken line s).2 = _ :=
            tokens_cons (by rw [is_word]; decide)
          rw [list, ← rest, second, List.length_cons, List.length_cons] at enough
          rw [if_neg (not_not.mpr is_word)]
          apply Yields.of_token list
          apply Yields.of_token second
          apply (ih (gettoken_le second) (by omega)).bind
          intro r later inside' read all
          apply Yields.done inside'
          rw [List.append_nil, same]
          have known_word : (gettoken line (gettoken line s).2).1 =
              ⟨word, (gettoken line (gettoken line s).2).1.text⟩ := by
            rw [← is_word]
          rw [known_word]
          exact Args.redir known all
        · rw [if_pos is_word]
          trivial
      · rw [if_neg more]
        exact Yields.peeked _ inside .nil

theorem token_eq {t : Token Span} {ret : UInt8} (same : t.ret = ret) : t = ⟨ret, t.text⟩ := by
  rw [← same]

theorem parseargs_yields {n argc s : Nat} (inside : s ≤ line.length) (few : argc < maxArgs)
    (enough : (tokens line s).length < n) :
    Yields line s (fun r ts => Args r.1 r.2 ts ∧ argc + r.1.length < maxArgs)
      (parseargs line n argc s) := by
  induction n generalizing s argc with
  | zero => cases enough
  | succ n ih =>
      rw [parseargs]
      dsimp only
      split
      · exact Yields.peeked _ inside ⟨.nil, few⟩
      · rw [gettoken_peek]
        by_cases ended : (gettoken line s).1.ret = 0
        · rw [if_pos ended]
          rw [gettoken_ended ended]
          exact Yields.peeked [] inside ⟨.nil, few⟩
        · have list := tokens_cons ended
          rw [if_neg ended]
          split
          · trivial
          · next is_word =>
              have is_word := not_not.mp is_word
              split
              · trivial
              · next room =>
                  rw [list, List.length_cons] at enough
                  apply Yields.of_token list
                  apply (parseredirs_yields (gettoken_le list) (by omega)).bind
                  intro r ts inside' read front
                  rw [read, List.length_append] at enough
                  apply (ih inside' (by omega) (by omega)).bind
                  rintro q later inside'' - ⟨behind, fewer⟩
                  refine Yields.done inside'' ⟨?_, ?_⟩
                  · rw [List.append_nil, token_eq is_word]
                    exact Args.word (Args.append front behind)
                  · rw [List.length_cons]
                    omega

theorem parseblock_yields {n s : Nat} {parseline : Parser}
    (enough : (tokens line s).length < n + 1)
    (lines : ∀ s, s ≤ line.length → (tokens line s).length < n →
      Yields line s (Parses .line) (parseline s)) :
    Yields line s (Parses .exec) (parseblock line (n + 1) parseline s) := by
  rw [parseblock]
  dsimp only
  split
  · trivial
  · next opened =>
      have opened : (peek line s [left]).1 = true := by simpa using opened
      obtain ⟨opening, ts, list, is_left⟩ := (peek_symbol_iff (by decide) (by decide)).mp opened
      have is_left := List.mem_singleton.mp is_left
      obtain ⟨same, rest, -⟩ := gettoken_of_tokens list
      rw [list, List.length_cons, ← rest] at enough
      rw [gettoken_peek]
      apply Yields.of_token list
      apply (lines _ (gettoken_le list) (by omega)).bind
      intro inner ts' inside' read parses
      split
      · trivial
      · next closed =>
          have closed : (peek line inner.2 [right]).1 = true := by simpa using closed
          obtain ⟨closing, later, list', is_right⟩ :=
            (peek_symbol_iff (by decide) (by decide)).mp closed
          have is_right := List.mem_singleton.mp is_right
          obtain ⟨-, rest', -⟩ := gettoken_of_tokens list'
          rw [read, list', List.length_append, List.length_cons, ← rest'] at enough
          rw [gettoken_peek]
          apply Yields.of_token list'
          apply (parseredirs_yields (gettoken_le list') (by omega)).bind
          intro r ts₂ inside₂ _ behind
          apply Yields.done inside₂
          rw [List.append_nil, token_eq is_left, token_eq is_right]
          exact Parses.block parses behind

theorem parseexec_yields {n s : Nat} {parseline : Parser} (inside : s ≤ line.length)
    (enough : (tokens line s).length < n + 1)
    (lines : ∀ s, s ≤ line.length → (tokens line s).length < n →
      Yields line s (Parses .line) (parseline s)) :
    Yields line s (Parses .exec) (parseexec line (n + 1) parseline s) := by
  rw [parseexec]
  apply Yields.of_peek [left]
  have inside' := peek_le inside [left]
  rw [← tokens_peek line s [left]] at enough
  split
  · exact parseblock_yields enough lines
  · apply (parseredirs_yields inside' enough).bind
    intro r ts inside₂ read front
    rw [read, List.length_append] at enough
    apply (parseargs_yields inside₂ (by decide) (by omega)).bind
    rintro q later inside₃ - ⟨behind, few⟩
    apply Yields.done inside₃
    rw [List.append_nil]
    exact Parses.args (by omega) (front.append behind)

theorem parsepipe_yields {n s : Nat} {parseexec : Parser} (inside : s ≤ line.length)
    (enough : (tokens line s).length < n)
    (execs : ∀ later, later ≤ line.length → (tokens line later).length ≤ (tokens line s).length →
      Yields line later (Parses .exec) (parseexec later)) :
    Yields line s (Parses .pipe) (parsepipe line parseexec n s) := by
  induction n generalizing s with
  | zero => cases enough
  | succ n ih =>
      rw [parsepipe]
      apply (execs s inside (le_refl _)).bind
      intro first ts inside' read front
      dsimp only
      split
      · next more =>
          obtain ⟨sign, later, list, is_bar⟩ := (peek_symbol_iff (by decide) (by decide)).mp more
          have is_bar := List.mem_singleton.mp is_bar
          obtain ⟨-, rest, -⟩ := gettoken_of_tokens list
          rw [gettoken_peek]
          apply Yields.of_token list
          rw [read, list, List.length_append, List.length_cons, ← rest] at enough
          have shorter : (tokens line (gettoken line first.2).2).length ≤
              (tokens line s).length := by
            rw [read, list, List.length_append, List.length_cons, ← rest]
            omega
          apply (ih (gettoken_le list) (by omega) fun t inside few =>
            execs t inside (few.trans shorter)).bind
          intro r ts₂ inside₂ _ behind
          apply Yields.done inside₂
          rw [List.append_nil, token_eq is_bar]
          exact Parses.pipe front behind
      · apply Yields.peeked _ inside'
        rw [List.append_nil]
        exact Parses.single front

theorem parsebacks_yields {n s : Nat} {cmd : Cmd Span} (inside : s ≤ line.length)
    (enough : (tokens line s).length < n) :
    Yields line s (fun backed amps => (∀ t ∈ amps, t.ret = amp) ∧
      backed = Cmd.back^[amps.length] cmd) (parsebacks line n cmd s) := by
  induction n generalizing s cmd with
  | zero => cases enough
  | succ n ih =>
      rw [parsebacks]
      dsimp only
      split
      · next more =>
          obtain ⟨sign, later, list, is_amp⟩ := (peek_symbol_iff (by decide) (by decide)).mp more
          have is_amp := List.mem_singleton.mp is_amp
          obtain ⟨-, rest, -⟩ := gettoken_of_tokens list
          rw [list, List.length_cons, ← rest] at enough
          rw [gettoken_peek]
          apply Yields.of_token list
          apply (ih (gettoken_le list) (by omega)).imp
          rintro backed amps ⟨all, same⟩
          refine ⟨List.forall_mem_cons.mpr ⟨is_amp, all⟩, ?_⟩
          rw [same, List.length_cons, Function.iterate_succ_apply]
      · apply Yields.peeked _ inside
        exact ⟨by simp, rfl⟩

theorem parseline_yields {n s : Nat} (inside : s ≤ line.length)
    (enough : (tokens line s).length < n) :
    Yields line s (Parses .line) (parseline line n s) := by
  induction n generalizing s with
  | zero => cases enough
  | succ n ih =>
      rw [parseline]
      apply (parsepipe_yields inside enough fun later inside' fewer =>
        parseexec_yields inside' (by omega) fun t => ih).bind
      intro first ts inside₁ read front
      rw [read, List.length_append] at enough
      apply (parsebacks_yields inside₁ (by omega)).bind
      rintro backed amps inside₂ read₂ ⟨all, same⟩
      rw [read₂, List.length_append] at enough
      dsimp only
      split
      · next more =>
          obtain ⟨sign, later, list, is_semi⟩ := (peek_symbol_iff (by decide) (by decide)).mp more
          have is_semi := List.mem_singleton.mp is_semi
          obtain ⟨-, rest, -⟩ := gettoken_of_tokens list
          rw [list, List.length_cons, ← rest] at enough
          rw [gettoken_peek]
          apply Yields.of_token list
          apply (ih (gettoken_le list) (by omega)).bind
          intro r ts₂ inside₃ _ behind
          apply Yields.done inside₃
          rw [List.append_nil, token_eq is_semi, same, ← List.append_assoc]
          exact Parses.list front all behind
      · apply Yields.peeked _ inside₂
        rw [List.append_nil, same]
        exact Parses.last front all

end

/-! ## What is in the grammar is accepted -/

section

variable {line : List UInt8}

/-- The tokens that may stand behind what is read. -/
def Level.follow : Level → List UInt8
  | .exec => [bar, right, amp, semi]
  | .pipe => [right, amp, semi]
  | .line => [right]

/-- The reading ends where such a token stands, or at the end of the line. -/
def Ends (toks : List UInt8) (rest : List (Token Span)) : Prop := ∀ t ∈ rest.head?, t.ret ∈ toks

/-- A parsing function returns this and leaves these tokens. -/
def Accepts {α : Type} (line : List UInt8) (a : α) (rest : List (Token Span))
    (x : Except Stop (α × Nat)) : Prop :=
  ∃ s, x = .ok (a, s) ∧ tokens line s = rest

/-- No redirection starts where a command ends. -/
theorem Ends.no_redir {rest : List (Token Span)} (ends : Ends (Level.follow .exec) rest) :
    ∀ t ∈ rest.head?, t.ret ∉ redirs := by
  have apart : ((Level.follow .exec).all fun ret => ret ∉ redirs) = true := by decide
  intro t first
  exact of_decide_eq_true (List.all_eq_true.mp apart _ (ends t first))

theorem Accepts.bind {α β : Type} {a : α} {b : β} {middle rest : List (Token Span)}
    {x : Except Stop (α × Nat)} {f : α × Nat → Except Stop (β × Nat)}
    (first : Accepts line a middle x)
    (next : ∀ s, tokens line s = middle → Accepts line b rest (f (a, s))) :
    Accepts line b rest (x >>= f) := by
  obtain ⟨s, rfl, left_over⟩ := first
  exact next s left_over

theorem accepts_peeked {α : Type} {a : α} {s : Nat} {toks : List UInt8} :
    Accepts line a (tokens line s) (.ok (a, (peek line s toks).2)) :=
  ⟨_, rfl, tokens_peek line s toks⟩

theorem Ends.peek_eq_false {s : Nat} {toks : List UInt8} (ends : Ends toks (tokens line s))
    (later : List UInt8) (all : later ⊆ symbols) (no_greater : greater ∉ later)
    (apart : (toks.all fun t => t ∉ later) = true) : (peek line s later).1 = false := by
  rw [← Bool.not_eq_true, peek_symbol_iff all no_greater]
  rintro ⟨t, ts, list, found⟩
  rw [list] at ends
  exact of_decide_eq_true (List.all_eq_true.mp apart _ (ends t rfl)) found

theorem parseredirs_accepts {rs : List (UInt8 × Span)} {ts rest : List (Token Span)} {n s : Nat}
    (all : Args [] rs ts) (list : tokens line s = ts ++ rest)
    (ended : ∀ t ∈ rest.head?, t.ret ∉ redirs) (enough : (tokens line s).length < n) :
    Accepts line rs rest (parseredirs line n s) := by
  induction n generalizing s rs ts with
  | zero => cases enough
  | succ n ih =>
      rw [parseredirs]
      cases all with
      | nil =>
          rw [List.nil_append] at list
          have quiet : ¬ (peek line s [less, greater]).1 = true := by
            rw [peek_redir_iff, list]
            rintro ⟨t, ts, rfl, found⟩
            exact ended t rfl found
          rw [if_neg quiet, ← list]
          exact accepts_peeked
      | redir known later =>
          rw [List.cons_append, List.cons_append] at list
          have more := peek_redir_iff.mpr ⟨_, _, list, known⟩
          obtain ⟨same, list₂, -⟩ := gettoken_of_tokens list
          obtain ⟨same₂, list₃, -⟩ := gettoken_of_tokens list₂
          rw [list, List.length_cons, List.length_cons, ← list₃] at enough
          rw [if_pos more, gettoken_peek]
          dsimp only
          rw [same₂, if_neg (not_not.mpr rfl), same]
          apply (ih later list₃ (by omega)).bind
          intro s' left_over
          exact ⟨s', rfl, left_over⟩

theorem word_ne_zero : word ≠ 0 := by
  decide

theorem word_ne_left : word ≠ left := by
  decide

theorem parseargs_accepts {argv : List Span} {rs : List (UInt8 × Span)}
    {ts rest : List (Token Span)}
    {n argc s : Nat} (all : Args argv rs ts) (list : tokens line s = ts ++ rest)
    (leads : ∀ t ∈ ts.head?, t.ret = word) (ended : Ends (Level.follow .exec) rest)
    (few : argc + argv.length < maxArgs)
    (enough : (tokens line s).length < n) :
    Accepts line (argv, rs) rest (parseargs line n argc s) := by
  induction n generalizing s rs ts argv argc with
  | zero => cases enough
  | succ n ih =>
      rw [parseargs]
      dsimp only
      cases all with
      | nil =>
          rw [List.nil_append] at list
          cases rest with
          | nil =>
              have at_end := tokens_eq_nil_iff.mp list
              rw [peek_nil (by decide) list, if_neg Bool.false_ne_true, gettoken_peek,
                if_pos at_end, gettoken_ended at_end]
              exact ⟨_, rfl, (tokens_start line s).trans list⟩
          | cons t rest =>
              have stops : (peek line s [bar, right, amp, semi]).1 = true :=
                (peek_cons (by decide) (by decide) list).mpr (ended t rfl)
              rw [if_pos stops, ← list]
              exact accepts_peeked
      | @redir op _ _ _ _ _ known later =>
          have is_word : op = word := leads _ rfl
          rw [is_word] at known
          exact absurd known (by decide)
      | word later =>
          rw [List.cons_append] at list
          obtain ⟨same, list₂, -⟩ := gettoken_of_tokens list
          have goes_on : ¬ (peek line s [bar, right, amp, semi]).1 = true := by
            rw [peek_cons (by decide) (by decide) list]
            change word ∉ _
            decide
          rw [List.length_cons] at few
          rw [if_neg goes_on, gettoken_peek, same, if_neg word_ne_zero, if_neg (not_not.mpr rfl),
            if_neg (by omega)]
          obtain ⟨rs₁, rs₂, ts₁, ts₂, rfl, rfl, front, behind, leads⟩ := later.split
          rw [List.append_assoc] at list₂
          rw [list, List.length_cons, List.append_assoc, ← list₂] at enough
          have other : ∀ t ∈ (ts₂ ++ rest).head?, t.ret ∉ redirs := by
            intro t first
            cases ts₂ with
            | nil =>
                rw [List.nil_append] at first
                exact ended.no_redir t first
            | cons u ts₂ =>
                rw [leads t first]
                decide
          apply (parseredirs_accepts front list₂ other (by omega)).bind
          intro s₁ list₃
          have fewer : (tokens line s₁).length < n := by
            rw [list₂, List.length_append] at enough
            rw [list₃]
            omega
          apply (ih behind list₃ leads (by omega) fewer).bind
          intro s₂ left_over
          exact ⟨s₂, rfl, left_over⟩

/-- The parser of a level accepts these tokens as this command. -/
def Level.Accepted (line : List UInt8) : Level → Cmd Span → List (Token Span) → Prop
  | .exec, cmd, ts => ∀ n s rest, tokens line s = ts ++ rest → Ends (Level.follow .exec) rest →
      (tokens line s).length < n + 1 →
      Accepts line cmd rest (parseexec line (n + 1) (parseline line n) s)
  | .pipe, cmd, ts => ∀ n k s rest, tokens line s = ts ++ rest → Ends (Level.follow .pipe) rest →
      (tokens line s).length < n + 1 → (tokens line s).length < k →
      Accepts line cmd rest (parsepipe line (parseexec line (n + 1) (parseline line n)) k s)
  | .line, cmd, ts => ∀ n s rest, tokens line s = ts ++ rest → Ends (Level.follow .line) rest →
      (tokens line s).length < n → Accepts line cmd rest (parseline line n s)

theorem Ends.weaken {toks more : List UInt8} {rest : List (Token Span)} (ends : Ends toks rest)
    (all : toks ⊆ more) : Ends more rest :=
  fun t first => all (ends t first)

theorem args_accepted {argv : List Span} {rs : List (UInt8 × Span)} {ts : List (Token Span)}
    (few : argv.length < maxArgs) (all : Args argv rs ts) :
    Level.Accepted line .exec (wrap rs (.exec argv)) ts := by
  intro n s rest list ended enough
  have no_block : ¬ (peek line s [left]).1 = true := by
    rw [peek_symbol_iff (by decide) (by decide), list]
    rintro ⟨t, later, split, is_left⟩
    have is_left := List.mem_singleton.mp is_left
    cases all with
    | nil =>
        rw [List.nil_append] at split
        subst split
        have follows := ended t rfl
        rw [is_left] at follows
        exact absurd follows (by decide)
    | @redir op _ _ _ _ _ known _ =>
        cases split
        have is_left : op = left := is_left
        rw [is_left] at known
        exact absurd known (by decide)
    | word _ =>
        cases split
        exact word_ne_left is_left
  obtain ⟨rs₁, rs₂, ts₁, ts₂, rfl, rfl, front, behind, leads⟩ := all.split
  rw [parseexec, if_neg no_block]
  rw [← tokens_peek line s [left], List.append_assoc] at list
  rw [← tokens_peek line s [left]] at enough
  have other : ∀ t ∈ (ts₂ ++ rest).head?, t.ret ∉ redirs := by
    intro t first
    cases ts₂ with
    | nil => exact ended.no_redir t first
    | cons u ts₂ =>
        rw [leads t first]
        decide
  apply (parseredirs_accepts front list other enough).bind
  intro s₁ list₁
  have fewer : (tokens line s₁).length < n + 1 := by
    rw [list, List.length_append] at enough
    rw [list₁]
    omega
  apply (parseargs_accepts behind list₁ leads ended (by omega) fewer).bind
  intro s₂ left_over
  exact ⟨s₂, rfl, left_over⟩

theorem block_accepted {opening closing : Span} {cmd : Cmd Span} {rs : List (UInt8 × Span)}
    {ts later : List (Token Span)} (inner : Level.Accepted line .line cmd ts)
    (behind : Args [] rs later) :
    Level.Accepted line .exec (wrap rs cmd)
      (⟨left, opening⟩ :: (ts ++ ⟨right, closing⟩ :: later)) := by
  intro n s rest list ended enough
  rw [List.cons_append, List.append_assoc, List.cons_append] at list
  have opens : (peek line s [left]).1 = true :=
    (peek_cons (by decide) (by decide) list).mpr (List.mem_singleton.mpr rfl)
  have list' := list
  rw [← tokens_peek line s [left]] at list'
  have opens' : (peek line (peek line s [left]).2 [left]).1 = true :=
    (peek_cons (by decide) (by decide) list').mpr (List.mem_singleton.mpr rfl)
  obtain ⟨-, list₁, -⟩ := gettoken_of_tokens list
  rw [list, List.length_cons, ← list₁] at enough
  rw [parseexec]
  rw [if_pos opens, parseblock, opens']
  dsimp only
  rw [Bool.not_true, if_neg Bool.false_ne_true, gettoken_peek, gettoken_peek]
  apply (inner n _ _ list₁ (by rintro t ⟨⟩; exact List.mem_singleton.mpr rfl) (by omega)).bind
  intro s₁ list₂
  have closes : (peek line s₁ [right]).1 = true :=
    (peek_cons (by decide) (by decide) list₂).mpr (List.mem_singleton.mpr rfl)
  obtain ⟨-, list₃, -⟩ := gettoken_of_tokens list₂
  rw [closes, Bool.not_true, if_neg Bool.false_ne_true, gettoken_peek]
  have fewer : (tokens line (gettoken line s₁).2).length < n + 1 := by
    rw [list₁, List.length_append, List.length_cons] at enough
    rw [list₃]
    omega
  apply (parseredirs_accepts behind list₃ ended.no_redir fewer).bind
  intro s₂ left_over
  exact ⟨s₂, rfl, left_over⟩

theorem single_accepted {cmd : Cmd Span} {ts : List (Token Span)}
    (only : Level.Accepted line .exec cmd ts) : Level.Accepted line .pipe cmd ts := by
  intro n k s rest list ended enough few
  cases k with
  | zero => cases few
  | succ k =>
      rw [parsepipe]
      have closes : Ends (Level.follow .exec) rest := ended.weaken (by decide)
      apply (only n s rest list closes enough).bind
      intro s₁ left_over
      rw [← left_over] at ended
      have no_more := ended.peek_eq_false [bar] (by decide) (by decide) (by decide)
      dsimp only
      rw [no_more, if_neg Bool.false_ne_true, ← left_over]
      exact accepts_peeked

theorem pipe_accepted {sign : Span} {first rest : Cmd Span} {ts later : List (Token Span)}
    (front : Level.Accepted line .exec first ts) (behind : Level.Accepted line .pipe rest later) :
    Level.Accepted line .pipe (.pipe first rest) (ts ++ ⟨bar, sign⟩ :: later) := by
  intro n k s unread list ended enough few
  cases k with
  | zero => cases few
  | succ k =>
      rw [List.append_assoc, List.cons_append] at list
      rw [parsepipe]
      apply (front n s _ list (by rintro t ⟨⟩; exact List.mem_cons_self) enough).bind
      intro s₁ list₁
      have more : (peek line s₁ [bar]).1 = true :=
        (peek_cons (by decide) (by decide) list₁).mpr (List.mem_singleton.mpr rfl)
      obtain ⟨-, list₂, -⟩ := gettoken_of_tokens list₁
      rw [list, List.length_append, List.length_cons, ← list₂] at enough few
      dsimp only
      rw [if_pos more, gettoken_peek]
      apply (behind n k _ unread list₂ ended (by omega) (by omega)).bind
      intro s₂ left_over
      exact ⟨s₂, rfl, left_over⟩

theorem parsebacks_accepts {cmd : Cmd Span} {amps rest : List (Token Span)} {n s : Nat}
    (backs : ∀ t ∈ amps, t.ret = amp) (list : tokens line s = amps ++ rest)
    (ended : Ends [semi, right] rest) (enough : (tokens line s).length < n) :
    Accepts line (Cmd.back^[amps.length] cmd) rest (parsebacks line n cmd s) := by
  induction n generalizing s cmd amps with
  | zero => cases enough
  | succ n ih =>
      rw [parsebacks]
      dsimp only
      cases amps with
      | nil =>
          rw [List.nil_append] at list
          rw [← list] at ended
          have no_more := ended.peek_eq_false [amp] (by decide) (by decide) (by decide)
          rw [no_more, if_neg Bool.false_ne_true, ← list]
          exact accepts_peeked
      | cons t amps =>
          obtain ⟨is_amp, others⟩ := List.forall_mem_cons.mp backs
          rw [List.cons_append] at list
          have more : (peek line s [amp]).1 = true :=
            (peek_cons (by decide) (by decide) list).mpr (List.mem_singleton.mpr is_amp)
          obtain ⟨-, list₁, -⟩ := gettoken_of_tokens list
          rw [list, List.length_cons, ← list₁] at enough
          rw [if_pos more, gettoken_peek, List.length_cons, Function.iterate_succ_apply]
          exact ih others list₁ (by omega)

/-- The pipeline at the front of a line and its `&` are read. -/
theorem backed_accepts {α : Type} {a : α} {cmd : Cmd Span}
    {ts amps rest unread : List (Token Span)} {n s : Nat}
    {f : Cmd Span × Nat → Except Stop (α × Nat)}
    (front : Level.Accepted line .pipe cmd ts) (backs : ∀ t ∈ amps, t.ret = amp)
    (list : tokens line s = ts ++ amps ++ rest) (ended : Ends [semi, right] rest)
    (enough : (tokens line s).length < n + 1)
    (next : ∀ s', tokens line s' = rest →
      Accepts line a unread (f (Cmd.back^[amps.length] cmd, s'))) :
    Accepts line a unread
      (parsepipe line (parseexec line (n + 1) (parseline line n)) (n + 1) s >>= fun first =>
        parsebacks line (n + 1) first.1 first.2 >>= f) := by
  rw [List.append_assoc] at list
  have closes : Ends (Level.follow .pipe) (amps ++ rest) := by
    cases amps with
    | nil => exact ended.weaken (by decide)
    | cons t amps =>
        rintro u ⟨⟩
        rw [backs t List.mem_cons_self]
        decide
  apply (front n (n + 1) s _ list closes enough enough).bind
  intro s₁ list₁
  have fewer : (tokens line s₁).length < n + 1 := by
    rw [list, List.length_append] at enough
    rw [list₁]
    omega
  exact (parsebacks_accepts backs list₁ ended fewer).bind next

theorem last_accepted {cmd : Cmd Span} {ts amps : List (Token Span)}
    (front : Level.Accepted line .pipe cmd ts) (backs : ∀ t ∈ amps, t.ret = amp) :
    Level.Accepted line .line (Cmd.back^[amps.length] cmd) (ts ++ amps) := by
  intro n s rest list ended enough
  cases n with
  | zero => cases enough
  | succ n =>
      rw [parseline]
      apply backed_accepts front backs list (ended.weaken (by decide)) enough
      intro s₁ left_over
      rw [← left_over] at ended
      have no_more := ended.peek_eq_false [semi] (by decide) (by decide) (by decide)
      dsimp only
      rw [no_more, if_neg Bool.false_ne_true, ← left_over]
      exact accepts_peeked

theorem list_accepted {sign : Span} {cmd rest : Cmd Span} {ts amps later : List (Token Span)}
    (front : Level.Accepted line .pipe cmd ts) (backs : ∀ t ∈ amps, t.ret = amp)
    (behind : Level.Accepted line .line rest later) :
    Level.Accepted line .line (.list (Cmd.back^[amps.length] cmd) rest)
      (ts ++ amps ++ ⟨semi, sign⟩ :: later) := by
  intro n s unread list ended enough
  cases n with
  | zero => cases enough
  | succ n =>
      rw [List.append_assoc (ts ++ amps), List.cons_append] at list
      rw [parseline]
      apply backed_accepts front backs list (by rintro t ⟨⟩; exact List.mem_cons_self) enough
      intro s₁ list₁
      have more : (peek line s₁ [semi]).1 = true :=
        (peek_cons (by decide) (by decide) list₁).mpr (List.mem_singleton.mpr rfl)
      obtain ⟨-, list₂, -⟩ := gettoken_of_tokens list₁
      rw [list, List.length_append, List.length_cons, ← list₂] at enough
      dsimp only
      rw [if_pos more, gettoken_peek]
      apply (behind n _ unread list₂ ended (by omega)).bind
      intro s₂ left_over
      exact ⟨s₂, rfl, left_over⟩

theorem Parses.accepted {level : Level} {cmd : Cmd Span} {ts : List (Token Span)}
    (parses : Parses level cmd ts) : level.Accepted line cmd ts := by
  induction parses with
  | args few all => exact args_accepted few all
  | block _ behind ih => exact block_accepted ih behind
  | single _ ih => exact single_accepted ih
  | pipe _ _ first rest => exact pipe_accepted first rest
  | last _ backs ih => exact last_accepted ih backs
  | list _ backs _ first rest => exact list_accepted first backs rest

end

/-! ## The whole line -/

theorem parseline_whole (line : CString) :
    Yields line.chars 0 (Parses .line) (parseline line.chars (line.chars.length + 1) 0) :=
  parseline_yields (Nat.zero_le _) (Nat.lt_succ_of_le (length_tokens_le line.chars 0))

/-- `parsecmd` returns a command exactly if the line stands for it. -/
theorem parsecmd_eq_ok_iff (line : CString) (cmd : Cmd Span) (view : List UInt8) :
    parsecmd line = .ok (cmd, view) ↔
      Parses .line cmd (tokens line.chars 0) ∧ view = nulterminate line.chars cmd := by
  have yields := parseline_whole line
  constructor
  · intro returned
    rw [parsecmd] at returned
    obtain ⟨r, read, returned⟩ := Except.bind_eq_ok.mp returned
    rw [read] at yields
    obtain ⟨inside, ts, list, parses⟩ := yields
    dsimp only at returned
    split at returned
    · cases returned
    · next whole =>
        have at_end := (peek_end_iff line inside).mp (not_not.mp whole)
        cases returned
        rw [list, at_end, List.append_nil]
        exact ⟨parses, rfl⟩
  · rintro ⟨parses, rfl⟩
    obtain ⟨s, read, left_over⟩ :=
      parses.accepted (line.chars.length + 1) 0 [] (List.append_nil _).symm (by rintro t ⟨⟩)
        (Nat.lt_succ_of_le (length_tokens_le line.chars 0))
    rw [read] at yields
    obtain ⟨inside, -⟩ := yields
    rw [parsecmd, read]
    change (if (peek line.chars s []).2 ≠ line.chars.length then _ else _) = _
    rw [if_neg (not_not.mpr ((peek_end_iff line inside).mpr left_over))]

/-- The model always counts far enough. -/
theorem parsecmd_ne_unfinished (line : CString) : parsecmd line ≠ .error .unfinished := by
  intro stopped
  have yields := parseline_whole line
  rw [parsecmd] at stopped
  cases read : parseline line.chars (line.chars.length + 1) 0 with
  | error stop =>
      rw [read] at stopped yields
      cases stopped
      exact yields
  | ok r =>
      rw [read] at stopped
      change (if _ then _ else _) = _ at stopped
      split at stopped
      · cases stopped
      · cases stopped

end Mysh
end Xv6Duo

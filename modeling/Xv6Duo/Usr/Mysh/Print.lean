import Xv6Duo.Usr.Mysh.Strings

/-!
# Writing commands down

The commands that some line stands for, and a line for each of them.
-/

namespace Xv6Duo
namespace Mysh

open ByteBlock (CString)

/-! ## Commands with a line -/

/-- The text of a word. -/
def IsWord (text : List UInt8) : Prop := text ≠ [] ∧ ∀ b ∈ text, inWord b = true ∧ b ≠ 0

instance (text : List UInt8) : Decidable (IsWord text) := inferInstanceAs (Decidable (_ ∧ _))

/-- The token of a redirection. -/
def Mode.op : Mode → UInt8
  | rdonly => less
  | trunc => greater
  | append => plus

/-- The descriptor that is redirected. -/
def Mode.fd : Mode → Nat
  | rdonly => 0
  | trunc => 1
  | append => 1

/-- A command that a line can stand for. -/
def Cmd.Printable : Cmd (List UInt8) → Prop
  | exec argv => argv.length < maxArgs ∧ ∀ text ∈ argv, IsWord text
  | redir cmd file mode fd => Printable cmd ∧ IsWord file ∧ fd = mode.fd
  | pipe left right => Printable left ∧ Printable right
  | list left right => Printable left ∧ Printable right
  | back cmd => Printable cmd

/-- The token of a symbol. -/
def sign (ret : UInt8) : Token (List UInt8) :=
  { ret := ret, text := if ret = plus then [greater, greater] else [ret] }

/-- Tokens in parentheses. -/
def parens (ts : List (Token (List UInt8))) : List (Token (List UInt8)) :=
  sign left :: (ts ++ [sign right])

/-- The tokens of a command, for the part of a line that it is to be. -/
def Cmd.unparse : Level → Cmd (List UInt8) → List (Token (List UInt8))
  | _, exec argv => argv.map fun text => { ret := word, text := text }
  | _, redir cmd file mode _ =>
      unparse .exec cmd ++ [sign mode.op, { ret := word, text := file }]
  | .exec, pipe left right => parens (unparse .exec left ++ sign bar :: unparse .pipe right)
  | _, pipe left right => unparse .exec left ++ sign bar :: unparse .pipe right
  | .line, list left right => unparse .pipe left ++ sign semi :: unparse .line right
  | _, list left right => parens (unparse .pipe left ++ sign semi :: unparse .line right)
  | .line, back cmd => unparse .pipe cmd ++ [sign amp]
  | _, back cmd => parens (unparse .pipe cmd ++ [sign amp])

theorem Parses.lift {cmd : Cmd (List UInt8)} {ts : List (Token (List UInt8))}
    (parses : Parses .pipe cmd ts) : Parses .line cmd ts := by
  have whole := @Parses.last _ cmd ts [] parses (by simp)
  rwa [List.append_nil] at whole

theorem Parses.parens {cmd : Cmd (List UInt8)} {ts : List (Token (List UInt8))}
    (parses : Parses .line cmd ts) : Parses .exec cmd (Mysh.parens ts) :=
  @Parses.block _ _ _ cmd [] ts [] parses .nil

theorem redircmd_op {mode : Mode} (file : List UInt8) (cmd : Cmd (List UInt8)) :
    redircmd mode.op file cmd = .redir cmd file mode mode.fd := by
  cases mode <;> rfl

theorem op_redirs (mode : Mode) : mode.op ∈ redirs := by
  cases mode <;> decide

/-- A redirection behind a command. -/
theorem Parses.redir {cmd : Cmd (List UInt8)} {ts : List (Token (List UInt8))} (mode : Mode)
    (file : List UInt8) (parses : Parses .exec cmd ts) :
    Parses .exec (.redir cmd file mode mode.fd)
      (ts ++ [sign mode.op, { ret := Mysh.word, text := file }]) := by
  have one : Args [] [(mode.op, file)] [sign mode.op, { ret := Mysh.word, text := file }] :=
    .redir (op_redirs mode) .nil
  rw [← redircmd_op]
  cases parses with
  | @args argv rs _ few all =>
      have more := Parses.args (by simpa using few) (all.append one)
      rw [List.append_nil, wrap, List.foldl_append] at more
      exact more
  | @block opening closing cmd rs ts later inner behind =>
      have more := @Parses.block _ opening closing _ _ _ _ inner (behind.append one)
      rw [wrap, List.foldl_append] at more
      rw [List.cons_append, List.append_assoc, List.cons_append]
      exact more

theorem words_args {σ : Type} (argv : List σ) :
    Args argv [] (argv.map fun text => { ret := word, text := text }) := by
  induction argv with
  | nil => exact .nil
  | cons text argv ih => exact .word ih

theorem Cmd.Printable.parses {cmd : Cmd (List UInt8)} (printable : cmd.Printable) (level : Level) :
    Parses level cmd (cmd.unparse level) := by
  induction cmd generalizing level with
  | exec argv =>
      have only : Parses .exec (.exec argv) ((Cmd.exec argv).unparse level) :=
        @Parses.args _ argv [] _ printable.1 (words_args argv)
      cases level with
      | exec => exact only
      | pipe => exact .single only
      | line => exact (Parses.single only).lift
  | redir cmd file mode fd ih =>
      obtain ⟨inner, -, rfl⟩ := printable
      have only := (ih inner .exec).redir mode file
      cases level with
      | exec => exact only
      | pipe => exact .single only
      | line => exact (Parses.single only).lift
  | pipe left right ih ih' =>
      have whole := @Parses.pipe _ [bar] _ _ _ _ (ih printable.1 .exec) (ih' printable.2 .pipe)
      cases level with
      | exec => exact whole.lift.parens
      | pipe => exact whole
      | line => exact whole.lift
  | list left right ih ih' =>
      have whole := @Parses.list _ [semi] _ _ _ [] _ (ih printable.1 .pipe) (by simp)
        (ih' printable.2 .line)
      rw [List.append_nil] at whole
      cases level with
      | exec => exact whole.parens
      | pipe => exact .single whole.parens
      | line => exact whole
  | back cmd ih =>
      have whole := @Parses.last _ _ _ [sign amp] (ih printable .pipe) (by simp [sign])
      cases level with
      | exec => exact whole.parens
      | pipe => exact .single whole.parens
      | line => exact whole

/-! ## The text of tokens -/

/-- A space. -/
def space : UInt8 := 32

/-- A token that can be written down. -/
def Token.Plain (t : Token (List UInt8)) : Prop :=
  (t.ret = word ∧ IsWord t.text) ∨
    ∃ ret ∈ [bar, left, right, semi, amp, less, greater, plus], t = sign ret

/-- The text of tokens, with a space behind each. -/
def print (ts : List (Token (List UInt8))) : List UInt8 := ts.flatMap fun t => t.text ++ [space]

theorem print_cons (t : Token (List UInt8)) (ts : List (Token (List UInt8))) :
    print (t :: ts) = t.text ++ space :: print ts := by
  rw [print, List.flatMap_cons, List.append_assoc, print]
  rfl

/-- How the text of a token begins. -/
theorem Token.Plain.lead {t : Token (List UInt8)} (plain : t.Plain) :
    ∃ b later, t.text = b :: later ∧ whitespace.contains b = false ∧ b ≠ 0 := by
  rcases plain with ⟨-, some, all⟩ | ⟨ret, symbol, rfl⟩
  · obtain ⟨b, later, same⟩ := List.exists_cons_of_ne_nil some
    have first := all b (by rw [same]; exact List.mem_cons_self)
    have in_word := first.1
    rw [inWord, Bool.and_eq_true, Bool.not_eq_true'] at in_word
    exact ⟨b, later, same, in_word.1, first.2⟩
  · simp only [List.mem_cons, List.not_mem_nil, or_false] at symbol
    rcases symbol with rfl | rfl | rfl | rfl | rfl | rfl | rfl | rfl <;>
      exact ⟨_, _, rfl, by decide, by decide⟩

theorem Token.Plain.ret_ne_zero {t : Token (List UInt8)} (plain : t.Plain) : t.ret ≠ 0 := by
  rcases plain with ⟨ret, -⟩ | ⟨ret, symbol, rfl⟩
  · rw [ret]
    exact word_ne_zero
  · change ret ≠ 0
    rintro rfl
    exact absurd symbol (by decide)

theorem dropWhile_print {ts : List (Token (List UInt8))} (plain : ∀ t ∈ ts, t.Plain) :
    (print ts).dropWhile whitespace.contains = print ts := by
  cases ts with
  | nil => rfl
  | cons t ts =>
      obtain ⟨b, later, same, no_space, -⟩ := (plain t List.mem_cons_self).lead
      rw [print_cons, same, List.cons_append,
        List.dropWhile_cons_of_neg (by rw [no_space]; exact Bool.false_ne_true)]

theorem takeWhile_append_space {p : UInt8 → Bool} {bytes rest : List UInt8}
    (all : ∀ b ∈ bytes, p b = true) (stops : p space = false) :
    (bytes ++ space :: rest).takeWhile p = bytes := by
  rw [List.takeWhile_append_of_pos all,
    List.takeWhile_cons_of_neg (by rw [stops]; exact Bool.false_ne_true), List.append_nil]

theorem scan_symbol {line : List UInt8} {s : Nat} {ret : UInt8}
    (single : ret ∈ [bar, left, right, semi, amp, less]) (lead : byte line s = ret) :
    scan line s = (ret, s + 1) := by
  rw [← lead] at single ⊢
  exact scan_single single

/-- `>` and `>>`. -/
theorem scan_greater {line : List UInt8} {s : Nat} (lead : byte line s = greater) :
    scan line s =
      if byte line (s + 1) = greater then (plus, s + 2) else (greater, s + 1) := by
  rw [scan, lead, if_neg (by decide), if_neg (by decide), if_pos rfl]

/-- What `scan` makes of a word. -/
theorem scan_text {line text rest : List UInt8} {s : Nat} (is_word : IsWord text)
    (here : line.drop s = text ++ space :: rest) : scan line s = (word, s + text.length) := by
  obtain ⟨some, all⟩ := is_word
  obtain ⟨b, later, same⟩ := List.exists_cons_of_ne_nil some
  have lead : byte line s = b := by
    rw [byte_eq, here, same]
    rfl
  obtain ⟨in_word, nonzero⟩ := all b (by rw [same]; exact List.mem_cons_self)
  have no_symbol : b ∉ symbols := by
    rw [inWord, Bool.and_eq_true, Bool.not_eq_true', Bool.not_eq_true'] at in_word
    simpa using in_word.2
  rw [scan_word, skip, here,
    takeWhile_append_space (fun c among => (all c among).1) (by decide)]
  · rwa [lead]
  · rw [lead]
    intro single
    have among : [bar, left, right, semi, amp, less] ⊆ symbols := by decide
    exact no_symbol (among single)
  · rw [lead]
    rintro rfl
    exact no_symbol (by decide)

/-- What `scan` makes of the text of a token. -/
theorem scan_plain {line rest : List UInt8} {s : Nat} {t : Token (List UInt8)} (plain : t.Plain)
    (here : line.drop s = t.text ++ space :: rest) :
    scan line s = (t.ret, s + t.text.length) := by
  rcases plain with ⟨ret, is_word⟩ | ⟨ret, symbol, rfl⟩
  · rw [ret]
    exact scan_text is_word here
  · have lead : byte line s = ((sign ret).text ++ space :: rest).headD 0 := by rw [byte_eq, here]
    have second : byte line (s + 1) = (((sign ret).text ++ space :: rest).drop 1).headD 0 := by
      rw [byte_eq, ← here, List.drop_drop]
    simp only [List.mem_cons, List.not_mem_nil, or_false] at symbol
    rcases symbol with rfl | rfl | rfl | rfl | rfl | rfl | rfl | rfl
    · exact scan_symbol (by decide) lead
    · exact scan_symbol (by decide) lead
    · exact scan_symbol (by decide) lead
    · exact scan_symbol (by decide) lead
    · exact scan_symbol (by decide) lead
    · exact scan_symbol (by decide) lead
    · have second : byte line (s + 1) = space := second
      rw [scan_greater lead, second, if_neg (by decide)]
      rfl
    · have second : byte line (s + 1) = greater := second
      rw [scan_greater lead, if_pos second]
      rfl

/-- The tokens of a line that ends with the text of tokens. -/
theorem tokens_print {line : List UInt8} {s : Nat} {ts : List (Token (List UInt8))}
    (plain : ∀ t ∈ ts, t.Plain) (here : line.drop s = print ts) :
    (tokens line s).map (Token.map (text line)) = ts := by
  induction ts generalizing s with
  | nil =>
      have zero : byte line (start line s) = 0 := by
        rw [byte_eq, drop_skip, here]
        rfl
      rw [tokens_nil (gettoken_ret_eq_zero.mpr zero), List.map_nil]
  | cons t ts ih =>
      obtain ⟨first, others⟩ := List.forall_mem_cons.mp plain
      have unspaced := dropWhile_print plain
      have here' : line.drop (start line s) = t.text ++ space :: print ts := by
        rw [drop_skip, here, unspaced, print_cons]
      have scanned := scan_plain first here'
      have more : (gettoken line s).1.ret ≠ 0 := by
        change (scan line (start line s)).1 ≠ 0
        rw [scanned]
        exact first.ret_ne_zero
      rw [tokens_cons more, List.map_cons]
      have next : line.drop (gettoken line s).2 = print ts := by
        change line.drop (skip _ line (scan line (start line s)).2) = _
        rw [drop_skip, scanned, ← List.drop_drop, here', List.drop_left,
          List.dropWhile_cons_of_pos (by decide), dropWhile_print others]
      rw [ih others next]
      congr 1
      change Token.mk (scan line (start line s)).1
        (text line ⟨start line s, (scan line (start line s)).2⟩) = t
      rw [scanned, text, here', Nat.add_sub_cancel_left, List.take_left]

/-! ## The commands of lines -/

theorem Printable.wrap {rs : List (UInt8 × List UInt8)} {cmd : Cmd (List UInt8)}
    (printable : cmd.Printable) (files : ∀ r ∈ rs, IsWord r.2) : (wrap rs cmd).Printable := by
  induction rs generalizing cmd with
  | nil => exact printable
  | cons r rs ih =>
      obtain ⟨file, others⟩ := List.forall_mem_cons.mp files
      apply ih _ others
      change (redircmd r.1 r.2 cmd).Printable
      rw [redircmd]
      split
      · exact ⟨printable, file, rfl⟩
      · split <;> exact ⟨printable, file, rfl⟩

theorem Printable.back {n : Nat} {cmd : Cmd (List UInt8)} (printable : cmd.Printable) :
    (Cmd.back^[n] cmd).Printable := by
  induction n with
  | zero => exact printable
  | succ n ih =>
      rw [Function.iterate_succ_apply']
      exact ih

/-- What words stand for can be written down. -/
theorem Parses.printable {level : Level} {cmd : Cmd (List UInt8)} {ts : List (Token (List UInt8))}
    (parses : Parses level cmd ts) (words : ∀ text, ⟨Mysh.word, text⟩ ∈ ts → IsWord text) :
    cmd.Printable := by
  induction parses with
  | args few all =>
      have strings := fun text among => words text (all.words text among)
      apply Printable.wrap
      · exact ⟨few, fun text among => strings text (List.mem_append_left _ among)⟩
      · exact fun r among => strings _ (List.mem_append_right _ (List.mem_map_of_mem among))
  | block _ behind ih =>
      apply Printable.wrap
      · apply ih
        intro text among
        exact words text (List.mem_cons_of_mem _ (List.mem_append_left _ among))
      · intro r among
        have file := behind.words r.2 (List.mem_append_right _ (List.mem_map_of_mem among))
        exact words _
          (List.mem_cons_of_mem _ (List.mem_append_right _ (List.mem_cons_of_mem _ file)))
  | single _ ih => exact ih words
  | pipe _ _ first rest =>
      constructor
      · exact first fun text among => words text (List.mem_append_left _ among)
      · apply rest
        intro text among
        exact words text (List.mem_append_right _ (List.mem_cons_of_mem _ among))
  | last _ _ ih =>
      exact Printable.back (ih fun text among => words text (List.mem_append_left _ among))
  | list _ _ _ first behind =>
      constructor
      · apply Printable.back
        apply first
        intro text among
        exact words text (List.mem_append_left _ (List.mem_append_left _ among))
      · apply behind
        intro text among
        exact words text (List.mem_append_right _ (List.mem_cons_of_mem _ among))

/-- The words of a line. -/
theorem isWord_lexemes (line : CString) {bytes : List UInt8}
    (among : ⟨word, bytes⟩ ∈ lexemes line) :
    IsWord bytes := by
  obtain ⟨⟨ret, span⟩, found, same⟩ := List.mem_map.mp among
  cases same
  obtain ⟨same, some, bound⟩ := word_span found
  constructor
  · have long : 0 < (text line.chars span).length := by
      rw [text, List.length_take, List.length_drop]
      omega
    exact List.ne_nil_of_length_pos long
  · intro b among
    change b ∈ text line.chars span at among
    have nonzero := inWord_ne_zero line.nonzero (List.mem_of_mem_drop (List.mem_of_mem_take among))
    rw [text_word same] at among
    exact ⟨List.mem_takeWhile_imp among, nonzero⟩

theorem plain_sign {ret : UInt8}
    (symbol : ret ∈ [bar, left, right, semi, amp, less, greater, plus]) : (sign ret).Plain :=
  Or.inr ⟨ret, symbol, rfl⟩

/-- Two lists of tokens with a symbol between them. -/
theorem plain_between {ret : UInt8} {ts later : List (Token (List UInt8))}
    (symbol : ret ∈ [bar, left, right, semi, amp, less, greater, plus])
    (front : ∀ t ∈ ts, t.Plain) (behind : ∀ t ∈ later, t.Plain) :
    ∀ t ∈ ts ++ sign ret :: later, t.Plain := by
  rw [List.forall_mem_append, List.forall_mem_cons]
  exact ⟨front, plain_sign symbol, behind⟩

theorem plain_parens {ts : List (Token (List UInt8))} (plain : ∀ t ∈ ts, t.Plain) :
    ∀ t ∈ parens ts, t.Plain := by
  rw [parens, List.forall_mem_cons]
  exact ⟨plain_sign (by decide), plain_between (by decide) plain (by simp)⟩

/-- The tokens of a command can be written down. -/
theorem Cmd.Printable.plain {cmd : Cmd (List UInt8)} (printable : cmd.Printable) (level : Level) :
    ∀ t ∈ cmd.unparse level, t.Plain := by
  induction cmd generalizing level with
  | exec argv =>
      intro t among
      rw [Cmd.unparse] at among
      obtain ⟨text, found, rfl⟩ := List.mem_map.mp among
      exact Or.inl ⟨rfl, printable.2 text found⟩
  | redir cmd file mode fd ih =>
      obtain ⟨inner, is_word, -⟩ := printable
      rw [Cmd.unparse]
      apply plain_between
      · cases mode <;> decide
      · exact ih inner .exec
      · rintro t among
        rw [List.mem_singleton.mp among]
        exact Or.inl ⟨rfl, is_word⟩
  | pipe left right ih ih' =>
      have whole := @plain_between bar _ _ (by decide) (ih printable.1 .exec)
        (ih' printable.2 .pipe)
      cases level with
      | exec => exact plain_parens whole
      | pipe => exact whole
      | line => exact whole
  | list left right ih ih' =>
      have whole := @plain_between semi _ _ (by decide) (ih printable.1 .pipe)
        (ih' printable.2 .line)
      cases level with
      | exec => exact plain_parens whole
      | pipe => exact plain_parens whole
      | line => exact whole
  | back cmd ih =>
      have whole := @plain_between amp _ _ (by decide) (ih printable .pipe)
        (List.forall_mem_nil _)
      cases level with
      | exec => exact plain_parens whole
      | pipe => exact plain_parens whole
      | line => exact whole

theorem Token.Plain.no_nul {t : Token (List UInt8)} (plain : t.Plain) : 0 ∉ t.text := by
  rcases plain with ⟨-, -, all⟩ | ⟨ret, symbol, rfl⟩
  · intro zero
    exact (all 0 zero).2 rfl
  · simp only [List.mem_cons, List.not_mem_nil, or_false] at symbol
    rcases symbol with rfl | rfl | rfl | rfl | rfl | rfl | rfl | rfl <;> decide

theorem zero_not_mem_print {ts : List (Token (List UInt8))} (plain : ∀ t ∈ ts, t.Plain) :
    0 ∉ print ts := by
  rw [print, List.mem_flatMap]
  rintro ⟨t, among, zero⟩
  rcases List.mem_append.mp zero with zero | zero
  · exact (plain t among).no_nul zero
  · exact absurd zero (by decide)

/-- A line for a command. -/
def Cmd.line (cmd : Cmd (List UInt8)) (printable : cmd.Printable) : CString where
  chars := print (cmd.unparse .line)
  nonzero := zero_not_mem_print (printable.plain .line)

/-- The line that writes a command down is parsed as this command. -/
theorem parsed_line {cmd : Cmd (List UInt8)} (printable : cmd.Printable) :
    parsed (cmd.line printable) = .ok cmd := by
  apply parsed_of_parses
  have same : lexemes (cmd.line printable) = cmd.unparse .line :=
    tokens_print (printable.plain .line) rfl
  rw [same]
  exact printable.parses .line

/-- The commands that the parser returns for some line are those that can be written down, and it
returns them for the line that does so. -/
theorem parsed_line_iff (cmd : Cmd (List UInt8)) :
    ((∃ line, parsed line = .ok cmd) ↔ cmd.Printable) ∧
      ∀ printable : cmd.Printable, parsed (cmd.line printable) = .ok cmd := by
  refine ⟨⟨?_, fun printable => ⟨_, parsed_line printable⟩⟩, parsed_line⟩
  rintro ⟨line, returned⟩
  exact (parses_of_parsed line returned).printable fun _ => isWord_lexemes line

end Mysh
end Xv6Duo
